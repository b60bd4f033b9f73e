import Zkie.LineText
import Zkie.RunDatabase

namespace Zkie.Worker

open LineText RunState
open RunDatabase (Digest32)

section Fields

def workerSchemaVersion : UInt32 := 1

def maxFieldBytes : ℕ := 4096

def maxFields : ℕ := 64

inductive ProtocolError where
  | unsupportedSchemaVersion (version : UInt32)
  | malformed (reason : String)
  | relativeOutputDir (path : String)
  | zeroThreads
  | duplicateCudaDevice (device : UInt32)
  | attemptMismatch (expected actual : AttemptId)
  | jobMismatch (expected actual : JobId)
  | runDigestMismatch
  | identifier
  deriving DecidableEq, Repr

def missingField : ProtocolError := .malformed "missing required field"

def digestText (d : Digest32) : Text := d.bytes.toList.flatMap hexByte

def digestFromStr (value : Text) : Option Digest32 :=
  if value.length ≠ 64 then none
  else (parseHex value).bind fun bytes => if h : bytes.toArray.size = 32 then some ⟨⟨bytes.toArray, h⟩⟩ else none

def parseDigest (value : Text) : Except ProtocolError Digest32 :=
  match digestFromStr value with
  | some d => .ok d
  | none => .error (.malformed "invalid digest")

def parseU32 (value : Text) : Except ProtocolError UInt32 :=
  match parseUnsigned (2 ^ 32) value with
  | some n => .ok (UInt32.ofNat n)
  | none => .error (.malformed "invalid integer")

def parseU64 (value : Text) : Except ProtocolError UInt64 :=
  match parseUnsigned (2 ^ 64) value with
  | some n => .ok (UInt64.ofNat n)
  | none => .error (.malformed "invalid integer")

/-- `JobId::new` and `AttemptId::new`. -/
def parseIdentifier (value : Text) : Except ProtocolError Identifier :=
  match Identifier.new? (String.ofList value) with
  | some id => .ok id
  | none => .error .identifier

/-- A line of a message, without its line feed. -/
def pair (key : String) (value : Text) : Text := key.toList ++ ' ' :: value

def splitPair (line : Text) : Except ProtocolError (String × Text) :=
  match splitOnce ' ' line with
  | some (key, value) => if key = [] then .error (.malformed "empty message key") else .ok (String.ofList key, trimEnd value)
  | none => .error (.malformed "expected a key/value line")

def required {α : Type} : Option α → Except ProtocolError α
  | some a => .ok a
  | none => .error missingField

end Fields

section Texts

theorem plain_notMem {t : Text} (h : ∀ c ∈ t, ¬isWhitespace c) {c : Char} (hc : isWhitespace c) : c ∉ t :=
  fun hmem => h c hmem hc

theorem digestText_plain (d : Digest32) : ∀ c ∈ digestText d, ¬isWhitespace c := by
  intro c hc
  obtain ⟨b, -, hb⟩ := List.mem_flatMap.mp hc
  exact hexByte_plain c hb

theorem digestFromStr_digestText (d : Digest32) : digestFromStr (digestText d) = some d := by
  have hlength : (digestText d).length = 64 := by
    have hbytes : ∀ bytes : List UInt8, (bytes.flatMap hexByte).length = 2 * bytes.length := by
      intro bytes
      induction bytes with
      | nil => rfl
      | cons b bytes ih =>
          rw [List.flatMap_cons, List.length_append, ih, List.length_cons]
          simp only [hexByte, List.length_cons, List.length_nil]
          omega
    rw [digestText, hbytes, Vector.length_toList]
  rw [digestFromStr, if_neg (not_not.mpr hlength), digestText, parseHex_hexByte]
  cases d
  simp
  rfl

theorem digestFromStr_eq_some {value : Text} {d : Digest32} (h : digestFromStr value = some d) : digestText d = value := by
  unfold digestFromStr at h
  split at h
  · cases h
  · obtain ⟨bytes, hbytes, h⟩ := Option.bind_eq_some_iff.mp h
    split at h
    · cases h
      exact parseHex_eq_some hbytes
    · cases h

theorem parseDigest_digestText (d : Digest32) : parseDigest (digestText d) = .ok d := by
  rw [parseDigest, digestFromStr_digestText]

theorem parseDigest_ok {value : Text} {d : Digest32} (h : parseDigest value = .ok d) : digestText d = value := by
  unfold parseDigest at h
  split at h
  · rename_i heq
    cases h
    exact digestFromStr_eq_some heq
  · cases h

theorem parseU32_decimal (n : UInt32) : parseU32 (decimal n.toNat) = .ok n := by
  rw [parseU32, parseUnsigned_decimal n.toNat_lt]
  exact congrArg Except.ok (UInt32.ofNat_toNat)

theorem parseU64_decimal (n : UInt64) : parseU64 (decimal n.toNat) = .ok n := by
  rw [parseU64, parseUnsigned_decimal n.toNat_lt]
  exact congrArg Except.ok (UInt64.ofNat_toNat)

theorem parseU64_decimal_ok {n : ℕ} {m : UInt64} (h : parseU64 (decimal n) = .ok m) : m.toNat = n := by
  unfold parseU64 at h
  split at h
  · rename_i k hk
    cases h
    rw [UInt64.toNat_ofNat_of_lt' (parseUnsigned_lt hk), parseUnsigned_decimal_inj hk]
  · cases h

theorem parseIdentifier_text (id : Identifier) : parseIdentifier id.text.toList = .ok id := by
  rw [parseIdentifier, String.ofList_toList, Identifier.new?, dif_pos id.valid]

theorem parseIdentifier_ok {value : Text} {id : Identifier} (h : parseIdentifier value = .ok id) :
    id.text.toList = value := by
  unfold parseIdentifier Identifier.new? at h
  split at h
  · rename_i heq
    cases h
    split at heq
    · cases heq
      exact String.toList_ofList
    · cases heq
  · cases h

theorem identifier_notMem (id : Identifier) : '\n' ∉ id.text.toList := by
  intro hmem
  exact (id.valid.2.2 _ hmem).2 (Or.inl (by decide))

theorem required_ok {α : Type} {o : Option α} {a : α} (h : required o = .ok a) : a ∈ o := by
  cases o with
  | none => cases h
  | some b =>
      cases h
      rfl

theorem splitPair_pair {key : String} (value : Text) (hkey : key ≠ "") (hblank : ' ' ∉ key.toList) :
    splitPair (pair key value) = .ok (key, trimEnd value) := by
  have hsplit : splitOnce ' ' (pair key value) = some (key.toList, value) := splitOnce_eq_some.mpr ⟨rfl, hblank⟩
  have hne : key.toList ≠ [] := fun h => hkey (String.toList_eq_nil_iff.mp h)
  rw [splitPair, hsplit]
  simp only [hne, if_false, String.ofList_toList]

/-- A value is never read with whitespace at its end. -/
theorem splitPair_ok {line value : Text} {key : String} (h : splitPair line = .ok (key, value)) :
    Trimmed value ∧ ∀ c ∈ value, c ∈ line := by
  unfold splitPair at h
  split at h
  · rename_i k v hsplit
    split at h
    · cases h
    · cases h
      refine ⟨trimmed_trimEnd v, ?_⟩
      intro c hc
      rw [(splitOnce_eq_some.mp hsplit).1]
      exact List.mem_append_right _ (List.mem_cons_of_mem _ (mem_of_mem_trimEnd hc))
  · cases h

theorem isLine_pair {key : String} {value : Text} (hkey : '\n' ∉ key.toList) (hvalue : '\n' ∉ value)
    (htrimmed : Trimmed value) : IsLine (pair key value) := by
  constructor
  · intro hmem
    rcases List.mem_append.mp hmem with hmem | hmem
    · exact hkey hmem
    · rcases List.mem_cons.mp hmem with heq | hmem
      · exact absurd heq (by decide)
      · exact hvalue hmem
  · intro hlast
    rw [pair, List.getLast?_append_cons] at hlast
    cases value with
    | nil => exact absurd hlast (by decide)
    | cons c value =>
        rw [List.getLast?_cons_cons] at hlast
        exact htrimmed '\r' hlast rfl

theorem isLine_plain {key : String} {value : Text} (hkey : '\n' ∉ key.toList) (h : ∀ c ∈ value, ¬isWhitespace c) :
    IsLine (pair key value) :=
  isLine_pair hkey (plain_notMem h rfl) (trimmed_of_forall h)

theorem splitPair_plain {key : String} {value : Text} (hkey : key ≠ "") (hblank : ' ' ∉ key.toList)
    (h : Trimmed value) : splitPair (pair key value) = .ok (key, value) := by
  rw [splitPair_pair value hkey hblank, trimEnd_eq_self.mpr h]

end Texts

section Job

inductive WorkerJobKind where
  | witness
  | prepare
  | leafProof
  | leafVerification
  | nativeAggregate
  deriving DecidableEq, Repr

namespace WorkerJobKind

def all : List WorkerJobKind := [.witness, .prepare, .leafProof, .leafVerification, .nativeAggregate]

def asStr : WorkerJobKind → String
  | .witness => "witness"
  | .prepare => "prepare"
  | .leafProof => "leaf-proof"
  | .leafVerification => "leaf-verification"
  | .nativeAggregate => "native-aggregate"

def parse (value : Text) : Option WorkerJobKind := all.find? fun kind => kind.asStr.toList = value

end WorkerJobKind

def IsPrintable (c : Char) : Prop := c.toNat < 128 ∧ ¬(c.toNat < 32 ∨ c.toNat = 127)

instance (c : Char) : Decidable (IsPrintable c) := inferInstanceAs (Decidable (_ ∧ _))

def IsToken (value : String) : Prop :=
  value ≠ "" ∧ value.utf8ByteSize ≤ 64 ∧ ∀ c ∈ value.toList, IsPrintable c ∧ c ≠ ' '

instance (value : String) : Decidable (IsToken value) :=
  @instDecidableAnd _ _ _ (@instDecidableAnd _ _ _ (List.decidableBAll _ _))

def IsValue (value : String) : Prop :=
  value.utf8ByteSize ≤ maxFieldBytes ∧ (∀ c ∈ value.toList, IsPrintable c) ∧ value.toList.head? ≠ some ' '

instance (value : String) : Decidable (IsValue value) :=
  @instDecidableAnd _ _ _ (@instDecidableAnd _ _ (List.decidableBAll _ _) _)

/-- An insertion into a map with sorted keys, which replaces an entry of the same key. -/
def insertField (key value : String) : List (String × String) → List (String × String)
  | [] => [(key, value)]
  | (k, v) :: rest =>
    if key < k then (key, value) :: (k, v) :: rest
    else if key = k then (key, value) :: rest
    else (k, v) :: insertField key value rest

theorem mem_insertField {key value : String} {entries : List (String × String)} {entry : String × String}
    (h : entry ∈ insertField key value entries) : entry = (key, value) ∨ entry ∈ entries := by
  induction entries with
  | nil => exact Or.inl (List.mem_singleton.mp h)
  | cons e entries ih =>
      unfold insertField at h
      split at h
      · exact List.mem_cons.mp h
      · split at h
        · rcases List.mem_cons.mp h with h | h
          · exact Or.inl h
          · exact Or.inr (List.mem_cons_of_mem _ h)
        · rcases List.mem_cons.mp h with h | h
          · exact Or.inr (h ▸ List.mem_cons_self ..)
          · rcases ih h with h | h
            · exact Or.inl h
            · exact Or.inr (List.mem_cons_of_mem _ h)

theorem insertField_sorted {key value : String} {entries : List (String × String)}
    (h : entries.Pairwise fun a b => a.1 < b.1) : (insertField key value entries).Pairwise fun a b => a.1 < b.1 := by
  induction entries with
  | nil => exact List.pairwise_singleton ..
  | cons e entries ih =>
      obtain ⟨hhead, htail⟩ := List.pairwise_cons.mp h
      unfold insertField
      by_cases hlt : key < e.1
      · rw [if_pos hlt]
        apply List.pairwise_cons.mpr
        refine ⟨?_, h⟩
        intro entry hentry
        rcases List.mem_cons.mp hentry with rfl | hentry
        · exact hlt
        · exact hlt.trans (hhead entry hentry)
      · rw [if_neg hlt]
        by_cases heq : key = e.1
        · rw [if_pos heq]
          exact List.pairwise_cons.mpr ⟨fun entry hentry => heq ▸ hhead entry hentry, htail⟩
        · rw [if_neg heq]
          apply List.pairwise_cons.mpr
          refine ⟨?_, ih htail⟩
          intro entry hentry
          rcases mem_insertField hentry with rfl | hentry
          · exact lt_of_le_of_ne (not_lt.mp hlt) (Ne.symm heq)
          · exact hhead entry hentry

/-- The fields of a job, a map with sorted keys whose entries are valid. -/
@[ext]
structure JobFields where
  entries : List (String × String)
  sorted : entries.Pairwise fun a b => a.1 < b.1
  valid : ∀ entry ∈ entries, IsToken entry.1 ∧ IsValue entry.2
  deriving DecidableEq, Repr

namespace JobFields

def empty : JobFields := ⟨[], List.Pairwise.nil, fun _ h => absurd h List.not_mem_nil⟩

def insert (fields : JobFields) (key value : String) (hkey : IsToken key) (hvalue : IsValue value) : JobFields :=
  ⟨insertField key value fields.entries, insertField_sorted fields.sorted, by
    intro entry hentry
    rcases mem_insertField hentry with rfl | hentry
    · exact ⟨hkey, hvalue⟩
    · exact fields.valid entry hentry⟩

end JobFields

@[ext]
structure WorkerJob where
  kind : WorkerJobKind
  fields : JobFields
  few : fields.entries.length ≤ maxFields
  deriving DecidableEq, Repr

def insertValid (canonical : JobFields) (field : String × String) : Except ProtocolError JobFields :=
  if hkey : IsToken field.1 then
    if hvalue : IsValue field.2 then .ok (canonical.insert field.1 field.2 hkey hvalue)
    else .error (.malformed "invalid job field value")
  else .error (.malformed "invalid job field name")

def WorkerJob.new (kind : WorkerJobKind) (fields : List (String × String)) : Except ProtocolError WorkerJob := do
  let canonical ← fields.foldlM insertValid JobFields.empty
  if few : canonical.entries.length ≤ maxFields then return ⟨kind, canonical, few⟩
  else throw (.malformed "too many job fields")

end Job

section Spec

@[ext]
structure WorkerSpec where
  schemaVersion : UInt32
  runDigest : Digest32
  jobId : JobId
  attemptId : AttemptId
  job : WorkerJob
  stagedOutputDir : String
  rayonThreads : UInt32
  cudaDevices : List UInt32
  deriving DecidableEq, Repr

/-- The devices seen before are in front. -/
def checkDevices : List UInt32 → List UInt32 → Except ProtocolError Unit
  | _, [] => .ok ()
  | seen, device :: devices =>
    if device ∈ seen then .error (.duplicateCudaDevice device) else checkDevices (seen ++ [device]) devices

namespace WorkerSpec

def validate (s : WorkerSpec) : Except ProtocolError Unit :=
  if s.schemaVersion ≠ workerSchemaVersion then .error (.unsupportedSchemaVersion s.schemaVersion)
  else if s.stagedOutputDir.toList.head? ≠ some '/' then .error (.relativeOutputDir s.stagedOutputDir)
  else if s.rayonThreads = 0 then .error .zeroThreads
  else checkDevices [] s.cudaDevices

def specLines (s : WorkerSpec) : List Text :=
  pair "zkie-worker-spec" (decimal s.schemaVersion.toNat) ::
    [pair "run_digest" (digestText s.runDigest), pair "job_id" s.jobId.text.toList,
      pair "attempt_id" s.attemptId.text.toList, pair "job_kind" s.job.kind.asStr.toList] ++
    s.job.fields.entries.map (fun entry => pair "job_field" (entry.1.toList ++ '=' :: entry.2.toList)) ++
    [pair "output_dir" s.stagedOutputDir.toList, pair "rayon_threads" (decimal s.rayonThreads.toNat)] ++
    s.cudaDevices.map fun device => pair "cuda_device" (decimal device.toNat)

def encode (s : WorkerSpec) : Except ProtocolError Text := do
  s.validate
  return unlines s.specLines

end WorkerSpec

/-- What the lines read so far say; a later line of the same key wins. -/
structure SpecParts where
  runDigest : Option Digest32 := none
  jobId : Option JobId := none
  attemptId : Option AttemptId := none
  kind : Option WorkerJobKind := none
  fields : List (String × String) := []
  outputDir : Option String := none
  rayonThreads : Option UInt32 := none
  cudaDevices : List UInt32 := []

namespace SpecParts

def readLine (parts : SpecParts) (line : Text) : Except ProtocolError SpecParts := do
  let (key, value) ← splitPair line
  match key with
  | "run_digest" => return { parts with runDigest := some (← parseDigest value) }
  | "job_id" => return { parts with jobId := some (← parseIdentifier value) }
  | "attempt_id" => return { parts with attemptId := some (← parseIdentifier value) }
  | "job_kind" =>
    match WorkerJobKind.parse value with
    | some kind => return { parts with kind := some kind }
    | none => throw (.malformed "unknown job kind")
  | "job_field" =>
    match splitOnce '=' value with
    | some (name, raw) => return { parts with fields := parts.fields ++ [(String.ofList name, String.ofList raw)] }
    | none => throw (.malformed "malformed job field")
  | "output_dir" => return { parts with outputDir := some (String.ofList value) }
  | "rayon_threads" => return { parts with rayonThreads := some (← parseU32 value) }
  | "cuda_device" => return { parts with cudaDevices := parts.cudaDevices ++ [← parseU32 value] }
  | _ => throw (.malformed "unknown spec key")

def spec (schemaVersion : UInt32) (parts : SpecParts) : Except ProtocolError WorkerSpec := do
  let runDigest ← required parts.runDigest
  let jobId ← required parts.jobId
  let attemptId ← required parts.attemptId
  let kind ← required parts.kind
  let job ← WorkerJob.new kind parts.fields
  let stagedOutputDir ← required parts.outputDir
  let rayonThreads ← required parts.rayonThreads
  let spec : WorkerSpec :=
    ⟨schemaVersion, runDigest, jobId, attemptId, job, stagedOutputDir, rayonThreads, parts.cudaDevices⟩
  spec.validate
  return spec

end SpecParts

/-- The first line of a message, with its version. -/
def readHeader (magic : String) (line : Text) : Except ProtocolError UInt32 := do
  let (key, version) ← splitPair line
  if key ≠ magic then throw (.malformed "unexpected message magic")
  let schemaVersion ← parseU32 version
  if schemaVersion ≠ workerSchemaVersion then throw (.unsupportedSchemaVersion schemaVersion)
  return schemaVersion

def WorkerSpec.decode (text : Text) : Except ProtocolError WorkerSpec :=
  match lines text with
  | [] => .error missingField
  | header :: rest => do
    let schemaVersion ← readHeader "zkie-worker-spec" header
    let parts ← rest.foldlM SpecParts.readLine {}
    parts.spec schemaVersion

end Spec

section Header

theorem readHeader_eq {magic : String} {line version : Text} (hsplit : splitPair line = .ok (magic, version))
    (hparse : parseU32 version = .ok workerSchemaVersion) : readHeader magic line = .ok workerSchemaVersion := by
  rw [readHeader, hsplit]
  simp only [bind, Except.bind, pure, Except.pure, hparse, ne_eq, not_true_eq_false, if_false]

theorem readHeader_pair {magic : String} (hmagic : magic ≠ "") (hblank : ' ' ∉ magic.toList) :
    readHeader magic (pair magic (decimal workerSchemaVersion.toNat)) = .ok workerSchemaVersion :=
  readHeader_eq (splitPair_plain hmagic hblank (trimmed_of_forall decimal_plain)) (parseU32_decimal _)

end Header

section Result

inductive WorkerOutcome where
  | succeeded
  | failed (code : String)
  deriving DecidableEq, Repr

structure WorkerMeasurements where
  peakResidentBytes : UInt64
  wallMillis : UInt64
  deriving DecidableEq, Repr

@[ext]
structure WorkerResult where
  schemaVersion : UInt32
  runDigest : Digest32
  jobId : JobId
  attemptId : AttemptId
  outcome : WorkerOutcome
  measurements : WorkerMeasurements
  deriving DecidableEq, Repr

def IsCodeChar (c : Char) : Bool :=
  ('0' ≤ c ∧ c ≤ '9') ∨ ('A' ≤ c ∧ c ≤ 'Z') ∨ ('a' ≤ c ∧ c ≤ 'z') ∨ c = '-' ∨ c = '_' ∨ c = '.'

/-- Only a bounded token of a failure text is kept. -/
def sanitizeCode (code : Text) : Text :=
  let token := (code.filter IsCodeChar).take 64
  if token = [] then "unknown".toList else token

namespace WorkerResult

def forSpec (spec : WorkerSpec) (outcome : WorkerOutcome) (measurements : WorkerMeasurements) : WorkerResult :=
  ⟨spec.schemaVersion, spec.runDigest, spec.jobId, spec.attemptId, outcome, measurements⟩

def succeeded (spec : WorkerSpec) (measurements : WorkerMeasurements) : WorkerResult := forSpec spec .succeeded measurements

def failed (spec : WorkerSpec) (code : String) (measurements : WorkerMeasurements) : WorkerResult :=
  forSpec spec (.failed (String.ofList (sanitizeCode code.toList))) measurements

/-- The lines of a result, in the order of the encoder. -/
def layout (version digest job attempt status code peak wall : Text) : List Text :=
  [pair "zkie-worker-result" version, pair "run_digest" digest, pair "job_id" job, pair "attempt_id" attempt,
    pair "status" status, pair "code" code, pair "peak_resident_bytes" peak, pair "wall_millis" wall]

def statusText : WorkerOutcome → String
  | .succeeded => "succeeded"
  | .failed _ => "failed"

def codeText : WorkerOutcome → Text
  | .succeeded => []
  | .failed code => sanitizeCode code.toList

def encode (r : WorkerResult) : Except ProtocolError Text :=
  if r.schemaVersion ≠ workerSchemaVersion then .error (.unsupportedSchemaVersion r.schemaVersion)
  else .ok (unlines (layout (decimal r.schemaVersion.toNat) (digestText r.runDigest) r.jobId.text.toList
    r.attemptId.text.toList (statusText r.outcome).toList (codeText r.outcome) (decimal r.measurements.peakResidentBytes.toNat)
    (decimal r.measurements.wallMillis.toNat)))

/-- Accepts the result only if it belongs to the spec. -/
def verifyAgainst (r : WorkerResult) (spec : WorkerSpec) : Except ProtocolError Unit :=
  if r.runDigest ≠ spec.runDigest then .error .runDigestMismatch
  else if r.jobId ≠ spec.jobId then .error (.jobMismatch spec.jobId r.jobId)
  else if r.attemptId ≠ spec.attemptId then .error (.attemptMismatch spec.attemptId r.attemptId)
  else .ok ()

end WorkerResult

structure ResultParts where
  runDigest : Option Digest32 := none
  jobId : Option JobId := none
  attemptId : Option AttemptId := none
  status : Option String := none
  code : Option Text := none
  peak : Option UInt64 := none
  wall : Option UInt64 := none

namespace ResultParts

def readLine (parts : ResultParts) (line : Text) : Except ProtocolError ResultParts := do
  let (key, value) ← splitPair line
  match key with
  | "run_digest" => return { parts with runDigest := some (← parseDigest value) }
  | "job_id" => return { parts with jobId := some (← parseIdentifier value) }
  | "attempt_id" => return { parts with attemptId := some (← parseIdentifier value) }
  | "status" => return { parts with status := some (String.ofList value) }
  | "code" => return { parts with code := some value }
  | "peak_resident_bytes" => return { parts with peak := some (← parseU64 value) }
  | "wall_millis" => return { parts with wall := some (← parseU64 value) }
  | _ => throw (.malformed "unknown result key")

def outcome (parts : ResultParts) : Except ProtocolError WorkerOutcome :=
  if parts.status = some "succeeded" then .ok .succeeded
  else if parts.status = some "failed" then
    .ok (.failed (String.ofList (sanitizeCode (parts.code.getD "unknown".toList))))
  else .error (.malformed "unknown worker status")

def result (schemaVersion : UInt32) (parts : ResultParts) : Except ProtocolError WorkerResult := do
  let outcome ← parts.outcome
  let runDigest ← required parts.runDigest
  let jobId ← required parts.jobId
  let attemptId ← required parts.attemptId
  let peak ← required parts.peak
  let wall ← required parts.wall
  return ⟨schemaVersion, runDigest, jobId, attemptId, outcome, ⟨peak, wall⟩⟩

end ResultParts

def WorkerResult.decode (text : Text) : Except ProtocolError WorkerResult :=
  match lines text with
  | [] => .error missingField
  | header :: rest => do
    let schemaVersion ← readHeader "zkie-worker-result" header
    let parts ← rest.foldlM ResultParts.readLine {}
    parts.result schemaVersion

end Result

end Zkie.Worker
