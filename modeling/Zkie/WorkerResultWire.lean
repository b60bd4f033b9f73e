import Zkie.Worker

namespace Zkie.Worker

open LineText RunState
open RunDatabase (Digest32)

section Code

theorem sanitizeCode_chars (code : Text) : ∀ c ∈ sanitizeCode code, IsCodeChar c := by
  intro c hc
  simp only [sanitizeCode] at hc
  split at hc
  · revert c
    simp [IsCodeChar]
  · exact (List.mem_filter.mp (List.mem_of_mem_take hc)).2

theorem sanitizeCode_idem (code : Text) : sanitizeCode (sanitizeCode code) = sanitizeCode code := by
  have hchars := sanitizeCode_chars code
  have hlength : (sanitizeCode code).length ≤ 64 ∧ sanitizeCode code ≠ [] := by
    simp only [sanitizeCode]
    split
    · simp
    · rename_i hne
      exact ⟨List.length_take_le .., hne⟩
  generalize sanitizeCode code = token at *
  rw [sanitizeCode, List.filter_eq_self.mpr hchars, List.take_of_length_le hlength.1]
  exact if_neg hlength.2

theorem codeChar_plain {c : Char} (h : IsCodeChar c) : ¬isWhitespace c := by
  intro hspace
  simp only [isWhitespace, decide_eq_true_eq] at hspace
  simp only [IsCodeChar, decide_eq_true_eq] at h
  have hranges : (48 ≤ c.toNat ∧ c.toNat ≤ 57) ∨ (65 ≤ c.toNat ∧ c.toNat ≤ 90) ∨ (97 ≤ c.toNat ∧ c.toNat ≤ 122) ∨
      c.toNat = 45 ∨ c.toNat = 95 ∨ c.toNat = 46 := by
    rcases h with h | h | h | rfl | rfl | rfl
    · exact Or.inl h
    · exact Or.inr (Or.inl h)
    · exact Or.inr (Or.inr (Or.inl h))
    · decide
    · decide
    · decide
  omega

theorem sanitizeCode_plain (code : Text) : ∀ c ∈ sanitizeCode code, ¬isWhitespace c :=
  fun c hc => codeChar_plain (sanitizeCode_chars code c hc)

end Code

namespace ResultParts

section Lines

variable (parts : ResultParts) {value : Text}

theorem readLine_runDigest (h : Trimmed value) : parts.readLine (pair "run_digest" value) = do
    let d ← parseDigest value
    return { parts with runDigest := some d } := by
  rw [readLine, splitPair_plain (by decide) (by simp) h]
  rfl

theorem readLine_jobId (h : Trimmed value) : parts.readLine (pair "job_id" value) = do
    let id ← parseIdentifier value
    return { parts with jobId := some id } := by
  rw [readLine, splitPair_plain (by decide) (by simp) h]
  rfl

theorem readLine_attemptId (h : Trimmed value) : parts.readLine (pair "attempt_id" value) = do
    let id ← parseIdentifier value
    return { parts with attemptId := some id } := by
  rw [readLine, splitPair_plain (by decide) (by simp) h]
  rfl

theorem readLine_status (h : Trimmed value) :
    parts.readLine (pair "status" value) = .ok { parts with status := some (String.ofList value) } := by
  rw [readLine, splitPair_plain (by decide) (by simp) h]
  rfl

theorem readLine_code (h : Trimmed value) :
    parts.readLine (pair "code" value) = .ok { parts with code := some value } := by
  rw [readLine, splitPair_plain (by decide) (by simp) h]
  rfl

theorem readLine_peak (h : Trimmed value) : parts.readLine (pair "peak_resident_bytes" value) = do
    let n ← parseU64 value
    return { parts with peak := some n } := by
  rw [readLine, splitPair_plain (by decide) (by simp) h]
  rfl

theorem readLine_wall (h : Trimmed value) : parts.readLine (pair "wall_millis" value) = do
    let n ← parseU64 value
    return { parts with wall := some n } := by
  rw [readLine, splitPair_plain (by decide) (by simp) h]
  rfl

end Lines

section Decoded

/-- The identifiers read off lines have no blank at the end. -/
structure Clean (parts : ResultParts) : Prop where
  jobId : ∀ id ∈ parts.jobId, Trimmed id.text.toList
  attemptId : ∀ id ∈ parts.attemptId, Trimmed id.text.toList

theorem clean_empty : Clean {} := by
  constructor <;> intro id hid <;> cases hid

theorem Clean.readLine {parts next : ResultParts} {line : Text} (h : parts.Clean)
    (hread : parts.readLine line = .ok next) : next.Clean := by
  simp only [ResultParts.readLine, bind, Except.bind, pure, Except.pure] at hread
  split at hread
  · cases hread
  · rename_i p hsplit
    obtain ⟨key, value⟩ := p
    have htrimmed := (splitPair_ok hsplit).1
    dsimp only at hread
    split at hread
    · split at hread
      · cases hread
      · cases hread
        exact ⟨h.jobId, h.attemptId⟩
    · split at hread
      · cases hread
      · rename_i id hid
        cases hread
        refine ⟨?_, h.attemptId⟩
        rintro _ ⟨⟩
        rw [parseIdentifier_ok hid]
        exact htrimmed
    · split at hread
      · cases hread
      · rename_i id hid
        cases hread
        refine ⟨h.jobId, ?_⟩
        rintro _ ⟨⟩
        rw [parseIdentifier_ok hid]
        exact htrimmed
    · cases hread
      exact ⟨h.jobId, h.attemptId⟩
    · cases hread
      exact ⟨h.jobId, h.attemptId⟩
    · split at hread
      · cases hread
      · cases hread
        exact ⟨h.jobId, h.attemptId⟩
    · split at hread
      · cases hread
      · cases hread
        exact ⟨h.jobId, h.attemptId⟩
    · cases hread

theorem Clean.result {parts : ResultParts} {version : UInt32} {r : WorkerResult} (h : parts.Clean)
    (hresult : parts.result version = .ok r) : Trimmed r.jobId.text.toList ∧ Trimmed r.attemptId.text.toList := by
  simp only [ResultParts.result, bind, Except.bind, pure, Except.pure] at hresult
  split at hresult
  · cases hresult
  · split at hresult
    · cases hresult
    · split at hresult
      · cases hresult
      · rename_i jobId hjobId
        split at hresult
        · cases hresult
        · rename_i attemptId hattemptId
          split at hresult
          · cases hresult
          · split at hresult
            · cases hresult
            · cases hresult
              exact ⟨h.jobId _ (required_ok hjobId), h.attemptId _ (required_ok hattemptId)⟩

end Decoded

end ResultParts

namespace WorkerResult

theorem trimmed_of_decode {t : Text} {r : WorkerResult} (h : decode t = .ok r) :
    Trimmed r.jobId.text.toList ∧ Trimmed r.attemptId.text.toList := by
  unfold decode at h
  split at h
  · cases h
  · simp only [bind, Except.bind] at h
    split at h
    · cases h
    · split at h
      · cases h
      · rename_i parts hparts
        have hclean := readLines_invariant (P := fun _ => True) (fun _ _ _ h _ => ResultParts.Clean.readLine h)
          (fun _ _ => trivial) ResultParts.clean_empty hparts
        exact hclean.result h

/-- A value that survives on a line of its own. -/
def IsLineValue (value : Text) : Prop := '\n' ∉ value ∧ Trimmed value

/-- A text in the one spelling of the encoder: every line once and in order, each ended by a line
feed, no whitespace at the end of a value, the schema version and the measurements without sign or
leading zeros, and the code as it is sanitised, or empty behind a success. -/
def Canonical (t : Text) : Prop := ∃ (digest job attempt code : Text) (status : String) (peak wall : ℕ),
  t = unlines (layout (decimal 1) digest job attempt status.toList code (decimal peak) (decimal wall)) ∧
    IsLineValue digest ∧ IsLineValue job ∧ IsLineValue attempt ∧
    ((status = "succeeded" ∧ code = []) ∨ (status = "failed" ∧ sanitizeCode code = code))

theorem isLineValue_plain {value : Text} (h : ∀ c ∈ value, ¬isWhitespace c) : IsLineValue value :=
  ⟨plain_notMem h rfl, trimmed_of_forall h⟩

theorem isLine_layout {digest job attempt status code : Text} {peak wall : ℕ} (hdigest : IsLineValue digest)
    (hjob : IsLineValue job) (hattempt : IsLineValue attempt) (hstatus : IsLineValue status) (hcode : IsLineValue code) :
    ∀ l ∈ layout (decimal 1) digest job attempt status code (decimal peak) (decimal wall), IsLine l := by
  simp only [layout, List.forall_mem_cons]
  refine ⟨isLine_plain (by simp) decimal_plain, isLine_pair (by simp) hdigest.1 hdigest.2,
    isLine_pair (by simp) hjob.1 hjob.2, isLine_pair (by simp) hattempt.1 hattempt.2,
    isLine_pair (by simp) hstatus.1 hstatus.2, isLine_pair (by simp) hcode.1 hcode.2,
    isLine_plain (by simp) decimal_plain, isLine_plain (by simp) decimal_plain, ?_⟩
  exact fun _ h => absurd h List.not_mem_nil

/-- A result read off lines that are written as the encoder writes them. -/
theorem decode_layout {digest job attempt code : Text} {status : String} {peak wall : ℕ} (hdigest : IsLineValue digest)
    (hjob : IsLineValue job) (hattempt : IsLineValue attempt) (hstatus : IsLineValue status.toList) (hcode : IsLineValue code) :
    decode (unlines (layout (decimal 1) digest job attempt status.toList code (decimal peak) (decimal wall))) = (do
      let d ← parseDigest digest
      let j ← parseIdentifier job
      let a ← parseIdentifier attempt
      let p ← parseU64 (decimal peak)
      let w ← parseU64 (decimal wall)
      ResultParts.result workerSchemaVersion ⟨some d, some j, some a, some status, some code, some p, some w⟩) := by
  unfold decode
  rw [lines_unlines (isLine_layout hdigest hjob hattempt hstatus hcode)]
  have hheader : readHeader "zkie-worker-result" (pair "zkie-worker-result" (decimal 1)) = .ok workerSchemaVersion :=
    readHeader_pair (by decide) (by simp)
  simp only [layout, hheader, List.foldlM_cons, List.foldlM_nil, ResultParts.readLine_runDigest _ hdigest.2,
    ResultParts.readLine_jobId _ hjob.2, ResultParts.readLine_attemptId _ hattempt.2,
    ResultParts.readLine_status _ hstatus.2, ResultParts.readLine_code _ hcode.2,
    ResultParts.readLine_peak _ (trimmed_of_forall decimal_plain),
    ResultParts.readLine_wall _ (trimmed_of_forall decimal_plain), String.ofList_toList]
  simp only [bind_assoc, pure_bind]
  rfl

theorem codeText_value (outcome : WorkerOutcome) : ∀ c ∈ codeText outcome, ¬isWhitespace c := by
  cases outcome with
  | succeeded => exact fun c h => absurd h List.not_mem_nil
  | failed code => exact sanitizeCode_plain code.toList

theorem statusText_value (outcome : WorkerOutcome) : ∀ c ∈ (statusText outcome).toList, ¬isWhitespace c := by
  cases outcome with
  | succeeded => simp [statusText, isWhitespace]
  | failed code => simp [statusText, isWhitespace]

theorem encode_ok {r : WorkerResult} {t : Text} (h : r.encode = .ok t) : r.schemaVersion = workerSchemaVersion ∧
    t = unlines (layout (decimal 1) (digestText r.runDigest) r.jobId.text.toList r.attemptId.text.toList
      (statusText r.outcome).toList (codeText r.outcome) (decimal r.measurements.peakResidentBytes.toNat)
      (decimal r.measurements.wallMillis.toNat)) := by
  unfold encode at h
  split at h
  · cases h
  · rename_i hversion
    rw [not_not] at hversion
    rw [hversion] at h
    cases h
    exact ⟨hversion, rfl⟩

theorem encode_eq {r : WorkerResult} (h : r.schemaVersion = workerSchemaVersion) :
    r.encode = .ok (unlines (layout (decimal 1) (digestText r.runDigest) r.jobId.text.toList r.attemptId.text.toList
      (statusText r.outcome).toList (codeText r.outcome) (decimal r.measurements.peakResidentBytes.toNat)
      (decimal r.measurements.wallMillis.toNat))) := by
  rw [encode, if_neg (not_not.mpr h), h]
  rfl

theorem outcome_of_text (outcome : WorkerOutcome) (d : Option Digest32) (j : Option JobId) (a : Option AttemptId)
    (p w : Option UInt64) :
    ResultParts.outcome ⟨d, j, a, some (statusText outcome), some (codeText outcome), p, w⟩ = .ok
      (match outcome with
      | .succeeded => .succeeded
      | .failed code => .failed (String.ofList (sanitizeCode code.toList))) := by
  cases outcome with
  | succeeded => exact if_pos rfl
  | failed code =>
      have hne : some "failed" ≠ some "succeeded" := by decide
      simp only [ResultParts.outcome, statusText, codeText]
      rw [if_neg hne, if_pos trivial, Option.getD_some, sanitizeCode_idem]

theorem exists_outcome {status : String} {code : Text}
    (h : (status = "succeeded" ∧ code = []) ∨ (status = "failed" ∧ sanitizeCode code = code)) :
    ∃ outcome, statusText outcome = status ∧ codeText outcome = code := by
  rcases h with ⟨rfl, rfl⟩ | ⟨rfl, hcode⟩
  · exact ⟨.succeeded, rfl, rfl⟩
  · exact ⟨.failed (String.ofList code), rfl, by rw [codeText, String.toList_ofList, hcode]⟩

/-- A decoded result is encoded as the text it came from exactly when that text is canonical. -/
theorem encode_of_decode {t : Text} {r : WorkerResult} (h : decode t = .ok r) : r.encode = .ok t ↔ Canonical t := by
  constructor
  · intro hencode
    obtain ⟨-, ht⟩ := encode_ok hencode
    obtain ⟨hjob, hattempt⟩ := trimmed_of_decode h
    refine ⟨_, _, _, _, _, _, _, ht, isLineValue_plain (digestText_plain _), ⟨identifier_notMem _, hjob⟩,
      ⟨identifier_notMem _, hattempt⟩, ?_⟩
    cases r.outcome with
    | succeeded => exact Or.inl ⟨rfl, rfl⟩
    | failed code => exact Or.inr ⟨rfl, sanitizeCode_idem _⟩
  · rintro ⟨digest, job, attempt, code, status, peak, wall, rfl, hdigest, hjob, hattempt, hstatus⟩
    obtain ⟨outcome, hstatusText, hcodeText⟩ := exists_outcome hstatus
    have hstatusLine : IsLineValue status.toList := hstatusText ▸ isLineValue_plain (statusText_value outcome)
    have hcodeLine : IsLineValue code := hcodeText ▸ isLineValue_plain (codeText_value outcome)
    rw [decode_layout hdigest hjob hattempt hstatusLine hcodeLine] at h
    simp only [bind, Except.bind] at h
    split at h
    · cases h
    · rename_i d hd
      split at h
      · cases h
      · rename_i j hj
        split at h
        · cases h
        · rename_i a ha
          split at h
          · cases h
          · rename_i p hp
            split at h
            · cases h
            · rename_i w hw
              rw [← hstatusText, ← hcodeText] at h
              simp only [ResultParts.result, outcome_of_text, required, bind, Except.bind, pure, Except.pure,
                Except.ok.injEq] at h
              subst h
              rw [encode_eq rfl]
              simp only [parseDigest_ok hd, parseIdentifier_ok hj, parseIdentifier_ok ha, parseU64_decimal_ok hp,
                parseU64_decimal_ok hw]
              rw [← hstatusText, ← hcodeText]
              cases outcome with
              | succeeded => rfl
              | failed c => simp only [statusText, codeText, String.toList_ofList, sanitizeCode_idem]

theorem verifyAgainst_forSpec (s : WorkerSpec) (outcome : WorkerOutcome) (measurements : WorkerMeasurements) :
    (forSpec s outcome measurements).verifyAgainst s = .ok () := by
  simp [verifyAgainst, forSpec]

/-- The outcomes that the constructors of results make. -/
def Sanitized : WorkerOutcome → Prop
  | .succeeded => True
  | .failed code => sanitizeCode code.toList = code.toList

theorem decode_encode {r : WorkerResult} (hversion : r.schemaVersion = workerSchemaVersion) (hcode : Sanitized r.outcome)
    (hjob : Trimmed r.jobId.text.toList) (hattempt : Trimmed r.attemptId.text.toList) :
    ∃ t, r.encode = .ok t ∧ decode t = .ok r := by
  refine ⟨_, encode_eq hversion, ?_⟩
  rw [decode_layout (isLineValue_plain (digestText_plain _)) ⟨identifier_notMem _, hjob⟩ ⟨identifier_notMem _, hattempt⟩
    (isLineValue_plain (statusText_value _)) (isLineValue_plain (codeText_value _))]
  simp only [parseDigest_digestText, parseIdentifier_text, parseU64_decimal, ResultParts.result, outcome_of_text, required,
    bind, Except.bind, pure, Except.pure, Except.ok.injEq]
  have houtcome : (match r.outcome with
      | .succeeded => WorkerOutcome.succeeded
      | .failed code => .failed (String.ofList (sanitizeCode code.toList))) = r.outcome := by
    cases ho : r.outcome with
    | succeeded => rfl
    | failed code =>
        rw [ho] at hcode
        have hsanitized : sanitizeCode code.toList = code.toList := hcode
        simp only [hsanitized, String.ofList_toList]
  rw [houtcome, ← hversion]

theorem forSpec_roundTrip {s : WorkerSpec} {outcome : WorkerOutcome} (hcode : Sanitized outcome)
    (measurements : WorkerMeasurements) :
    (∃ t, (forSpec s outcome measurements).encode = .ok t ∧ decode t = .ok (forSpec s outcome measurements)) ↔
      s.schemaVersion = workerSchemaVersion ∧ Trimmed s.jobId.text.toList ∧ Trimmed s.attemptId.text.toList := by
  constructor
  · rintro ⟨t, hencode, hdecode⟩
    exact ⟨(encode_ok hencode).1, trimmed_of_decode hdecode⟩
  · rintro ⟨hversion, hjob, hattempt⟩
    exact decode_encode hversion hcode hjob hattempt

/-- Decoding and encoding agree on canonical texts only; a result made for a specification survives
the wire format if its identifiers do, and it belongs to that specification. -/
theorem canonical_iff (t : Text) (s : WorkerSpec) (m : WorkerMeasurements) :
    (∀ r, decode t = .ok r → (r.encode = .ok t ↔ Canonical t)) ∧
      ∀ r, (r = succeeded s m ∨ ∃ code, r = failed s code m) →
        (((∃ t', r.encode = .ok t' ∧ decode t' = .ok r) ↔ s.schemaVersion = workerSchemaVersion ∧
          Trimmed s.jobId.text.toList ∧ Trimmed s.attemptId.text.toList) ∧ r.verifyAgainst s = .ok ()) := by
  constructor
  · intro r h
    exact encode_of_decode h
  · rintro r (rfl | ⟨code, rfl⟩)
    · exact ⟨forSpec_roundTrip (show Sanitized .succeeded from trivial) m, verifyAgainst_forSpec _ _ _⟩
    · have hcode : Sanitized (.failed (String.ofList (sanitizeCode code.toList))) := by
        simp only [Sanitized, String.toList_ofList, sanitizeCode_idem]
      exact ⟨forSpec_roundTrip hcode m, verifyAgainst_forSpec _ _ _⟩

def exampleId : Identifier := ⟨"proof", by decide, by decide, by simp⟩

def exampleOwner : WorkerSpec :=
  ⟨1, ⟨Vector.replicate 32 1⟩, exampleId, exampleId, ⟨.leafProof, JobFields.empty, by decide⟩, "/tmp", 1, []⟩

def exampleResult : WorkerResult := succeeded exampleOwner ⟨5, 7⟩

theorem isLineValue_exampleId : IsLineValue exampleId.text.toList :=
  ⟨identifier_notMem _, by simp [Trimmed, exampleId, isWhitespace]⟩

theorem canonical_iff_example : ∃ t, exampleResult.encode = .ok t ∧ decode t = .ok exampleResult :=
  ((canonical_iff [] exampleOwner ⟨5, 7⟩).2 exampleResult (Or.inl rfl)).1.mpr
    ⟨rfl, isLineValue_exampleId.2, isLineValue_exampleId.2⟩

/-- The lines of a success, without the one of its code. -/
def linesWithoutCode : List Text :=
  [pair "zkie-worker-result" (decimal 1), pair "run_digest" (digestText exampleResult.runDigest),
    pair "job_id" exampleId.text.toList, pair "attempt_id" exampleId.text.toList,
    pair "status" (statusText .succeeded).toList, pair "peak_resident_bytes" (decimal 5), pair "wall_millis" (decimal 7)]

theorem isLine_example : ∀ l ∈ layout (decimal 1) (digestText exampleResult.runDigest) exampleId.text.toList
    exampleId.text.toList (statusText .succeeded).toList (codeText .succeeded) (decimal 5) (decimal 7), IsLine l :=
  isLine_layout (isLineValue_plain (digestText_plain _)) isLineValue_exampleId isLineValue_exampleId
    (isLineValue_plain (statusText_value _)) (isLineValue_plain (codeText_value _))

theorem isLine_withoutCode : ∀ l ∈ linesWithoutCode, IsLine l := by
  simp only [linesWithoutCode, List.forall_mem_cons]
  refine ⟨isLine_plain (by simp) decimal_plain, isLine_plain (by simp) (digestText_plain _),
    isLine_pair (by simp) isLineValue_exampleId.1 isLineValue_exampleId.2,
    isLine_pair (by simp) isLineValue_exampleId.1 isLineValue_exampleId.2, isLine_plain (by simp) (statusText_value _),
    isLine_plain (by simp) decimal_plain, isLine_plain (by simp) decimal_plain, ?_⟩
  exact fun _ h => absurd h List.not_mem_nil

/-- The decoder does not miss a line that the encoder always writes. -/
theorem decode_withoutCode : decode (unlines linesWithoutCode) = .ok exampleResult ∧
    exampleResult.encode ≠ .ok (unlines linesWithoutCode) := by
  constructor
  · unfold decode
    rw [lines_unlines isLine_withoutCode]
    have hheader : readHeader "zkie-worker-result" (pair "zkie-worker-result" (decimal 1)) = .ok workerSchemaVersion :=
      readHeader_pair (by decide) (by simp)
    have hpeak : parseU64 (decimal 5) = .ok 5 := parseU64_decimal 5
    have hwall : parseU64 (decimal 7) = .ok 7 := parseU64_decimal 7
    simp only [linesWithoutCode, hheader, List.foldlM_cons, List.foldlM_nil,
      ResultParts.readLine_runDigest _ (trimmed_of_forall (digestText_plain _)),
      ResultParts.readLine_jobId _ isLineValue_exampleId.2, ResultParts.readLine_attemptId _ isLineValue_exampleId.2,
      ResultParts.readLine_status _ (trimmed_of_forall (statusText_value _)),
      ResultParts.readLine_peak _ (trimmed_of_forall decimal_plain),
      ResultParts.readLine_wall _ (trimmed_of_forall decimal_plain), parseDigest_digestText, parseIdentifier_text, hpeak, hwall,
      String.ofList_toList]
    rfl
  · intro h
    have hlines := congrArg lines (encode_ok h).2
    rw [lines_unlines isLine_withoutCode] at hlines
    have hlayout := hlines.trans (lines_unlines isLine_example)
    exact absurd (congrArg List.length hlayout) (by simp [linesWithoutCode, layout])

end WorkerResult

end Zkie.Worker
