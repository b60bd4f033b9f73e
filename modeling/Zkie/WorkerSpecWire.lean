import Zkie.Worker

namespace Zkie.Worker

open LineText RunState
open RunDatabase (Digest32)

namespace WorkerSpec

/-- What the delimiters of the format leave intact: a key without an equals sign, values and
identifiers without a blank at the end, a path of one line without whitespace at the end. -/
structure Clean (s : WorkerSpec) : Prop where
  keys : ∀ entry ∈ s.job.fields.entries, '=' ∉ entry.1.toList
  values : ∀ entry ∈ s.job.fields.entries, Trimmed entry.2.toList
  jobId : Trimmed s.jobId.text.toList
  attemptId : Trimmed s.attemptId.text.toList
  oneLine : '\n' ∉ s.stagedOutputDir.toList
  outputDir : Trimmed s.stagedOutputDir.toList

end WorkerSpec

section Decoded

/-- What holds of everything that was read off lines. -/
structure SpecParts.Clean (parts : SpecParts) : Prop where
  keys : ∀ field ∈ parts.fields, '=' ∉ field.1.toList
  values : ∀ field ∈ parts.fields, Trimmed field.2.toList
  jobId : ∀ id ∈ parts.jobId, Trimmed id.text.toList
  attemptId : ∀ id ∈ parts.attemptId, Trimmed id.text.toList
  oneLine : ∀ path ∈ parts.outputDir, '\n' ∉ path.toList
  outputDir : ∀ path ∈ parts.outputDir, Trimmed path.toList

theorem SpecParts.clean_empty : SpecParts.Clean {} := by
  constructor <;> intro x hx <;> cases hx

theorem SpecParts.Clean.readLine {parts next : SpecParts} {line : Text} (h : parts.Clean) (hline : '\n' ∉ line)
    (hread : parts.readLine line = .ok next) : next.Clean := by
  simp only [SpecParts.readLine, bind, Except.bind, pure, Except.pure] at hread
  split at hread
  · cases hread
  · rename_i p hsplit
    obtain ⟨key, value⟩ := p
    obtain ⟨htrimmed, hsub⟩ := splitPair_ok hsplit
    dsimp only at hread
    split at hread
    · split at hread
      · cases hread
      · cases hread
        exact ⟨h.keys, h.values, h.jobId, h.attemptId, h.oneLine, h.outputDir⟩
    · split at hread
      · cases hread
      · rename_i id hid
        cases hread
        refine ⟨h.keys, h.values, ?_, h.attemptId, h.oneLine, h.outputDir⟩
        rintro _ ⟨⟩
        rw [parseIdentifier_ok hid]
        exact htrimmed
    · split at hread
      · cases hread
      · rename_i id hid
        cases hread
        refine ⟨h.keys, h.values, h.jobId, ?_, h.oneLine, h.outputDir⟩
        rintro _ ⟨⟩
        rw [parseIdentifier_ok hid]
        exact htrimmed
    · split at hread
      · cases hread
        exact ⟨h.keys, h.values, h.jobId, h.attemptId, h.oneLine, h.outputDir⟩
      · cases hread
    · split at hread
      · rename_i name raw hfield
        cases hread
        obtain ⟨hvalue, hname⟩ := splitOnce_eq_some.mp hfield
        have hraw : Trimmed raw := by
          rw [hvalue, List.append_cons] at htrimmed
          exact htrimmed.append_right
        refine ⟨?_, ?_, h.jobId, h.attemptId, h.oneLine, h.outputDir⟩
        · intro field hfield
          rcases List.mem_append.mp hfield with hfield | hfield
          · exact h.keys field hfield
          · rw [List.mem_singleton.mp hfield, String.toList_ofList]
            exact hname
        · intro field hfield
          rcases List.mem_append.mp hfield with hfield | hfield
          · exact h.values field hfield
          · rw [List.mem_singleton.mp hfield, String.toList_ofList]
            exact hraw
      · cases hread
    · cases hread
      refine ⟨h.keys, h.values, h.jobId, h.attemptId, ?_, ?_⟩
      · rintro _ ⟨⟩
        rw [String.toList_ofList]
        exact fun hmem => hline (hsub _ hmem)
      · rintro _ ⟨⟩
        rw [String.toList_ofList]
        exact htrimmed
    · split at hread
      · cases hread
      · cases hread
        exact ⟨h.keys, h.values, h.jobId, h.attemptId, h.oneLine, h.outputDir⟩
    · split at hread
      · cases hread
      · cases hread
        exact ⟨h.keys, h.values, h.jobId, h.attemptId, h.oneLine, h.outputDir⟩
    · cases hread

theorem mem_of_insertAll {fields : List (String × String)} {canonical result : JobFields}
    (h : fields.foldlM insertValid canonical = .ok result) {entry : String × String} (hentry : entry ∈ result.entries) :
    entry ∈ canonical.entries ∨ entry ∈ fields := by
  induction fields generalizing canonical with
  | nil =>
      cases h
      exact Or.inl hentry
  | cons field fields ih =>
      simp only [List.foldlM_cons, bind, Except.bind] at h
      split at h
      · cases h
      · rename_i mid hmid
        rcases ih h with hmem | hmem
        · unfold insertValid at hmid
          split at hmid
          · split at hmid
            · cases hmid
              rcases mem_insertField hmem with rfl | hmem
              · exact Or.inr (List.mem_cons_self ..)
              · exact Or.inl hmem
            · cases hmid
          · cases hmid
        · exact Or.inr (List.mem_cons_of_mem _ hmem)

theorem WorkerJob.mem_of_new {kind : WorkerJobKind} {fields : List (String × String)} {job : WorkerJob}
    (h : WorkerJob.new kind fields = .ok job) {entry : String × String} (hentry : entry ∈ job.fields.entries) :
    entry ∈ fields := by
  simp only [WorkerJob.new, bind, Except.bind, pure, Except.pure] at h
  split at h
  · cases h
  · rename_i canonical hcanonical
    split at h
    · cases h
      rcases mem_of_insertAll hcanonical hentry with hmem | hmem
      · exact absurd hmem List.not_mem_nil
      · exact hmem
    · cases h

theorem SpecParts.Clean.spec {parts : SpecParts} {version : UInt32} {s : WorkerSpec} (h : parts.Clean)
    (hspec : parts.spec version = .ok s) : s.Clean := by
  simp only [SpecParts.spec, bind, Except.bind, pure, Except.pure] at hspec
  split at hspec
  · cases hspec
  · split at hspec
    · cases hspec
    · rename_i jobId hjobId
      split at hspec
      · cases hspec
      · rename_i attemptId hattemptId
        split at hspec
        · cases hspec
        · split at hspec
          · cases hspec
          · rename_i job hjob
            split at hspec
            · cases hspec
            · rename_i path hpath
              split at hspec
              · cases hspec
              · split at hspec
                · cases hspec
                · cases hspec
                  exact ⟨fun entry hentry => h.keys entry (WorkerJob.mem_of_new hjob hentry),
                    fun entry hentry => h.values entry (WorkerJob.mem_of_new hjob hentry),
                    h.jobId _ (required_ok hjobId), h.attemptId _ (required_ok hattemptId),
                    h.oneLine _ (required_ok hpath), h.outputDir _ (required_ok hpath)⟩

/-- No text is decoded to a specification that is not clean. -/
theorem WorkerSpec.clean_of_decode {t : Text} {s : WorkerSpec} (h : WorkerSpec.decode t = .ok s) : s.Clean := by
  unfold WorkerSpec.decode at h
  split at h
  · cases h
  · rename_i header rest hlines
    simp only [bind, Except.bind] at h
    split at h
    · cases h
    · split at h
      · cases h
      · rename_i parts hparts
        have hrest : ∀ l ∈ rest, '\n' ∉ l := by
          intro l hl
          apply notMem_lines (t := t)
          rw [hlines]
          exact List.mem_cons_of_mem _ hl
        exact (readLines_invariant (fun _ _ _ => SpecParts.Clean.readLine) hrest SpecParts.clean_empty hparts).spec h

end Decoded

section Encoded

theorem insertField_last {key value : String} {entries : List (String × String)} (h : ∀ entry ∈ entries, entry.1 < key) :
    insertField key value entries = entries ++ [(key, value)] := by
  induction entries with
  | nil => rfl
  | cons e entries ih =>
      obtain ⟨hhead, htail⟩ := List.forall_mem_cons.mp h
      rw [insertField, if_neg hhead.not_gt, if_neg hhead.ne', ih htail, List.cons_append]

/-- Entries that are sorted already are inserted one behind the other. -/
theorem insertAll_sorted {entries : List (String × String)} (canonical : JobFields)
    (hsorted : (canonical.entries ++ entries).Pairwise fun a b => a.1 < b.1)
    (hvalid : ∀ entry ∈ entries, IsToken entry.1 ∧ IsValue entry.2) :
    ∃ result, entries.foldlM insertValid canonical = .ok result ∧ result.entries = canonical.entries ++ entries := by
  induction entries generalizing canonical with
  | nil => exact ⟨canonical, rfl, (List.append_nil _).symm⟩
  | cons entry entries ih =>
      obtain ⟨⟨hkey, hvalue⟩, hvalid⟩ := List.forall_mem_cons.mp hvalid
      have hbefore : ∀ e ∈ canonical.entries, e.1 < entry.1 := fun e he =>
        (List.pairwise_append.mp hsorted).2.2 e he entry (List.mem_cons_self ..)
      have hinsert : (canonical.insert entry.1 entry.2 hkey hvalue).entries = canonical.entries ++ [entry] :=
        insertField_last hbefore
      obtain ⟨result, hrun, hresult⟩ := ih (canonical.insert entry.1 entry.2 hkey hvalue)
        (by rw [hinsert, List.append_assoc]; exact hsorted) hvalid
      refine ⟨result, ?_, ?_⟩
      · rw [List.foldlM_cons, insertValid, dif_pos hkey, dif_pos hvalue]
        exact hrun
      · rw [hresult, hinsert, List.append_assoc, List.singleton_append]

theorem WorkerJob.new_entries (job : WorkerJob) : WorkerJob.new job.kind job.fields.entries = .ok job := by
  obtain ⟨result, hrun, hresult⟩ := insertAll_sorted JobFields.empty job.fields.sorted job.fields.valid
  have hfields : result = job.fields := JobFields.ext hresult
  subst hfields
  simp only [WorkerJob.new, hrun, bind, Except.bind, pure, Except.pure]
  rw [dif_pos job.few]

namespace SpecParts

variable (parts : SpecParts)

theorem readLine_runDigest (d : Digest32) :
    parts.readLine (pair "run_digest" (digestText d)) = .ok { parts with runDigest := some d } := by
  rw [readLine, splitPair_plain (by decide) (by simp) (trimmed_of_forall (digestText_plain d))]
  simp [bind, Except.bind, pure, Except.pure, parseDigest_digestText]

theorem readLine_jobId (id : JobId) (h : Trimmed id.text.toList) :
    parts.readLine (pair "job_id" id.text.toList) = .ok { parts with jobId := some id } := by
  rw [readLine, splitPair_plain (by decide) (by simp) h]
  simp [bind, Except.bind, pure, Except.pure, parseIdentifier_text]

theorem readLine_attemptId (id : AttemptId) (h : Trimmed id.text.toList) :
    parts.readLine (pair "attempt_id" id.text.toList) = .ok { parts with attemptId := some id } := by
  rw [readLine, splitPair_plain (by decide) (by simp) h]
  simp [bind, Except.bind, pure, Except.pure, parseIdentifier_text]

theorem kind_plain (kind : WorkerJobKind) : ∀ c ∈ kind.asStr.toList, ¬isWhitespace c := by
  cases kind <;> simp [WorkerJobKind.asStr, isWhitespace]

theorem parse_asStr (kind : WorkerJobKind) : WorkerJobKind.parse kind.asStr.toList = some kind := by
  cases kind <;> simp [WorkerJobKind.parse, WorkerJobKind.all, WorkerJobKind.asStr]

theorem readLine_jobKind (kind : WorkerJobKind) :
    parts.readLine (pair "job_kind" kind.asStr.toList) = .ok { parts with kind := some kind } := by
  rw [readLine, splitPair_plain (by decide) (by simp) (trimmed_of_forall (kind_plain kind))]
  simp [bind, Except.bind, pure, Except.pure, parse_asStr]

theorem trimmed_field {key value : Text} (h : Trimmed value) : Trimmed (key ++ '=' :: value) := by
  intro c hc
  rw [List.getLast?_append_cons] at hc
  cases value with
  | nil =>
      cases hc
      decide
  | cons d value =>
      rw [List.getLast?_cons_cons] at hc
      exact h c hc

theorem readLine_field {key value : String} (hkey : '=' ∉ key.toList) (hvalue : Trimmed value.toList) :
    parts.readLine (pair "job_field" (key.toList ++ '=' :: value.toList)) =
      .ok { parts with fields := parts.fields ++ [(key, value)] } := by
  have hsplit : splitOnce '=' (key.toList ++ '=' :: value.toList) = some (key.toList, value.toList) :=
    splitOnce_eq_some.mpr ⟨rfl, hkey⟩
  rw [readLine, splitPair_plain (by decide) (by simp) (trimmed_field hvalue)]
  simp [bind, Except.bind, pure, Except.pure, hsplit]

theorem readLine_outputDir {path : String} (h : Trimmed path.toList) :
    parts.readLine (pair "output_dir" path.toList) = .ok { parts with outputDir := some path } := by
  rw [readLine, splitPair_plain (by decide) (by simp) h]
  simp [bind, Except.bind, pure, Except.pure]

theorem readLine_rayonThreads (n : UInt32) :
    parts.readLine (pair "rayon_threads" (decimal n.toNat)) = .ok { parts with rayonThreads := some n } := by
  rw [readLine, splitPair_plain (by decide) (by simp) (trimmed_of_forall decimal_plain)]
  simp [bind, Except.bind, pure, Except.pure, parseU32_decimal]

theorem readLine_cudaDevice (n : UInt32) :
    parts.readLine (pair "cuda_device" (decimal n.toNat)) = .ok { parts with cudaDevices := parts.cudaDevices ++ [n] } := by
  rw [readLine, splitPair_plain (by decide) (by simp) (trimmed_of_forall decimal_plain)]
  simp [bind, Except.bind, pure, Except.pure, parseU32_decimal]

theorem readFields {entries : List (String × String)} (hkeys : ∀ entry ∈ entries, '=' ∉ entry.1.toList)
    (hvalues : ∀ entry ∈ entries, Trimmed entry.2.toList) :
    (entries.map fun entry => pair "job_field" (entry.1.toList ++ '=' :: entry.2.toList)).foldlM readLine parts =
      .ok { parts with fields := parts.fields ++ entries } := by
  induction entries generalizing parts with
  | nil => simp [pure, Except.pure]
  | cons entry entries ih =>
      obtain ⟨hkey, hkeys⟩ := List.forall_mem_cons.mp hkeys
      obtain ⟨hvalue, hvalues⟩ := List.forall_mem_cons.mp hvalues
      rw [List.map_cons, List.foldlM_cons, readLine_field parts hkey hvalue]
      simp only [bind, Except.bind]
      rw [ih _ hkeys hvalues]
      simp

theorem readDevices (devices : List UInt32) :
    (devices.map fun device => pair "cuda_device" (decimal device.toNat)).foldlM readLine parts =
      .ok { parts with cudaDevices := parts.cudaDevices ++ devices } := by
  induction devices generalizing parts with
  | nil => simp [pure, Except.pure]
  | cons device devices ih =>
      rw [List.map_cons, List.foldlM_cons, readLine_cudaDevice]
      simp only [bind, Except.bind]
      rw [ih]
      simp

end SpecParts

namespace WorkerSpec

theorem printable_notMem {t : Text} (h : ∀ c ∈ t, IsPrintable c) : '\n' ∉ t :=
  fun hmem => (h _ hmem).2 (Or.inl (by decide))

theorem Clean.isLine {s : WorkerSpec} (h : s.Clean) : ∀ l ∈ s.specLines, IsLine l := by
  have hfields : ∀ entry ∈ s.job.fields.entries, IsLine (pair "job_field" (entry.1.toList ++ '=' :: entry.2.toList)) := by
    intro entry hentry
    obtain ⟨htoken, hvalue⟩ := s.job.fields.valid entry hentry
    apply isLine_pair (by simp) _ (SpecParts.trimmed_field (h.values entry hentry))
    intro hmem
    rcases List.mem_append.mp hmem with hmem | hmem
    · exact printable_notMem (fun c hc => (htoken.2.2 c hc).1) hmem
    · rcases List.mem_cons.mp hmem with heq | hmem
      · exact absurd heq (by decide)
      · exact printable_notMem hvalue.2.1 hmem
  intro l hl
  simp only [specLines, List.cons_append, List.nil_append, List.mem_cons, List.mem_append, List.mem_map, List.not_mem_nil,
    or_false] at hl
  rcases hl with rfl | rfl | rfl | rfl | rfl | (⟨entry, hentry, rfl⟩ | rfl | rfl) | ⟨device, -, rfl⟩
  · exact isLine_plain (by simp) decimal_plain
  · exact isLine_plain (by simp) (digestText_plain _)
  · exact isLine_pair (by simp) (identifier_notMem _) h.jobId
  · exact isLine_pair (by simp) (identifier_notMem _) h.attemptId
  · exact isLine_plain (by simp) (SpecParts.kind_plain _)
  · exact hfields entry hentry
  · exact isLine_pair (by simp) h.oneLine h.outputDir
  · exact isLine_plain (by simp) decimal_plain
  · exact isLine_plain (by simp) decimal_plain

theorem encode_ok {s : WorkerSpec} {t : Text} (h : s.encode = .ok t) : s.validate = .ok () ∧ t = unlines s.specLines := by
  simp only [encode, bind, Except.bind, pure, Except.pure] at h
  split at h
  · cases h
  · rename_i hvalid
    cases h
    exact ⟨hvalid, rfl⟩

theorem version_of_validate {s : WorkerSpec} (h : s.validate = .ok ()) : s.schemaVersion = workerSchemaVersion := by
  unfold validate at h
  split at h
  · cases h
  · rename_i hversion
    exact not_not.mp hversion

theorem Clean.decode {s : WorkerSpec} (h : s.Clean) (hvalid : s.validate = .ok ()) :
    decode (unlines s.specLines) = .ok s := by
  have hversion := version_of_validate hvalid
  unfold WorkerSpec.decode
  rw [lines_unlines h.isLine]
  simp only [specLines, List.cons_append, List.nil_append, hversion]
  rw [readHeader_pair (by decide) (by simp)]
  simp only [bind, Except.bind, List.foldlM_cons, List.foldlM_append, List.foldlM_nil]
  rw [SpecParts.readLine_runDigest]
  simp only [SpecParts.readLine_jobId _ _ h.jobId, SpecParts.readLine_attemptId _ _ h.attemptId,
    SpecParts.readLine_jobKind, SpecParts.readFields _ h.keys h.values, SpecParts.readLine_outputDir _ h.outputDir,
    SpecParts.readLine_rayonThreads, SpecParts.readDevices]
  simp only [SpecParts.spec, required, WorkerJob.new_entries, bind, Except.bind, pure, Except.pure, List.nil_append]
  rw [← hversion, hvalid]

/-- A specification survives the wire format exactly when it is clean. -/
theorem decode_encode_iff {s : WorkerSpec} {t : Text} (h : s.encode = .ok t) : decode t = .ok s ↔ s.Clean := by
  obtain ⟨hvalid, rfl⟩ := encode_ok h
  constructor
  · exact clean_of_decode
  · exact fun hclean => hclean.decode hvalid

def exampleJob (key : String) (hkey : IsToken key) : WorkerJob :=
  ⟨.witness, ⟨[(key, "0")], List.pairwise_singleton .., by
    intro entry hentry
    rw [List.mem_singleton.mp hentry]
    exact ⟨hkey, show "0".utf8ByteSize ≤ maxFieldBytes by decide, by simp [IsPrintable], by simp⟩⟩, by simp [maxFields]⟩

def exampleSpec (job : WorkerJob) : WorkerSpec :=
  ⟨1, ⟨Vector.replicate 32 1⟩, ⟨"leaf", by decide, by decide, by simp⟩, ⟨"leaf:1", by decide, by decide, by simp⟩, job,
    "/tmp/staged", 4, [0, 1]⟩

theorem exampleSpec_encode (job : WorkerJob) :
    (exampleSpec job).encode = .ok (unlines (exampleSpec job).specLines) := by
  have hvalid : (exampleSpec job).validate = .ok () := by
    simp [validate, exampleSpec, workerSchemaVersion, checkDevices]
  simp only [encode, hvalid, bind, Except.bind, pure, Except.pure]

theorem decode_encode_iff_shard :
    decode (unlines (exampleSpec (exampleJob "shard" ⟨by decide, by decide, by simp [IsPrintable]⟩)).specLines) =
        .ok (exampleSpec (exampleJob "shard" ⟨by decide, by decide, by simp [IsPrintable]⟩)) ↔
      (exampleSpec (exampleJob "shard" ⟨by decide, by decide, by simp [IsPrintable]⟩)).Clean :=
  decode_encode_iff (exampleSpec_encode _)

/-- The name of a field may hold an equals sign, where the decoder splits it. -/
theorem decode_encode_equals : ∃ s t, s.encode = .ok t ∧ WorkerJob.new s.job.kind [("a=b", "0")] = .ok s.job ∧
    decode t ≠ .ok s := by
  have htoken : IsToken "a=b" := ⟨by decide, by decide, by simp [IsPrintable]⟩
  refine ⟨exampleSpec (exampleJob "a=b" htoken), _, exampleSpec_encode _, WorkerJob.new_entries _, ?_⟩
  intro h
  exact (clean_of_decode h).keys ("a=b", "0") (List.mem_singleton.mpr rfl) (by simp)

end WorkerSpec

end Encoded

end Zkie.Worker
