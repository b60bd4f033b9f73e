import Zkie.RunInvariants

namespace Zkie.DerivedIds

open RunState Transaction RunDatabase RunDatabase.RunDb RunLifecycle RunInvariants

section Model

/-- What the rows of the jobs table of all runs are told apart by. -/
structure JobKey where
  jobId : JobId
  runId : String
  logicalJobId : String

def jobText (runId logicalJobId : String) : String := s!"{runId}:{logicalJobId}"

/-- A job is inserted through the handle of one run. -/
def insertRow (runId logicalJobId : String) (table : List JobKey) : Except DbError JobKey :=
  if IsIdentifier logicalJobId then
    match Identifier.new? (jobText runId logicalJobId) with
    | none => .error .invalidIdentifier
    | some id =>
        if ∀ row ∈ table, row.jobId ≠ id ∧ ¬(row.runId = runId ∧ row.logicalJobId = logicalJobId) then
          .ok ⟨id, runId, logicalJobId⟩
        else .error .constraintViolated
  else .error .invalidIdentifier

/-- A request that is refused leaves the table as it is. -/
def insertAll (table : List JobKey) (requests : List (String × String)) : List JobKey :=
  requests.foldl (fun table request => table ++ (insertRow request.1 request.2 table).toOption.toList) table

def keysOf (db : RunDb) : List JobKey := db.jobs.map fun row => ⟨row.id, db.runId, row.logicalJobId⟩

def attemptText (job : JobId) (n : ℕ) : String := s!"{job.text}:attempt:{n}"

def verificationText (job : JobId) (n : ℕ) : String := s!"{job.text}:verification:{n}"

/-- The number of the record that a commit adds, in any database that the run can reach. -/
def Derives (runId : String) (job : JobId) (n : ℕ) : Prop :=
  ∃ ops attempt, requireVerificationSource job attempt (runOps (RunDb.empty runId) ops) =
      .ok ((), runOps (RunDb.empty runId) ops) ∧
    n = ((runOps (RunDb.empty runId) ops).recordsOf job).length + 1

/-- Every id that is derived of the job is one. -/
structure DerivedValid (runId : String) (job : JobId) : Prop where
  attempts : ∀ n, 1 ≤ n → n < 2 ^ 32 → (Identifier.new? (attemptText job n)).isSome
  verifications : ∀ n, Derives runId job n → (Identifier.new? (verificationText job n)).isSome

/-- What an id may have in front of the marks. -/
def maxJobBytes : ℕ := 237

end Model

section Texts

/-- The characters of an identifier. -/
def Plain (text : String) : Prop := ∀ c ∈ text.toList, c.toNat < 128 ∧ ¬(c.toNat < 32 ∨ c.toNat = 127)

instance (text : String) : Decidable (Plain text) := List.decidableBAll _ _

theorem new?_isSome {text : String} : (Identifier.new? text).isSome ↔ IsIdentifier text := by
  unfold Identifier.new?
  by_cases h : IsIdentifier text <;> simp [h]

theorem ascii_size {cs : List Char} (h : ∀ c ∈ cs, c.toNat < 128) : (String.ofList cs).utf8ByteSize = cs.length := by
  induction cs with
  | nil => rfl
  | cons c cs ih =>
      obtain ⟨hc, hcs⟩ := List.forall_mem_cons.mp h
      have hsize : c.utf8Size = 1 := Char.utf8Size_eq_one_iff.mpr (by
        rw [UInt32.le_iff_toNat_le]
        exact Nat.le_of_lt_succ hc)
      have hsplit : String.ofList (c :: cs) = String.singleton c ++ String.ofList cs := by
        rw [← String.toList_inj]
        simp
      rw [hsplit, String.utf8ByteSize_append, String.utf8ByteSize_singleton, hsize, ih hcs, List.length_cons, Nat.add_comm]

theorem digit_plain {n : ℕ} {c : Char} (h : c ∈ Nat.toDigits 10 n) : c.toNat < 128 ∧ ¬(c.toNat < 32 ∨ c.toNat = 127) := by
  have hdigit := Nat.isDigit_of_mem_toDigits (by decide) (by decide) h
  simp only [Char.isDigit, Bool.and_eq_true, decide_eq_true_eq] at hdigit
  obtain ⟨hlow, hhigh⟩ := hdigit
  have hlow : 48 ≤ c.toNat := hlow
  have hhigh : c.toNat ≤ 57 := hhigh
  omega

theorem toString_size (n : ℕ) : (toString n).utf8ByteSize = (Nat.toDigits 10 n).length :=
  ascii_size fun _ hc => (digit_plain hc).1

theorem Plain.append {s t : String} (hs : Plain s) (ht : Plain t) : Plain (s ++ t) := by
  intro c hc
  rw [String.toList_append, List.mem_append] at hc
  rcases hc with hc | hc
  · exact hs c hc
  · exact ht c hc

theorem toString_plain (n : ℕ) : Plain (toString n) := by
  intro c hc
  apply digit_plain (n := n)
  simpa [toString, Nat.repr] using hc

/-- Only the length can keep a text that continues an identifier from being one. -/
theorem isIdentifier_append {s t : String} (hs : IsIdentifier s) (ht : Plain t) :
    IsIdentifier (s ++ t) ↔ s.utf8ByteSize + t.utf8ByteSize ≤ maxIdBytes := by
  rw [← String.utf8ByteSize_append]
  constructor
  · exact fun h => h.2.1
  · intro hsize
    refine ⟨fun hempty => hs.1 ?_, hsize, Plain.append hs.2.2 ht⟩
    have hlength := congrArg String.toList hempty
    rw [String.toList_append] at hlength
    exact String.toList_inj.mp (List.append_eq_nil_iff.mp hlength).1

theorem marked_valid {job : JobId} {mark : String} (hmark : Plain mark) {n : ℕ} :
    IsIdentifier (job.text ++ mark ++ toString n) ↔
      job.text.utf8ByteSize + mark.utf8ByteSize + (Nat.toDigits 10 n).length ≤ maxIdBytes := by
  rw [String.append_assoc, isIdentifier_append job.valid (hmark.append (toString_plain n)), String.utf8ByteSize_append,
    toString_size, ← Nat.add_assoc]

theorem attempt_mark : Plain ":attempt:" := by decide

theorem verification_mark : Plain ":verification:" := by decide

theorem attemptText_valid {job : JobId} {n : ℕ} :
    (Identifier.new? (attemptText job n)).isSome ↔ job.text.utf8ByteSize + 9 + (Nat.toDigits 10 n).length ≤ maxIdBytes :=
  new?_isSome.trans (marked_valid attempt_mark)

theorem verificationText_valid {job : JobId} {n : ℕ} :
    (Identifier.new? (verificationText job n)).isSome ↔
      job.text.utf8ByteSize + 14 + (Nat.toDigits 10 n).length ≤ maxIdBytes :=
  new?_isSome.trans (marked_valid verification_mark)

/-- All attempts of a job can be named if the last one can. -/
theorem attempts_valid_iff {job : JobId} :
    (∀ n, 1 ≤ n → n < 2 ^ 32 → (Identifier.new? (attemptText job n)).isSome) ↔ job.text.utf8ByteSize ≤ maxJobBytes := by
  have hdigits : ∀ n < 2 ^ 32, (Nat.toDigits 10 n).length ≤ 10 := by
    intro n hn
    exact (Nat.length_toDigits_le_iff (by decide) (by decide)).mpr (hn.trans (by decide))
  constructor
  · intro h
    have hlast := attemptText_valid.mp (h (2 ^ 32 - 1) (by decide) (by decide))
    have hwide : ¬(Nat.toDigits 10 (2 ^ 32 - 1)).length ≤ 9 := fun hle =>
      absurd ((Nat.length_toDigits_le_iff (by decide) (by decide)).mp hle) (by decide)
    simp only [maxIdBytes, maxJobBytes] at *
    omega
  · intro h n _ hn
    have hlength := hdigits n hn
    apply attemptText_valid.mpr
    simp only [maxIdBytes, maxJobBytes] at *
    omega

end Texts

section Records

/-- A job gets one record only, whichever run of operations leads to it. -/
theorem derives_one {runId : String} {job : JobId} {n : ℕ} (h : Derives runId job n) : n = 1 := by
  obtain ⟨ops, attempt, hsource, rfl⟩ := h
  obtain ⟨⟨row, hrow, hsource⟩, -⟩ := requireVerificationSource_ok hsource
  have hne : row.state ≠ .verified := by
    rintro hverified
    rcases hsource with ⟨hopen, -⟩ | ⟨hfinished, -⟩
    · exact absurd (hopen.2.symm.trans hverified) (by decide)
    · rw [VerifiesFinished, hverified] at hfinished
      revert hfinished
      cases row.kind <;> decide
  have hrecords := (((runOps_verdictSound runId ops job).2 row hrow).2 hne).1
  have hnone : (runOps (RunDb.empty runId) ops).recordsOf job = [] := hrecords
  rw [hnone]
  rfl

theorem derivedValid_iff {runId : String} {job : JobId} : DerivedValid runId job ↔ job.text.utf8ByteSize ≤ maxJobBytes := by
  constructor
  · exact fun h => attempts_valid_iff.mp h.attempts
  · intro h
    refine ⟨attempts_valid_iff.mpr h, fun n hn => ?_⟩
    obtain rfl := derives_one hn
    apply verificationText_valid.mpr
    have hdigit : (Nat.toDigits 10 1).length = 1 := by decide
    simp only [maxIdBytes, maxJobBytes] at *
    omega

end Records

section Table

variable {table : List JobKey} {runId logicalJobId : String} {key key' : JobKey}

theorem insertRow_ok : insertRow runId logicalJobId table = .ok key ↔
    IsIdentifier logicalJobId ∧ Identifier.new? (jobText runId logicalJobId) = some key.jobId ∧ key.runId = runId ∧
      key.logicalJobId = logicalJobId ∧
      ∀ row ∈ table, row.jobId ≠ key.jobId ∧ ¬(row.runId = runId ∧ row.logicalJobId = logicalJobId) := by
  unfold insertRow
  constructor
  · intro h
    split at h
    · rename_i hlogical
      split at h
      · cases h
      · rename_i id hid
        split at h
        · rename_i hrows
          cases h
          exact ⟨hlogical, hid, rfl, rfl, hrows⟩
        · cases h
    · cases h
  · obtain ⟨id, run, logical⟩ := key
    rintro ⟨hlogical, hid, rfl, rfl, hrows⟩
    rw [if_pos hlogical, hid]
    exact if_pos hrows

theorem prefix_insertAll (requests : List (String × String)) : table <+: insertAll table requests := by
  induction requests generalizing table with
  | nil => exact List.prefix_rfl
  | cons request requests ih => exact (List.prefix_append _ _).trans ih

/-- No two rows that are inserted, through whichever handles, have one id. -/
theorem insertRow_distinct {requests : List (String × String)}
    (h : insertRow runId logicalJobId (insertAll (table ++ [key']) requests) = .ok key) : key'.jobId ≠ key.jobId := by
  obtain ⟨-, -, -, -, hrows⟩ := insertRow_ok.mp h
  exact (hrows key' ((prefix_insertAll requests).subset (List.mem_append_right _ (List.mem_singleton_self _)))).1

/-- In the database of one run, whose rows are among those of all runs, the insertion is `insertJob`. -/
theorem insertRow_insertJob {db : RunDb} {kind : JobKind} (hrows : ∀ row ∈ keysOf db, row ∈ table)
    (h : insertRow db.runId logicalJobId table = .ok key) :
    ∃ db', insertJob logicalJobId kind db = .ok (key.jobId, db') ∧ keysOf db' = keysOf db ++ [key] := by
  obtain ⟨id, run, logical⟩ := key
  obtain ⟨hlogical, hid, rfl, rfl, hfree⟩ := insertRow_ok.mp h
  have hunique : ∀ row ∈ db.jobs, row.id ≠ id ∧ row.logicalJobId ≠ logical := by
    intro row hrow
    obtain ⟨hne, hpair⟩ := hfree _ (hrows _ (List.mem_map_of_mem hrow))
    exact ⟨hne, fun heq => hpair ⟨rfl, heq⟩⟩
  refine ⟨{ db with jobs := db.jobs ++ [⟨id, logical, kind, .pending, none, 0, 0, 0, false, none⟩] }, ?_, ?_⟩
  · simp only [insertJob, bind_eq_ok, get_eq_ok, ensure_eq_ok, fromOption_eq_ok, modify_eq_ok, pure_eq_ok]
    exact ⟨(), db, ⟨hlogical, rfl⟩, db, db, ⟨rfl, rfl⟩, id, db, ⟨hid, rfl⟩, (), db, ⟨hunique, rfl⟩, (), _, rfl, rfl, rfl⟩
  · simp [keysOf]

end Table

section Derived

variable {table : List JobKey} {runId logicalJobId : String} {key : JobKey}

/-- A job whose id leaves no room for the first mark never starts. -/
theorem beginAttempt_never {db : RunDb} {job : JobId} {event : JobEvent} (h : maxIdBytes < job.text.utf8ByteSize + 10)
    (r : AttemptId × RunDb) : beginAttempt job event db ≠ .ok r := by
  intro hrun
  obtain ⟨row, next, hrow, -, -, -, htext, -⟩ := beginAttempt_ok hrun
  have hvalid := r.1.valid
  rw [htext] at hvalid
  change IsIdentifier (attemptText row.id (row.attemptCount + 1)) at hvalid
  have hlength := attemptText_valid.mp (new?_isSome.mpr hvalid)
  rw [job?_id hrow] at hlength
  have hdigits := Nat.length_toDigits_pos (b := 10) (n := row.attemptCount + 1)
  omega

/-- The ids that are derived of a job are valid exactly if its own id leaves room for the longest mark,
and no two jobs of a database share an id. -/
theorem derived_ids (h : insertRow runId logicalJobId table = .ok key) :
    (DerivedValid runId key.jobId ↔ (jobText runId logicalJobId).utf8ByteSize ≤ maxJobBytes) ∧
      ∀ requests runId' logicalJobId' key',
        insertRow runId' logicalJobId' (insertAll (table ++ [key]) requests) = .ok key' → key.jobId ≠ key'.jobId := by
  obtain ⟨-, hid, -⟩ := insertRow_ok.mp h
  rw [derivedValid_iff, new?_eq_some hid]
  exact ⟨Iff.rfl, fun _ _ _ _ => insertRow_distinct⟩

theorem sample_valid : IsIdentifier "r:w" := by decide

theorem sample_inserted : insertRow "r" "w" [] = .ok ⟨⟨"r:w", sample_valid⟩, "r", "w"⟩ :=
  insertRow_ok.mpr ⟨by decide, dif_pos sample_valid, rfl, rfl, fun _ h => absurd h List.not_mem_nil⟩

theorem derived_ids_sample :
    (DerivedValid "r" ⟨"r:w", sample_valid⟩ ↔ (jobText "r" "w").utf8ByteSize ≤ maxJobBytes) ∧
      ∀ requests runId' logicalJobId' key',
        insertRow runId' logicalJobId' (insertAll ([] ++ [⟨⟨"r:w", sample_valid⟩, "r", "w"⟩]) requests) = .ok key' →
          (⟨"r:w", sample_valid⟩ : JobId) ≠ key'.jobId :=
  derived_ids sample_inserted

def longName (n : ℕ) : String := String.ofList (List.replicate n 'a')

theorem longName_plain (n : ℕ) : Plain (longName n) := by
  intro c hc
  rw [longName, String.toList_ofList] at hc
  rw [List.eq_of_mem_replicate hc]
  decide

theorem longName_size (n : ℕ) : (longName n).utf8ByteSize = n := by
  rw [longName, ascii_size, List.length_replicate]
  intro c hc
  rw [List.eq_of_mem_replicate hc]
  decide

theorem longName_valid {n : ℕ} (hpos : 0 < n) (hle : n ≤ maxIdBytes) : IsIdentifier (longName n) := by
  refine ⟨fun hempty => ?_, (longName_size n).trans_le hle, longName_plain n⟩
  have hsize := longName_size n
  rw [hempty] at hsize
  exact hpos.ne hsize

theorem longJob_valid {n : ℕ} (hle : n + 2 ≤ maxIdBytes) : IsIdentifier (jobText "r" (longName n)) := by
  have hrun : IsIdentifier ("r" ++ ":") := by decide
  apply (isIdentifier_append hrun (longName_plain n)).mpr
  rw [longName_size, Nat.add_comm]
  exact hle

theorem longJob_size (n : ℕ) : (jobText "r" (longName n)).utf8ByteSize = n + 2 := by
  change (("r" ++ ":") ++ longName n).utf8ByteSize = n + 2
  rw [String.utf8ByteSize_append, longName_size, Nat.add_comm]
  rfl

/-- A job that is accepted although none of its attempts can be named. -/
theorem long_job_unnameable : ∃ runId logicalJobId key, IsIdentifier runId ∧ insertRow runId logicalJobId [] = .ok key ∧
    Identifier.new? (attemptText key.jobId 1) = none := by
  have hjob : IsIdentifier (jobText "r" (longName 254)) := longJob_valid (by decide)
  refine ⟨"r", longName 254, ⟨⟨_, hjob⟩, "r", longName 254⟩, by decide, ?_, ?_⟩
  · exact insertRow_ok.mpr ⟨longName_valid (by decide) (by decide), dif_pos hjob, rfl, rfl, fun _ h => absurd h List.not_mem_nil⟩
  · rw [← Option.not_isSome_iff_eq_none, attemptText_valid]
    simp only [longJob_size]
    decide

end Derived

end Zkie.DerivedIds
