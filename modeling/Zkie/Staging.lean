import Zkie.PathResolution
import Zkie.RunCompletion

namespace Zkie.Staging

open PathResolution RunState RunDatabase RunDatabase.RunDb RunLifecycle RunInvariants RunBlocking RunCompletion

/-- `staging_root.join(attempt)`, the directory that the worker of an attempt writes into. -/
def staging (root : Text) (attempt : AttemptId) : Text := join root attempt.text.toList

/-- The staging directory with `.` and `..` resolved. -/
def stagingPlace (cwd : List Text) (root : Text) (attempt : AttemptId) : List Text := resolve cwd (staging root attempt)

/-- Every attempt works strictly inside the staging root, and none at or below the directory of another. -/
structure Private (cwd : List Text) (root : Text) (db : RunDb) : Prop where
  inside : ∀ a ∈ db.attempts, Inside (stagingPlace cwd root a.id) (resolve cwd root)
  apart : ∀ a ∈ db.attempts, ∀ b ∈ db.attempts, a.id ≠ b.id →
    ¬stagingPlace cwd root a.id <+: stagingPlace cwd root b.id

/-- What is put behind the id of a job for its attempt `n`. -/
def mark (n : ℕ) : Text := (s!":attempt:{n}").toList

/-- The directory, below the staging root, that the id of a job lies in. -/
def jobHome (cwd : List Text) (root : Text) (job : JobId) : List Text := home (resolve cwd root) job.text.toList

def jobLeaf (job : JobId) : Text := leaf job.text.toList

def Started (row : JobRow) : Prop := 0 < row.attemptCount

/-- The ids of the jobs that have been started do not lead out of the staging root, no two of them lead
to the same place, and none leads through the attempt of another. -/
structure Confined (cwd : List Text) (root : Text) (db : RunDb) : Prop where
  below : ∀ row ∈ db.jobs, Started row → resolve cwd root <+: jobHome cwd root row.id
  separate : ∀ row ∈ db.jobs, ∀ row' ∈ db.jobs, Started row → Started row' → row.id ≠ row'.id →
    jobHome cwd root row.id = jobHome cwd root row'.id → jobLeaf row.id ≠ jobLeaf row'.id
  clear : ∀ row ∈ db.jobs, ∀ row' ∈ db.jobs, Started row' → ∀ n ∈ List.range row.attemptCount,
    ¬jobHome cwd root row.id ++ [jobLeaf row.id ++ mark (n + 1)] <+: jobHome cwd root row'.id

variable {cwd : List Text} {root : Text} {db : RunDb} {row row' : JobRow} {attempt attempt' : AttemptId} {n m : ℕ}

section Marks

theorem mark_eq (n : ℕ) : mark n = ":attempt".toList ++ ':' :: Nat.toDigits 10 n := by
  simp [mark, toString, Nat.repr]

theorem colon_notMem_toDigits (n : ℕ) : ':' ∉ Nat.toDigits 10 n := fun h =>
  absurd (Nat.isDigit_of_mem_toDigits (by decide) (by decide) h) (by decide)

theorem slash_notMem_mark (n : ℕ) : '/' ∉ mark n := by
  rw [mark_eq]
  intro h
  rcases List.mem_append.mp h with h | h
  · exact absurd h (by decide)
  · rcases List.mem_cons.mp h with h | h
    · exact absurd h (by decide)
    · exact absurd (Nat.isDigit_of_mem_toDigits (by decide) (by decide) h) (by decide)

theorem isEntry_mark (name : Text) (n : ℕ) : IsEntry (name ++ mark n) := by
  have hcolon : ':' ∈ name ++ mark n := by simp [mark_eq]
  refine ⟨List.ne_nil_of_mem hcolon, ?_, ?_⟩
  · intro h
    simp [h] at hcolon
  · intro h
    simp [h] at hcolon

/-- What stands before and behind the last colon. -/
theorem colon_inj {a b c d : Text} (hc : ':' ∉ c) (hd : ':' ∉ d) (h : a ++ ':' :: c = b ++ ':' :: d) :
    a = b ∧ c = d := by
  rcases List.append_eq_append_iff.mp h with ⟨t, rfl, htail⟩ | ⟨t, rfl, htail⟩
  · cases t with
    | nil => simpa using htail
    | cons x t =>
      rw [List.cons_append, List.cons.injEq] at htail
      exact absurd (htail.2 ▸ List.mem_append_right t (List.mem_cons_self ..)) hc
  · cases t with
    | nil => simpa [eq_comm] using htail
    | cons x t =>
      rw [List.cons_append, List.cons.injEq] at htail
      exact absurd (htail.2 ▸ List.mem_append_right t (List.mem_cons_self ..)) hd

/-- The number of an attempt and the name before it can be read off. -/
theorem mark_inj {a b : Text} (h : a ++ mark n = b ++ mark m) : a = b ∧ n = m := by
  rw [mark_eq, mark_eq, ← List.append_assoc, ← List.append_assoc] at h
  obtain ⟨hname, hdigits⟩ := colon_inj (colon_notMem_toDigits n) (colon_notMem_toDigits m) h
  have hnumber := congrArg (Nat.ofDigitChars 10 · 0) hdigits
  simp only [Nat.ofDigitChars_ten_toDigits] at hnumber
  exact ⟨List.append_cancel_right hname, hnumber⟩

end Marks

section Attempts

/-- The attempt is number `n` of a job. -/
def IsAttempt (row : JobRow) (n : ℕ) (attempt : AttemptId) : Prop := attempt.text = s!"{row.id.text}:attempt:{n}"

theorem IsAttempt.toList (h : IsAttempt row n attempt) : attempt.text.toList = row.id.text.toList ++ mark n := by
  rw [h, mark, String.toList_append, String.toList_append, String.toList_append, List.append_assoc]
  rfl

/-- An attempt belongs to one job only. -/
theorem IsAttempt.job_eq (h : IsAttempt row n attempt) (h' : IsAttempt row' m attempt) : row.id = row'.id :=
  RunState.Identifier.ext (String.toList_inj.mp (mark_inj (h.toList.symm.trans h'.toList)).1)

theorem text_ne_nil (job : JobId) : job.text.toList ≠ [] := by
  simpa using job.valid.1

/-- A staging directory is an entry of the directory that the id of the job lies in. -/
theorem IsAttempt.stagingPlace (h : IsAttempt row n attempt) :
    stagingPlace cwd root attempt = jobHome cwd root row.id ++ [jobLeaf row.id ++ mark n] := by
  rw [Staging.stagingPlace, staging, resolve_join, h.toList]
  exact resolve_append_suffix (text_ne_nil row.id) (slash_notMem_mark n) (isEntry_mark _ n)

theorem exists_row_of_attempt (hdb : Grounded db) {a : AttemptRow} (ha : a ∈ db.attempts) :
    ∃ row ∈ db.jobs, ∃ n < row.attemptCount, IsAttempt row (n + 1) a.id := by
  have hmem : a ∈ db.attemptsOf a.job := List.mem_filter.mpr ⟨ha, by simp⟩
  obtain ⟨habsent, hpresent⟩ := hdb.attempts a.job
  cases hrow : db.job? a.job with
  | none =>
    have hempty : db.attemptsOf a.job = [] := habsent hrow
    rw [hempty] at hmem
    cases hmem
  | some row =>
    have hids := (hpresent row hrow).ids
    have hid : a.id.text ∈ (db.attemptsOf a.job).map fun a => a.id.text := List.mem_map_of_mem hmem
    rw [show (db.attemptsOf a.job).map (fun a => a.id.text) = _ from hids] at hid
    obtain ⟨n, hn, htext⟩ := List.mem_map.mp hid
    exact ⟨row, mem_jobs_of_job? hrow, n, List.mem_range.mp hn, htext.symm⟩

theorem exists_attempt_of_row (hdb : Grounded db) (hrow : row ∈ db.jobs) (hn : n < row.attemptCount) :
    ∃ a ∈ db.attempts, IsAttempt row (n + 1) a.id := by
  have hids := ((hdb.attempts row.id).2 row (job?_of_mem hdb.ids hrow)).ids
  have hid : s!"{row.id.text}:attempt:{n + 1}" ∈ (List.range row.attemptCount).map fun n =>
      s!"{row.id.text}:attempt:{n + 1}" := List.mem_map_of_mem (List.mem_range.mpr hn)
  rw [← hids] at hid
  obtain ⟨a, ha, htext⟩ := List.mem_map.mp hid
  exact ⟨a, (List.mem_filter.mp ha).1, htext⟩

end Attempts

section Privacy

/-- Two attempts share a directory, or one works below the other, exactly as the ids of their jobs say. -/
theorem stagingPlace_prefix_iff (h : IsAttempt row n attempt) (h' : IsAttempt row' m attempt') :
    stagingPlace cwd root attempt <+: stagingPlace cwd root attempt' ↔
      (jobHome cwd root row.id = jobHome cwd root row'.id ∧ jobLeaf row.id = jobLeaf row'.id ∧ n = m) ∨
        jobHome cwd root row.id ++ [jobLeaf row.id ++ mark n] <+: jobHome cwd root row'.id := by
  have hmark : jobLeaf row.id ++ mark n = jobLeaf row'.id ++ mark m ↔ jobLeaf row.id = jobLeaf row'.id ∧ n = m := by
    constructor
    · exact mark_inj
    · rintro ⟨hleaf, rfl⟩
      rw [hleaf]
  rw [h.stagingPlace, h'.stagingPlace, append_singleton_prefix_append_singleton, hmark]

theorem confined_of_private (hdb : Grounded db) (h : Private cwd root db) : Confined cwd root db where
  below := by
    intro row hrow hstarted
    obtain ⟨a, ha, hattempt⟩ := exists_attempt_of_row hdb hrow hstarted
    have hinside := h.inside a ha
    rw [hattempt.stagingPlace] at hinside
    exact inside_append_singleton.mp hinside
  separate := by
    intro row hrow row' hrow' hstarted hstarted' hne hhome hleaf
    obtain ⟨a, ha, hattempt⟩ := exists_attempt_of_row hdb hrow hstarted
    obtain ⟨b, hb, hattempt'⟩ := exists_attempt_of_row hdb hrow' hstarted'
    refine h.apart a ha b hb ?_ ((stagingPlace_prefix_iff hattempt hattempt').mpr (.inl ⟨hhome, hleaf, rfl⟩))
    intro hsame
    exact hne (hattempt.job_eq (hsame ▸ hattempt'))
  clear := by
    intro row hrow row' hrow' hstarted' n hn hunder
    obtain ⟨a, ha, hattempt⟩ := exists_attempt_of_row hdb hrow (List.mem_range.mp hn)
    obtain ⟨b, hb, hattempt'⟩ := exists_attempt_of_row hdb hrow' hstarted'
    have hnested := (stagingPlace_prefix_iff hattempt hattempt').mpr (.inr hunder)
    refine h.apart a ha b hb ?_ hnested
    intro hsame
    rw [hattempt.job_eq (hsame ▸ hattempt')] at hunder
    exact not_append_prefix hunder

theorem private_of_confined (hdb : Grounded db) (h : Confined cwd root db) : Private cwd root db where
  inside := by
    intro a ha
    obtain ⟨row, hrow, n, hn, hattempt⟩ := exists_row_of_attempt hdb ha
    rw [hattempt.stagingPlace]
    exact inside_append_singleton.mpr (h.below row hrow (Nat.zero_lt_of_lt hn))
  apart := by
    intro a ha b hb hne hunder
    obtain ⟨row, hrow, n, hn, hattempt⟩ := exists_row_of_attempt hdb ha
    obtain ⟨row', hrow', m, hm, hattempt'⟩ := exists_row_of_attempt hdb hb
    have hstarted : Started row := Nat.zero_lt_of_lt hn
    have hstarted' : Started row' := Nat.zero_lt_of_lt hm
    rcases (stagingPlace_prefix_iff hattempt hattempt').mp hunder with ⟨hhome, hleaf, hnumber⟩ | hnested
    · by_cases hjob : row.id = row'.id
      · apply hne
        apply RunState.Identifier.ext
        rw [hattempt, hattempt', hjob, hnumber]
      · exact h.separate row hrow row' hrow' hstarted hstarted' hjob hhome hleaf
    · exact h.clear row hrow row' hrow' hstarted' n (List.mem_range.mpr hn) hnested

/-- In every state of every run the staging directories are private exactly if the ids of the started jobs are
confined. -/
theorem staging_private_iff (cwd : List Text) (root : Text) (runId : String) (ops : List Op) :
    Private cwd root (runOps (RunDb.empty runId) ops) ↔ Confined cwd root (runOps (RunDb.empty runId) ops) :=
  ⟨confined_of_private (runOps_grounded runId ops), private_of_confined (runOps_grounded runId ops)⟩

/-- Ids without a separator keep every attempt in a directory of its own right below the staging root. -/
theorem staging_private_of_plain (cwd : List Text) (root : Text) (runId : String) (ops : List Op)
    (hplain : ∀ row ∈ (runOps (RunDb.empty runId) ops).jobs, '/' ∉ row.id.text.toList) :
    Private cwd root (runOps (RunDb.empty runId) ops) := by
  have hhome (row : JobRow) (hrow : row ∈ (runOps (RunDb.empty runId) ops).jobs) :
      jobHome cwd root row.id = resolve cwd root := home_of_notMem (hplain row hrow)
  apply private_of_confined (runOps_grounded runId ops)
  constructor
  · intro row hrow _
    exact (hhome row hrow).symm ▸ List.prefix_rfl
  · intro row hrow row' hrow' _ _ hne _ hleaf
    rw [jobLeaf, jobLeaf, leaf_of_notMem (hplain row hrow), leaf_of_notMem (hplain row' hrow')] at hleaf
    exact hne (RunState.Identifier.ext (String.toList_inj.mp hleaf))
  · intro row hrow row' hrow' _ n _
    rw [hhome row hrow, hhome row' hrow']
    exact not_append_prefix

/-- One job, whose id climbs out of the staging root. -/
def climbing : List Op :=
  [.insertJob "/../../x" .witness, .refreshReadiness, .beginAttempt ⟨"run:/../../x", by decide⟩ .startWitnessing]

theorem staging_escapes : ¬∀ (cwd : List Text) (root : Text) (runId : String) (ops : List Op),
    Private cwd root (runOps (RunDb.empty runId) ops) := by
  intro h
  have hinside := (h [] "/srv/staging".toList "run" climbing).inside
  have houtside : ∃ a ∈ (runOps (RunDb.empty "run") climbing).attempts,
      stagingPlace [] "/srv/staging".toList a.id = ["srv".toList, "x:attempt:1".toList] := by
    decide +kernel
  obtain ⟨a, ha, hplace⟩ := houtside
  obtain ⟨hunder, -⟩ := hinside a ha
  rw [hplace] at hunder
  have hroot : resolve [] "/srv/staging".toList = ["srv".toList, "staging".toList] := by decide +kernel
  rw [hroot] at hunder
  exact absurd hunder (by decide)

end Privacy

end Zkie.Staging
