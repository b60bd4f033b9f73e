import Zkie.RunInvariants

namespace Zkie.RunBlocking

open RunState Transaction RunDatabase RunDatabase.RunDb RunLifecycle RunInvariants

variable {db db' : RunDb} {S F G : Prop} {π : Policy} {v v' : JobView} {row row' : JobRow} {job i : JobId}

section Marks

/-- The states of a job that has failed for good. -/
def IsFailure (s : JobState) : Prop :=
  s ∈ [JobState.executionFailed, .resourceExceeded, .verificationFailed, .blocked]

instance (s : JobState) : Decidable (IsFailure s) := inferInstanceAs (Decidable (_ ∈ _))

theorem not_isLive_of_isFailure {s : JobState} (h : IsFailure s) : ¬IsLive s := by
  simp only [IsFailure, List.mem_cons, List.not_mem_nil, or_false] at h
  rcases h with rfl | rfl | rfl | rfl <;> decide

/-- What a move makes of a job: a marked failure, a job in another state with the mark it had, or, where
it is skipped, a blocked job with the mark it had. -/
theorem Move.mark_cases (h : Move S F G v row v') : ∃ row', v'.row = some row' ∧
    (G ∧ row'.terminalFailure = true ∧ IsFailure row'.state ∨
      row'.terminalFailure = row.terminalFailure ∧ row'.state ≠ .blocked ∧ row'.state ≠ .verificationFailed ∨
      F ∧ row'.terminalFailure = row.terminalFailure ∧ row'.state = .blocked) := by
  have hplain : ∀ {row' : JobRow} {s : JobState}, row'.terminalFailure = row.terminalFailure → row'.state = s →
      s ∉ [JobState.blocked, .verificationFailed] →
      row'.terminalFailure = row.terminalFailure ∧ row'.state ≠ .blocked ∧ row'.state ≠ .verificationFailed := by
    rintro row' _ hmark rfl hs
    exact ⟨hmark, fun h => hs (by simp [h]), fun h => hs (by simp [h])⟩
  cases h with
  | ready => exact ⟨_, rfl, .inr (.inl (hplain rfl (s := .ready) rfl (by decide)))⟩
  | skip p hwaiting hF => exact ⟨_, rfl, .inr (.inr ⟨hF, rfl, rfl⟩)⟩
  | block p hwaiting hG => exact ⟨_, rfl, .inl ⟨hG, rfl, show IsFailure .blocked by decide⟩⟩
  | begin event a hstart hkind hopen hid hfinished hstate =>
      have hactive := startsAttempt_active hstart hstate
      refine ⟨_, rfl, .inr (.inl (hplain rfl (s := a.state) rfl fun hmem => ?_))⟩
      simp only [List.mem_cons, List.not_mem_nil, or_false] at hmem
      rcases hmem with hs | hs <;> rw [hs] at hactive <;> exact absurd hactive (by decide)
  | complete event next attempt hevent hopen hstate =>
      refine ⟨_, rfl, .inr (.inl (hplain rfl (s := next) rfl ?_))⟩
      rw [(JobState.transition_eq_ok.mp hstate).2]
      cases event with
      | witnessCompleted | preparationCompleted | proofProduced => decide
      | interrupted f => exact show JobState.interrupted ∉ _ by decide
      | _ => exact absurd hevent id
  | retry isResource =>
      refine ⟨_, rfl, .inr (.inl (hplain ?_ (s := .requeued) rfl (by decide)))⟩
      cases isResource <;> rfl
  | exhaust isResource failure failed attempt hopen hstate hretries hG =>
      refine ⟨_, rfl, .inl ⟨hG, rfl, ?_⟩⟩
      change IsFailure failed
      rw [(JobState.transition_eq_ok.mp hstate).2]
      cases isResource
      · exact show IsFailure .executionFailed by decide
      · exact show IsFailure .resourceExceeded by decide
  | reject failure attempt hsource hstate hG => exact ⟨_, rfl, .inl ⟨hG, rfl, show IsFailure .verificationFailed by decide⟩⟩
  | recover => exact ⟨_, rfl, .inr (.inl (hplain rfl (s := .requeued) rfl (by decide)))⟩
  | verify => exact ⟨_, rfl, .inr (.inl (hplain rfl (s := .verified) rfl (by decide)))⟩

/-- Only jobs that have failed for good are marked. -/
def MarkSound (v : JobView) : Prop := ∀ row, v.row = some row → row.terminalFailure = true → IsFailure row.state

theorem MarkSound.move (hv : MarkSound v) (hrow : v.row = some row) (h : Move S F G v row v') : MarkSound v' := by
  intro row' hrow' hmark
  obtain ⟨row'', hrow'', hcases⟩ := Move.mark_cases h
  obtain rfl := Option.some_inj.mp (hrow''.symm.trans hrow')
  -- a marked job is not live, so it does not move
  have hunmarked : row.terminalFailure ≠ true := fun hm =>
    not_isLive_of_isFailure (hv row hrow hm) (Move.isLive h)
  rcases hcases with ⟨-, -, hs⟩ | ⟨hm, -⟩ | ⟨-, hm, -⟩
  · exact hs
  · exact absurd (hm.symm.trans hmark) hunmarked
  · exact absurd (hm.symm.trans hmark) hunmarked

theorem MarkSound.insert (hnew : IsNew row) : MarkSound { v with row := some row } := by
  intro row' hrow hmark
  obtain rfl := Option.some_inj.mp hrow
  cases hnew.terminal.symm.trans hmark

theorem DbStep.markSound (h : DbStep π db db') (hdb : ∀ i, MarkSound (view db i)) (i : JobId) :
    MarkSound (view db' i) := by
  obtain hview | ⟨row, hnew, -, -, hview⟩ | ⟨row, hrow, hm⟩ := DbStep.view_cases h i
  · exact hview ▸ hdb i
  · exact hview ▸ MarkSound.insert hnew
  · exact (hdb i).move hrow hm

/-- Every job that failed verification or is blocked is marked. -/
def Marked (v : JobView) : Prop :=
  ∀ row, v.row = some row → row.state = .blocked ∨ row.state = .verificationFailed → row.terminalFailure = true

theorem DbStep.marked (h : DbStep π db db') (hπ : ¬π.skips) (hdb : Marked (view db i)) : Marked (view db' i) := by
  obtain hview | ⟨row, hnew, -, -, hview⟩ | ⟨row, hrow, hm⟩ := DbStep.view_cases h i
  · exact hview ▸ hdb
  · intro row' hrow hstate
    obtain rfl := Option.some_inj.mp ((congrArg JobView.row hview).symm.trans hrow)
    rw [hnew.pending] at hstate
    exact absurd hstate (by decide)
  · intro row' hrow' hstate
    obtain ⟨row'', hrow'', hcases⟩ := Move.mark_cases hm
    obtain rfl := Option.some_inj.mp (hrow''.symm.trans hrow')
    rcases hcases with ⟨-, hmark, -⟩ | ⟨-, hb, hv⟩ | ⟨hskip, -⟩
    · exact hmark
    · exact absurd hstate (by simp [hb, hv])
    · exact absurd hskip.1 hπ

theorem Steps.marked (h : Steps π db db') (hπ : ¬π.skips) (hdb : Marked (view db i)) : Marked (view db' i) := by
  induction h with
  | refl => exact hdb
  | tail _ hstep ih => exact DbStep.marked hstep hπ ih

end Marks

section Sweep

/-- No waiting job has a predecessor that failed for good. -/
def Clear (db : RunDb) : Prop := ∀ row ∈ db.jobs, IsWaiting row.state → ¬HasFailed db row.id

theorem mem_jobs_of_job? (h : db.job? job = some row) : row ∈ db.jobs := List.mem_of_find?_eq_some h

theorem job?_of_mem (hids : (db.jobs.map JobRow.id).Nodup) (h : row ∈ db.jobs) : db.job? row.id = some row := by
  obtain ⟨found, hfound⟩ : ∃ found, db.job? row.id = some found :=
    Option.isSome_iff_exists.mp (List.find?_isSome.mpr ⟨row, h, by simp⟩)
  rw [hfound, List.inj_on_of_nodup_map hids (mem_jobs_of_job? hfound) h (job?_id hfound)]

theorem Clear.not_hasFailed (h : Clear db) (hrow : db.job? job = some row) (hwaiting : IsWaiting row.state) :
    ¬HasFailed db job := job?_id hrow ▸ h row (mem_jobs_of_job? hrow) hwaiting

/-- The row of a job that is ready. -/
abbrev readyRow : JobRow → JobRow := rowAfter .dependenciesSatisfied .ready none

/-- `db'` is `db` with some of its satisfied jobs made ready. -/
structure Readied (db db' : RunDb) : Prop where
  deps : db'.dependencies = db.dependencies
  rows : ∀ i, db'.job? i = db.job? i ∨ ∃ row, db.job? i = some row ∧ IsWaiting row.state ∧ Satisfied db i ∧
    db'.job? i = some (readyRow row)

theorem Readied.satisfied_iff (h : Readied db db') (i : JobId) : Satisfied db' i ↔ Satisfied db i := by
  unfold Satisfied predecessors
  rw [h.deps]
  refine forall_congr' fun p => forall_congr' fun _ => ?_
  obtain hrow | ⟨row, hrow, hwaiting, -, hrow'⟩ := h.rows p
  · rw [hrow]
  · rw [hrow, hrow']
    constructor
    · intro h
      exact absurd (h _ rfl) (show JobState.ready ≠ .verified by decide)
    · intro h
      have hverified := h _ rfl
      rw [hverified] at hwaiting
      exact absurd hwaiting (by decide)

theorem Readied.hasFailed (h : Readied db db') (hfailed : HasFailed db' i) : HasFailed db i := by
  obtain ⟨p, hp, row', hrow', hrow'failed⟩ := hfailed
  unfold predecessors at hp
  rw [h.deps] at hp
  obtain hrow | ⟨row, hrow, -, -, hready⟩ := h.rows p
  · exact ⟨p, hp, row', hrow ▸ hrow', hrow'failed⟩
  · obtain rfl := Option.some_inj.mp (hready.symm.trans hrow')
    refine ⟨p, hp, row, hrow, ?_⟩
    rcases hrow'failed with h | h | h
    · exact .inl h
    · cases h
    · cases h

/-- One candidate of a sweep over a clear database. -/
theorem refreshJob_readied {count count' : ℕ} {db₀ : RunDb} (hclear : Clear db₀) (hready : Readied db₀ db)
    (h : refreshJob count job db = .ok (count', db')) :
    (¬Satisfied db₀ job ∧ db' = db) ∨
      ∃ row, db.job? job = some row ∧ IsWaiting row.state ∧ Satisfied db₀ job ∧ db' = settled job .ready readyRow db := by
  obtain ⟨row, hrow, hwaiting, hs, rfl⟩ | ⟨row, p, hrow, hwaiting, -, hf, rfl⟩ | ⟨hs, -, rfl⟩ := refreshJob_ok h
  · exact .inr ⟨row, hrow, hwaiting, (hready.satisfied_iff job).mp hs, rfl⟩
  · obtain hsame | ⟨row₀, hrow₀, -, -, hrow'⟩ := hready.rows job
    · exact absurd (hready.hasFailed hf) (hclear.not_hasFailed (hsame ▸ hrow) hwaiting)
    · obtain rfl := Option.some_inj.mp (hrow'.symm.trans hrow)
      exact absurd hwaiting (show ¬IsWaiting JobState.ready by decide)
  · exact .inl ⟨fun h => hs ((hready.satisfied_iff job).mpr h), rfl⟩

theorem Readied.settled {db₀ : RunDb} (hready : Readied db₀ db) (hrow : db.job? job = some row)
    (hwaiting : IsWaiting row.state) (hs : Satisfied db₀ job) : Readied db₀ (settled job .ready readyRow db) := by
  refine ⟨hready.deps, fun i => ?_⟩
  rw [job?_settled rowAfter_id]
  by_cases hi : i = job
  · subst hi
    rw [if_pos rfl, hrow]
    obtain hsame | ⟨row₀, hrow₀, -, -, hrow'⟩ := hready.rows i
    · exact .inr ⟨row, hsame ▸ hrow, hwaiting, hs, rfl⟩
    · obtain rfl := Option.some_inj.mp (hrow'.symm.trans hrow)
      exact absurd hwaiting (show ¬IsWaiting JobState.ready by decide)
  · rw [if_neg hi]
    exact hready.rows i

/-- The sweep of a clear database makes exactly the waiting jobs ready whose predecessors are verified. -/
theorem refreshReadiness_clear {count : ℕ} (hclear : Clear db) (h : refreshReadiness db = .ok (count, db')) :
    Steps π db db' ∧ Readied db db' ∧
      ∀ i row, db'.job? i = some row → IsWaiting row.state → ¬Satisfied db i := by
  have hmem : ∀ i row, db.job? i = some row → IsWaiting row.state →
      i ∈ sortIds ((db.jobs.filter fun row => IsWaiting row.state).map JobRow.id) := by
    intro i row hrow hwaiting
    refine (List.perm_insertionSort IdLe _).mem_iff.mpr (List.mem_map.mpr ⟨row, ?_, job?_id hrow⟩)
    exact List.mem_filter.mpr ⟨mem_jobs_of_job? hrow, decide_eq_true hwaiting⟩
  have hloop := foldEach_invariant (I := fun rest _ s => Steps π db s ∧ Readied db s ∧
    ∀ i row, s.job? i = some row → IsWaiting row.state → i ∉ rest → ¬Satisfied db i) ?_ (refreshReadiness_eq_ok.mp h)
    ⟨.refl, ⟨rfl, fun _ => .inl rfl⟩, fun i row hrow hwaiting hi => absurd (hmem i row hrow hwaiting) hi⟩
  · exact ⟨hloop.1, hloop.2.1, fun i row hrow hwaiting => hloop.2.2 i row hrow hwaiting List.not_mem_nil⟩
  · rintro job rest _ s _ s' ⟨hsteps, hready, hdone⟩ hjob
    obtain ⟨hs, rfl⟩ | ⟨row, hrow, hwaiting, hs, rfl⟩ := refreshJob_readied hclear hready hjob
    · refine ⟨hsteps, hready, fun i row hrow hwaiting hi => ?_⟩
      by_cases hij : i = job
      · exact hij ▸ hs
      · exact hdone i row hrow hwaiting (by simp [hij, hi])
    · have hstep : DbStep π s (settled job .ready readyRow s) :=
        .of_settled rowAfter_id hrow (.ready hwaiting ((hready.satisfied_iff job).mpr hs))
      refine ⟨hsteps.tail hstep, hready.settled hrow hwaiting hs, fun i row' hrow' hwaiting' hi => ?_⟩
      rw [job?_settled rowAfter_id] at hrow'
      by_cases hij : i = job
      · rw [if_pos hij, hij, hrow] at hrow'
        obtain rfl := Option.some_inj.mp hrow'
        exact absurd hwaiting' (show ¬IsWaiting JobState.ready by decide)
      · rw [if_neg hij] at hrow'
        exact hdone i row' hrow' hwaiting' (by simp [hij, hi])

end Sweep

section FailureMarks

/-- Every readiness sweep of the run starts from a clear database. -/
def SweepsClear : RunDb → List Op → Prop
  | _, [] => True
  | db, op :: ops => (op.IsSweep → Clear db) ∧ SweepsClear (op.run db) ops

/-- A policy without sweeps that skip. -/
def noSkips : Policy := ⟨False, True, True, True⟩

/-- A sweep that starts from a clear database skips nothing. -/
theorem Op.run_steps_of_clear {op : Op} (hunique : UniqueAttempts db) (hclear : op.IsSweep → Clear db) :
    Steps noSkips db (op.run db) := by
  by_cases hsweep : op.IsSweep
  · rcases Op.run_cases db op with h | h
    · cases op with
      | refreshReadiness =>
          obtain ⟨count, h⟩ := snd_map_eq_ok.mp h
          exact (refreshReadiness_clear (hclear trivial) h).1
      | _ => exact absurd hsweep id
    · rw [h]
  · exact Op.run_steps ⟨hsweep, fun _ => trivial, fun _ => trivial, fun _ => trivial⟩ hunique

theorem runOps_marked {ops : List Op} (hunique : UniqueAttempts db) (hdb : Marked (view db i))
    (hclear : SweepsClear db ops) : Marked (view (runOps db ops) i) := by
  induction ops generalizing db with
  | nil => exact hdb
  | cons op ops ih =>
      have hsteps := Op.run_steps_of_clear hunique hclear.1
      exact ih (hsteps.uniqueAttempts hunique) (Steps.marked hsteps id hdb) hclear.2

theorem runOps_markSound (runId : String) (ops : List Op) (i : JobId) :
    MarkSound (view (runOps (RunDb.empty runId) ops) i) :=
  runOps_views (P := fun _ => MarkSound) (fun _ _ h => by cases h) (fun _ _ _ _ _ hnew _ => .insert hnew)
    (fun _ _ _ _ _ _ _ hv hrow _ hm => hv.move hrow hm) runId ops i

theorem runOps_append_steps (runId : String) (ops later : List Op) :
    Steps .all (runOps (RunDb.empty runId) ops) (runOps (RunDb.empty runId) (ops ++ later)) := by
  have hsteps : Steps .all (RunDb.empty runId) (runOps (RunDb.empty runId) ops) :=
    runOps_steps (empty_uniqueAttempts runId)
  rw [runOps, runOps, List.foldl_append]
  exact runOps_steps (hsteps.uniqueAttempts (empty_uniqueAttempts runId))

/-- In every run whose sweeps all start from a clear database, the jobs that are blocked or failed
verification are marked. In every run, only jobs that failed for good are marked, and no later operation moves
a marked job. -/
theorem failure_marks (runId : String) (ops : List Op) (job : JobId) (row : JobRow)
    (hrow : (runOps (RunDb.empty runId) ops).job? job = some row) :
    (SweepsClear (RunDb.empty runId) ops →
        row.state = .blocked ∨ row.state = .verificationFailed → row.terminalFailure = true) ∧
      (row.terminalFailure = true → IsFailure row.state) ∧
      (row.terminalFailure = true → ∀ later,
        ((runOps (RunDb.empty runId) (ops ++ later)).job? job).map JobRow.state = some row.state) := by
  have hsound := runOps_markSound runId ops job row hrow
  refine ⟨fun hclear => ?_, hsound, fun hmark later => ?_⟩
  · exact runOps_marked (empty_uniqueAttempts runId) (fun _ h => by cases h) hclear row hrow
  · have hview := Steps.view_eq_of_final (runOps_append_steps runId ops later) hrow
      (not_isLive_of_isFailure (hsound hmark))
    have hrow' := (congrArg JobView.row hview).trans hrow
    rw [show (runOps (RunDb.empty runId) (ops ++ later)).job? job = some row from hrow', Option.map_some]

def failedJob : JobId := ⟨"r:a", by decide⟩

def lateJob : JobId := ⟨"r:b", by decide⟩

/-- A verification fails; later a job is added that depends on it. -/
def lateSuccessor : List Op :=
  [.insertJob "a" .leafVerification, .refreshReadiness, .beginAttempt failedJob .startVerification,
    .failVerification failedJob ⟨"r:a:attempt:1", by decide⟩ (.new .verification .verify .invalidResult),
    .insertJob "b" .witness, .addDependency failedJob lateJob, .refreshReadiness]

theorem clear_of_no_dependencies (h : db.dependencies = []) : Clear db := by
  rintro row - - ⟨p, hp, -⟩
  simp [predecessors, h] at hp

theorem failure_marks_lateSuccessor : ∃ row,
    (runOps (RunDb.empty "r") (lateSuccessor.take 4)).job? failedJob = some row ∧ row.terminalFailure = true := by
  have hjob : ((runOps (RunDb.empty "r") (lateSuccessor.take 4)).job? failedJob).map JobRow.state =
      some .verificationFailed := by decide +kernel
  obtain ⟨row, hrow, hstate⟩ := Option.map_eq_some_iff.mp hjob
  have hclear : SweepsClear (RunDb.empty "r") (lateSuccessor.take 4) :=
    ⟨False.elim, fun _ => clear_of_no_dependencies rfl, False.elim, False.elim, trivial⟩
  exact ⟨row, hrow, (failure_marks "r" _ failedJob row hrow).1 hclear (.inr hstate)⟩

/-- A sweep blocks the job that was added late, and does not mark it. -/
theorem lateSuccessor_unmarked :
    ¬∀ (runId : String) (ops : List Op) (job : JobId) (row : JobRow),
      (runOps (RunDb.empty runId) ops).job? job = some row → row.state = .blocked ∨ row.state = .verificationFailed →
      row.terminalFailure = true := by
  intro h
  have hjob : ((runOps (RunDb.empty "r") lateSuccessor).job? lateJob).map
      (fun row => (row.state, row.terminalFailure)) = some (.blocked, false) := by decide +kernel
  obtain ⟨row, hrow, heq⟩ := Option.map_eq_some_iff.mp hjob
  have hmark := h "r" lateSuccessor lateJob row hrow (.inl (congrArg Prod.fst heq))
  cases hmark.symm.trans (congrArg Prod.snd heq)

end FailureMarks

section Closure

/-- A move makes the job ready or blocked, or the job was past waiting. -/
theorem Move.waiting_cases (h : Move S F G v row v') :
    S ∨ (∃ row', v'.row = some row' ∧ row'.state = .blocked) ∨ ¬IsWaiting row.state := by
  have hactive : row.state.IsActive → ¬IsWaiting row.state := by
    intro ha hw
    rcases hw with hw | hw <;> rw [hw] at ha <;> exact absurd ha (by decide)
  have hsource : ∀ {attempt}, Source v row attempt → ¬IsWaiting row.state := by
    rintro attempt (⟨⟨-, hs⟩, -⟩ | ⟨hs, -⟩) hw
    · rw [hs] at hw
      exact absurd hw (by decide)
    · rcases hw with hw | hw <;> rw [VerifiesFinished, hw] at hs <;> simp at hs
  cases h with
  | ready _ hS => exact .inl hS
  | skip | block => exact .inr (.inl ⟨_, rfl, rfl⟩)
  | begin event a hstart hkind hopen hid hfinished hstate =>
      have hmem := (JobState.transition_eq_ok.mp hstate).1
      refine .inr (.inr fun hw => ?_)
      simp only [JobEvent.StartsAttempt, List.mem_cons, List.not_mem_nil, or_false] at hstart
      rcases hstart with rfl | rfl | rfl | rfl <;> rcases hw with hw | hw <;> rw [hw] at hmem <;>
        exact absurd hmem (by decide)
  | complete event next attempt hevent hopen hstate =>
      exact .inr (.inr (hactive (active_of_attemptEvent hevent hstate)))
  | retry _ _ _ _ _ hstate | exhaust _ _ _ _ _ hstate => exact .inr (.inr (hactive (active_of_failureEvent hstate)))
  | reject failure attempt hs | verify record artifacts keys hjob hs => exact .inr (.inr (hsource hs))
  | recover failure ha => exact .inr (.inr (hactive ha))

/-- Only an active job is queued again. -/
theorem Move.active_of_waiting (h : Move S F G v row v') (hrow' : v'.row = some row') (hwaiting : IsWaiting row'.state) :
    row.state.IsActive := by
  cases h with
  | ready | skip | block | reject | verify =>
      obtain rfl := Option.some_inj.mp hrow'
      rcases hwaiting with h | h <;> cases h
  | begin event a hstart hkind hopen hid hfinished hstate =>
      obtain rfl := Option.some_inj.mp hrow'
      have ha := startsAttempt_active hstart hstate
      rcases hwaiting with h | h <;> rw [show a.state = _ from h] at ha <;> exact absurd ha (by decide)
  | complete event next attempt hevent hopen hstate => exact active_of_attemptEvent hevent hstate
  | retry _ _ _ _ _ hstate | exhaust _ _ _ _ _ hstate => exact active_of_failureEvent hstate
  | recover failure ha => exact ha

/-- The dependencies join jobs of the run, and a job has only got past waiting once its predecessors were
verified. -/
structure Linked (db : RunDb) : Prop where
  ids : (db.jobs.map JobRow.id).Nodup
  ends : ∀ d ∈ db.dependencies, (db.job? d.1).isSome ∧ (db.job? d.2).isSome
  marks : ∀ i, MarkSound (view db i)
  earned : ∀ d ∈ db.dependencies, ∀ successor, db.job? d.2 = some successor → successor.state ≠ .pending →
    successor.state ≠ .blocked → ∀ predecessor, db.job? d.1 = some predecessor → predecessor.state = .verified

def AllPending (db : RunDb) : Prop := ∀ row ∈ db.jobs, row.state = .pending

theorem Linked.not_failed (h : Linked db) (hrow : db.job? job = some row) (hverified : row.state = .verified) :
    ¬IsFailed row := by
  rintro (hmark | hs | hs)
  · exact absurd (hverified ▸ h.marks job row hrow hmark) (by decide)
  · cases hverified.symm.trans hs
  · cases hverified.symm.trans hs

theorem DbStep.job?_isSome (h : DbStep π db db') (hrow : (db.job? i).isSome) : (db'.job? i).isSome := by
  obtain hview | ⟨row, -, -, hnone, -⟩ | ⟨row, -, hm⟩ := DbStep.view_cases h i
  · rw [show db'.job? i = db.job? i from congrArg JobView.row hview]
    exact hrow
  · rw [hnone] at hrow
    cases hrow
  · obtain ⟨row', hrow', -⟩ := Move.mark_cases hm
    exact Option.isSome_of_eq_some hrow'

theorem DbStep.job?_of_verified (h : DbStep π db db') (hrow : db.job? i = some row) (hverified : row.state = .verified) :
    db'.job? i = some row := by
  have hview := Steps.view_eq_of_final (.single h) hrow (by rw [hverified]; decide)
  exact (congrArg JobView.row hview).trans hrow

theorem DbStep.earned (h : DbStep π db db') (hdb : Linked db) {d : JobId × JobId} (hd : d ∈ db.dependencies)
    {successor predecessor : JobRow} (hs : db'.job? d.2 = some successor) (hpending : successor.state ≠ .pending)
    (hblocked : successor.state ≠ .blocked) (hp : db'.job? d.1 = some predecessor) : predecessor.state = .verified := by
  obtain ⟨p₀, hp₀⟩ := Option.isSome_iff_exists.mp (hdb.ends d hd).1
  suffices hverified : p₀.state = .verified by
    rw [DbStep.job?_of_verified h hp₀ hverified] at hp
    rw [← Option.some_inj.mp hp, hverified]
  obtain hview | ⟨row, -, -, hnone, -⟩ | ⟨row, hrow, hm⟩ := DbStep.view_cases h d.2
  · exact hdb.earned d hd successor ((congrArg JobView.row hview).symm.trans hs) hpending hblocked p₀ hp₀
  · have hsome := (hdb.ends d hd).2
    rw [hnone] at hsome
    cases hsome
  · obtain hsat | ⟨row', hrow', hstate⟩ | hpast := Move.waiting_cases hm
    · refine hsat d.1 ?_ p₀ hp₀
      exact List.mem_map.mpr ⟨d, List.mem_filter.mpr ⟨hd, by simp⟩, rfl⟩
    · rw [Option.some_inj.mp (hs.symm.trans hrow')] at hblocked
      exact absurd hstate hblocked
    · refine hdb.earned d hd row hrow (fun h => hpast (.inl h)) (fun h => ?_) p₀ hp₀
      exact absurd (h ▸ Move.isLive hm) (by decide)

/-- Every new dependency is one of a job that is still pending. -/
def JoinsPending (db db' : RunDb) : Prop :=
  ∀ d ∈ db'.dependencies, d ∉ db.dependencies → ∀ row, db.job? d.2 = some row → row.state = .pending

theorem AllPending.joinsPending (h : AllPending db) : JoinsPending db db' := fun _ _ _ row hrow =>
  h row (mem_jobs_of_job? hrow)

theorem DbStep.linked (h : DbStep π db db') (hπ : π.links → JoinsPending db db') (hdb : Linked db) : Linked db' := by
  have hmarks := DbStep.markSound h hdb.marks
  have hsome := fun i => DbStep.job?_isSome (i := i) h
  have hearned : ∀ d ∈ db.dependencies, ∀ s, db'.job? d.2 = some s → s.state ≠ .pending → s.state ≠ .blocked →
      ∀ p, db'.job? d.1 = some p → p.state = .verified :=
    fun d hd s hs h₁ h₂ p hp => DbStep.earned h hdb hd hs h₁ h₂ hp
  cases h with
  | insert row _ hfresh =>
      refine ⟨?_, fun d hd => ⟨hsome _ (hdb.ends d hd).1, hsome _ (hdb.ends d hd).2⟩, hmarks,
        hearned⟩
      rw [List.map_append]
      refine hdb.ids.append (List.nodup_singleton _) fun id hid hrow => ?_
      obtain ⟨r, hr, rfl⟩ := List.mem_map.mp hid
      exact (hfresh r hr).1 (List.mem_singleton.mp hrow)
  | history => exact ⟨hdb.ids, hdb.ends, hmarks, hdb.earned⟩
  | edge p s hlink hp hs hne hnew =>
      refine ⟨hdb.ids, fun d hd => ?_, hmarks, fun d hd srow hsrow hpending hblocked prow hprow => ?_⟩
      · rcases List.mem_append.mp hd with hd | hd
        · exact hdb.ends d hd
        · rw [List.mem_singleton.mp hd]
          exact ⟨hp, hs⟩
      · by_cases hold : d ∈ db.dependencies
        · exact hdb.earned d hold srow hsrow hpending hblocked prow hprow
        · exact absurd (hπ hlink d hd hold srow hsrow) hpending
  | move job row _ hrow hmove hframe hids hdeps =>
      refine ⟨hids ▸ hdb.ids, fun d hd => ?_, hmarks, fun d hd s hs h₁ h₂ p hp => ?_⟩
      · rw [hdeps] at hd
        exact ⟨hsome _ (hdb.ends d hd).1, hsome _ (hdb.ends d hd).2⟩
      · exact hearned d (hdeps ▸ hd) s hs h₁ h₂ p hp

theorem Steps.linked (h : Steps π db db') (hπ : ¬π.links) (hdb : Linked db) : Linked db' := by
  induction h with
  | refl => exact hdb
  | tail _ hstep ih => exact DbStep.linked hstep (fun hl => absurd hl hπ) ih

/-- The successors of a job that failed for good wait no longer, except perhaps those of
the jobs in `pending`. -/
def Closed (pending : List JobId) (db : RunDb) : Prop :=
  ∀ d ∈ db.dependencies, d.1 ∉ pending → ∀ predecessor, db.job? d.1 = some predecessor → IsFailed predecessor →
    ∀ successor, db.job? d.2 = some successor → ¬IsWaiting successor.state

/-- A policy under which nothing is skipped, joined or failed. -/
def quiet : Policy := ⟨False, False, False, True⟩

theorem DbStep.closed {pending : List JobId} (h : DbStep quiet db db') (hdb : Linked db) (hclosed : Closed pending db) :
    Closed pending db' := by
  have hdeps : db'.dependencies = db.dependencies := by
    cases h with
    | insert | history => rfl
    | edge p s hlink => exact hlink.elim
    | move job row _ hrow hmove hframe hids hdeps => exact hdeps
  intro d hd hpending predecessor hp hfailed successor hs hwaiting
  rw [hdeps] at hd
  obtain ⟨p₀, hp₀⟩ := Option.isSome_iff_exists.mp (hdb.ends d hd).1
  -- the predecessor had failed before
  have hfailed₀ : IsFailed p₀ := by
    obtain hview | ⟨row, -, -, hnone, -⟩ | ⟨row, hrow, hm⟩ := DbStep.view_cases h d.1
    · rw [show db'.job? d.1 = db.job? d.1 from congrArg JobView.row hview, hp₀] at hp
      exact Option.some_inj.mp hp ▸ hfailed
    · cases hnone.symm.trans hp₀
    · obtain rfl := Option.some_inj.mp (hrow.symm.trans hp₀)
      obtain ⟨row', hrow', hcases⟩ := Move.mark_cases hm
      obtain rfl := Option.some_inj.mp (hrow'.symm.trans hp)
      rcases hcases with ⟨hG, -⟩ | ⟨hmark, hb, hv⟩ | ⟨hF, -⟩
      · exact hG.elim
      · rcases hfailed with hf | hf | hf
        · exact .inl (hmark ▸ hf)
        · exact absurd hf hv
        · exact absurd hf hb
      · exact hF.1.elim
  obtain hview | ⟨row, -, -, hnone, -⟩ | ⟨row, hrow, hm⟩ := DbStep.view_cases h d.2
  · exact hclosed d hd hpending p₀ hp₀ hfailed₀ successor ((congrArg JobView.row hview).symm.trans hs) hwaiting
  · have hsome := (hdb.ends d hd).2
    rw [hnone] at hsome
    cases hsome
  · have hactive := Move.active_of_waiting hm hs hwaiting
    refine hdb.not_failed hp₀ (hdb.earned d hd row hrow ?_ ?_ p₀ hp₀) hfailed₀
    · intro hstate
      rw [hstate] at hactive
      exact absurd hactive (by decide)
    · intro hstate
      rw [hstate] at hactive
      exact absurd hactive (by decide)

theorem Steps.closed {pending : List JobId} (h : Steps quiet db db') (hdb : Linked db) (hclosed : Closed pending db) :
    Linked db' ∧ Closed pending db' := by
  induction h with
  | refl => exact ⟨hdb, hclosed⟩
  | tail _ hstep ih => exact ⟨DbStep.linked hstep False.elim ih.1, DbStep.closed hstep ih.1 ih.2⟩

/-- A job that fails for good leaves its own successors open. -/
theorem Closed.settled {pending : List JobId} {f : JobRow → JobRow} (hclosed : Closed pending db)
    (hf : ∀ row, (f row).id = row.id) (hrow : db.job? job = some row) (hstate : ¬IsWaiting (f row).state)
    (closing : JobState) : Closed (job :: pending) (settled job closing f db) := by
  intro d hd hpending predecessor hp hfailed successor hs
  rw [job?_settled hf] at hp hs
  rw [if_neg fun h => hpending (by simp [h])] at hp
  by_cases hi : d.2 = job
  · rw [if_pos hi, hi, hrow] at hs
    exact Option.some_inj.mp hs ▸ hstate
  · rw [if_neg hi] at hs
    exact hclosed d hd (fun h => hpending (.tail _ h)) predecessor hp hfailed successor hs

/-- How many jobs wait. -/
def waiting (db : RunDb) : ℕ := db.jobs.countP fun row => IsWaiting row.state

theorem waiting_settled {f : JobRow → JobRow} (hrow : db.job? job = some row)
    (hwaiting : IsWaiting row.state) (hstate : ∀ row, ¬IsWaiting (f row).state) (closing : JobState) :
    waiting (settled job closing f db) + 1 ≤ waiting db := by
  have hid := job?_id hrow
  obtain ⟨before, after, hjobs⟩ := List.append_of_mem (mem_jobs_of_job? hrow)
  have hle : ∀ rows : List JobRow, (rows.map fun r => if r.id = job then f r else r).countP (fun r => IsWaiting r.state) ≤
      rows.countP fun r => IsWaiting r.state := by
    intro rows
    rw [List.countP_map]
    refine List.countP_mono_left fun r _ hr => ?_
    simp only [Function.comp] at hr
    split at hr
    · exact absurd (of_decide_eq_true hr) (hstate r)
    · exact hr
  unfold waiting settled closeAttempts updateJob
  simp only [hjobs, List.map_append, List.map_cons, List.countP_append, List.countP_cons, hid, if_true]
  have hbefore := hle before
  have hafter := hle after
  simp only [hwaiting, hstate row, decide_true, decide_false, if_true, Bool.false_eq_true, if_false]
  omega

theorem blockRow_not_waiting (p : JobId) (row : JobRow) : ¬IsWaiting (blockRow p row).state :=
  show ¬IsWaiting .blocked by decide

/-- What the walk keeps while it looks at the successors of `p`: `rest` are left to look at. -/
structure Walking (db₀ : RunDb) (p : JobId) (room : ℕ) (rest frontier : List JobId) (db : RunDb) : Prop where
  linked : Linked db
  closed : Closed (p :: frontier) db
  deps : db.dependencies = db₀.dependencies
  room : waiting db + frontier.length ≤ room
  done : ∀ s ∈ db₀.successors p, s ∉ rest → ∀ row, db.job? s = some row → ¬IsWaiting row.state

theorem blockSuccessor_walking {db₀ : RunDb} {p s : JobId} {room : ℕ} {rest frontier frontier' : List JobId}
    (hwalk : Walking db₀ p room (s :: rest) frontier db)
    (h : blockSuccessor p frontier s db = .ok (frontier', db')) : Walking db₀ p room rest frontier' db' := by
  have hlinked := Steps.linked (blockSuccessor_steps (π := ⟨False, False, True, False⟩) trivial p frontier s db frontier' db' h)
    id hwalk.linked
  obtain ⟨row, hrow, ⟨hwaiting, rfl, rfl⟩ | ⟨hwaiting, rfl, rfl⟩⟩ := blockSuccessor_ok h
  · have hjob : ∀ i, (settled s .blocked (blockRow p) db).job? i =
        if i = s then (db.job? i).map (blockRow p) else db.job? i := fun i =>
      job?_settled (f := blockRow p) (fun _ => rfl)
    refine ⟨hlinked, ?_, hwalk.deps, ?_, fun x hx hrest row' hrow' => ?_⟩
    · have hclosed := Closed.settled (f := blockRow p) hwalk.closed (fun _ => rfl) hrow (blockRow_not_waiting p row)
        .blocked
      intro d hd hpending
      exact hclosed d hd fun hmem => hpending (by simp only [List.mem_cons] at hmem ⊢; tauto)
    · have := waiting_settled hrow hwaiting (blockRow_not_waiting p) .blocked
      have := hwalk.room
      simp only [List.length_cons]
      omega
    · rw [hjob] at hrow'
      by_cases hx' : x = s
      · rw [if_pos hx', hx', hrow] at hrow'
        exact Option.some_inj.mp hrow' ▸ blockRow_not_waiting p row
      · rw [if_neg hx'] at hrow'
        exact hwalk.done x hx (by simp [hx', hrest]) row' hrow'
  · refine ⟨hlinked, hwalk.closed, hwalk.deps, hwalk.room, fun x hx hrest row' hrow' => ?_⟩
    by_cases hx' : x = s
    · rw [hx', hrow] at hrow'
      exact Option.some_inj.mp hrow' ▸ hwaiting
    · exact hwalk.done x hx (by simp [hx', hrest]) row' hrow'

theorem mem_successors {p s : JobId} (h : (p, s) ∈ db.dependencies) : s ∈ db.successors p :=
  (List.perm_insertionSort IdLe _).mem_iff.mpr (List.mem_map.mpr ⟨(p, s), List.mem_filter.mpr ⟨h, by simp⟩, rfl⟩)

/-- The walk blocks every job behind the frontier. Each round takes one job from the frontier, and a job
only gets on it by leaving the jobs that wait. -/
theorem blockFrontier_closed {fuel : ℕ} {frontier : List JobId} {u : Unit} (hlinked : Linked db)
    (hclosed : Closed frontier db) (hfuel : waiting db + frontier.length ≤ fuel)
    (h : blockFrontier fuel frontier db = .ok (u, db')) : Linked db' ∧ Closed [] db' := by
  induction fuel generalizing frontier db with
  | zero =>
      obtain rfl : frontier = [] := List.eq_nil_of_length_eq_zero (by omega)
      obtain ⟨-, rfl⟩ := pure_eq_ok.mp h
      exact ⟨hlinked, hclosed⟩
  | succ fuel ih =>
      cases frontier with
      | nil =>
          obtain ⟨-, rfl⟩ := pure_eq_ok.mp h
          exact ⟨hlinked, hclosed⟩
      | cons p rest =>
          unfold blockFrontier at h
          simp only [bind_eq_ok, get_eq_ok] at h
          obtain ⟨_, db₀, ⟨rfl, rfl⟩, frontier', db₁, hfold, hrest⟩ := h
          have hwalk := foldEach_invariant (I := Walking db₀ p (waiting db₀ + rest.length))
            (fun s rest b db b' db' hI hs => blockSuccessor_walking hI hs) hfold
            ⟨hlinked, hclosed, rfl, le_rfl, fun s hs hn => absurd hs hn⟩
          refine ih hwalk.linked ?_ ?_ hrest
          · intro d hd hpending predecessor hp hfailed successor hs
            by_cases hdp : d.1 = p
            · refine hwalk.done d.2 (mem_successors ?_) List.not_mem_nil successor hs
              rw [← hdp]
              exact hwalk.deps ▸ hd
            · exact hwalk.closed d hd (by simp [hdp, hpending]) predecessor hp hfailed successor hs
          · have := hwalk.room
            simp only [List.length_cons] at hfuel
            omega

theorem blockDescendantsTx_closed {u : Unit} (hlinked : Linked db) (hclosed : Closed [job] db)
    (h : blockDescendantsTx job db = .ok (u, db')) : Linked db' ∧ Closed [] db' := by
  refine blockFrontier_closed hlinked hclosed ?_ (blockDescendantsTx_eq_ok.mp h)
  have : waiting db ≤ db.jobs.length := List.countP_le_length
  simp only [List.length_singleton]
  omega

theorem Closed.clear (h : Closed [] db) (hlinked : Linked db) : Clear db := by
  rintro row hmem hwaiting ⟨p, hp, predecessor, hpred, hfailed⟩
  obtain ⟨d, hd, rfl⟩ := List.mem_map.mp hp
  obtain ⟨hd, hsucc⟩ := List.mem_filter.mp hd
  refine h d hd List.not_mem_nil predecessor hpred hfailed row ?_ hwaiting
  rw [of_decide_eq_true hsucc]
  exact job?_of_mem hlinked.ids hmem

theorem exhaustRow_not_waiting {isResource : Bool} {failure : FailureRecord} {failed s : JobState}
    (h : s.transition (failureEvent isResource failure) = .ok failed) :
    ¬IsWaiting (exhaustRow isResource failure failed row).state := by
  change ¬IsWaiting failed
  rw [(JobState.transition_eq_ok.mp h).2]
  cases isResource
  · exact show ¬IsWaiting .executionFailed by decide
  · exact show ¬IsWaiting .resourceExceeded by decide

theorem handleAttemptFailure_closed {attempt : AttemptId} {failure : FailureRecord}
    {observation : Option (ReservationKey × UInt64)} {decision : RetryDecision} (hlinked : Linked db)
    (hclosed : Closed [] db) (h : handleAttemptFailure job attempt failure observation db = .ok (decision, db')) :
    Linked db' ∧ Closed [] db' := by
  obtain ⟨row, failed, isResource, -, hrow, hopen, hs, hcases⟩ := handleAttemptFailure_ok h
  have hrow' : (observed observation db).job? job = some row :=
    (congrArg JobView.row (view_observed observation job)).trans hrow
  rw [← view_observed observation] at hopen
  obtain ⟨hlinked, hclosed⟩ := Steps.closed (observed_steps observation) hlinked hclosed
  rcases hcases with ⟨hretries, -, rfl⟩ | ⟨hretries, -, hblock⟩
  · refine Steps.closed (.single ?_) hlinked hclosed
    exact .of_settled (retryRow_id isResource failure failed) hrow'
      (.retry isResource failure failed attempt hopen hs hretries)
  · have hstep : DbStep ⟨False, False, True, False⟩ _ (settled job failed (exhaustRow isResource failure failed)
        (observed observation db)) := .of_settled (f := exhaustRow isResource failure failed) (fun _ => rfl) hrow'
          (.exhaust isResource failure failed attempt hopen hs hretries trivial)
    refine blockDescendantsTx_closed (DbStep.linked hstep False.elim hlinked) ?_ hblock
    exact hclosed.settled (f := exhaustRow isResource failure failed) (fun _ => rfl) hrow' (exhaustRow_not_waiting hs) _

theorem failVerification_closed {attempt : AttemptId} {failure : FailureRecord} {next : JobState} (hlinked : Linked db)
    (hclosed : Closed [] db) (h : failVerification job attempt failure db = .ok (next, db')) :
    Linked db' ∧ Closed [] db' := by
  obtain ⟨row, hrow, hsource, hs, hblock⟩ := failVerification_ok h
  have hstep : DbStep ⟨False, False, True, False⟩ _ (settled job .verificationFailed (rejectRow failure) db) :=
    .of_settled (f := rejectRow failure) (fun _ => rfl) hrow (.reject failure attempt hsource hs trivial)
  refine blockDescendantsTx_closed (DbStep.linked hstep False.elim hlinked) ?_ hblock
  exact hclosed.settled (f := rejectRow failure) (fun _ => rfl) hrow
    (show ¬IsWaiting .verificationFailed by decide) _

/-- Among jobs that are all pending, none has failed. -/
theorem AllPending.closed {pending : List JobId} (h : AllPending db) (hmarks : ∀ i, MarkSound (view db i)) :
    Closed pending db := by
  intro d _ _ predecessor hp hfailed
  have hpending := h predecessor (mem_jobs_of_job? hp)
  rcases hfailed with hf | hf | hf
  · exact absurd (hpending ▸ hmarks d.1 predecessor hp hf) (by decide)
  · cases hpending.symm.trans hf
  · cases hpending.symm.trans hf

/-- An operation adds edges only while all jobs are pending. -/
def LinksEarly (db : RunDb) (op : Op) : Prop := (op.run db).dependencies = db.dependencies ∨ AllPending db

theorem Op.run_closed {op : Op} (hearly : LinksEarly db op) (hunique : UniqueAttempts db) (hlinked : Linked db)
    (hclosed : Closed [] db) : Linked (op.run db) ∧ Closed [] (op.run db) := by
  rcases Op.run_cases db op with h | h
  · cases op with
    | handleAttemptFailure j a f o =>
        obtain ⟨_, h⟩ := snd_map_eq_ok.mp h
        exact handleAttemptFailure_closed hlinked hclosed h
    | failVerification j a f =>
        obtain ⟨_, h⟩ := snd_map_eq_ok.mp h
        exact failVerification_closed hlinked hclosed h
    | refreshReadiness =>
        obtain ⟨_, h⟩ := snd_map_eq_ok.mp h
        exact Steps.closed (refreshReadiness_clear (hclosed.clear hlinked) h).1 hlinked hclosed
    | addDependency p s =>
        obtain ⟨_, h⟩ := snd_map_eq_ok.mp h
        obtain ⟨hp, hs, hne, hnew, hdb⟩ := addDependency_ok h
        have hpending : AllPending db := by
          refine hearly.resolve_left fun hsame => ?_
          rw [hdb] at hsame
          exact absurd (congrArg List.length hsame) (by simp)
        have hlinked' := DbStep.linked (π := .all) (.edge p s trivial hp hs hne hnew) (fun _ => hpending.joinsPending)
          hlinked
        rw [hdb]
        have hpending' : AllPending { db with dependencies := db.dependencies ++ [(p, s)] } := hpending
        exact ⟨hlinked', hpending'.closed hlinked'.marks⟩
    | _ => exact Steps.closed (Op.exec_steps ⟨False.elim, False.elim, False.elim, fun _ => trivial⟩ hunique h) hlinked hclosed
  · rw [h]
    exact ⟨hlinked, hclosed⟩

/-- Every edge of the run is added before a job has left pending. -/
def EdgesFirst : RunDb → List Op → Prop
  | _, [] => True
  | db, op :: ops => LinksEarly db op ∧ EdgesFirst (op.run db) ops

theorem runOps_closed {ops : List Op} (hfirst : EdgesFirst db ops) (hunique : UniqueAttempts db) (hlinked : Linked db)
    (hclosed : Closed [] db) : Linked (runOps db ops) ∧ Closed [] (runOps db ops) := by
  induction ops generalizing db with
  | nil => exact ⟨hlinked, hclosed⟩
  | cons op ops ih =>
      obtain ⟨hlinked', hclosed'⟩ := Op.run_closed hfirst.1 hunique hlinked hclosed
      exact ih hfirst.2 ((Op.run_steps (Policy.all_covers op) hunique).uniqueAttempts hunique) hlinked' hclosed'

theorem empty_linked (runId : String) : Linked (RunDb.empty runId) :=
  ⟨List.nodup_nil, fun _ h => absurd h List.not_mem_nil, fun _ _ h => (by cases h),
    fun _ h => absurd h List.not_mem_nil⟩

theorem empty_closed (runId : String) (pending : List JobId) : Closed pending (RunDb.empty runId) :=
  fun _ h => absurd h List.not_mem_nil

/-- Behind a failed job everything is blocked. -/
theorem Closed.blocked (hclosed : Closed [] db) (hlinked : Linked db) {p s : JobId} {predecessor successor : JobRow}
    (hedge : (p, s) ∈ db.dependencies) (hp : db.job? p = some predecessor) (hfailed : IsFailed predecessor)
    (hs : db.job? s = some successor) : successor.state = .blocked := by
  have hwaiting := hclosed (p, s) hedge List.not_mem_nil predecessor hp hfailed successor hs
  by_contra hblocked
  have hverified := hlinked.earned (p, s) hedge successor hs (fun h => hwaiting (.inl h)) hblocked predecessor hp
  exact hlinked.not_failed hp hverified hfailed

theorem Closed.transGen (hclosed : Closed [] db) (hlinked : Linked db) {p s : JobId} {predecessor : JobRow}
    (hpath : Relation.TransGen (fun p s => (p, s) ∈ db.dependencies) p s) (hp : db.job? p = some predecessor)
    (hfailed : IsFailed predecessor) : ∀ successor, db.job? s = some successor → successor.state = .blocked := by
  induction hpath with
  | single hedge => exact fun successor hs => hclosed.blocked hlinked hedge hp hfailed hs
  | tail _ hedge ih =>
      intro successor hs
      obtain ⟨mid, hmid⟩ := Option.isSome_iff_exists.mp (hlinked.ends _ hedge).1
      exact hclosed.blocked hlinked hedge hmid (.inr (.inr (ih mid hmid))) hs

theorem refreshJob_idle {count : ℕ} (hs : ¬Satisfied db job) (hf : ¬HasFailed db job) :
    refreshJob count job db = .ok (count, db) := by
  have hall : ¬∀ row ∈ db.predecessorStates job, row.state = .verified := by
    intro h
    exact hs fun p hp row hrow => h row (mem_predecessorStates.mpr ⟨p, hp, hrow⟩)
  have hfind : (db.predecessorStates job).find? (fun row => IsFailed row) = none := by
    refine List.find?_eq_none.mpr fun row hrow hfailed => hf ?_
    obtain ⟨p, hp, hrow⟩ := mem_predecessorStates.mp hrow
    exact ⟨p, hp, row, hrow, of_decide_eq_true hfailed⟩
  unfold refreshJob
  refine bind_eq_ok.mpr ⟨db, db, rfl, ?_⟩
  simp only [if_neg hall, hfind]
  rfl

theorem refreshReadiness_idle (hids : (db.jobs.map JobRow.id).Nodup)
    (h : ∀ i row, db.job? i = some row → IsWaiting row.state → ¬Satisfied db i ∧ ¬HasFailed db i) :
    refreshReadiness db = .ok (0, db) := by
  have hloop : ∀ ids : List JobId, (∀ i ∈ ids, ¬Satisfied db i ∧ ¬HasFailed db i) →
      foldEach refreshJob 0 ids db = .ok (0, db) := by
    intro ids hids
    induction ids with
    | nil => rfl
    | cons i ids ih =>
        have hi := hids i (.head _)
        exact bind_eq_ok.mpr ⟨0, db, refreshJob_idle hi.1 hi.2, ih fun j hj => hids j (.tail _ hj)⟩
  refine refreshReadiness_eq_ok.mpr (hloop _ fun i hi => ?_)
  obtain ⟨row, hrow, rfl⟩ := List.mem_map.mp ((List.perm_insertionSort IdLe _).mem_iff.mp hi)
  obtain ⟨hmem, hwaiting⟩ := List.mem_filter.mp hrow
  exact h row.id row (job?_of_mem hids hmem) (of_decide_eq_true hwaiting)

/-- After a sweep of a run whose edges were all added first, nothing behind a failed job waits, and a second
sweep changes nothing. -/
theorem refresh_closes_blocking (runId : String) (ops : List Op) (hfirst : EdgesFirst (RunDb.empty runId) ops)
    (count : ℕ) (db' : RunDb) (h : refreshReadiness (runOps (RunDb.empty runId) ops) = .ok (count, db')) :
    (∀ job row, db'.job? job = some row → IsWaiting row.state → ∀ p predecessor,
        Relation.TransGen (fun p s => (p, s) ∈ db'.dependencies) p job → db'.job? p = some predecessor →
        ¬IsFailed predecessor) ∧
      refreshReadiness db' = .ok (0, db') := by
  obtain ⟨hlinked, hclosed⟩ := runOps_closed hfirst (empty_uniqueAttempts runId) (empty_linked runId)
    (empty_closed runId [])
  obtain ⟨hsteps, hready, hdone⟩ := refreshReadiness_clear (π := quiet) (hclosed.clear hlinked) h
  obtain ⟨hlinked', hclosed'⟩ := Steps.closed hsteps hlinked hclosed
  constructor
  · intro job row hrow hwaiting p predecessor hpath hp hfailed
    rw [hclosed'.transGen hlinked' hpath hp hfailed row hrow] at hwaiting
    exact absurd hwaiting (by decide)
  · refine refreshReadiness_idle hlinked'.ids fun i row hrow hwaiting => ⟨?_, ?_⟩
    · exact fun hs => hdone i row hrow hwaiting ((hready.satisfied_iff i).mp hs)
    · exact (hclosed'.clear hlinked').not_hasFailed hrow hwaiting

/-- A job fails verification while its successor waits. -/
def failingChain : List Op :=
  [.insertJob "a" .leafVerification, .insertJob "b" .witness, .addDependency failedJob lateJob, .refreshReadiness,
    .beginAttempt failedJob .startVerification,
    .failVerification failedJob ⟨"r:a:attempt:1", by decide⟩ (.new .verification .verify .invalidResult)]

theorem refresh_closes_blocking_failingChain :
    (runOps (RunDb.empty "r") failingChain).job? lateJob ≠ none ∧
      ∃ db', refreshReadiness (runOps (RunDb.empty "r") failingChain) = .ok (0, db') ∧
        refreshReadiness db' = .ok (0, db') := by
  refine ⟨by decide +kernel, runOps (RunDb.empty "r") failingChain, rfl, ?_⟩
  refine (refresh_closes_blocking "r" failingChain ?_ 0 _ rfl).2
  have hpending : AllPending (runOps (RunDb.empty "r") (failingChain.take 2)) := by
    unfold AllPending
    decide +kernel
  exact ⟨.inl rfl, .inl rfl, .inr hpending, .inl rfl, .inl rfl, .inl rfl, trivial⟩

end Closure

end Zkie.RunBlocking
