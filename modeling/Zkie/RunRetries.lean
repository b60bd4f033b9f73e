import Zkie.RunCompletion

namespace Zkie.RunRetries

open RunState Transaction RunDatabase RunDatabase.RunDb RunLifecycle RunInvariants RunBlocking RunCompletion

variable {db db' : RunDb} {S F G : Prop} {v v' : JobView} {row row' : JobRow} {job i : JobId}

section Budget

/-- The number of attempts that were cut off. -/
def interruptions (attempts : List AttemptRow) : ℕ := attempts.countP fun a => a.state = .interrupted

/-- The states of a job that waits for its next attempt. -/
def IsQueued (s : JobState) : Prop := s ∈ [JobState.pending, .requeued, .ready]

instance (s : JobState) : Decidable (IsQueued s) := inferInstanceAs (Decidable (_ ∈ _))

theorem not_isQueued_of_active {s : JobState} (h : s.IsActive) : ¬IsQueued s := by
  cases s
  all_goals first
    | exact absurd h (by decide)
    | decide

/-- The kinds of job that go through a state. -/
def performers : JobState → List JobKind
  | .witnessing | .witnessReady => [.witness]
  | .preparing | .prepared => [.prepare]
  | .proving | .proved => [.leafProof]
  | .verifying => [.leafVerification, .nativeAggregate]
  | _ => [.witness, .prepare, .leafProof, .leafVerification, .nativeAggregate]

/-- Every attempt but the first was paid for by a retry or an interruption, and the next attempt of a queued
job already is. -/
structure Budget (row : JobRow) (attempts : List AttemptRow) : Prop where
  execution : row.executionRetries ≤ retryLimit false
  resource : row.resourceRequeues ≤ retryLimit true
  spent : row.attemptCount ≤ 1 + row.executionRetries + row.resourceRequeues + interruptions attempts
  queued : IsQueued row.state → row.attemptCount ≤ row.executionRetries + row.resourceRequeues + interruptions attempts
  performs : row.kind ∈ performers row.state

theorem mem_performers {kind : JobKind} {s : JobState} (h : performers s = performers .pending) : kind ∈ performers s := by
  rw [h]
  cases kind <;> decide

/-- Closing the attempts of an active job with the state `interrupted` adds an interruption. -/
theorem interruptions_closeAll {as : List AttemptRow} (h : AttemptsMatch row as) (s : JobState) :
    interruptions (closeAll s as) = interruptions as + if row.state.IsActive ∧ s = .interrupted then 1 else 0 := by
  by_cases hactive : row.state.IsActive
  · obtain ⟨earlier, a, rfl, hearlier, hopen, hstate⟩ := h.opened hactive
    have ha : a.state ≠ .interrupted := by
      intro hinterrupted
      rw [← hstate, hinterrupted] at hactive
      exact absurd hactive (by decide)
    have hclosed : closeAll s (earlier ++ [a]) = earlier ++ [{ a with state := s, finished := true }] := by
      unfold closeAll
      rw [List.map_append, ← closeAll, closeAll_of_closed hearlier, List.map_singleton, if_pos hopen]
    rw [hclosed]
    unfold interruptions
    rw [List.countP_append, List.countP_append, List.countP_singleton, List.countP_singleton]
    simp [hactive, ha]
  · rw [closeAll_of_closed (h.closed hactive), if_neg fun h => hactive h.1, Nat.add_zero]

/-- The job goes on in a state that does not queue it. -/
theorem Budget.enter {as : List AttemptRow} (h : Budget row as) (hmatch : AttemptsMatch row as) (closing : JobState)
    (hcount : row'.attemptCount = row.attemptCount) (hexecution : row'.executionRetries = row.executionRetries)
    (hresource : row'.resourceRequeues = row.resourceRequeues) (hkind : row'.kind = row.kind)
    (hqueued : IsQueued row'.state → IsQueued row.state) (hperforms : row.kind ∈ performers row'.state) :
    Budget row' (closeAll closing as) := by
  have hle : interruptions as ≤ interruptions (closeAll closing as) := by
    rw [interruptions_closeAll hmatch]
    exact Nat.le_add_right _ _
  constructor
  · rw [hexecution]
    exact h.execution
  · rw [hresource]
    exact h.resource
  · rw [hcount, hexecution, hresource]
    exact h.spent.trans (Nat.add_le_add_left hle _)
  · intro hq
    rw [hcount, hexecution, hresource]
    exact (h.queued (hqueued hq)).trans (Nat.add_le_add_left hle _)
  · rw [hkind]
    exact hperforms

/-- The attempts of a job only start when it is ready. -/
theorem ready_of_start {kind : JobKind} {event : JobEvent} {s next : JobState} (hkind : StartMatchesKind kind event)
    (hs : s.transition event = .ok next) (hperforms : kind ∈ performers s) : s = .ready ∧ kind ∈ performers next := by
  obtain ⟨hmem, rfl⟩ := JobState.transition_eq_ok.mp hs
  simp only [StartMatchesKind, List.mem_cons, Prod.mk.injEq, List.not_mem_nil, or_false] at hkind
  rcases hkind with ⟨rfl, rfl⟩ | ⟨rfl, rfl⟩ | ⟨rfl, rfl⟩ | ⟨rfl, rfl⟩ | ⟨rfl, rfl⟩
  all_goals
    cases s
    all_goals first
      | exact absurd hmem (by decide)
      | exact absurd hperforms (by decide)
      | exact ⟨rfl, by decide⟩

/-- Starting an attempt spends what a ready job has. -/
theorem Budget.begin {as : List AttemptRow} (h : Budget row as) {event : JobEvent} {a : AttemptRow}
    (hkind : StartMatchesKind row.kind event) (hstart : event.StartsAttempt) (hs : row.state.transition event = .ok a.state) :
    Budget (rowAfter event a.state (some (row.attemptCount + 1)) row) (as ++ [a]) := by
  obtain ⟨hready, hperforms⟩ := ready_of_start hkind hs h.performs
  have hactive := startsAttempt_active hstart hs
  have hqueued := h.queued (by rw [hready]; decide)
  have hsame : interruptions (as ++ [a]) = interruptions as := by
    unfold interruptions
    rw [List.countP_append, List.countP_singleton, if_neg, Nat.add_zero]
    intro hinterrupted
    rw [of_decide_eq_true hinterrupted] at hactive
    exact absurd hactive (by decide)
  refine ⟨h.execution, h.resource, ?_, ?_, hperforms⟩
  · rw [hsame]
    change row.attemptCount + 1 ≤ 1 + row.executionRetries + row.resourceRequeues + interruptions as
    omega
  · intro hq
    exact absurd hq (not_isQueued_of_active hactive)

theorem Budget.retry {as : List AttemptRow} (h : Budget row as) (hmatch : AttemptsMatch row as) {isResource : Bool}
    {failure : FailureRecord} {failed : JobState} (hretries : retries isResource row < retryLimit isResource) :
    Budget (retryRow isResource failure failed row) (closeAll failed as) := by
  have hle : interruptions as ≤ interruptions (closeAll failed as) := by
    rw [interruptions_closeAll hmatch]
    exact Nat.le_add_right _ _
  have hspent := h.spent
  have hexecution := h.execution
  have hresource := h.resource
  cases isResource
  · have hretries : row.executionRetries < 2 := hretries
    constructor
    · exact hretries
    · exact hresource
    · change row.attemptCount ≤ 1 + (row.executionRetries + 1) + row.resourceRequeues + interruptions _
      omega
    · intro _
      change row.attemptCount ≤ row.executionRetries + 1 + row.resourceRequeues + interruptions _
      omega
    · exact mem_performers rfl
  · have hretries : row.resourceRequeues < 3 := hretries
    constructor
    · exact hexecution
    · exact hretries
    · change row.attemptCount ≤ 1 + row.executionRetries + (row.resourceRequeues + 1) + interruptions _
      omega
    · intro _
      change row.attemptCount ≤ row.executionRetries + (row.resourceRequeues + 1) + interruptions _
      omega
    · exact mem_performers rfl

theorem Budget.recover {as : List AttemptRow} (h : Budget row as) (hmatch : AttemptsMatch row as)
    (hactive : row.state.IsActive) (failure : FailureRecord) :
    Budget (rowAfter .recoveryRequeue .requeued none (rowAfter (.interrupted failure) .interrupted none row))
      (closeAll .interrupted as) := by
  have hcount := interruptions_closeAll hmatch .interrupted
  rw [if_pos ⟨hactive, rfl⟩] at hcount
  have hspent := h.spent
  refine ⟨h.execution, h.resource, ?_, ?_, mem_performers rfl⟩
  · change row.attemptCount ≤ 1 + row.executionRetries + row.resourceRequeues + interruptions _
    omega
  · intro _
    change row.attemptCount ≤ row.executionRetries + row.resourceRequeues + interruptions _
    omega

theorem Move.budget (h : Move S F G v row v') (hmatch : AttemptsMatch row v.attempts) (hv : Budget row v.attempts) :
    ∃ row', v'.row = some row' ∧ Budget row' v'.attempts := by
  cases h with
  | ready hwaiting =>
      refine ⟨_, rfl, hv.enter hmatch _ rfl rfl rfl rfl ?_ (mem_performers rfl)⟩
      intro _
      rcases hwaiting with h | h <;> rw [h] <;> decide
  | skip | block =>
      exact ⟨_, rfl, hv.enter hmatch _ rfl rfl rfl rfl (fun h => absurd h (show ¬IsQueued .blocked by decide))
        (mem_performers rfl)⟩
  | begin event a hstart hkind hopen hid hfinished hs => exact ⟨_, rfl, hv.begin hkind hstart hs⟩
  | complete event next attempt hevent hopen hs =>
      obtain ⟨hmem, rfl⟩ := JobState.transition_eq_ok.mp hs
      have hperforms := hv.performs
      refine ⟨_, rfl, hv.enter hmatch _ rfl rfl rfl rfl ?_ ?_⟩
      · cases event with
        | witnessCompleted => exact fun h => absurd h (show ¬IsQueued .witnessReady by decide)
        | preparationCompleted => exact fun h => absurd h (show ¬IsQueued .prepared by decide)
        | proofProduced => exact fun h => absurd h (show ¬IsQueued .proved by decide)
        | interrupted f => exact fun h => absurd h (show ¬IsQueued .interrupted by decide)
        | _ => exact absurd hevent id
      · cases event with
        | witnessCompleted | preparationCompleted | proofProduced =>
          rw [List.mem_singleton.mp hmem] at hperforms
          exact hperforms
        | interrupted f => exact mem_performers rfl
        | _ => exact absurd hevent id
  | retry isResource failure failed attempt hopen hs hretries =>
      exact ⟨_, rfl, hv.retry hmatch hretries⟩
  | exhaust isResource failure failed attempt hopen hs =>
      obtain ⟨-, rfl⟩ := JobState.transition_eq_ok.mp hs
      refine ⟨_, rfl, hv.enter hmatch _ rfl rfl rfl rfl ?_ ?_⟩
      · cases isResource
        · exact fun h => absurd h (show ¬IsQueued .executionFailed by decide)
        · exact fun h => absurd h (show ¬IsQueued .resourceExceeded by decide)
      · cases isResource <;> exact mem_performers rfl
  | reject =>
      exact ⟨_, rfl, hv.enter hmatch _ rfl rfl rfl rfl (fun h => absurd h (show ¬IsQueued .verificationFailed by decide))
        (mem_performers rfl)⟩
  | recover failure hactive => exact ⟨_, rfl, hv.recover hmatch hactive failure⟩
  | verify =>
      exact ⟨_, rfl, hv.enter hmatch _ rfl rfl rfl rfl (fun h => absurd h (show ¬IsQueued .verified by decide))
        (mem_performers rfl)⟩

def BudgetSound (v : JobView) : Prop := ∀ row, v.row = some row → Budget row v.attempts

theorem runOps_budgetSound (runId : String) (ops : List Op) (i : JobId) :
    BudgetSound (view (runOps (RunDb.empty runId) ops) i) := by
  have hboth := runOps_views (P := fun _ v => AttemptsSound v ∧ BudgetSound v) ?_ ?_ ?_ runId ops i
  · exact hboth.2
  · exact fun i => ⟨.absent, fun _ h => by cases h⟩
  · rintro i v row ⟨hattempts, -⟩ hnone hnew -
    refine ⟨hattempts.insert hnone hnew, fun row' hrow => ?_⟩
    obtain rfl := Option.some_inj.mp hrow
    refine ⟨?_, ?_, ?_, fun _ => ?_, mem_performers (by rw [hnew.pending])⟩
    · rw [hnew.execution]
      exact Nat.zero_le _
    · rw [hnew.resource]
      exact Nat.zero_le _
    · rw [hnew.count]
      exact Nat.zero_le _
    · rw [hnew.count]
      exact Nat.zero_le _
  · rintro i S F G v row v' ⟨hattempts, hbudget⟩ hrow - hm
    refine ⟨hattempts.move hrow hm, fun r hr => ?_⟩
    obtain ⟨row', hrow', hbudget'⟩ := Move.budget hm (hattempts.2 row hrow) (hbudget row hrow)
    obtain rfl := Option.some_inj.mp (hrow'.symm.trans hr)
    exact hbudget'

/-- A failed attempt is final exactly when the retries of its kind are used up. -/
theorem handleAttemptFailure_terminal {attempt : AttemptId} {failure : FailureRecord}
    {observation : Option (ReservationKey × UInt64)} {decision : RetryDecision}
    (hbudget : ∀ i, BudgetSound (view db i))
    (h : handleAttemptFailure job attempt failure observation db = .ok (decision, db')) :
    ∃ row, db.job? job = some row ∧ (decision = .terminal ↔
      retries (failure.kind = .resourceExceeded) row = retryLimit (failure.kind = .resourceExceeded)) := by
  obtain ⟨row, failed, isResource, rfl, hrow, -, -, hcases⟩ := handleAttemptFailure_ok h
  refine ⟨row, hrow, ?_⟩
  obtain ⟨hretries, rfl, -⟩ | ⟨hretries, rfl, -⟩ := hcases
  · exact ⟨fun h => (by cases h), fun h => absurd hretries (by rw [h]; exact lt_irrefl _)⟩
  · refine ⟨fun _ => le_antisymm ?_ (not_lt.mp hretries), fun _ => rfl⟩
    cases decide (failure.kind = .resourceExceeded)
    · exact (hbudget job row hrow).execution
    · exact (hbudget job row hrow).resource

end Budget

section Recovery

/-- No job has two open attempts. -/
theorem openJobs_nodup (hattempts : ∀ i, AttemptsSound (view db i)) :
    ((db.attempts.filter fun a => !a.finished).map AttemptRow.job).Nodup := by
  apply List.nodup_iff_count_le_one.mpr
  intro i
  have hcount : ((db.attempts.filter fun a => !a.finished).map AttemptRow.job).count i =
      (openOf (view db i).attempts).length := by
    rw [List.count, List.countP_map, List.countP_filter, List.countP_eq_length_filter]
    change _ = ((db.attempts.filter fun a => a.job = i).filter fun a => !a.finished).length
    rw [List.filter_filter]
    congr 1
    apply List.filter_congr
    intro a _
    by_cases ha : a.job = i <;> simp [ha]
  rw [hcount]
  cases hrow : (view db i).row with
  | none =>
      rw [(hattempts i).1 hrow]
      exact Nat.zero_le 1
  | some row =>
      have hmatch := (hattempts i).2 row hrow
      by_cases hactive : row.state.IsActive
      · obtain ⟨a, -, hopen, -⟩ := hmatch.openOf_eq hactive
        rw [hopen, List.length_singleton]
      · rw [hmatch.closed hactive]
        exact Nat.zero_le 1

theorem interruptedAttempts_nodup (hattempts : ∀ i, AttemptsSound (view db i)) :
    ((interruptedAttempts db).map fun e => e.1.job).Nodup := by
  have hperm := (List.perm_insertionSort (fun a b : AttemptRow => IdLe a.id b.id)
    (db.attempts.filter fun a => !a.finished)).map AttemptRow.job
  refine (hperm.nodup_iff.mpr (openJobs_nodup hattempts)).sublist ?_
  unfold interruptedAttempts
  generalize (db.attempts.filter fun a => !a.finished).insertionSort (fun a b => IdLe a.id b.id) = as
  induction as with
  | nil => exact .slnil
  | cons a as ih =>
      rw [List.filterMap_cons]
      cases db.job? a.job with
      | none => exact ih.cons _
      | some row => exact ih.cons_cons _

/-- An event that may be applied, and that leads to an inactive state. -/
theorem applyEventTx_succeeds (attempt : Option AttemptId) {event : JobEvent} {next : JobState}
    (hrow : db.job? job = some row) (hs : row.state.transition event = .ok next) (hnext : ¬next.IsActive) :
    applyEventTx job attempt event none db = .ok (next, settled job next (rowAfter event next none) db) := by
  apply applyEventTx_eq_ok.mpr
  refine ⟨row, hrow, hs, ?_⟩
  rw [attemptsAfter, if_neg hnext]
  rfl

/-- An active job can be cut off and queued again. -/
theorem recoverAttempt_succeeds (count : ℕ) {entry : AttemptRow × JobState} (hrow : db.job? entry.1.job = some row)
    (hactive : row.state.IsActive) : ∃ count' db', recoverAttempt count entry db = .ok (count', db') ∧
      ∀ i, i ≠ entry.1.job → db'.job? i = db.job? i := by
  by_cases hentry : entry.2.IsActive
  · let interruption := JobEvent.interrupted (FailureRecord.new .interrupted .scheduler .schedulerRestart)
    have hinterrupt : row.state.transition interruption = .ok .interrupted :=
      JobState.transition_eq_ok.mpr ⟨hactive, rfl⟩
    have hrow' : (settled entry.1.job .interrupted (rowAfter interruption .interrupted none) db).job? entry.1.job =
        some (rowAfter interruption .interrupted none row) := by
      rw [job?_settled rowAfter_id, if_pos rfl, hrow, Option.map_some]
    have hfirst := applyEventTx_succeeds (some entry.1.id) hrow hinterrupt (by decide)
    have hsecond := applyEventTx_succeeds (some entry.1.id) hrow'
      (show JobState.interrupted.transition .recoveryRequeue = .ok .requeued from rfl) (by decide)
    obtain ⟨db', hrun, hjobs⟩ : ∃ db', recoverAttempt count entry db = .ok (count + 1, db') ∧
        db'.jobs = (settled entry.1.job .requeued (rowAfter .recoveryRequeue .requeued none)
          (settled entry.1.job .interrupted (rowAfter interruption .interrupted none) db)).jobs := by
      unfold recoverAttempt
      rw [if_pos hentry]
      simp only [bind_eq_ok, modify_eq_ok, pure_eq_ok]
      exact ⟨_, ⟨_, _, hfirst, _, _, hsecond, ⟨⟩, _, rfl, trivial, rfl⟩, rfl⟩
    refine ⟨count + 1, db', hrun, fun i hi => ?_⟩
    unfold RunDb.job?
    rw [hjobs]
    exact ((job?_settled rowAfter_id).trans (if_neg hi)).trans ((job?_settled rowAfter_id).trans (if_neg hi))
  · refine ⟨count, db, ?_, fun _ _ => rfl⟩
    unfold recoverAttempt
    rw [if_neg hentry]
    rfl

/-- A recovery never fails. -/
theorem recoverInterrupted_succeeds (hattempts : ∀ i, AttemptsSound (view db i)) :
    ∃ count db', recoverInterrupted db = .ok (count, db') := by
  have hloop := foldEach_total (f := recoverAttempt) (b := 0) (s := db)
    (I := fun rest _ s => (rest.map fun e => e.1.job).Nodup ∧
      ∀ e ∈ rest, ∃ row, s.job? e.1.job = some row ∧ row.state.IsActive) ?_ ⟨interruptedAttempts_nodup hattempts, ?_⟩
  · obtain ⟨count, db', h⟩ := hloop
    exact ⟨count, db', recoverInterrupted_eq_ok.mpr h⟩
  · rintro entry rest count s ⟨hnodup, hrows⟩
    obtain ⟨row, hrow, hactive⟩ := hrows entry (.head _)
    obtain ⟨count', s', hrun, hsame⟩ := recoverAttempt_succeeds count hrow hactive
    rw [List.map_cons, List.nodup_cons] at hnodup
    refine ⟨count', s', hrun, hnodup.2, fun e he => ?_⟩
    obtain ⟨row', hrow', hactive'⟩ := hrows e (.tail _ he)
    have hne : e.1.job ≠ entry.1.job := fun h => hnodup.1 (h ▸ List.mem_map_of_mem he)
    exact ⟨row', (hsame _ hne).trans hrow', hactive'⟩
  · intro e he
    obtain ⟨hmem, hopen, row, hrow, -⟩ := mem_interruptedAttempts.mp he
    refine ⟨row, hrow, ?_⟩
    by_contra hinactive
    have hclosed := ((hattempts e.1.job).2 row hrow).closed hinactive
    have hmem' : e.1 ∈ openOf (view db e.1.job).attempts :=
      List.mem_filter.mpr ⟨List.mem_filter.mpr ⟨hmem, by simp⟩, by simp [hopen]⟩
    rw [hclosed] at hmem'
    cases hmem'

/-- The operation that cuts an attempt off without a recovery. -/
def Interrupts : Op → Prop
  | .applyAttemptEvent _ _ (.interrupted _) => True
  | _ => False

def NotInterrupted (row : JobRow) : Prop := row.state ≠ .interrupted

theorem notInterrupted_of_state {s : JobState} (h : row.state = s) (hs : s ≠ .interrupted) : NotInterrupted row := by
  intro h'
  exact hs (h.symm.trans h')

theorem notInterrupted_of_active (h : row.state.IsActive) : NotInterrupted row := by
  intro h'
  rw [h'] at h
  exact absurd h (by decide)

theorem settled_notInterrupted {f : JobRow → JobRow} {closing s : JobState} (hdb : RowsBut none NotInterrupted db)
    (hf : ∀ row, (f row).id = row.id) (hstate : ∀ row, (f row).state = s) (hs : s ≠ .interrupted) :
    RowsBut none NotInterrupted (settled job closing f db) :=
  hdb.some.settled hf (fun row _ => notInterrupted_of_state (hstate row) hs) none

theorem observed_notInterrupted (observation : Option (ReservationKey × UInt64)) (hdb : RowsBut none NotInterrupted db) :
    RowsBut none NotInterrupted (observed observation db) := by
  intro i row hi hrow
  exact hdb i row hi ((congrArg JobView.row (view_observed observation i)).symm.trans hrow)

theorem blockDescendantsTx_notInterrupted {u : Unit} (hdb : RowsBut none NotInterrupted db)
    (h : blockDescendantsTx job db = .ok (u, db')) : RowsBut none NotInterrupted db' :=
  blockFrontier_rows (fun p row _ => notInterrupted_of_state (s := .blocked) rfl (by decide)) hdb
    (blockDescendantsTx_eq_ok.mp h)

theorem verifiedDb_notInterrupted {record : VerificationRow} {artifacts : List ArtifactRow} {keys : List KeyRow}
    (hdb : RowsBut none NotInterrupted db) : RowsBut none NotInterrupted (verifiedDb record artifacts keys db) :=
  settled_notInterrupted (fun i row => hdb i row) rowAfter_id (fun _ => rfl) (by decide)

/-- The other operations leave no job interrupted that was not. -/
theorem Op.exec_notInterrupted {op : Op} (hop : ¬Interrupts op) (hunique : UniqueAttempts db)
    (hattempts : ∀ i, AttemptsSound (view db i)) (hdb : RowsBut none NotInterrupted db) (h : op.exec db = .ok db') :
    RowsBut none NotInterrupted db' := by
  cases op with
  | insertJob l k =>
      obtain ⟨id, h⟩ := snd_map_eq_ok.mp h
      obtain ⟨hfresh, -, rfl⟩ := insertJob_ok h
      intro i row hi hrow
      rw [job?_append fun r hr => (hfresh r hr).1] at hrow
      split at hrow
      · obtain rfl := Option.some_inj.mp hrow
        exact notInterrupted_of_state (s := .pending) rfl (by decide)
      · exact hdb i row hi hrow
  | addDependency p s =>
      obtain ⟨_, h⟩ := snd_map_eq_ok.mp h
      obtain ⟨-, -, -, -, rfl⟩ := addDependency_ok h
      exact hdb
  | refreshReadiness =>
      obtain ⟨_, h⟩ := snd_map_eq_ok.mp h
      intro i row hi hrow
      obtain hsame | ⟨_, row', -, -, hrow', hstate⟩ := (refreshReadiness_swept h).1.rows i
      · exact hdb i row hi (hsame ▸ hrow)
      · obtain rfl := Option.some_inj.mp (hrow.symm.trans hrow')
        rcases hstate with h | h <;> exact notInterrupted_of_state h (by decide)
  | beginAttempt job event =>
      obtain ⟨_, h⟩ := snd_map_eq_ok.mp h
      obtain ⟨row₀, next, hrow₀, hstart, -, -, -, hs, -, rfl⟩ := beginAttempt_ok h
      intro i row hi hrow
      by_cases hij : i = job
      · subst hij
        obtain rfl := Option.some_inj.mp ((congrArg JobView.row (view_begun hrow₀ rfl)).symm.trans hrow)
        exact notInterrupted_of_active (startsAttempt_active hstart hs)
      · exact hdb i row hi ((congrArg JobView.row (view_begun_ne rfl hij)).symm.trans hrow)
  | applyAttemptEvent job attempt event =>
      obtain ⟨_, h⟩ := snd_map_eq_ok.mp h
      obtain ⟨row₀, -, hevent, -, hs, rfl⟩ := applyAttemptEvent_ok h
      apply settled_notInterrupted hdb rowAfter_id fun _ => rfl
      rw [(JobState.transition_eq_ok.mp hs).2]
      cases event with
      | witnessCompleted | preparationCompleted | proofProduced => decide
      | interrupted f => exact absurd trivial hop
      | _ => exact absurd hevent id
  | handleAttemptFailure job attempt failure observation =>
      obtain ⟨_, h⟩ := snd_map_eq_ok.mp h
      obtain ⟨row, failed, isResource, -, -, -, hs, hcases⟩ := handleAttemptFailure_ok h
      have hobserved := observed_notInterrupted observation hdb
      obtain ⟨-, -, rfl⟩ | ⟨-, -, hblock⟩ := hcases
      · exact settled_notInterrupted (s := .requeued) hobserved (retryRow_id isResource failure failed) (fun _ => rfl)
          (by decide)
      · refine blockDescendantsTx_notInterrupted (settled_notInterrupted (s := failed) hobserved
          (f := exhaustRow isResource failure failed) (fun _ => rfl) (fun _ => rfl) ?_) hblock
        rw [(JobState.transition_eq_ok.mp hs).2]
        cases isResource
        · exact show JobState.executionFailed ≠ .interrupted by decide
        · exact show JobState.resourceExceeded ≠ .interrupted by decide
  | failVerification job attempt failure =>
      obtain ⟨_, h⟩ := snd_map_eq_ok.mp h
      obtain ⟨row, -, -, -, hblock⟩ := failVerification_ok h
      exact blockDescendantsTx_notInterrupted (settled_notInterrupted (s := .verificationFailed) hdb
        (f := rejectRow failure) (fun _ => rfl) (fun _ => rfl) (by decide)) hblock
  | recoverInterrupted =>
      obtain ⟨_, h⟩ := snd_map_eq_ok.mp h
      intro i row hi hrow
      obtain ⟨hview, -⟩ | ⟨row₀, -, -, hrow'⟩ := recoverInterrupted_rows hunique hattempts h i
      · exact hdb i row hi ((congrArg JobView.row hview).symm.trans hrow)
      · obtain rfl := Option.some_inj.mp (hrow.symm.trans hrow')
        exact notInterrupted_of_state (s := .requeued) rfl (by decide)
  | recordResourcePeak key peak =>
      obtain ⟨_, h⟩ := snd_map_eq_ok.mp h
      exact recordObservation_ok (show recordObservation (some (key, peak)) db = _ from h) ▸ hdb
  | commitVerifiedArtifact verified =>
      obtain ⟨_, h⟩ := snd_map_eq_ok.mp h
      obtain ⟨_, _, _, _, -, -, -, -, rfl⟩ := commitVerifiedArtifact_ok h
      exact verifiedDb_notInterrupted hdb
  | commitVerifiedKey digest verified =>
      obtain ⟨_, h⟩ := snd_map_eq_ok.mp h
      obtain ⟨_, _, _, _, -, -, -, -, rfl⟩ := commitVerifiedKey_ok h
      exact verifiedDb_notInterrupted hdb
  | completeVerification job attempt verifier =>
      obtain ⟨_, h⟩ := snd_map_eq_ok.mp h
      obtain ⟨_, _, _, _, -, -, -, -, rfl⟩ := completeVerification_ok h
      exact verifiedDb_notInterrupted hdb

theorem Op.exec_interrupts {op : Op} (hop : Interrupts op) (h : op.exec db = .ok db') :
    ∃ i row, db'.job? i = some row ∧ row.state = .interrupted := by
  cases op with
  | applyAttemptEvent job attempt event =>
      cases event with
      | interrupted failure =>
          obtain ⟨_, h⟩ := snd_map_eq_ok.mp h
          obtain ⟨row, hrow, -, -, hs, rfl⟩ := applyAttemptEvent_ok h
          obtain ⟨-, rfl⟩ := JobState.transition_eq_ok.mp hs
          exact ⟨job, _, by rw [job?_settled rowAfter_id, if_pos rfl, hrow, Option.map_some], rfl⟩
      | _ => exact absurd hop id
  | _ => exact absurd hop id

/-- No attempt of the run is cut off by an operation of its own. -/
def Uninterrupted : RunDb → List Op → Prop
  | _, [] => True
  | db, op :: ops => (Interrupts op → ∀ db', op.exec db ≠ .ok db') ∧ Uninterrupted (op.run db) ops

theorem runOps_notInterrupted {ops : List Op} (hgrounded : Grounded db) (hdb : RowsBut none NotInterrupted db) :
    RowsBut none NotInterrupted (runOps db ops) ↔ Uninterrupted db ops := by
  induction ops generalizing db with
  | nil => exact ⟨fun _ => trivial, fun _ => hdb⟩
  | cons op ops ih =>
      have hstep : Steps .all db (op.run db) := Op.run_steps (Policy.all_covers op) hgrounded.unique
      have hgrounded' := Steps.grounded hstep hgrounded
      by_cases hcut : Interrupts op ∧ op.exec db = .ok (op.run db)
      · obtain ⟨hop, hexec⟩ := hcut
        obtain ⟨i, row, hrow, hstate⟩ := Op.exec_interrupts hop hexec
        constructor
        · intro hrows
          have hlater : Steps .all (op.run db) (runOps (op.run db) ops) := runOps_steps hgrounded'.unique
          have hview := Steps.view_eq_of_final hlater hrow (by rw [hstate]; decide)
          exact absurd hstate (hrows i row (by simp) ((congrArg JobView.row hview).trans hrow))
        · intro huninterrupted
          exact absurd hexec (huninterrupted.1 hop _)
      · have hfirst : Interrupts op → ∀ db', op.exec db ≠ .ok db' := by
          intro hop db' hexec
          apply hcut
          refine ⟨hop, ?_⟩
          unfold Op.run
          rw [hexec]
          rfl
        have hrows : RowsBut none NotInterrupted (op.run db) := by
          rcases Op.run_cases db op with h | h
          · exact Op.exec_notInterrupted (fun hop => hcut ⟨hop, h⟩) hgrounded.unique hgrounded.attempts hdb h
          · rw [h]
            exact hdb
        exact (ih hgrounded' hrows).trans (and_iff_right hfirst).symm

/-- After a recovery exactly the jobs are interrupted that were so before, and none is active. -/
theorem recoverInterrupted_notInterrupted {count : ℕ} (hgrounded : Grounded db)
    (h : recoverInterrupted db = .ok (count, db')) :
    (∀ i row, db'.job? i = some row → ¬row.state.IsActive ∧ row.state ≠ .interrupted) ↔
      RowsBut none NotInterrupted db := by
  have hrows := recoverInterrupted_rows hgrounded.unique hgrounded.attempts h
  constructor
  · intro hdone i row _ hrow
    obtain ⟨hview, -⟩ | ⟨row', hrow', hactive, -⟩ := hrows i
    · exact (hdone i row ((congrArg JobView.row hview).trans hrow)).2
    · rw [Option.some_inj.mp (hrow.symm.trans hrow')]
      exact notInterrupted_of_active hactive
  · intro hdb i row hrow
    obtain ⟨hview, hinactive⟩ | ⟨row', -, -, hrow'⟩ := hrows i
    · have hrow₀ : db.job? i = some row := (congrArg JobView.row hview).symm.trans hrow
      exact ⟨hinactive row hrow₀, hdb i row (by simp) hrow₀⟩
    · rw [Option.some_inj.mp (hrow.symm.trans hrow')]
      exact ⟨show ¬JobState.requeued.IsActive by decide, show JobState.requeued ≠ .interrupted by decide⟩

end Recovery

/-- In every database that a run of operations reaches, the retries and the attempts of all jobs are within
their limits, a failed attempt is final exactly when the retries of its kind are used up, and a recovery
succeeds; it leaves no job active or interrupted exactly when no attempt of the run was cut off before. -/
theorem retry_budget (runId : String) (ops : List Op) :
    (∀ job row, (runOps (RunDb.empty runId) ops).job? job = some row →
      row.executionRetries ≤ 2 ∧ row.resourceRequeues ≤ 3 ∧
        row.attemptCount ≤ 1 + row.executionRetries + row.resourceRequeues +
          interruptions ((runOps (RunDb.empty runId) ops).attemptsOf job)) ∧
      (∀ job attempt failure observation decision db',
        handleAttemptFailure job attempt failure observation (runOps (RunDb.empty runId) ops) = .ok (decision, db') →
        ∃ row, (runOps (RunDb.empty runId) ops).job? job = some row ∧ (decision = .terminal ↔
          retries (failure.kind = .resourceExceeded) row = retryLimit (failure.kind = .resourceExceeded))) ∧
      ∃ count db', recoverInterrupted (runOps (RunDb.empty runId) ops) = .ok (count, db') ∧
        ((∀ job row, db'.job? job = some row → ¬row.state.IsActive ∧ row.state ≠ .interrupted) ↔
          Uninterrupted (RunDb.empty runId) ops) := by
  have hgrounded := runOps_grounded runId ops
  have hbudget := runOps_budgetSound runId ops
  refine ⟨?_, ?_, ?_⟩
  · intro job row hrow
    have h := hbudget job row hrow
    exact ⟨h.execution, h.resource, h.spent⟩
  · intro job attempt failure observation decision db' h
    exact handleAttemptFailure_terminal hbudget h
  · obtain ⟨count, db', h⟩ := recoverInterrupted_succeeds hgrounded.attempts
    refine ⟨count, db', h, (recoverInterrupted_notInterrupted hgrounded h).trans ?_⟩
    exact runOps_notInterrupted (empty_grounded runId) fun i row _ hrow => by cases hrow

def cutJob : JobId := ⟨"r:x", by decide⟩

/-- A witness job whose only attempt is cut off. -/
def cutOff : List Op :=
  [.insertJob "x" .witness, .refreshReadiness, .beginAttempt cutJob .startWitnessing,
    .applyAttemptEvent cutJob ⟨"r:x:attempt:1", by decide⟩
      (.interrupted (FailureRecord.new .interrupted .scheduler .schedulerRestart))]

theorem retry_budget_cutOff : ∃ count db' row,
    recoverInterrupted (runOps (RunDb.empty "r") cutOff) = .ok (count, db') ∧ db'.job? cutJob = some row ∧
      row.state = .interrupted := by
  have hjob : ((recoverInterrupted (runOps (RunDb.empty "r") cutOff)).toOption.bind fun r =>
      (r.2.job? cutJob).map JobRow.state) = some .interrupted := by
    decide +kernel
  cases hrun : recoverInterrupted (runOps (RunDb.empty "r") cutOff) with
  | error e =>
      rw [hrun] at hjob
      cases hjob
  | ok r =>
      rw [hrun] at hjob
      obtain ⟨row, hrow, hstate⟩ := Option.map_eq_some_iff.mp hjob
      exact ⟨r.1, r.2, row, rfl, hrow, hstate⟩

end Zkie.RunRetries
