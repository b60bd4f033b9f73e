import Zkie.RunLifecycle

namespace Zkie.RunInvariants

open RunState Transaction RunDatabase RunDatabase.RunDb RunLifecycle

variable {db db' : RunDb} {S F G : Prop} {π : Policy} {v v' : JobView} {row row' : JobRow} {job i : JobId}

/-- What an insertion knows of the new row. -/
structure IsNew (row : JobRow) : Prop where
  pending : row.state = .pending
  count : row.attemptCount = 0
  terminal : row.terminalFailure = false
  execution : row.executionRetries = 0
  resource : row.resourceRequeues = 0

theorem job?_append (h : ∀ r ∈ db.jobs, r.id ≠ row.id) :
    ({ db with jobs := db.jobs ++ [row] } : RunDb).job? i = if i = row.id then some row else db.job? i := by
  unfold RunDb.job?
  rw [List.find?_append]
  split
  · rename_i hi
    rw [List.find?_eq_none.mpr fun r hr => by simpa [hi] using h r hr]
    simp [hi]
  · rename_i hi
    simp [Ne.symm hi]

/-- What one step does to one job: nothing, a first insertion, or a move. -/
theorem DbStep.view_cases (h : DbStep π db db') (i : JobId) :
    view db' i = view db i ∨
      (∃ row, IsNew row ∧ row.id = i ∧ db.job? i = none ∧ view db' i = { view db i with row := some row }) ∨
      ∃ row, db.job? i = some row ∧ Move (Satisfied db i) (π.skips ∧ HasFailed db i) π.fails (view db i) row (view db' i) := by
  cases h with
  | insert row _ hfresh hid hstate hcount hterminal hexecution hresource =>
      have hnone : db.job? row.id = none := List.find?_eq_none.mpr fun r hr => by simpa using (hfresh r hr).1
      have hjob := job?_append (i := i) fun r hr => (hfresh r hr).1
      by_cases hi : i = row.id
      · refine .inr (.inl ⟨row, ⟨hstate, hcount, hterminal, hexecution, hresource⟩, hi.symm, hi ▸ hnone, ?_⟩)
        unfold view
        rw [hjob, if_pos hi]
        rfl
      · left
        unfold view
        rw [hjob, if_neg hi]
        rfl
  | edge | history => exact .inl rfl
  | move job row _ hrow hmove hframe =>
      by_cases hi : i = job
      · subst hi
        exact .inr (.inr ⟨row, hrow, hmove⟩)
      · exact .inl (hframe i hi)

/-- The invariant rule: what holds of an absent job and survives its insertion and its moves holds
of every job after every run of operations. -/
theorem runOps_views {P : JobId → JobView → Prop} (habsent : ∀ i, P i ⟨none, [], [], [], []⟩)
    (hinsert : ∀ i v row, P i v → v.row = none → IsNew row → row.id = i → P i { v with row := some row })
    (hmove : ∀ i S F G v row v', P i v → v.row = some row → row.id = i → Move S F G v row v' → P i v')
    (runId : String) (ops : List Op) (i : JobId) : P i (view (runOps (RunDb.empty runId) ops) i) := by
  have hsteps : Steps .all (RunDb.empty runId) (runOps (RunDb.empty runId) ops) :=
    runOps_steps (empty_uniqueAttempts runId)
  generalize runOps (RunDb.empty runId) ops = db at hsteps
  induction hsteps with
  | refl => exact habsent i
  | tail _ hstep ih =>
      obtain hview | ⟨row, hnew, hid, hnone, hview⟩ | ⟨row, hrow, hm⟩ := DbStep.view_cases hstep i
      · exact hview ▸ ih
      · exact hview ▸ hinsert i _ row ih hnone hnew hid
      · exact hmove i _ _ _ _ row _ ih hrow (job?_id hrow) hm

section Attempts

/-- The attempts of a job agree with its row: they are numbered from one, and only an active job has
an open one, which is its last and is in the same state. -/
structure AttemptsMatch (row : JobRow) (attempts : List AttemptRow) : Prop where
  ids : attempts.map (fun a => a.id.text) =
    (List.range row.attemptCount).map fun n => s!"{row.id.text}:attempt:{n + 1}"
  closed : ¬row.state.IsActive → openOf attempts = []
  opened : row.state.IsActive →
    ∃ earlier a, attempts = earlier ++ [a] ∧ openOf earlier = [] ∧ a.finished = false ∧ a.state = row.state

def AttemptsSound (v : JobView) : Prop :=
  (v.row = none → v.attempts = []) ∧ ∀ row, v.row = some row → AttemptsMatch row v.attempts

theorem map_id_closeAll (s : JobState) (as : List AttemptRow) :
    (closeAll s as).map (fun a => a.id.text) = as.map fun a => a.id.text := by
  unfold closeAll
  rw [List.map_map]
  refine List.map_congr_left fun a _ => ?_
  simp only [Function.comp]
  split <;> rfl

theorem AttemptsMatch.enter {as : List AttemptRow} (h : AttemptsMatch row as) (s : JobState)
    (hid : row'.id = row.id) (hcount : row'.attemptCount = row.attemptCount) (hstate : ¬row'.state.IsActive) :
    AttemptsMatch row' (closeAll s as) where
  ids := by rw [map_id_closeAll, h.ids, hid, hcount]
  closed _ := openOf_closeAll s as
  opened hactive := absurd hactive hstate

theorem AttemptsMatch.openOf_eq {as : List AttemptRow} (h : AttemptsMatch row as) (hactive : row.state.IsActive) :
    ∃ a, as.getLast? = some a ∧ openOf as = [a] ∧ a.state = row.state := by
  obtain ⟨earlier, a, rfl, hearlier, hopen, hstate⟩ := h.opened hactive
  refine ⟨a, List.getLast?_concat, ?_, hstate⟩
  unfold openOf at hearlier ⊢
  rw [List.filter_append, hearlier]
  simp [hopen]

/-- A move starts an attempt, or it closes them all in an inactive state. -/
theorem Move.attempts_cases (h : Move S F G v row v') :
    (∃ event a, event.StartsAttempt ∧ openOf v.attempts = [] ∧
        a.id.text = s!"{row.id.text}:attempt:{row.attemptCount + 1}" ∧ a.finished = false ∧
        row.state.transition event = .ok a.state ∧
        v'.row = some (rowAfter event a.state (some (row.attemptCount + 1)) row) ∧ v'.attempts = v.attempts ++ [a]) ∨
      ∃ closing row', v'.row = some row' ∧ v'.attempts = closeAll closing v.attempts ∧ row'.id = row.id ∧
        row'.attemptCount = row.attemptCount ∧ ¬row'.state.IsActive := by
  cases h with
  | ready => exact .inr ⟨_, _, rfl, rfl, rfl, rfl, show ¬JobState.ready.IsActive by decide⟩
  | skip | block => exact .inr ⟨_, _, rfl, rfl, rfl, rfl, show ¬JobState.blocked.IsActive by decide⟩
  | begin event a hstart hkind hopen hid hfinished hstate =>
      exact .inl ⟨event, a, hstart, hopen, hid, hfinished, hstate, rfl, rfl⟩
  | complete event next attempt hevent hopen hstate =>
      exact .inr ⟨_, _, rfl, rfl, rfl, rfl, attemptEvent_inactive hevent hstate⟩
  | retry isResource failure failed attempt hopen hstate =>
      refine .inr ⟨_, _, rfl, rfl, retryRow_id isResource failure failed row, ?_,
        show ¬JobState.requeued.IsActive by decide⟩
      cases isResource <;> rfl
  | exhaust isResource failure failed attempt hopen hstate =>
      exact .inr ⟨_, _, rfl, rfl, rfl, rfl, failureEvent_inactive hstate⟩
  | reject => exact .inr ⟨_, _, rfl, rfl, rfl, rfl, show ¬JobState.verificationFailed.IsActive by decide⟩
  | recover => exact .inr ⟨_, _, rfl, rfl, rfl, rfl, show ¬JobState.requeued.IsActive by decide⟩
  | verify => exact .inr ⟨_, _, rfl, rfl, rfl, rfl, show ¬JobState.verified.IsActive by decide⟩

theorem Move.attemptsMatch (h : Move S F G v row v') (hv : AttemptsMatch row v.attempts) :
    ∃ row', v'.row = some row' ∧ AttemptsMatch row' v'.attempts := by
  obtain ⟨event, a, hstart, hopen, hid, hfinished, hstate, hrow, has⟩ |
    ⟨closing, row', hrow, has, hid, hcount, hstate⟩ := Move.attempts_cases h
  · refine ⟨_, hrow, ?_⟩
    rw [has]
    constructor
    · simp [rowAfter, List.range_succ, hv.ids, hid]
    · intro hinactive
      exact absurd (startsAttempt_active hstart hstate) hinactive
    · intro _
      exact ⟨v.attempts, a, rfl, hopen, hfinished, rfl⟩
  · exact ⟨row', hrow, has ▸ hv.enter closing hid hcount hstate⟩

theorem AttemptsSound.absent : AttemptsSound ⟨none, [], [], [], []⟩ := ⟨fun _ => rfl, fun _ h => by cases h⟩

theorem AttemptsSound.insert (hv : AttemptsSound v) (hnone : v.row = none) (hnew : IsNew row) :
    AttemptsSound { v with row := some row } := by
  refine ⟨fun h => (by cases h), fun row' hrow => ?_⟩
  obtain rfl := Option.some_inj.mp hrow
  simp only [hv.1 hnone]
  exact ⟨by simp [hnew.count], fun _ => rfl, fun h => absurd h (by rw [hnew.pending]; decide)⟩

theorem AttemptsSound.move (hv : AttemptsSound v) (hrow : v.row = some row) (h : Move S F G v row v') :
    AttemptsSound v' := by
  obtain ⟨row', hrow', hmatch⟩ := Move.attemptsMatch h (hv.2 row hrow)
  refine ⟨fun hnone => absurd (hnone.symm.trans hrow') (by simp), fun r hr => ?_⟩
  obtain rfl := Option.some_inj.mp (hrow'.symm.trans hr)
  exact hmatch

theorem runOps_attemptsSound (runId : String) (ops : List Op) (i : JobId) :
    AttemptsSound (view (runOps (RunDb.empty runId) ops) i) := by
  refine runOps_views (P := fun _ => AttemptsSound) (fun i => .absent) ?_ ?_ runId ops i
  · intro i v row hv hnone hnew hid
    exact hv.insert hnone hnew
  · intro i S F G v row v' hv hrow hid hm
    exact hv.move hrow hm

/-- What a recovery does to one job, while the attempts in `rest` are still to be handled. -/
def Recovered (db : RunDb) (rest : List (AttemptRow × JobState)) (i : JobId) (s : RunDb) : Prop :=
  (view s i = view db i ∧ ∀ row, db.job? i = some row → row.state.IsActive → ∃ e ∈ rest, e.1.job = i ∧ e.2.IsActive) ∨
    ∃ row, db.job? i = some row ∧ row.state.IsActive ∧ s.job? i = some (recoverRow row)

theorem Recovered.start (hattempts : AttemptsSound (view db i)) : Recovered db (interruptedAttempts db) i db := by
  refine .inl ⟨rfl, fun row hrow hactive => ?_⟩
  obtain ⟨a, -, hopen, -⟩ := (hattempts.2 row hrow).openOf_eq hactive
  have ha : a ∈ openOf (db.attemptsOf i) := hopen ▸ List.mem_singleton_self a
  obtain ⟨ha, hfinished⟩ := List.mem_filter.mp ha
  obtain ⟨ha, hjob⟩ := List.mem_filter.mp ha
  have hjob : a.job = i := by simpa using hjob
  exact ⟨(a, row.state), mem_interruptedAttempts.mpr ⟨ha, by simpa using hfinished, row, hjob ▸ hrow, rfl⟩, hjob, hactive⟩

/-- The next attempt does not belong to the job, or needs no recovery. -/
theorem Recovered.skip {s : RunDb} {entry : AttemptRow × JobState} {rest : List (AttemptRow × JobState)}
    (h : Recovered db (entry :: rest) i s) (hentry : entry.1.job = i → ¬entry.2.IsActive) : Recovered db rest i s := by
  refine h.imp_left fun ⟨hview, hrest⟩ => ⟨hview, fun row hrow hactive => ?_⟩
  obtain ⟨e, he, hjob, hactive⟩ := hrest row hrow hactive
  rcases List.mem_cons.mp he with rfl | he
  · exact absurd hactive (hentry hjob)
  · exact ⟨e, he, hjob, hactive⟩

/-- A recovery queues the active jobs again and leaves the others alone. -/
theorem recoverInterrupted_rows {count : ℕ} (hunique : UniqueAttempts db) (hattempts : ∀ i, AttemptsSound (view db i))
    (h : recoverInterrupted db = .ok (count, db')) (i : JobId) :
    (view db' i = view db i ∧ ∀ row, db.job? i = some row → ¬row.state.IsActive) ∨
      ∃ row, db.job? i = some row ∧ row.state.IsActive ∧ db'.job? i = some (recoverRow row) := by
  have hkeys : ∀ entry ∈ interruptedAttempts db, (entry.1.id, entry.1.job) ∈ attemptKeys db := fun entry hentry =>
    List.mem_map_of_mem (mem_interruptedAttempts.mp hentry).1
  have hloop := foldEach_invariant (I := fun rest _ s => attemptKeys s = attemptKeys db ∧
    (∀ entry ∈ rest, (entry.1.id, entry.1.job) ∈ attemptKeys db) ∧ Recovered db rest i s) ?_
    (recoverInterrupted_eq_ok.mp h) ⟨rfl, hkeys, Recovered.start (hattempts i)⟩
  · apply hloop.2.2.imp_left
    rintro ⟨hview, hrest⟩
    refine ⟨hview, fun row hrow hactive => ?_⟩
    obtain ⟨e, he, -⟩ := hrest row hrow hactive
    cases he
  · rintro entry rest _ s _ s' ⟨hsame, hrest, hjob⟩ hentry
    have hunique' : UniqueAttempts s := by
      unfold UniqueAttempts
      rw [hsame]
      exact hunique
    have htail : ∀ e ∈ rest, (e.1.id, e.1.job) ∈ attemptKeys db := fun e he => hrest e (.tail _ he)
    obtain ⟨-, ⟨row, hrow, hactive⟩, rfl⟩ | ⟨hinactive, rfl⟩ :=
      recoverAttempt_ok hunique' (hsame ▸ hrest entry (.head _)) hentry
    · refine ⟨?_, htail, ?_⟩
      · rw [settled, attemptKeys_closeAttempts]
        exact hsame
      · by_cases hi : i = entry.1.job
        · subst hi
          obtain ⟨hview, -⟩ | ⟨row₀, -, -, hrow'⟩ := hjob
          · right
            refine ⟨row, (congrArg JobView.row hview).symm.trans hrow, hactive, ?_⟩
            rw [job?_settled (f := recoverRow) fun _ => rfl, if_pos rfl, hrow, Option.map_some]
          · rw [Option.some_inj.mp (hrow.symm.trans hrow')] at hactive
            exact absurd hactive (show ¬JobState.requeued.IsActive by decide)
        · have hview : view (settled entry.1.job .interrupted recoverRow s) i = view s i :=
            view_settled_ne (f := recoverRow) (fun _ => rfl) _ hi
          have hrow' : (settled entry.1.job .interrupted recoverRow s).job? i = s.job? i := congrArg JobView.row hview
          unfold Recovered
          rw [hview, hrow']
          exact hjob.skip fun h => absurd h.symm hi
    · exact ⟨hsame, htail, hjob.skip fun _ => hinactive⟩

/-- In every database that a run of operations reaches, a job is active exactly when it has an open
attempt; that attempt is the only one and has the state of the job, and the attempts of the job are
`<job>:attempt:1` to `<job>:attempt:<attempt_count>`. -/
theorem attempts_of_reachable (runId : String) (ops : List Op) (job : JobId) (row : JobRow)
    (hrow : (runOps (RunDb.empty runId) ops).job? job = some row) :
    (row.state.IsActive ↔ ((runOps (RunDb.empty runId) ops).openAttempts job).length = 1) ∧
      (¬row.state.IsActive → (runOps (RunDb.empty runId) ops).openAttempts job = []) ∧
      (∀ a ∈ (runOps (RunDb.empty runId) ops).openAttempts job, a.state = row.state) ∧
      row.attemptCount = ((runOps (RunDb.empty runId) ops).attemptsOf job).length ∧
      ((runOps (RunDb.empty runId) ops).attemptsOf job).map (fun a => a.id.text) =
        (List.range row.attemptCount).map fun n => s!"{job.text}:attempt:{n + 1}" := by
  have hmatch := (runOps_attemptsSound runId ops job).2 row hrow
  have hlength := congrArg List.length hmatch.ids
  have hids := hmatch.ids
  rw [List.length_map, List.length_map, List.length_range] at hlength
  rw [job?_id hrow] at hids
  refine ⟨?_, hmatch.closed, ?_, hlength.symm, hids⟩
  · constructor
    · intro hactive
      obtain ⟨a, -, hopen, -⟩ := hmatch.openOf_eq hactive
      rw [openAttempts_eq, hopen, List.length_singleton]
    · intro hone
      by_contra hinactive
      rw [openAttempts_eq, hmatch.closed hinactive] at hone
      cases hone
  · intro a ha
    by_cases hactive : row.state.IsActive
    · obtain ⟨b, -, hopen, hstate⟩ := hmatch.openOf_eq hactive
      rw [openAttempts_eq, hopen] at ha
      rw [List.mem_singleton.mp ha, hstate]
    · rw [openAttempts_eq, hmatch.closed hactive] at ha
      cases ha

/-- The only job of a run. -/
def soleJob : JobId := ⟨"r:w", by decide⟩

/-- A witness job that is being executed. -/
def soleAttempt : List Op :=
  [.insertJob "w" .witness, .refreshReadiness, .beginAttempt soleJob .startWitnessing]

theorem attempts_of_reachable_soleAttempt : ((runOps (RunDb.empty "r") soleAttempt).openAttempts soleJob).length = 1 := by
  have hjob : ((runOps (RunDb.empty "r") soleAttempt).job? soleJob).map JobRow.state = some .witnessing := by
    decide +kernel
  obtain ⟨row, hrow, hstate⟩ := Option.map_eq_some_iff.mp hjob
  exact (attempts_of_reachable "r" soleAttempt soleJob row hrow).1.mp (hstate ▸ by decide)

end Attempts

section Final

/-- The states that a job can still leave. -/
def IsLive (s : JobState) : Prop :=
  s ∈ [JobState.pending, .requeued, .ready, .witnessing, .witnessReady, .preparing, .prepared, .proving, .proved,
    .verifying]

instance (s : JobState) : Decidable (IsLive s) := inferInstanceAs (Decidable (_ ∈ _))

theorem isLive_of_mem {s : JobState} {states : List JobState} (h : s ∈ states) (hall : ∀ t ∈ states, IsLive t) :
    IsLive s := hall s h

theorem isLive_of_active {s : JobState} (h : s.IsActive) : IsLive s := isLive_of_mem h (by decide)

theorem isLive_of_waiting {s : JobState} (h : IsWaiting s) : IsLive s := by
  rcases h with rfl | rfl <;> decide

theorem isLive_of_source {attempt : AttemptId} (h : Source v row attempt) : IsLive row.state := by
  rcases h with ⟨⟨-, h⟩, -⟩ | ⟨h, -⟩
  · rw [h]
    decide
  · simp only [VerifiesFinished, List.mem_cons, Prod.mk.injEq, List.not_mem_nil, or_false] at h
    rcases h with ⟨-, h⟩ | ⟨-, h⟩ | ⟨-, h⟩ <;> rw [h] <;> decide

theorem isLive_of_start {event : JobEvent} {s next : JobState} (hstart : event.StartsAttempt)
    (h : s.transition event = .ok next) : IsLive s := by
  have hmem := (JobState.transition_eq_ok.mp h).1
  simp only [JobEvent.StartsAttempt, List.mem_cons, List.not_mem_nil, or_false] at hstart
  rcases hstart with rfl | rfl | rfl | rfl <;> exact isLive_of_mem hmem (by decide)

theorem active_of_attemptEvent {event : JobEvent} {s next : JobState} (hevent : IsAttemptEvent event)
    (h : s.transition event = .ok next) : s.IsActive := by
  have hmem := (JobState.transition_eq_ok.mp h).1
  cases event with
  | witnessCompleted | preparationCompleted | proofProduced =>
      rw [List.mem_singleton.mp hmem]
      decide
  | interrupted f =>
      simp only [JobState.arm] at hmem
      split at hmem
      · exact hmem
      · cases hmem
  | _ => exact absurd hevent id

theorem active_of_failureEvent {isResource : Bool} {failure : FailureRecord} {s next : JobState}
    (h : s.transition (failureEvent isResource failure) = .ok next) : s.IsActive := by
  have hmem := (JobState.transition_eq_ok.mp h).1
  cases isResource
  all_goals
    simp only [failureEvent, JobState.arm, if_true, Bool.false_eq_true, if_false] at hmem
    split at hmem
    · exact hmem
    · cases hmem

/-- Only a live job moves: the other states are final. -/
theorem Move.isLive (h : Move S F G v row v') : IsLive row.state := by
  cases h with
  | ready hwaiting | skip _ hwaiting | block _ hwaiting => exact isLive_of_waiting hwaiting
  | begin event a hstart hkind hopen hid hfinished hstate => exact isLive_of_start hstart hstate
  | complete event next attempt hevent hopen hstate => exact isLive_of_active (active_of_attemptEvent hevent hstate)
  | retry _ _ _ _ _ hstate | exhaust _ _ _ _ _ hstate => exact isLive_of_active (active_of_failureEvent hstate)
  | reject failure attempt hsource | verify record artifacts keys hjob hsource => exact isLive_of_source hsource
  | recover failure hactive => exact isLive_of_active hactive

/-- A job that is not live stays as it is. -/
theorem Steps.view_eq_of_final (h : Steps π db db') (hrow : db.job? job = some row) (hfinal : ¬IsLive row.state) :
    view db' job = view db job := by
  induction h with
  | refl => rfl
  | tail _ hstep ih =>
      have hrow' := (congrArg JobView.row ih).trans hrow
      obtain hview | ⟨_, -, -, hnone, -⟩ | ⟨_, hrow'', hm⟩ := DbStep.view_cases hstep job
      · exact hview.trans ih
      · cases hnone.symm.trans hrow'
      · obtain rfl := Option.some_inj.mp (hrow''.symm.trans hrow')
        exact absurd (Move.isLive hm) hfinal

end Final

section Verified

/-- The rows that a verified job has. -/
structure Earned (v : JobView) (row : JobRow) (record : VerificationRow) : Prop where
  records : v.records = [record]
  last : v.attempts.getLast?.map AttemptRow.id = some record.attempt
  product : Product row record.attempt v.artifacts v.keys

/-- Exactly the verified jobs have rows of a verification. -/
def VerdictSound (v : JobView) : Prop :=
  (v.row = none → v.records = [] ∧ v.artifacts = [] ∧ v.keys = []) ∧ ∀ row, v.row = some row →
    (row.state = .verified → ∃ record, Earned v row record) ∧
      (row.state ≠ .verified → v.records = [] ∧ v.artifacts = [] ∧ v.keys = [])

theorem Product.congr {attempt : AttemptId} {artifacts : List ArtifactRow} {keys : List KeyRow}
    (h : Product row attempt artifacts keys) (hid : row'.id = row.id) (hkind : row'.kind = row.kind) :
    Product row' attempt artifacts keys := by
  cases h with
  | artifact a hjob hattempt hidentity howner hk =>
      exact .artifact a (hjob.trans hid.symm) hattempt hidentity (howner.trans hid.symm) (hk.trans hkind.symm)
  | key k hjob hattempt hidentity howner hk =>
      exact .key k (hjob.trans hid.symm) hattempt hidentity (howner.trans hid.symm) (hk.trans hkind.symm)
  | nothing hk => exact .nothing (hkind.trans hk)

theorem map_id_getLast?_closeAll (s : JobState) (as : List AttemptRow) :
    (closeAll s as).getLast?.map AttemptRow.id = as.getLast?.map AttemptRow.id := by
  unfold closeAll
  rw [List.getLast?_map, Option.map_map]
  refine Option.map_congr fun a _ => ?_
  simp only [Function.comp]
  split <;> rfl

/-- The attempt that is judged is the last one of its job. -/
theorem Source.last {attempt : AttemptId} (h : Source v row attempt) (hv : AttemptsMatch row v.attempts) :
    v.attempts.getLast?.map AttemptRow.id = some attempt := by
  rcases h with ⟨⟨-, hstate⟩, hopen⟩ | ⟨-, latest, hlatest, -, hid, -⟩
  · obtain ⟨a, hlast, ha, -⟩ := hv.openOf_eq (by rw [hstate]; decide)
    rw [ha] at hopen
    rw [hlast, Option.map_some, List.head_eq_of_cons_eq hopen]
  · rw [Option.mem_def.mp hlatest, Option.map_some, hid]

/-- A move verifies the job, or leaves the rows of its verification alone. -/
theorem Move.verdict_cases (h : Move S F G v row v') :
    (∃ record artifacts keys, Source v row record.attempt ∧ Product row record.attempt artifacts keys ∧
        v' = { v.enter .verified (rowAfter (.verificationSucceeded (some record.id)) .verified none row) with
          records := v.records ++ [record]
          artifacts := v.artifacts ++ artifacts
          keys := v.keys ++ keys }) ∨
      ∃ row', v'.row = some row' ∧ row'.state ≠ .verified ∧ v'.records = v.records ∧ v'.artifacts = v.artifacts ∧
        v'.keys = v.keys := by
  cases h with
  | ready => exact .inr ⟨_, rfl, show JobState.ready ≠ .verified by decide, rfl, rfl, rfl⟩
  | skip | block => exact .inr ⟨_, rfl, show JobState.blocked ≠ .verified by decide, rfl, rfl, rfl⟩
  | begin event a hstart hkind hopen hid hfinished hstate =>
      refine .inr ⟨_, rfl, fun hverified => ?_, rfl, rfl, rfl⟩
      have hactive := startsAttempt_active hstart hstate
      rw [show a.state = .verified from hverified] at hactive
      exact absurd hactive (by decide)
  | complete event next attempt hevent hopen hstate =>
      refine .inr ⟨_, rfl, ?_, rfl, rfl, rfl⟩
      change next ≠ .verified
      rw [(JobState.transition_eq_ok.mp hstate).2]
      cases event with
      | witnessCompleted | preparationCompleted | proofProduced => decide
      | interrupted f => exact show JobState.interrupted ≠ .verified by decide
      | _ => exact absurd hevent id
  | retry => exact .inr ⟨_, rfl, show JobState.requeued ≠ .verified by decide, rfl, rfl, rfl⟩
  | exhaust isResource failure failed attempt hopen hstate =>
      refine .inr ⟨_, rfl, ?_, rfl, rfl, rfl⟩
      change failed ≠ .verified
      rw [(JobState.transition_eq_ok.mp hstate).2]
      cases isResource
      · exact show JobState.executionFailed ≠ .verified by decide
      · exact show JobState.resourceExceeded ≠ .verified by decide
  | reject => exact .inr ⟨_, rfl, show JobState.verificationFailed ≠ .verified by decide, rfl, rfl, rfl⟩
  | recover => exact .inr ⟨_, rfl, show JobState.requeued ≠ .verified by decide, rfl, rfl, rfl⟩
  | verify record artifacts keys hjob hsource hproduct =>
      exact .inl ⟨record, artifacts, keys, hsource, hproduct, rfl⟩

theorem Move.verdictSound (h : Move S F G v row v') (hrow : v.row = some row) (hmatch : AttemptsMatch row v.attempts)
    (hv : VerdictSound v) : VerdictSound v' := by
  have hne : row.state ≠ .verified := fun hverified => absurd (hverified ▸ Move.isLive h) (by decide)
  obtain ⟨hrecords, hartifacts, hkeys⟩ := (hv.2 row hrow).2 hne
  obtain ⟨record, artifacts, keys, hsource, hproduct, rfl⟩ | ⟨row', hrow', hstate, hr, ha, hk⟩ := Move.verdict_cases h
  · refine ⟨fun hnone => (by cases hnone), fun row' hrow' => ?_⟩
    obtain rfl := Option.some_inj.mp hrow'
    refine ⟨fun _ => ⟨record, ?_, ?_, ?_⟩, fun hne => absurd rfl hne⟩
    · simp [hrecords]
    · exact (map_id_getLast?_closeAll _ _).trans (Source.last hsource hmatch)
    · rw [hartifacts, hkeys, List.nil_append, List.nil_append]
      exact Product.congr hproduct rfl rfl
  · refine ⟨fun hnone => absurd (hnone.symm.trans hrow') (by simp), fun r hr' => ?_⟩
    obtain rfl := Option.some_inj.mp (hrow'.symm.trans hr')
    rw [hr, ha, hk]
    exact ⟨fun h => absurd h hstate, fun _ => ⟨hrecords, hartifacts, hkeys⟩⟩

theorem VerdictSound.insert (hv : VerdictSound v) (hnone : v.row = none) (hnew : IsNew row) :
    VerdictSound { v with row := some row } := by
  refine ⟨fun h => (by cases h), fun row' hrow => ?_⟩
  obtain rfl := Option.some_inj.mp hrow
  exact ⟨fun h => absurd (hnew.pending.symm.trans h) (by decide), fun _ => hv.1 hnone⟩

theorem runOps_verdictSound (runId : String) (ops : List Op) (i : JobId) :
    VerdictSound (view (runOps (RunDb.empty runId) ops) i) := by
  have hboth := runOps_views (P := fun _ v => AttemptsSound v ∧ VerdictSound v) ?_ ?_ ?_ runId ops i
  · exact hboth.2
  · exact fun i => ⟨.absent, fun _ => ⟨rfl, rfl, rfl⟩, fun _ h => by cases h⟩
  · rintro i v row ⟨hattempts, hverdict⟩ hnone hnew -
    exact ⟨hattempts.insert hnone hnew, hverdict.insert hnone hnew⟩
  · rintro i S F G v row v' ⟨hattempts, hverdict⟩ hrow - hm
    exact ⟨hattempts.move hrow hm, Move.verdictSound hm hrow (hattempts.2 row hrow) hverdict⟩

/-- An artifact of the job that was published by the attempt, for an identity of the job's kind. -/
def ArtifactBinds (row : JobRow) (attempt : AttemptId) (a : ArtifactRow) : Prop :=
  a.attempt = attempt ∧ a.verified.identity.attempt = attempt ∧ a.verified.identity.job = row.id ∧
    a.verified.identity.jobKind = row.kind

def KeyBinds (row : JobRow) (attempt : AttemptId) (k : KeyRow) : Prop :=
  k.attempt = attempt ∧ k.verified.identity.attempt = attempt ∧ k.verified.identity.job = row.id ∧
    k.verified.identity.jobKind = row.kind

/-- The evidence of a verified job: one record, of its last attempt, and what its kind publishes. -/
def HasEvidence (db : RunDb) (row : JobRow) : Prop :=
  ∃ record, db.recordsOf row.id = [record] ∧ (db.attemptsOf row.id).getLast?.map AttemptRow.id = some record.attempt ∧
    (row.kind = .witness ∨ row.kind = .leafProof ∨ row.kind = .nativeAggregate →
      ∃ a, db.artifactsOf row.id = [a] ∧ ArtifactBinds row record.attempt a) ∧
    (row.kind = .prepare →
      (∃ a, db.artifactsOf row.id = [a] ∧ db.keysOf row.id = [] ∧ ArtifactBinds row record.attempt a) ∨
        ∃ k, db.artifactsOf row.id = [] ∧ db.keysOf row.id = [k] ∧ KeyBinds row record.attempt k)

theorem hasEvidence_of_earned {record : VerificationRow} (h : Earned (view db row.id) row record) :
    HasEvidence db row := by
  refine ⟨record, h.records, h.last, ?_⟩
  have hproduct : Product row record.attempt (db.artifactsOf row.id) (db.keysOf row.id) := h.product
  generalize db.artifactsOf row.id = artifacts at hproduct
  generalize db.keysOf row.id = keys at hproduct
  cases hproduct with
  | artifact a hjob hattempt hidentity howner hkind =>
      have hbinds : ArtifactBinds row record.attempt a := ⟨hattempt, hidentity, howner, hkind⟩
      exact ⟨fun _ => ⟨a, rfl, hbinds⟩, fun _ => .inl ⟨a, rfl, rfl, hbinds⟩⟩
  | key k hjob hattempt hidentity howner hkind =>
      have hprepare := hkind.symm.trans k.verified.identity.prepares
      refine ⟨fun h => ?_, fun _ => .inr ⟨k, rfl, rfl, hattempt, hidentity, howner, hkind⟩⟩
      rw [hprepare] at h
      exact absurd h (by decide)
  | nothing hkind =>
      rw [hkind]
      exact ⟨fun h => absurd h (by decide), fun h => absurd h (by decide)⟩

/-- In every database that a run of operations reaches, exactly the verified jobs have the evidence
of a verification, and no later run changes a verified job or its evidence. -/
theorem verified_iff_evidence (runId : String) (ops : List Op) (job : JobId) (row : JobRow)
    (hrow : (runOps (RunDb.empty runId) ops).job? job = some row) :
    (row.state = .verified ↔ HasEvidence (runOps (RunDb.empty runId) ops) row) ∧
      (row.state = .verified → ∀ later,
        (runOps (RunDb.empty runId) (ops ++ later)).job? job = some row ∧
        (runOps (RunDb.empty runId) (ops ++ later)).attemptsOf job = (runOps (RunDb.empty runId) ops).attemptsOf job ∧
        (runOps (RunDb.empty runId) (ops ++ later)).recordsOf job = (runOps (RunDb.empty runId) ops).recordsOf job ∧
        (runOps (RunDb.empty runId) (ops ++ later)).artifactsOf job = (runOps (RunDb.empty runId) ops).artifactsOf job ∧
        (runOps (RunDb.empty runId) (ops ++ later)).keysOf job = (runOps (RunDb.empty runId) ops).keysOf job) := by
  obtain rfl := job?_id hrow
  have hverdict := (runOps_verdictSound runId ops row.id).2 row hrow
  refine ⟨⟨fun h => ?_, fun h => ?_⟩, fun h later => ?_⟩
  · obtain ⟨record, hearned⟩ := hverdict.1 h
    exact hasEvidence_of_earned hearned
  · by_contra hne
    obtain ⟨record, hrecord, -⟩ := h
    cases hrecord.symm.trans (hverdict.2 hne).1
  · have hsteps : Steps .all (RunDb.empty runId) (runOps (RunDb.empty runId) ops) :=
      runOps_steps (empty_uniqueAttempts runId)
    have hlater : Steps .all (runOps (RunDb.empty runId) ops) (runOps (RunDb.empty runId) (ops ++ later)) := by
      rw [runOps, runOps, List.foldl_append]
      exact runOps_steps (hsteps.uniqueAttempts (empty_uniqueAttempts runId))
    have hview := Steps.view_eq_of_final hlater hrow (by rw [h]; decide)
    unfold view at hview
    injection hview with hrow' hattempts hrecords hartifacts hkeys
    exact ⟨hrow'.trans hrow, hattempts, hrecords, hartifacts, hkeys⟩

/-- A leaf verification that succeeds. -/
def soleVerification : List Op :=
  [.insertJob "w" .leafVerification, .refreshReadiness, .beginAttempt soleJob .startVerification,
    .completeVerification soleJob ⟨"r:w:attempt:1", by decide⟩ "halo2"]

theorem verified_iff_evidence_soleVerification : ∃ row,
    (runOps (RunDb.empty "r") soleVerification).job? soleJob = some row ∧
      HasEvidence (runOps (RunDb.empty "r") soleVerification) row := by
  have hjob : ((runOps (RunDb.empty "r") soleVerification).job? soleJob).map JobRow.state = some .verified := by
    decide +kernel
  obtain ⟨row, hrow, hstate⟩ := Option.map_eq_some_iff.mp hjob
  exact ⟨row, hrow, (verified_iff_evidence "r" soleVerification soleJob row hrow).1.mp hstate⟩

end Verified

end Zkie.RunInvariants
