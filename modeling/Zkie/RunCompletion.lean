import Zkie.RunPlanning

namespace Zkie.RunCompletion

open RunState Transaction RunDatabase RunDatabase.RunDb RunLifecycle RunInvariants RunBlocking RunQueue RunPlanning
  Interruptible

variable {α : Type} {db db' : RunDb} {S F G : Prop} {π : Policy} {v v' : JobView} {row row' : JobRow} {job i : JobId}

section Rows

/-- Every row of the database, except perhaps that of one job. -/
def RowsBut (job : Option JobId) (R : JobRow → Prop) (db : RunDb) : Prop :=
  ∀ i row, some i ≠ job → db.job? i = some row → R row

theorem RowsBut.settled {R : JobRow → Prop} {f : JobRow → JobRow} {closing : JobState} (h : RowsBut (some job) R db)
    (hf : ∀ row, (f row).id = row.id) (hrow : ∀ row, db.job? job = some row → R (f row)) (but : Option JobId) :
    RowsBut but R (settled job closing f db) := by
  intro i row' _ hrow'
  rw [job?_settled hf] at hrow'
  by_cases hi : i = job
  · subst hi
    rw [if_pos rfl] at hrow'
    obtain ⟨row, hr, rfl⟩ := Option.map_eq_some_iff.mp hrow'
    exact hrow row hr
  · rw [if_neg hi] at hrow'
    exact h i row' (by simpa using hi) hrow'

theorem RowsBut.some {R : JobRow → Prop} (h : RowsBut none R db) : RowsBut (some job) R db :=
  fun i row _ => h i row (by simp)

theorem RowsBut.of_view {R : JobRow → Prop} (h : RowsBut (Option.some job) R db)
    (hframe : ∀ i, i ≠ job → view db' i = view db i) : RowsBut (Option.some job) R db' := fun i row hi hrow =>
  h i row hi ((congrArg JobView.row (hframe i (by simpa using hi))).symm.trans hrow)

theorem blockFrontier_rows {R : JobRow → Prop} (hR : ∀ p row, R row → R (blockRow p row)) {fuel : ℕ}
    {frontier : List JobId} {u : Unit} (hdb : RowsBut none R db) (h : blockFrontier fuel frontier db = .ok (u, db')) :
    RowsBut none R db' := by
  refine blockFrontier_invariant (I := RowsBut none R) ?_ hdb h
  intro p successor s _ hs _ _
  exact hs.some.settled (f := blockRow p) (fun _ => rfl) (fun row hrow => hR p row (hs _ row (by simp) hrow)) none

/-- What one readiness sweep does: waiting jobs get ready or blocked. -/
structure Swept (db db' : RunDb) : Prop where
  deps : db'.dependencies = db.dependencies
  rows : ∀ i, db'.job? i = db.job? i ∨ ∃ row row', db.job? i = some row ∧ IsWaiting row.state ∧
    db'.job? i = some row' ∧ (row'.state = .ready ∨ row'.state = .blocked)

theorem Swept.settled {db₀ : RunDb} {f : JobRow → JobRow} {closing : JobState} (h : Swept db₀ db)
    (hf : ∀ row, (f row).id = row.id) (hrow : db.job? job = some row) (hwaiting : IsWaiting row.state)
    (hstate : (f row).state = .ready ∨ (f row).state = .blocked) : Swept db₀ (settled job closing f db) := by
  refine ⟨h.deps, fun i => ?_⟩
  rw [job?_settled hf]
  by_cases hi : i = job
  · subst hi
    rw [if_pos rfl, hrow]
    obtain hsame | ⟨_, row', -, -, hrow', hs⟩ := h.rows i
    · exact .inr ⟨row, f row, hsame ▸ hrow, hwaiting, rfl, hstate⟩
    · obtain rfl := Option.some_inj.mp (hrow.symm.trans hrow')
      rcases hs with hs | hs <;> rw [hs] at hwaiting <;> exact absurd hwaiting (by decide)
  · rw [if_neg hi]
    exact h.rows i

theorem Swept.satisfied_iff (h : Swept db db') (i : JobId) : Satisfied db' i ↔ Satisfied db i := by
  unfold Satisfied predecessors
  rw [h.deps]
  refine forall_congr' fun p => forall_congr' fun _ => ?_
  obtain hrow | ⟨row, row', hrow, hwaiting, hrow', hs⟩ := h.rows p
  · rw [hrow]
  · rw [hrow, hrow']
    constructor
    · intro hv
      rw [hv _ rfl] at hs
      exact absurd hs (by decide)
    · intro hv
      rw [hv _ rfl] at hwaiting
      exact absurd hwaiting (by decide)

theorem refreshReadiness_swept {count : ℕ} (h : refreshReadiness db = .ok (count, db')) :
    Swept db db' ∧ ∀ i row, db'.job? i = some row → IsWaiting row.state → ¬Satisfied db' i := by
  have hmem : ∀ i row, db.job? i = some row → IsWaiting row.state →
      i ∈ sortIds ((db.jobs.filter fun row => IsWaiting row.state).map JobRow.id) := by
    intro i row hrow hwaiting
    refine (List.perm_insertionSort IdLe _).mem_iff.mpr (List.mem_map.mpr ⟨row, ?_, job?_id hrow⟩)
    exact List.mem_filter.mpr ⟨mem_jobs_of_job? hrow, decide_eq_true hwaiting⟩
  have hloop := foldEach_invariant (I := fun rest _ s => Swept db s ∧
    ∀ i row, s.job? i = some row → IsWaiting row.state → i ∉ rest → ¬Satisfied db i) ?_ (refreshReadiness_eq_ok.mp h)
    ⟨⟨rfl, fun _ => .inl rfl⟩, fun i row hrow hwaiting hi => absurd (hmem i row hrow hwaiting) hi⟩
  · refine ⟨hloop.1, fun i row hrow hwaiting hs => ?_⟩
    exact hloop.2 i row hrow hwaiting List.not_mem_nil ((hloop.1.satisfied_iff i).mp hs)
  · rintro job rest _ s _ s' ⟨hswept, hdone⟩ hjob
    have hchanged : ∀ {f : JobRow → JobRow} {closing : JobState} {row : JobRow}, (∀ row, (f row).id = row.id) →
        s.job? job = some row → ¬IsWaiting (f row).state → ∀ i row', (settled job closing f s).job? i = some row' →
        IsWaiting row'.state → i ∉ rest → ¬Satisfied db i := by
      intro f closing row hf hrow hstate i row' hrow' hwaiting hi
      rw [job?_settled hf] at hrow'
      by_cases hij : i = job
      · rw [if_pos hij, hij, hrow] at hrow'
        exact absurd (Option.some_inj.mp hrow' ▸ hwaiting) hstate
      · rw [if_neg hij] at hrow'
        exact hdone i row' hrow' hwaiting (by simp [hij, hi])
    obtain ⟨row, hrow, hwaiting, hs, rfl⟩ | ⟨row, p, hrow, hwaiting, -, -, rfl⟩ | ⟨hs, -, rfl⟩ := refreshJob_ok hjob
    · exact ⟨hswept.settled rowAfter_id hrow hwaiting (.inl rfl),
        hchanged rowAfter_id hrow (show ¬IsWaiting .ready by decide)⟩
    · exact ⟨hswept.settled rowAfter_id hrow hwaiting (.inr rfl),
        hchanged rowAfter_id hrow (show ¬IsWaiting .blocked by decide)⟩
    · refine ⟨hswept, fun i row hrow hwaiting hi => ?_⟩
      by_cases hij : i = job
      · exact hij ▸ fun hsat => hs ((hswept.satisfied_iff job).mpr hsat)
      · exact hdone i row hrow hwaiting (by simp [hij, hi])

end Rows

section Orderly

/-- A failed execution is only kept if the job has failed for good. -/
def FailMarked (v : JobView) : Prop := ∀ row, v.row = some row →
  row.state = .executionFailed ∨ row.state = .resourceExceeded → row.terminalFailure = true

theorem Move.failMarked (h : Move S F G v row v') : FailMarked v' := by
  intro row' hrow' hstate
  cases h with
  | ready | skip | block | recover | reject | verify =>
      obtain rfl := Option.some_inj.mp hrow'
      rcases hstate with h | h <;> cases h
  | begin event a hstart hkind hopen hid hfinished hs =>
      obtain rfl := Option.some_inj.mp hrow'
      have hactive := startsAttempt_active hstart hs
      rcases hstate with h | h <;> rw [show a.state = _ from h] at hactive <;> exact absurd hactive (by decide)
  | complete event next attempt hevent hopen hs =>
      obtain rfl := Option.some_inj.mp hrow'
      have hnext : next = _ := (JobState.transition_eq_ok.mp hs).2
      cases event with
      | witnessCompleted | preparationCompleted | proofProduced | interrupted =>
          rcases hstate with h | h <;> cases (show next = _ from h).symm.trans hnext
      | _ => exact absurd hevent id
  | retry =>
      obtain rfl := Option.some_inj.mp hrow'
      rcases hstate with h | h <;> cases h
  | exhaust =>
      obtain rfl := Option.some_inj.mp hrow'
      rfl

theorem DbStep.failMarked (h : DbStep π db db') (hdb : ∀ i, FailMarked (view db i)) (i : JobId) :
    FailMarked (view db' i) := by
  obtain hview | ⟨row, hnew, -, -, hview⟩ | ⟨row, -, hm⟩ := DbStep.view_cases h i
  · exact hview ▸ hdb i
  · intro row' hrow' hstate
    obtain rfl := Option.some_inj.mp ((congrArg JobView.row hview).symm.trans hrow')
    rw [hnew.pending] at hstate
    exact absurd hstate (by decide)
  · exact Move.failMarked hm

theorem DbStep.attemptsSound (h : DbStep π db db') (hdb : ∀ i, AttemptsSound (view db i)) (i : JobId) :
    AttemptsSound (view db' i) := by
  obtain hview | ⟨row, hnew, -, hnone, hview⟩ | ⟨row, hrow, hm⟩ := DbStep.view_cases h i
  · exact hview ▸ hdb i
  · exact hview ▸ (hdb i).insert hnone hnew
  · exact (hdb i).move hrow hm

/-- What holds of every database that the operations can build. -/
structure Grounded (db : RunDb) : Prop where
  ids : (db.jobs.map JobRow.id).Nodup
  ends : ∀ d ∈ db.dependencies, (db.job? d.1).isSome ∧ (db.job? d.2).isSome
  unique : UniqueAttempts db
  named : Named db
  attempts : ∀ i, AttemptsSound (view db i)
  failMarks : ∀ i, FailMarked (view db i)

theorem DbStep.grounded (h : DbStep π db db') (hdb : Grounded db) : Grounded db' := by
  refine ⟨?_, ?_, h.uniqueAttempts hdb.unique, DbStep.named h hdb.named, DbStep.attemptsSound h hdb.attempts,
    DbStep.failMarked h hdb.failMarks⟩
  · cases h with
    | insert row _ hfresh =>
        rw [List.map_append]
        apply hdb.ids.append (List.nodup_singleton _)
        intro id hid hrow
        obtain ⟨r, hr, rfl⟩ := List.mem_map.mp hid
        exact (hfresh r hr).1 (List.mem_singleton.mp hrow)
    | edge | history => exact hdb.ids
    | move job row _ hrow hmove hframe hids => exact hids ▸ hdb.ids
  · intro d hd
    by_cases hold : d ∈ db.dependencies
    · exact ⟨DbStep.job?_isSome h (hdb.ends d hold).1, DbStep.job?_isSome h (hdb.ends d hold).2⟩
    · cases h with
      | insert | history => exact absurd hd hold
      | edge p s _ hp hs =>
          obtain rfl := List.mem_singleton.mp ((List.mem_append.mp hd).resolve_left hold)
          exact ⟨hp, hs⟩
      | move job row _ hrow hmove hframe hids hdeps => exact absurd (hdeps ▸ hd) hold

theorem empty_grounded (runId : String) : Grounded (RunDb.empty runId) where
  ids := List.nodup_nil
  ends d hd := absurd hd List.not_mem_nil
  unique := empty_uniqueAttempts runId
  named i row h := by cases h
  attempts i := AttemptsSound.absent
  failMarks i row h := by cases h

theorem Steps.grounded (h : Steps π db db') (hdb : Grounded db) : Grounded db' := by
  induction h with
  | refl => exact hdb
  | tail _ hstep ih => exact DbStep.grounded hstep ih

theorem runOps_grounded (runId : String) (ops : List Op) : Grounded (runOps (RunDb.empty runId) ops) :=
  Steps.grounded (runOps_steps (empty_uniqueAttempts runId)) (empty_grounded runId)

/-- A job of the plan has this logical id. -/
def InPlan (plan : QueuePlan) (logicalId : String) : Prop := ∃ planned ∈ plan.jobs, planned.logicalId = logicalId

/-- The planned jobs only wait for verified jobs and for planned jobs of a smaller rank, and they are only
ready when they wait for nothing. -/
structure Ordered (rank : String → ℕ) (plan : QueuePlan) (db : RunDb) : Prop where
  ready : ∀ d ∈ db.dependencies, ∀ s, db.job? d.2 = some s → InPlan plan s.logicalJobId → s.state = .ready →
    ∀ p, db.job? d.1 = some p → p.state = .verified
  ranked : ∀ d ∈ db.dependencies, ∀ s, db.job? d.2 = some s → InPlan plan s.logicalJobId →
    ∀ p, db.job? d.1 = some p →
      p.state = .verified ∨ InPlan plan p.logicalJobId ∧ rank p.logicalJobId < rank s.logicalJobId

/-- Steps without new jobs keep the names and the kinds of all jobs. -/
theorem DbStep.same_names (h : DbStep π db db') (hπ : ¬π.inserts) (i : JobId) :
    (db'.job? i).map (fun row => (row.logicalJobId, row.kind)) = (db.job? i).map fun row => (row.logicalJobId, row.kind) := by
  cases h with
  | insert _ hi => exact absurd hi hπ
  | edge | history => rfl
  | move job row _ hrow hmove hframe =>
      by_cases hi : i = job
      · subst hi
        obtain ⟨row', hrow', -⟩ := Move.mark_cases hmove
        obtain ⟨-, hname, hkind⟩ := Move.names hmove hrow'
        rw [hrow, show db'.job? i = some row' from hrow', Option.map_some, Option.map_some, hname, hkind]
      · rw [show db'.job? i = db.job? i from congrArg JobView.row (hframe i hi)]

theorem DbStep.old_row (h : DbStep π db db') (hπ : ¬π.inserts) (hrow' : db'.job? i = some row') :
    ∃ row, db.job? i = some row ∧ row.logicalJobId = row'.logicalJobId ∧ row.kind = row'.kind := by
  have hi := DbStep.same_names h hπ i
  rw [hrow', Option.map_some] at hi
  obtain ⟨row, hrow, hsame⟩ := Option.map_eq_some_iff.mp hi.symm
  exact ⟨row, hrow, congrArg Prod.fst hsame, congrArg Prod.snd hsame⟩

/-- A job only gets ready when its predecessors are verified. -/
theorem Move.ready_cases (h : Move S F G v row v') (hrow' : v'.row = some row') (hready : row'.state = .ready) : S := by
  cases h with
  | ready _ hs => exact hs
  | begin event a hstart hkind hopen hid hfinished hs =>
      obtain rfl := Option.some_inj.mp hrow'
      have hactive := startsAttempt_active hstart hs
      rw [show a.state = _ from hready] at hactive
      exact absurd hactive (by decide)
  | complete event next attempt hevent hopen hs =>
      obtain rfl := Option.some_inj.mp hrow'
      have hnext : next = _ := (JobState.transition_eq_ok.mp hs).2
      cases event with
      | witnessCompleted | preparationCompleted | proofProduced | interrupted =>
          cases (show next = _ from hready).symm.trans hnext
      | _ => exact absurd hevent id
  | exhaust isResource failure failed attempt hopen hs =>
      obtain rfl := Option.some_inj.mp hrow'
      have hfailed : failed = _ := (JobState.transition_eq_ok.mp hs).2
      cases isResource <;> cases (show failed = _ from hready).symm.trans hfailed
  | skip | block | retry | reject | recover | verify =>
      obtain rfl := Option.some_inj.mp hrow'
      cases hready

variable {rank : String → ℕ} {plan : QueuePlan}

theorem DbStep.dependencies_eq (h : DbStep π db db') (hπ : ¬π.links) : db'.dependencies = db.dependencies := by
  cases h with
  | insert | history => rfl
  | edge _ _ hl => exact absurd hl hπ
  | move job row _ hrow hmove hframe hids hdeps => exact hdeps

theorem DbStep.ordered (h : DbStep noLinks db db') (hdb : Ordered rank plan db) : Ordered rank plan db' := by
  have hdeps := DbStep.dependencies_eq h id
  have hverified : ∀ {i p₀ p}, db.job? i = some p₀ → db'.job? i = some p → p₀.state = .verified → p.state = .verified := by
    intro i p₀ p hp₀ hp hv
    rw [← Option.some_inj.mp ((DbStep.job?_of_verified h hp₀ hv).symm.trans hp), hv]
  constructor
  · intro d hd s hs hplan hready p hp
    rw [hdeps] at hd
    obtain ⟨p₀, hp₀, -⟩ := DbStep.old_row h id hp
    apply hverified hp₀ hp
    obtain hview | ⟨row, hnew, -, -, hview⟩ | ⟨row, -, hm⟩ := DbStep.view_cases h d.2
    · exact hdb.ready d hd s ((congrArg JobView.row hview).symm.trans hs) hplan hready p₀ hp₀
    · rw [Option.some_inj.mp (hs.symm.trans (congrArg JobView.row hview)), hnew.pending] at hready
      cases hready
    · apply Move.ready_cases hm hs hready d.1 ?_ p₀ hp₀
      exact List.mem_map.mpr ⟨d, List.mem_filter.mpr ⟨hd, by simp⟩, rfl⟩
  · intro d hd s hs hplan p hp
    obtain ⟨s₀, hs₀, hsname, -⟩ := DbStep.old_row h id hs
    obtain ⟨p₀, hp₀, hpname, -⟩ := DbStep.old_row h id hp
    rw [← hsname] at hplan
    rw [← hsname, ← hpname]
    apply (hdb.ranked d (hdeps ▸ hd) s₀ hs₀ hplan p₀ hp₀).imp_left
    exact hverified hp₀ hp

theorem Steps.ordered (h : Steps noLinks db db') (hdb : Ordered rank plan db) : Ordered rank plan db' := by
  induction h with
  | refl => exact hdb
  | tail _ hstep ih => exact DbStep.ordered hstep ih

end Orderly

section Working

variable {rank : String → ℕ} {plan : QueuePlan} {entries : List Entry}

/-- The states in which the queue leaves a job between two rounds. -/
def calmStates : List JobState :=
  [.pending, .requeued, .ready, .verified, .executionFailed, .resourceExceeded, .verificationFailed, .blocked]

def IsCalm (plan : QueuePlan) (row : JobRow) : Prop := InPlan plan row.logicalJobId → row.state ∈ calmStates

theorem isCalm_of_state {s : JobState} (h : row.state = s) (hs : s ∈ calmStates) : IsCalm plan row := by
  intro _
  rw [h]
  exact hs

/-- The entries are those of the plan, and their jobs are there. -/
structure Enrolled (plan : QueuePlan) (entries : List Entry) (db : RunDb) : Prop where
  jobs : entries.map Entry.planned = plan.jobs
  rows : ∀ e ∈ entries, ∃ row, db.job? e.id = some row ∧ row.logicalJobId = e.planned.logicalId

/-- The database between two operations of a round: all planned jobs, but perhaps the one that is being run,
are calm. -/
structure Working (rank : String → ℕ) (plan : QueuePlan) (entries : List Entry) (but : Option JobId) (db : RunDb) :
    Prop where
  grounded : Grounded db
  ordered : Ordered rank plan db
  enrolled : Enrolled plan entries db
  calm : RowsBut but (IsCalm plan) db

theorem Enrolled.step (h : Enrolled plan entries db) (hstep : DbStep noLinks db db') : Enrolled plan entries db' := by
  refine ⟨h.jobs, fun e he => ?_⟩
  obtain ⟨row, hrow, hname⟩ := h.rows e he
  have hnames := DbStep.same_names hstep id e.id
  rw [hrow, Option.map_some] at hnames
  obtain ⟨row', hrow', hname'⟩ := Option.map_eq_some_iff.mp hnames
  exact ⟨row', hrow', (congrArg Prod.fst hname').trans hname⟩

theorem Working.steps {but but' : Option JobId} (h : Working rank plan entries but db) (hsteps : Steps noLinks db db')
    (hcalm : RowsBut but' (IsCalm plan) db') : Working rank plan entries but' db' := by
  refine ⟨Steps.grounded hsteps h.grounded, Steps.ordered hsteps h.ordered, ?_, hcalm⟩
  clear hcalm
  induction hsteps with
  | refl => exact h.enrolled
  | tail _ hstep ih => exact ih.step hstep

/-- From `P` the process only returns with `Q`. -/
abbrev Returns (P : RunDb → Prop) (p : Queue α) (Q : α → RunDb → Prop) : Prop :=
  Spec (fun db _ => P db) p (fun a db _ => Q a db) fun _ _ => True

theorem returns_transact {P : RunDb → Prop} {Q : α → RunDb → Prop} {note : RunDb → List Start} {p : Db α}
    (h : ∀ db a db', P db → p db = .ok (a, db') → Q a db') : Returns P (transact .db note p) Q :=
  .transact (fun _ _ _ => trivial) fun db _ a db' hdb hrun => h db a db' hdb hrun

theorem refreshReadiness_working {count : ℕ} (h : Working rank plan entries none db)
    (hrun : refreshReadiness db = .ok (count, db')) : Working rank plan entries none db' := by
  apply h.steps (refreshReadiness_steps (π := noLinks) trivial db count db' hrun)
  intro i row hi hrow
  obtain hsame | ⟨_, row', -, -, hrow', hstate⟩ := (refreshReadiness_swept hrun).1.rows i
  · exact h.calm i row hi (hsame ▸ hrow)
  · obtain rfl := Option.some_inj.mp (hrow.symm.trans hrow')
    rcases hstate with h | h <;> exact isCalm_of_state h (by decide)

theorem beginAttempt_working {event : JobEvent} {attempt : AttemptId} (h : Working rank plan entries none db)
    (hrun : beginAttempt job event db = .ok (attempt, db')) : Working rank plan entries (some job) db' := by
  apply h.steps (beginAttempt_steps (π := noLinks) job event db attempt db' hrun)
  obtain ⟨row, next, -, -, -, -, -, -, -, rfl⟩ := beginAttempt_ok hrun
  apply h.calm.some.of_view
  intro i hi
  exact view_begun_ne rfl hi

theorem handleAttemptFailure_working {attempt : AttemptId} {failure : FailureRecord} {decision : RetryDecision}
    (h : Working rank plan entries (some job) db)
    (hrun : handleAttemptFailure job attempt failure none db = .ok (decision, db')) :
    Working rank plan entries none db' := by
  apply h.steps (handleAttemptFailure_steps (π := noLinks) trivial job attempt failure none db decision db' hrun)
  obtain ⟨row, failed, isResource, -, -, -, hs, hend⟩ := handleAttemptFailure_ok hrun
  rcases hend with ⟨-, -, rfl⟩ | ⟨-, -, hblock⟩
  · apply h.calm.settled (retryRow_id isResource failure failed)
    intro row _
    exact isCalm_of_state (s := .requeued) rfl (by decide)
  · apply blockFrontier_rows (fun p row _ => isCalm_of_state (s := .blocked) rfl (by decide)) ?_
      (blockDescendantsTx_eq_ok.mp hblock)
    apply h.calm.settled (f := exhaustRow isResource failure failed) (fun _ => rfl)
    intro row _
    apply isCalm_of_state (s := failed) rfl
    rw [(JobState.transition_eq_ok.mp hs).2]
    cases isResource
    · exact show JobState.executionFailed ∈ calmStates by decide
    · exact show JobState.resourceExceeded ∈ calmStates by decide

theorem applyAttemptEvent_working {attempt : AttemptId} {event : JobEvent} {next : JobState}
    (h : Working rank plan entries (some job) db) (hrun : applyAttemptEvent job attempt event db = .ok (next, db')) :
    Working rank plan entries (some job) db' := by
  apply h.steps (applyAttemptEvent_steps (π := noLinks) job attempt event db next db' hrun)
  obtain ⟨row, -, -, -, -, rfl⟩ := applyAttemptEvent_ok hrun
  apply h.calm.of_view
  intro i hi
  exact view_settled_ne rowAfter_id next hi

theorem verifiedDb_working {record : VerificationRow} {artifacts : List ArtifactRow} {keys : List KeyRow}
    (h : Working rank plan entries (some job) db) (hjob : record.job = job) (hrow : db.job? record.job = some row)
    (hsource : Source (view db record.job) row record.attempt) (hproduct : Product row record.attempt artifacts keys) :
    Working rank plan entries none (verifiedDb record artifacts keys db) := by
  apply h.steps (.single (verifiedDb_step hrow hsource hproduct))
  subst hjob
  have hcalm : RowsBut (some record.job) (IsCalm plan) { db with
      verificationRecords := db.verificationRecords ++ [record]
      artifacts := db.artifacts ++ artifacts
      keyArtifacts := db.keyArtifacts ++ keys } := h.calm
  exact hcalm.settled rowAfter_id (fun row _ => isCalm_of_state (s := .verified) rfl (by decide)) none

theorem ProofBinding.identity_job {b : ProofBinding} {kind : JobKind} {runId : String} {attempt : AttemptId}
    {digest : Digest32} {identity : TrustedProofIdentity} (h : b.identity kind runId job attempt digest = some identity) :
    identity.job = job := by
  unfold ProofBinding.identity at h
  split at h
  · rw [← Option.some_inj.mp h]
  · cases h

theorem KeyBinding.identity_job {b : KeyBinding} {kind : JobKind} {runId : String} {attempt : AttemptId}
    {staged : Staged} {identity : TrustedKeyIdentity} (h : b.identity kind runId job attempt staged = some identity) :
    identity.job = job := by
  unfold KeyBinding.identity at h
  split at h
  · rw [← Option.some_inj.mp h]
  · cases h

theorem commitProof_working (planned : PlannedJob) (job : JobId) (attempt : AttemptId) (staged : Staged)
    (binding : ProofBinding) :
    Returns (Working rank plan entries (some job)) (commitProof planned job attempt staged binding) fun _ =>
      Working rank plan entries none := by
  apply Spec.bind (Q := fun _ db _ => Working rank plan entries (some job) db) (.read fun _ _ h => h)
  intro db₀
  apply Spec.bind (Q := fun identity db _ => identity.job = job ∧ Working rank plan entries (some job) db)
  · exact .orFail (fun _ _ _ => trivial) fun identity hidentity _ _ h => ⟨ProofBinding.identity_job hidentity, h⟩
  intro identity
  apply Spec.bind (Q := fun _ db _ => identity.job = job ∧ Working rank plan entries (some job) db)
  · exact .orFail (fun _ _ _ => trivial) fun _ _ _ _ h => h
  intro published
  apply Spec.bind (Q := fun _ db _ => Working rank plan entries none db)
  · apply returns_transact (P := fun db => identity.job = job ∧ Working rank plan entries (some job) db)
    intro db next db' h hrun
    obtain ⟨record, artifacts, keys, row, hjob, hrow, hsource, hproduct, rfl⟩ := commitVerifiedArtifact_ok hrun
    exact verifiedDb_working h.2 (hjob.trans h.1) hrow hsource hproduct
  · exact fun _ => .pure fun _ _ h => h

theorem commitKey_working (runtime : QueueRuntime) (planned : PlannedJob) (job : JobId) (attempt : AttemptId)
    (staged : Staged) (binding : KeyBinding) :
    Returns (Working rank plan entries (some job)) (commitKey runtime planned job attempt staged binding) fun _ =>
      Working rank plan entries none := by
  apply Spec.bind (Q := fun _ db _ => Working rank plan entries (some job) db) (.read fun _ _ h => h)
  intro db₀
  apply Spec.bind (Q := fun identity db _ => identity.job = job ∧ Working rank plan entries (some job) db)
  · exact .orFail (fun _ _ _ => trivial) fun identity hidentity _ _ h => ⟨KeyBinding.identity_job hidentity, h⟩
  intro identity
  apply Spec.bind (Q := fun _ db _ => identity.job = job ∧ Working rank plan entries (some job) db)
  · exact .orFail (fun _ _ _ => trivial) fun _ _ _ _ h => h
  intro published
  apply Spec.bind (Q := fun _ db _ => Working rank plan entries none db)
  · apply returns_transact (P := fun db => identity.job = job ∧ Working rank plan entries (some job) db)
    intro db next db' h hrun
    obtain ⟨record, artifacts, keys, row, hjob, hrow, hsource, hproduct, rfl⟩ := commitVerifiedKey_ok hrun
    exact verifiedDb_working h.2 (hjob.trans h.1) hrow hsource hproduct
  · exact fun _ => .pure fun _ _ h => h

/-- An attempt that is run to its end leaves the planned jobs calm. -/
theorem runOne_working (runtime : QueueRuntime) (planned : PlannedJob) (job : JobId) :
    Returns (Working rank plan entries none) (runOne runtime planned job) fun _ => Working rank plan entries none := by
  apply Spec.bind (Q := fun _ db _ => Working rank plan entries (some job) db)
  · exact returns_transact fun db attempt db' h hrun => beginAttempt_working h hrun
  intro attempt
  split
  · exact .fail fun _ _ _ => trivial
  · apply Spec.bind (Q := fun _ db _ => Working rank plan entries none db)
    · exact returns_transact fun db decision db' h hrun => handleAttemptFailure_working h hrun
    · exact fun _ => .pure fun _ _ h => h
  · exact .fail fun _ _ _ => trivial
  · rename_i staged _
    unfold finishSuccess
    split
    · apply Spec.bind (Q := fun _ db _ => Working rank plan entries none db)
      · apply returns_transact
        intro db next db' h hrun
        obtain ⟨record, artifacts, keys, row, hjob, hrow, hsource, hproduct, rfl⟩ := completeVerification_ok hrun
        exact verifiedDb_working h hjob hrow hsource hproduct
      · exact fun _ => .pure fun _ _ h => h
    · apply Spec.bind (Q := fun _ db _ => Working rank plan entries (some job) db)
      · unfold finishSuccess.completeAttempt
        split
        · apply Spec.bind (Q := fun _ db _ => Working rank plan entries (some job) db)
          · exact returns_transact fun db next db' h hrun => applyAttemptEvent_working h hrun
          · exact fun _ => .pure fun _ _ h => h
        · exact .pure fun _ _ h => h
      intro _
      apply Spec.bind (Q := fun _ db _ => Working rank plan entries (some job) db)
      · exact .orFail (fun _ _ _ => trivial) fun _ _ _ _ h => h
      intro object
      split
      · exact commitProof_working planned job attempt object _
      · exact commitKey_working runtime planned job attempt object _

end Working

section Scheduling

variable {rank : String → ℕ} {plan : QueuePlan} {entries : List Entry} {c : ResourceCapacity} {r : ResourceRequest}

theorem fits_usable (h : c.Fits r) : (c.usable c).Fits r := by
  obtain ⟨hcpu, hram, hgpu, hvram⟩ := h
  refine ⟨by simpa [ResourceCapacity.usable] using hcpu, by simpa [ResourceCapacity.usable] using hram,
    by simpa [ResourceCapacity.usable] using hgpu, ?_⟩
  unfold ResourceCapacity.usable
  simp only [min_self]
  split
  · rename_i hnone
    rw [r.gpu.mp (Nat.le_zero.mp (hnone ▸ hgpu))]
  · exact hvram

theorem best_ne_none {l : List SchedulableJob} (h : l ≠ []) : best c l ≠ none := by
  cases l with
  | nil => exact absurd rfl h
  | cons a l =>
      unfold best
      split
      · simp
      · split <;> simp

theorem fill_ne_nil {fuel : ℕ} {l : List SchedulableJob} {a : SchedulableJob} (hfuel : fuel ≠ 0) (ha : a ∈ l)
    (hfits : c.Fits a.request) : fill fuel l c ≠ [] := by
  cases fuel with
  | zero => exact absurd rfl hfuel
  | succ fuel =>
      unfold fill
      split
      · rename_i hnone
        apply absurd hnone (best_ne_none ?_)
        exact List.ne_nil_of_mem (List.mem_filter.mpr ⟨ha, decide_eq_true hfits⟩)
      · simp

theorem select_ne_nil {now : ℤ} {l : List SchedulableJob} (hl : l ≠ []) (hfits : ∀ a ∈ l, c.Fits a.request) :
    select c (c.usable c) now l ≠ [] := by
  unfold select
  split
  · obtain ⟨a, ha⟩ := List.exists_mem_of_ne_nil l hl
    apply fill_ne_nil ?_ ha (fits_usable (hfits a ha))
    simpa using hl
  · rename_i aged haged
    rw [if_pos (fits_usable (hfits aged (List.mem_of_find?_eq_some haged)))]
    simp

/-- A candidate is a ready job with the request of a planned job. -/
def IsCandidate (plan : QueuePlan) (db : RunDb) (a : SchedulableJob) : Prop :=
  (∃ row, db.job? a.jobId = some row ∧ InPlan plan row.logicalJobId ∧ row.state = .ready) ∧
    ∃ planned ∈ plan.jobs, a.request = planned.request

/-- The planned jobs that have been looked at are candidates if they are ready. -/
def Listed (plan : QueuePlan) (rest : List PlannedJob) (candidates : List SchedulableJob) (db : RunDb) : Prop :=
  (∀ a ∈ candidates, IsCandidate plan db a) ∧ ∀ planned ∈ plan.jobs, planned ∈ rest ∨
    ∀ i row, db.job? i = some row → row.logicalJobId = planned.logicalId → row.state = .ready → candidates ≠ []

/-- What a query returns is in the database that it leaves. -/
theorem queryJob_returns {P : RunDb → Prop} (job : JobId) :
    Returns P (queryJob job) fun row db => P db ∧ db.job? job = some row := by
  apply Spec.bind (Q := fun db₀ db _ => P db ∧ db = db₀)
  · exact .read fun _ _ h => ⟨h, rfl⟩
  intro db₀
  apply Spec.orFail
  · exact fun _ _ _ => trivial
  · intro row hrow db _ h
    exact ⟨h.1, h.2 ▸ hrow⟩

theorem Grounded.id_eq {j : JobId} (h : Grounded db) (hi : db.job? i = some row) (hj : db.job? j = some row')
    (hname : row.logicalJobId = row'.logicalJobId) : i = j := by
  apply Identifier.ext
  rw [h.named i row hi, h.named j row' hj, hname]

theorem readyCandidate_listed {planned : PlannedJob} {rest : List PlannedJob} {candidates : List SchedulableJob}
    {W : RunDb → Prop} (hW : ∀ db, W db → Grounded db ∧ Enrolled plan entries db) (hplanned : planned ∈ plan.jobs) :
    Returns (fun db => W db ∧ Listed plan (planned :: rest) candidates db)
      (readyCandidate entries candidates planned)
      fun candidates' db => W db ∧ Listed plan rest candidates' db := by
  apply Spec.bind (Q := fun id db _ => (∃ e ∈ entries, e.planned.logicalId = planned.logicalId ∧ e.id = id) ∧
    W db ∧ Listed plan (planned :: rest) candidates db)
  · apply Spec.bind (Q := fun e db _ => (e ∈ entries ∧ e.planned.logicalId = planned.logicalId) ∧
      W db ∧ Listed plan (planned :: rest) candidates db)
    · apply Spec.orFail
      · exact fun _ _ _ => trivial
      · intro e he db _ h
        exact ⟨⟨List.mem_of_find?_eq_some he, by simpa using List.find?_some he⟩, h⟩
    · exact fun e => .pure fun _ _ h => ⟨⟨e, h.1.1, h.1.2, rfl⟩, h.2⟩
  intro id
  apply Spec.bind (queryJob_returns (P := fun db => (∃ e ∈ entries, e.planned.logicalId = planned.logicalId ∧ e.id = id) ∧
    W db ∧ Listed plan (planned :: rest) candidates db) id)
  intro row
  apply Spec.pure
  rintro db _ ⟨⟨⟨e, he, hname, rfl⟩, hworking, hcandidates, hlisted⟩, hrow⟩
  have hrowname : row.logicalJobId = planned.logicalId := by
    obtain ⟨row', hrow', hname'⟩ := (hW db hworking).2.rows e he
    rw [Option.some_inj.mp (hrow.symm.trans hrow'), hname', hname]
  refine ⟨hworking, ?_, ?_⟩
  · intro a ha
    split at ha
    · rename_i hready
      rcases List.mem_append.mp ha with ha | ha
      · exact hcandidates a ha
      · rw [List.mem_singleton.mp ha]
        exact ⟨⟨row, hrow, ⟨planned, hplanned, hrowname.symm⟩, hready⟩, planned, hplanned, rfl⟩
    · exact hcandidates a ha
  · intro other hother
    rcases hlisted other hother with hmem | hdone
    · rcases List.mem_cons.mp hmem with rfl | hmem
      · apply Or.inr
        intro i row' hrow' hname' hready
        obtain rfl := (hW db hworking).1.id_eq hrow hrow' (hrowname.trans hname'.symm)
        rw [if_pos (Option.some_inj.mp (hrow.symm.trans hrow') ▸ hready)]
        simp
      · exact .inl hmem
    · apply Or.inr
      intro i row' hrow' hname' hready
      have hne := hdone i row' hrow' hname' hready
      split
      · simp
      · exact hne

theorem readyCandidates_listed {W : RunDb → Prop} (hW : ∀ db, W db → Grounded db ∧ Enrolled plan entries db) :
    Returns (W) (readyCandidates plan entries) fun candidates db =>
      W db ∧ Listed plan [] candidates db := by
  have hloop := Spec.foldEach (f := readyCandidate entries) (E := fun _ _ => True) (l := plan.jobs) (c := [])
    (I := fun rest candidates db _ => (∀ planned ∈ rest, planned ∈ plan.jobs) ∧ W db ∧
      Listed plan rest candidates db) ?_
  · apply hloop.mono
    · intro db _ h
      exact ⟨fun _ => id, h, fun _ h => absurd h List.not_mem_nil, fun planned h => .inl h⟩
    · exact fun _ _ _ h => h.2
  · intro planned rest candidates
    apply Spec.given
    intro hrest
    apply (readyCandidate_listed hW (hrest planned (.head _))).mono (fun _ _ h => h)
    exact fun _ _ _ h => ⟨fun other hother => hrest other (.tail _ hother), h⟩

/-- Candidates stay candidates in a sweep. -/
theorem IsCandidate.swept {a : SchedulableJob} (h : IsCandidate plan db a) (hswept : Swept db db') :
    IsCandidate plan db' a := by
  obtain ⟨⟨row, hrow, hplan, hready⟩, hrequest⟩ := h
  refine ⟨⟨row, ?_, hplan, hready⟩, hrequest⟩
  obtain hsame | ⟨row₀, row', hrow₀, hwaiting, -⟩ := hswept.rows a.jobId
  · rw [hsame, hrow]
  · rw [← Option.some_inj.mp (hrow.symm.trans hrow₀), hready] at hwaiting
    exact absurd hwaiting (by decide)

/-- Every candidate is eligible. -/
theorem IsCandidate.eligible {a : SchedulableJob} (h : IsCandidate plan db a) (hordered : Ordered rank plan db)
    (hrow : db.job? a.jobId = some row) : row.state = .ready ∧ RequiredPredecessorsVerified db a.jobId := by
  obtain ⟨⟨row₀, hrow₀, hplan, hready⟩, -⟩ := h
  obtain rfl := Option.some_inj.mp (hrow₀.symm.trans hrow)
  refine ⟨hready, ?_⟩
  intro p hp
  obtain ⟨i, hi, hp⟩ := mem_predecessorStates.mp hp
  obtain ⟨d, hd, rfl⟩ := List.mem_map.mp hi
  obtain ⟨hd, hjob⟩ := List.mem_filter.mp hd
  have hjob : d.2 = a.jobId := by simpa using hjob
  exact hordered.ready d hd row₀ (hjob ▸ hrow) hplan hready p hp

theorem eligibleCandidate_working {a : SchedulableJob} {rest candidates eligible : List SchedulableJob} :
    Returns (fun db => (Working rank plan entries none db ∧ ∀ b ∈ candidates, IsCandidate plan db b) ∧
        eligible ++ a :: rest = candidates) (eligibleCandidate eligible a)
      fun eligible' db => (Working rank plan entries none db ∧ ∀ b ∈ candidates, IsCandidate plan db b) ∧
        eligible' ++ rest = candidates := by
  apply Spec.bind (queryJob_returns (P := fun db => (Working rank plan entries none db ∧
    ∀ b ∈ candidates, IsCandidate plan db b) ∧ eligible ++ a :: rest = candidates) a.jobId)
  intro row
  apply Spec.bind (Q := fun db₀ db _ => db = db₀ ∧ ((Working rank plan entries none db ∧
    ∀ b ∈ candidates, IsCandidate plan db b) ∧ eligible ++ a :: rest = candidates) ∧ db.job? a.jobId = some row)
  · exact .read fun _ _ h => ⟨rfl, h⟩
  intro db₀
  apply Spec.pure
  rintro db _ ⟨rfl, ⟨⟨hworking, hcandidates⟩, hsplit⟩, hrow⟩
  refine ⟨⟨hworking, hcandidates⟩, ?_⟩
  have ha : a ∈ candidates := by simp [← hsplit]
  rw [if_pos ((hcandidates a ha).eligible hworking.ordered hrow), List.append_assoc]
  exact hsplit

/-- If all requests fit, a decision among some candidates selects some. -/
theorem decide_working {now : ℤ} {candidates : List SchedulableJob} (hne : candidates ≠ [])
    (hfits : ∀ planned ∈ plan.jobs, c.Fits planned.request) :
    Returns (fun db => Working rank plan entries none db ∧ ∀ a ∈ candidates, IsCandidate plan db a)
      (RunQueue.decide c c now candidates)
      fun selected db => Working rank plan entries none db ∧ selected ≠ [] := by
  unfold RunQueue.decide
  split
  · exact .fail fun _ _ _ => trivial
  apply Spec.bind (Q := fun _ db _ => Working rank plan entries none db ∧ ∀ a ∈ candidates, IsCandidate plan db a)
  · apply returns_transact (P := fun db => Working rank plan entries none db ∧ ∀ a ∈ candidates, IsCandidate plan db a)
    intro db count db' h hrun
    exact ⟨refreshReadiness_working h.1 hrun, fun a ha => (h.2 a ha).swept (refreshReadiness_swept hrun).1⟩
  intro _
  apply Spec.bind (Q := fun eligible db _ => (Working rank plan entries none db ∧
    ∀ a ∈ candidates, IsCandidate plan db a) ∧ eligible ++ [] = candidates)
  · have hloop := Spec.foldEach (f := eligibleCandidate) (E := fun _ _ => True) (l := candidates) (c := [])
      (I := fun rest eligible db _ => (Working rank plan entries none db ∧
        ∀ a ∈ candidates, IsCandidate plan db a) ∧ eligible ++ rest = candidates) fun a rest eligible =>
          eligibleCandidate_working
    exact hloop.mono (fun _ _ h => ⟨h, rfl⟩) fun _ _ _ h => h
  intro eligible
  apply Spec.pure
  rintro db _ ⟨⟨hworking, hcandidates⟩, hsplit⟩
  rw [List.append_nil] at hsplit
  subst hsplit
  have hmem : ∀ a, a ∈ eligible.insertionSort Precedes ↔ a ∈ eligible := fun a =>
    (List.perm_insertionSort Precedes eligible).mem_iff
  refine ⟨hworking, select_ne_nil ?_ ?_⟩
  · obtain ⟨a, ha⟩ := List.exists_mem_of_ne_nil eligible hne
    exact List.ne_nil_of_mem ((hmem a).mpr ha)
  · intro a ha
    obtain ⟨-, planned, hplanned, hrequest⟩ := hcandidates a ((hmem a).mp ha)
    rw [hrequest]
    exact hfits planned hplanned

/-- No planned job is ready, and those that wait have a predecessor that is not verified. -/
def AtRest (plan : QueuePlan) (db : RunDb) : Prop := ∀ i row, db.job? i = some row → InPlan plan row.logicalJobId →
  row.state ≠ .ready ∧ (IsWaiting row.state → ¬Satisfied db i)

theorem runSelected_working (runtime : QueueRuntime) (selected : List JobId) :
    Returns (Working rank plan entries none) (foldEach (runSelected runtime entries) () selected) fun _ =>
      Working rank plan entries none := by
  apply Spec.foldEach (I := fun _ _ db _ => Working rank plan entries none db)
  intro job rest _
  apply Spec.bind (Q := fun _ db _ => Working rank plan entries none db)
  · exact .orFail (fun _ _ _ => trivial) fun _ _ _ _ h => h
  · exact fun entry => runOne_working runtime entry.planned job

/-- While the monitor admits work and all requests fit, the rounds only end when nothing is left to do. -/
theorem queueRounds_rest {runtime : QueueRuntime} (hfits : ∀ planned ∈ plan.jobs, runtime.capacity.Fits planned.request)
    {fuel round : ℕ} (hadmits : ∀ n, round ≤ n → n < round + fuel → runtime.admits n = true) :
    Returns (Working rank plan entries none) (queueRounds runtime plan entries fuel round) fun _ db =>
      Working rank plan entries none db ∧ AtRest plan db := by
  induction fuel generalizing round with
  | zero => exact .fail fun _ _ _ => trivial
  | succ fuel ih =>
      unfold queueRounds
      apply Spec.bind (Q := fun _ db _ => Working rank plan entries none db ∧
        ∀ i row, db.job? i = some row → IsWaiting row.state → ¬Satisfied db i)
      · exact returns_transact fun db count db' h hrun =>
          ⟨refreshReadiness_working h hrun, (refreshReadiness_swept hrun).2⟩
      intro _
      apply Spec.bind (Q := fun candidates db _ => (Working rank plan entries none db ∧
        ∀ i row, db.job? i = some row → IsWaiting row.state → ¬Satisfied db i) ∧ Listed plan [] candidates db)
      · exact readyCandidates_listed fun db h => ⟨h.1.grounded, h.1.enrolled⟩
      intro candidates
      split
      · rename_i hnone
        apply Spec.pure
        rintro db _ ⟨⟨hworking, hwaiting⟩, -, hlisted⟩
        refine ⟨hworking, ?_⟩
        rintro i row hrow ⟨planned, hplanned, hname⟩
        refine ⟨fun hready => ?_, hwaiting i row hrow⟩
        have hdone := (hlisted planned hplanned).resolve_left List.not_mem_nil
        exact hdone i row hrow hname.symm hready hnone
      · rename_i hsome
        apply Spec.bind (Q := fun selected db _ => Working rank plan entries none db ∧ selected ≠ [])
        · unfold decideWithMemory
          rw [if_pos (hadmits round le_rfl (by omega))]
          apply (decide_working hsome hfits).mono
          · exact fun _ _ h => ⟨h.1.1, h.2.1⟩
          · exact fun _ _ _ h => h
        intro selected
        split
        · rename_i hnothing
          exact fun s hs => absurd hnothing hs.2
        · apply Spec.bind (Q := fun _ db _ => Working rank plan entries none db)
          · exact (runSelected_working runtime selected).mono (fun _ _ h => h.1) fun _ _ _ h => h
          · exact fun _ => ih fun n hn hlt => hadmits n (by omega) (by omega)

/-- At rest, and with no job that has failed or is blocked, all planned jobs are verified: by the rank of
the jobs, since those that wait do so for one of a smaller rank. -/
theorem verified_of_rest {rounds : ℕ} (h : Working rank plan entries none db) (hrest : AtRest plan db)
    (hcomplete : (summarize db rounds).IsComplete) (hrow : db.job? i = some row) (hplan : InPlan plan row.logicalJobId) :
    row.state = .verified := by
  induction hn : rank row.logicalJobId using Nat.strong_induction_on generalizing i row with
  | _ n ih =>
      have hmem : row ∈ orderedJobs db := (List.perm_insertionSort _ _).mem_iff.mpr (mem_jobs_of_job? hrow)
      have hblocked : row.state ≠ .blocked := by
        intro hs
        have hempty := List.map_eq_nil_iff.mp hcomplete.2
        exact absurd (List.mem_filter.mpr ⟨hmem, decide_eq_true hs⟩) (hempty ▸ List.not_mem_nil)
      have hterminal : row.state = .verified ∨ row.state ≠ .verificationFailed ∧ row.terminalFailure ≠ true := by
        by_contra hfail
        push Not at hfail
        have hempty := List.map_eq_nil_iff.mp hcomplete.1
        refine absurd (List.mem_filter.mpr ⟨hmem, ?_⟩) (hempty ▸ List.not_mem_nil)
        have hor : row.state = .verificationFailed ∨ row.terminalFailure = true := by
          by_cases hv : row.state = .verificationFailed
          · exact .inl hv
          · exact .inr (hfail.2 hv)
        exact decide_eq_true ⟨hfail.1, hblocked, hor⟩
      by_contra hverified
      obtain ⟨hvf, hmark⟩ := hterminal.resolve_left hverified
      obtain ⟨hready, hwaits⟩ := hrest i row hrow hplan
      have hwaiting : IsWaiting row.state := by
        have hcalm := h.calm i row (by simp) hrow hplan
        have hfail := h.grounded.failMarks i row hrow
        simp only [calmStates, List.mem_cons, List.not_mem_nil, or_false] at hcalm
        rcases hcalm with hs | hs | hs | hs | hs | hs | hs | hs
        · exact .inl hs
        · exact .inr hs
        · exact absurd hs hready
        · exact absurd hs hverified
        · exact absurd (hfail (.inl hs)) hmark
        · exact absurd (hfail (.inr hs)) hmark
        · exact absurd hs hvf
        · exact absurd hs hblocked
      apply absurd ?_ (hwaits hwaiting)
      intro p hp prow hprow
      obtain ⟨d, hd, rfl⟩ := List.mem_map.mp hp
      obtain ⟨hd, hjob⟩ := List.mem_filter.mp hd
      have hjob : d.2 = i := by simpa using hjob
      obtain hv | ⟨hpplan, hlt⟩ := h.ordered.ranked d hd row (hjob ▸ hrow) hplan prow hprow
      · exact hv
      · exact ih _ (hn ▸ hlt) hprow hpplan rfl

end Scheduling

section Planning

variable {rank : String → ℕ} {plan : QueuePlan} {entries : List Entry}

/-- A recovery leaves no planned job active. -/
theorem recoverInterrupted_calm {count : ℕ} (h : Grounded db) (hstates : ∀ i row, db.job? i = some row →
    InPlan plan row.logicalJobId → row.state ∈ calmStates ∨ row.state.IsActive)
    (hrun : recoverInterrupted db = .ok (count, db')) : RowsBut none (IsCalm plan) db' := by
  intro i row _ hrow hplan
  obtain ⟨hview, hinactive⟩ | ⟨row₀, -, -, hrow'⟩ := recoverInterrupted_rows h.unique h.attempts hrun i
  · have hrow₀ : db.job? i = some row := (congrArg JobView.row hview).symm.trans hrow
    exact (hstates i row hrow₀ hplan).resolve_right (hinactive row hrow₀)
  · rw [Option.some_inj.mp (hrow.symm.trans hrow')]
    exact show JobState.requeued ∈ calmStates by decide

/-- A database in which the plan is being enrolled: the jobs that were inserted just now are pending. -/
structure Enrolling (rank : String → ℕ) (plan : QueuePlan) (entries : List Entry) (db : RunDb) : Prop where
  grounded : Grounded db
  ordered : Ordered rank plan db
  calm : RowsBut none (IsCalm plan) db
  rows : ∀ e ∈ entries, ∃ row, db.job? e.id = some row ∧ row.logicalJobId = e.planned.logicalId ∧
    (e.created = true → row.state = .pending)

theorem insertJob_enrolling {planned : PlannedJob} {id : JobId} (h : Enrolling rank plan entries db)
    (hrun : insertJob planned.logicalId planned.kind db = .ok (id, db')) :
    Enrolling rank plan (entries ++ [⟨planned, id, true⟩]) db' := by
  have hkeeps := insertJob_keeps hrun
  have hjob := insertJob_job? hrun
  obtain ⟨hfresh, htext, hdb'⟩ := insertJob_ok hrun
  have hdeps : db'.dependencies = db.dependencies := by rw [hdb']
  have hstep : DbStep quiet db db' := by
    rw [hdb']
    exact .insert (newRow id planned.logicalId planned.kind) trivial hfresh htext rfl rfl rfl rfl rfl
  -- the ends of a dependency were there before
  have hold : ∀ {j}, (db.job? j).isSome → ∀ {row}, db'.job? j = some row → db.job? j = some row := by
    intro j hsome row hrow
    obtain ⟨row₀, hrow₀⟩ := Option.isSome_iff_exists.mp hsome
    rw [hrow₀, ← hkeeps j row₀ hrow₀, hrow]
  refine ⟨DbStep.grounded hstep h.grounded, ⟨?_, ?_⟩, ?_, ?_⟩
  · intro d hd s hs hplan hready p hp
    rw [hdeps] at hd
    exact h.ordered.ready d hd s (hold (h.grounded.ends d hd).2 hs) hplan hready p (hold (h.grounded.ends d hd).1 hp)
  · intro d hd s hs hplan p hp
    rw [hdeps] at hd
    exact h.ordered.ranked d hd s (hold (h.grounded.ends d hd).2 hs) hplan p (hold (h.grounded.ends d hd).1 hp)
  · intro i row hi hrow
    rw [hjob] at hrow
    split at hrow
    · rw [← Option.some_inj.mp hrow]
      exact isCalm_of_state (s := .pending) rfl (by decide)
    · exact h.calm i row hi hrow
  · intro e he
    rcases List.mem_append.mp he with he | he
    · obtain ⟨row, hrow, hrest⟩ := h.rows e he
      exact ⟨row, hkeeps e.id row hrow, hrest⟩
    · rw [List.mem_singleton.mp he]
      exact ⟨_, (hjob id).trans (if_pos rfl), rfl, fun _ => rfl⟩

theorem ensureJob_enrolling (planned : PlannedJob) :
    Returns (Enrolling rank plan entries) (ensureJob entries planned) fun entries' db =>
      Enrolling rank plan entries' db ∧ ∃ e : Entry, entries' = entries ++ [e] ∧ e.planned = planned := by
  apply Spec.bind (Q := fun db₀ db _ => db = db₀ ∧ Enrolling rank plan entries db)
  · exact .read fun _ _ h => ⟨rfl, h⟩
  intro db₀
  split
  · rename_i id hid
    apply Spec.pure
    rintro db _ ⟨rfl, h⟩
    refine ⟨⟨h.grounded, h.ordered, h.calm, ?_⟩, _, rfl, rfl⟩
    intro e he
    rcases List.mem_append.mp he with he | he
    · exact h.rows e he
    · obtain ⟨row, hrow, hname⟩ := existing_eq_some h.grounded.ids hid
      rw [List.mem_singleton.mp he]
      exact ⟨row, hrow, hname, fun hcreated => Bool.noConfusion hcreated⟩
  · apply Spec.bind (Q := fun id db _ => Enrolling rank plan (entries ++ [⟨planned, id, true⟩]) db)
    · apply returns_transact (P := fun db => db = db₀ ∧ Enrolling rank plan entries db)
      exact fun db id db' h hrun => insertJob_enrolling h.2 hrun
    · exact fun id => .pure fun _ _ h => ⟨h, _, rfl, rfl⟩

/-- The dependencies of the plan respect the rank. -/
def Ranks (rank : String → ℕ) (plan : QueuePlan) : Prop :=
  ∀ planned ∈ plan.jobs, ∀ name ∈ planned.dependsOn, rank name < rank planned.logicalId

theorem addDependency_enrolling {predecessor entry : Entry} {u : Unit} (h : Enrolling rank plan entries db)
    (hjobs : ∀ e ∈ entries, e.planned ∈ plan.jobs) (hp : predecessor ∈ entries) (he : entry ∈ entries)
    (hcreated : entry.created = true) (hrank : rank predecessor.planned.logicalId < rank entry.planned.logicalId)
    (hrun : addDependency predecessor.id entry.id db = .ok (u, db')) : Enrolling rank plan entries db' := by
  have hgrounded := DbStep.grounded (addDependency_step hrun) h.grounded
  obtain ⟨-, -, -, -, rfl⟩ := addDependency_ok hrun
  obtain ⟨srow, hsrow, hsname, hpending⟩ := h.rows entry he
  obtain ⟨prow, hprow, hpname, -⟩ := h.rows predecessor hp
  refine ⟨hgrounded, ⟨?_, ?_⟩, h.calm, h.rows⟩
  · intro d hd s hs hplan hready p hp
    rcases List.mem_append.mp hd with hd | hd
    · exact h.ordered.ready d hd s hs hplan hready p hp
    · rw [List.mem_singleton.mp hd] at hs
      rw [← Option.some_inj.mp (hsrow.symm.trans hs), hpending hcreated] at hready
      cases hready
  · intro d hd s hs hplan p hp'
    rcases List.mem_append.mp hd with hd | hd
    · exact h.ordered.ranked d hd s hs hplan p hp'
    · rw [List.mem_singleton.mp hd] at hs hp'
      rw [← Option.some_inj.mp (hsrow.symm.trans hs), ← Option.some_inj.mp (hprow.symm.trans hp'), hsname, hpname]
      exact .inr ⟨⟨predecessor.planned, hjobs predecessor hp, rfl⟩, hrank⟩

theorem ensureEdges_enrolling (hranks : Ranks rank plan) (hjobs : ∀ e ∈ entries, e.planned ∈ plan.jobs) {entry : Entry}
    (he : entry ∈ entries) (u : Unit) :
    Returns (Enrolling rank plan entries) (ensureEdges entries u entry) fun _ => Enrolling rank plan entries := by
  unfold ensureEdges
  split
  · rename_i hcreated
    have hloop := Spec.foldEach (f := ensureEdge entries entry) (E := fun _ _ => True) (l := entry.planned.dependsOn)
      (c := ()) (I := fun rest _ db _ => (∀ name ∈ rest, name ∈ entry.planned.dependsOn) ∧ Enrolling rank plan entries db) ?_
    · exact hloop.mono (fun _ _ h => ⟨fun _ => id, h⟩) fun _ _ _ h => h.2
    · intro name rest _
      apply Spec.given
      intro hrest
      apply Spec.bind (Q := fun p db _ => (p ∈ entries ∧ p.planned.logicalId = name) ∧ Enrolling rank plan entries db)
      · apply Spec.orFail
        · exact fun _ _ _ => trivial
        · intro p hp db _ h
          exact ⟨⟨List.mem_of_find?_eq_some hp, by simpa using List.find?_some hp⟩, h⟩
      intro p
      apply Spec.given
      rintro ⟨hp, hname⟩
      apply returns_transact (Q := fun _ db => (∀ name ∈ rest, name ∈ entry.planned.dependsOn) ∧ Enrolling rank plan entries db)
      intro db _ db' h hrun
      have hrank := hranks entry.planned (hjobs entry he) name (hrest name (.head _))
      rw [← hname] at hrank
      exact ⟨fun n hn => hrest n (.tail _ hn), addDependency_enrolling h hjobs hp he hcreated hrank hrun⟩
  · exact .pure fun _ _ h => h

theorem ensurePlanned_working (hranks : Ranks rank plan) :
    Returns (Enrolling rank plan []) (ensurePlanned plan) fun entries db => Working rank plan entries none db := by
  apply Spec.bind (Q := fun entries db _ => entries.map Entry.planned = plan.jobs ∧ Enrolling rank plan entries db)
  · have hloop := Spec.foldEach (f := ensureJob) (E := fun _ _ => True) (l := plan.jobs) (c := [])
      (I := fun rest entries db _ => entries.map Entry.planned ++ rest = plan.jobs ∧ Enrolling rank plan entries db) ?_
    · apply hloop.mono (fun _ _ h => ⟨rfl, h⟩)
      exact fun _ _ _ h => ⟨by simpa using h.1, h.2⟩
    · intro planned rest entries
      apply Spec.given
      intro hjobs
      apply (ensureJob_enrolling planned).mono (fun _ _ h => h)
      rintro _ db _ ⟨h, e, rfl, he⟩
      refine ⟨?_, h⟩
      rw [List.map_append, List.map_singleton, he, List.append_assoc]
      exact hjobs
  intro entries
  apply Spec.given
  intro hjobs
  have hmem : ∀ e ∈ entries, e.planned ∈ plan.jobs := fun e he => hjobs ▸ List.mem_map_of_mem he
  apply Spec.bind (Q := fun _ db _ => Enrolling rank plan entries db)
  · have hloop := Spec.foldEach (f := ensureEdges entries) (E := fun _ _ => True) (l := entries) (c := ())
      (I := fun rest _ db _ => (∀ e ∈ rest, e ∈ entries) ∧ Enrolling rank plan entries db) ?_
    · exact hloop.mono (fun _ _ h => ⟨fun _ => id, h⟩) fun _ _ _ h => h.2
    · intro entry rest u
      apply Spec.given
      intro hrest
      apply (ensureEdges_enrolling hranks hmem (hrest entry (.head _)) u).mono (fun _ _ h => h)
      exact fun _ _ _ h => ⟨fun e he => hrest e (.tail _ he), h⟩
  · intro _
    apply Spec.pure
    intro db _ h
    refine ⟨h.grounded, h.ordered, ⟨hjobs, fun e he => ?_⟩, h.calm⟩
    obtain ⟨row, hrow, hname, -⟩ := h.rows e he
    exact ⟨row, hrow, hname⟩

/-- A database from which the queue can finish: no planned job was left behind between the end of its attempt
and the commit of its output, or interrupted, and the dependencies are in order. -/
structure Startable (rank : String → ℕ) (plan : QueuePlan) (db : RunDb) : Prop where
  states : ∀ i row, db.job? i = some row → InPlan plan row.logicalJobId →
    row.state ∉ [JobState.witnessReady, .prepared, .proved, .interrupted]
  ordered : Ordered rank plan db

/-- All jobs of the plan are verified. -/
def PlanVerified (plan : QueuePlan) (db : RunDb) : Prop := ∀ planned ∈ plan.jobs,
  ∃ i row, i.text = s!"{db.runId}:{planned.logicalId}" ∧ db.job? i = some row ∧ row.state = .verified

theorem calm_or_active {s : JobState} (h : s ∉ [JobState.witnessReady, .prepared, .proved, .interrupted]) :
    s ∈ calmStates ∨ s.IsActive := by
  cases s with
  | witnessReady | prepared | proved | interrupted => exact absurd (by decide) h
  | witnessing | preparing | proving | verifying => exact .inr (by decide)
  | _ => exact .inl (by decide)

theorem runQueue_verified {runtime : QueueRuntime} (hranks : Ranks rank plan)
    (hfits : ∀ planned ∈ plan.jobs, runtime.capacity.Fits planned.request)
    (hadmits : ∀ round < runtime.maxRounds, runtime.admits round = true) :
    Returns (fun db => Grounded db ∧ Startable rank plan db) (runQueue runtime plan) fun outcome db =>
      outcome.IsComplete → PlanVerified plan db := by
  apply Spec.bind (Q := fun _ db _ => Enrolling rank plan [] db)
  · apply returns_transact (P := fun db => Grounded db ∧ Startable rank plan db)
    intro db count db' h hrun
    have hsteps := recoverInterrupted_steps (π := noLinks) h.1.unique hrun
    have hstates := fun i row hrow hplan => calm_or_active (h.2.states i row hrow hplan)
    have hcalm := recoverInterrupted_calm h.1 hstates hrun
    exact ⟨Steps.grounded hsteps h.1, Steps.ordered hsteps h.2.ordered, hcalm, fun _ h => absurd h List.not_mem_nil⟩
  intro _
  apply Spec.bind (ensurePlanned_working hranks)
  intro entries
  apply Spec.bind (queueRounds_rest hfits fun n _ hn => hadmits n (by simpa using hn))
  intro rounds
  apply Spec.bind (Q := fun db₀ db _ => db = db₀ ∧ Working rank plan entries none db ∧ AtRest plan db)
  · exact .read fun _ _ h => ⟨rfl, h⟩
  intro db₀
  apply Spec.pure
  rintro db _ ⟨rfl, hworking, hrest⟩ hcomplete planned hplanned
  rw [← hworking.enrolled.jobs] at hplanned
  obtain ⟨e, he, rfl⟩ := List.mem_map.mp hplanned
  obtain ⟨row, hrow, hname⟩ := hworking.enrolled.rows e he
  refine ⟨e.id, row, ?_, hrow, ?_⟩
  · rw [hworking.grounded.named e.id row hrow, hname]
  · apply verified_of_rest hworking hrest hcomplete hrow
    rw [hname]
    exact ⟨e.planned, hworking.enrolled.jobs ▸ hplanned, rfl⟩

/-- If the monitor admits work in every round, all requests fit, and the run starts from a database from which
it can finish, with the dependencies of plan and database in the order of some rank, then a complete outcome
means that every planned job is verified. -/
theorem verified_of_complete (runtime : QueueRuntime) (plan : QueuePlan) (rank : String → ℕ) (hranks : Ranks rank plan)
    (hfits : ∀ planned ∈ plan.jobs, runtime.capacity.Fits planned.request)
    (hadmits : ∀ round < runtime.maxRounds, runtime.admits round = true) (runId : String) (ops : List Op)
    (hstart : Startable rank plan (runOps (RunDb.empty runId) ops)) (starts : List Start) (budget : Option ℕ)
    (outcome : QueueOutcome) (s : Session RunDb Start)
    (hrun : runQueue runtime plan ⟨runOps (RunDb.empty runId) ops, starts, budget⟩ = (.ok outcome, s))
    (hcomplete : outcome.IsComplete) : PlanVerified plan s.store := by
  have hspec := runQueue_verified hranks hfits hadmits ⟨runOps (RunDb.empty runId) ops, starts, budget⟩
    ⟨runOps_grounded runId ops, hstart⟩
  rw [hrun] at hspec
  exact hspec hcomplete

theorem empty_startable (rank : String → ℕ) (plan : QueuePlan) (runId : String) :
    Startable rank plan (RunDb.empty runId) where
  states i row h := by cases h
  ordered := ⟨fun d hd => absurd hd List.not_mem_nil, fun d hd => absurd hd List.not_mem_nil⟩

/-- The outcome and the end of the queue for two jobs on a new run. -/
def runPair (runtime : QueueRuntime) : Except (Stop QueueError) QueueOutcome × Session RunDb Start :=
  runQueue runtime (pairPlan .leafVerification) ⟨runOps (RunDb.empty "r") [], [], none⟩

theorem verified_of_complete_pairPlan :
    (runPair (uniform (.accepted none))).1 = .ok ⟨[failedJob, lateJob], [], [], 2⟩ ∧
      PlanVerified (pairPlan .leafVerification) (runPair (uniform (.accepted none))).2.store := by
  have hrun : (runPair (uniform (.accepted none))).1 = .ok ⟨[failedJob, lateJob], [], [], 2⟩ := by decide +kernel
  refine ⟨hrun, ?_⟩
  refine verified_of_complete (uniform (.accepted none)) (pairPlan .leafVerification)
    (fun name => if name = "a" then 1 else 0) ?_ ?_ (fun _ _ => rfl) "r" [] (empty_startable _ _ "r") [] none
    ⟨[failedJob, lateJob], [], [], 2⟩ (runPair (uniform (.accepted none))).2 (eq_of_result hrun) ⟨rfl, rfl⟩
  · intro planned hplanned name hname
    simp only [pairPlan, List.mem_cons, List.not_mem_nil, or_false] at hplanned
    rcases hplanned with rfl | rfl
    · exact absurd hname List.not_mem_nil
    · rw [List.mem_singleton.mp hname]
      decide
  · intro planned hplanned
    simp only [pairPlan, List.mem_cons, List.not_mem_nil, or_false] at hplanned
    rcases hplanned with rfl | rfl <;> decide

/-- Surroundings whose monitor admits nothing. -/
def frozen : QueueRuntime := { uniform (.accepted none) with admits := fun _ => false }

theorem complete_while_frozen : ¬∀ (runtime : QueueRuntime) (plan : QueuePlan) (runId : String) (ops : List Op)
    (outcome : QueueOutcome) (s : Session RunDb Start),
    runQueue runtime plan ⟨runOps (RunDb.empty runId) ops, [], none⟩ = (.ok outcome, s) → outcome.IsComplete →
      PlanVerified plan s.store := by
  intro h
  have hrun : (runPair frozen).1 = .ok ⟨[], [], [], 0⟩ := by decide +kernel
  have hstates : (runPair frozen).2.store.jobs.map JobRow.state = [.ready, .pending] := by decide +kernel
  have hverified := h frozen (pairPlan .leafVerification) "r" [] ⟨[], [], [], 0⟩ (runPair frozen).2 (eq_of_result hrun)
    ⟨rfl, rfl⟩
  obtain ⟨i, row, -, hrow, hstate⟩ := hverified _ (.head _)
  have hmem : row.state ∈ (runPair frozen).2.store.jobs.map JobRow.state := List.mem_map_of_mem (mem_jobs_of_job? hrow)
  rw [hstates, hstate] at hmem
  exact absurd hmem (by decide)

end Planning

end Zkie.RunCompletion
