import Zkie.RunQueue

namespace Zkie.RunPlanning

open RunState Transaction RunDatabase RunDatabase.RunDb RunLifecycle RunInvariants RunBlocking RunQueue Interruptible

variable {α : Type} {db db' : RunDb} {S F G : Prop} {π : Policy} {v v' : JobView} {row row' : JobRow} {job i : JobId}

section Sound

theorem Move.names (h : Move S F G v row v') (hrow' : v'.row = some row') :
    row'.id = row.id ∧ row'.logicalJobId = row.logicalJobId ∧ row'.kind = row.kind := by
  cases h with
  | retry isResource =>
      obtain rfl := Option.some_inj.mp hrow'
      cases isResource <;> exact ⟨rfl, rfl, rfl⟩
  | _ =>
      obtain rfl := Option.some_inj.mp hrow'
      exact ⟨rfl, rfl, rfl⟩

/-- Every job has the id of its logical id. -/
def Named (db : RunDb) : Prop := ∀ i row, db.job? i = some row → i.text = s!"{db.runId}:{row.logicalJobId}"

theorem DbStep.runId (h : DbStep π db db') : db'.runId = db.runId := by
  cases h with
  | insert | edge | history => rfl
  | move job row _ hrow hmove hframe hids hdeps hrun => exact hrun

theorem DbStep.named (h : DbStep π db db') (hdb : Named db) : Named db' := by
  cases h with
  | insert row _ hfresh hid =>
      intro i row' hrow'
      rw [job?_append fun r hr => (hfresh r hr).1] at hrow'
      split at hrow'
      · rename_i hi
        rw [hi, ← Option.some_inj.mp hrow']
        exact hid
      · exact hdb i row' hrow'
  | edge | history => exact hdb
  | move job row _ hrow hmove hframe hids hdeps hrun =>
      intro i row' hrow'
      rw [hrun]
      by_cases hi : i = job
      · subst hi
        rw [(Move.names hmove hrow').2.1]
        exact hdb i row hrow
      · exact hdb i row' ((congrArg JobView.row (hframe i hi)).symm.trans hrow')

/-- The invariant of every database that the queue works on. -/
structure Sound (db : RunDb) : Prop where
  linked : Linked db
  unique : UniqueAttempts db
  named : Named db

/-- A policy without new jobs and dependencies. -/
def noLinks : Policy := ⟨True, False, True, False⟩

theorem DbStep.sound (h : DbStep π db db') (hπ : π.links → JoinsPending db db') (hdb : Sound db) : Sound db' :=
  ⟨DbStep.linked h hπ hdb.linked, h.uniqueAttempts hdb.unique, DbStep.named h hdb.named⟩

theorem Steps.sound (h : Steps noLinks db db') (hdb : Sound db) : Sound db' := by
  induction h with
  | refl => exact hdb
  | tail _ hstep ih => exact DbStep.sound hstep False.elim ih

theorem DbStep.dependencies_subset (h : DbStep π db db') : db.dependencies ⊆ db'.dependencies := by
  cases h with
  | insert | history => exact fun _ h => h
  | edge => exact List.subset_append_left _ _
  | move job row _ hrow hmove hframe hids hdeps =>
      rw [hdeps]
      exact fun _ h => h

theorem empty_sound (runId : String) : Sound (RunDb.empty runId) :=
  ⟨empty_linked runId, empty_uniqueAttempts runId, fun _ _ h => by cases h⟩

end Sound

section Dependencies

/-- There is a dependency between the jobs of two logical ids. -/
def EdgeNamed (db : RunDb) (predecessor successor : String) : Prop :=
  ∃ d ∈ db.dependencies, d.1.text = s!"{db.runId}:{predecessor}" ∧ d.2.text = s!"{db.runId}:{successor}"

/-- All dependencies of the planned job are in the database. -/
def HasEdges (db : RunDb) (planned : PlannedJob) : Prop :=
  ∀ name ∈ planned.dependsOn, EdgeNamed db name planned.logicalId

def PlanComplete (plan : QueuePlan) (db : RunDb) : Prop := ∀ planned ∈ plan.jobs, HasEdges db planned

/-- The job of the planned job has been inserted. -/
def Present (db : RunDb) (planned : PlannedJob) : Prop := ∃ row ∈ db.jobs, row.logicalJobId = planned.logicalId

/-- Every planned job that is already there has all its dependencies. -/
def PresentComplete (planned : List PlannedJob) (db : RunDb) : Prop := ∀ p ∈ planned, Present db p → HasEdges db p

theorem EdgeNamed.step {p s : String} (h : EdgeNamed db p s) (hstep : DbStep π db db') : EdgeNamed db' p s := by
  obtain ⟨d, hd, hp, hs⟩ := h
  exact ⟨d, DbStep.dependencies_subset hstep hd, by rwa [DbStep.runId hstep], by rwa [DbStep.runId hstep]⟩

theorem HasEdges.step {planned : PlannedJob} (h : HasEdges db planned) (hstep : DbStep π db db') : HasEdges db' planned :=
  fun name hname => (h name hname).step hstep

theorem PlanComplete.steps {plan : QueuePlan} (h : PlanComplete plan db) (hsteps : Steps π db db') :
    PlanComplete plan db' := by
  induction hsteps with
  | refl => exact h
  | tail _ hstep ih => exact fun planned hplanned => (ih planned hplanned).step hstep

/-- When the job starts, every job that its plan entry depends on is verified. -/
def DependenciesVerified (plan : QueuePlan) (start : Start) : Prop :=
  ∀ planned ∈ plan.jobs, start.job.text = s!"{start.db.runId}:{planned.logicalId}" → ∀ name ∈ planned.dependsOn,
    ∃ predecessor row, predecessor.text = s!"{start.db.runId}:{name}" ∧ start.db.job? predecessor = some row ∧
      row.state = .verified

/-- A sound database, whose starts so far all had their dependencies verified. -/
def Safe (plan : QueuePlan) (db : RunDb) (starts : List Start) : Prop :=
  Sound db ∧ ∀ start ∈ starts, DependenciesVerified plan start

/-- And all dependencies of the plan are there. -/
def Planned (plan : QueuePlan) (db : RunDb) (starts : List Start) : Prop := Safe plan db starts ∧ PlanComplete plan db

variable {plan : QueuePlan}

/-- A transaction that adds no dependency keeps the plan. -/
theorem perform_planned {p : Db α} (hp : ∀ db a db', Sound db → p db = .ok (a, db') → Steps noLinks db db') :
    Spec (Planned plan) (perform p) (fun _ => Planned plan) (Safe plan) := by
  refine .transact (fun _ _ h => h.1) fun db starts a db' h hrun => ?_
  have hsteps := hp db a db' h.1.1 hrun
  rw [List.append_nil]
  exact ⟨⟨Steps.sound hsteps h.1.1, h.1.2⟩, h.2.steps hsteps⟩

theorem read_planned : Spec (Planned plan) (read : Queue RunDb) (fun _ => Planned plan) (Safe plan) :=
  .read fun _ _ h => h

theorem orFail_planned {e : QueueError} {x : Option α} :
    Spec (Planned plan) (orFail e x) (fun _ => Planned plan) (Safe plan) :=
  .orFail (fun _ _ h => h.1) fun _ _ _ _ h => h

theorem startsAttempt_past {event : JobEvent} {s next : JobState} (hstart : event.StartsAttempt)
    (h : s.transition event = .ok next) : s ≠ .pending ∧ s ≠ .blocked := by
  have hmem := (JobState.transition_eq_ok.mp h).1
  simp only [JobEvent.StartsAttempt, List.mem_cons, List.not_mem_nil, or_false] at hstart
  rcases hstart with rfl | rfl | rfl | rfl <;>
    exact ⟨fun hs => absurd (hs ▸ hmem) (by decide), fun hs => absurd (hs ▸ hmem) (by decide)⟩

/-- An attempt only starts once the dependencies in the database are verified. -/
theorem beginAttempt_dependenciesVerified {event : JobEvent} {attempt : AttemptId} {starts : List Start}
    (h : Planned plan db starts) (hrun : beginAttempt job event db = .ok (attempt, db')) :
    DependenciesVerified plan ⟨job, db⟩ := by
  intro planned hplanned hjob name hname
  obtain ⟨row, next, hrow, hstart, -, -, -, hnext, -⟩ := beginAttempt_ok hrun
  obtain ⟨d, hd, hp, hs⟩ := h.2 planned hplanned name hname
  obtain rfl : d.2 = job := Identifier.ext (hs.trans hjob.symm)
  obtain ⟨predecessor, hpred⟩ := Option.isSome_iff_exists.mp (h.1.1.linked.ends d hd).1
  have hpast := startsAttempt_past hstart hnext
  exact ⟨d.1, predecessor, hp, hpred, h.1.1.linked.earned d hd row hrow hpast.1 hpast.2 predecessor hpred⟩

theorem runOne_planned (runtime : QueueRuntime) (planned : PlannedJob) (job : JobId) :
    Spec (Planned plan) (runOne runtime planned job) (fun _ => Planned plan) (Safe plan) := by
  have hcommit : ∀ {record : VerificationRow} {artifacts keys} {row : JobRow} {db : RunDb},
      db.job? record.job = some row → Source (view db record.job) row record.attempt →
      Product row record.attempt artifacts keys → Steps noLinks db (verifiedDb record artifacts keys db) :=
    fun hrow hsource hproduct => .single (verifiedDb_step hrow hsource hproduct)
  refine Spec.bind (Q := fun _ => Planned plan) (.transact (fun _ _ h => h.1) ?_) fun attempt => ?_
  · intro db starts attempt db' h hrun
    have hsteps := beginAttempt_steps (π := noLinks) job _ db attempt db' hrun
    refine ⟨⟨Steps.sound hsteps h.1.1, fun start hstart => ?_⟩, h.2.steps hsteps⟩
    rcases List.mem_append.mp hstart with hstart | hstart
    · exact h.1.2 start hstart
    · rw [List.mem_singleton.mp hstart]
      exact beginAttempt_dependenciesVerified h hrun
  · split
    · exact .fail fun _ _ h => h.1
    · exact (perform_planned fun db a db' _ hrun =>
        handleAttemptFailure_steps (π := noLinks) trivial job attempt _ none db a db' hrun).bind fun _ => .pure fun _ _ => id
    · exact .fail fun _ _ h => h.1
    · unfold finishSuccess
      split
      · refine (perform_planned fun db a db' _ hrun => ?_).bind fun _ => .pure fun _ _ => id
        obtain ⟨record, artifacts, keys, row, -, hrow, hsource, hproduct, rfl⟩ := completeVerification_ok hrun
        exact hcommit hrow hsource hproduct
      · refine Spec.bind (Q := fun _ => Planned plan) ?_ fun _ => orFail_planned.bind fun staged => ?_
        · unfold finishSuccess.completeAttempt
          split
          · exact (perform_planned fun db a db' _ hrun => applyAttemptEvent_steps (π := noLinks) job attempt _ db a db' hrun
              ).bind fun _ => .pure fun _ _ => id
          · exact .pure fun _ _ => id
        · split
          · refine read_planned.bind fun db => orFail_planned.bind fun identity => orFail_planned.bind fun published => ?_
            refine (perform_planned fun db a db' _ hrun => ?_).bind fun _ => .pure fun _ _ => id
            obtain ⟨record, artifacts, keys, row, -, hrow, hsource, hproduct, rfl⟩ := commitVerifiedArtifact_ok hrun
            exact hcommit hrow hsource hproduct
          · refine read_planned.bind fun db => orFail_planned.bind fun identity => orFail_planned.bind fun published => ?_
            refine (perform_planned fun db a db' _ hrun => ?_).bind fun _ => .pure fun _ _ => id
            obtain ⟨record, artifacts, keys, row, -, hrow, hsource, hproduct, rfl⟩ := commitVerifiedKey_ok hrun
            exact hcommit hrow hsource hproduct

theorem refreshReadiness_planned : Spec (Planned plan) (perform refreshReadiness) (fun _ => Planned plan) (Safe plan) :=
  perform_planned fun db a db' _ hrun => refreshReadiness_steps (π := noLinks) trivial db a db' hrun

theorem queueRounds_planned (runtime : QueueRuntime) (entries : List Entry) (fuel round : ℕ) :
    Spec (Planned plan) (queueRounds runtime plan entries fuel round) (fun _ => Planned plan) (Safe plan) :=
  queueRounds_keeps (fun _ _ h => h.1) refreshReadiness_planned
    (fun entry job _ => runOne_planned runtime entry.planned job) fuel round

/-- What is known of an entry: it has the id of its planned job, and if it was created just now that job is
still pending, else it has its dependencies. -/
structure EntrySound (db : RunDb) (e : Entry) : Prop where
  id : e.id.text = s!"{db.runId}:{e.planned.logicalId}"
  created : e.created = true → ∃ row, db.job? e.id = some row ∧ row.state = .pending
  existed : e.created = false → HasEdges db e.planned

/-- The first loop: `rest` is left to be inserted. -/
structure Inserting (plan : QueuePlan) (rest : List PlannedJob) (entries : List Entry) (db : RunDb)
    (starts : List Start) : Prop where
  safe : Safe plan db starts
  jobs : entries.map Entry.planned ++ rest = plan.jobs
  entries : ∀ e ∈ entries, EntrySound db e
  rest : PresentComplete rest db

theorem existing_eq_some {logicalId : String} {id : JobId} (hids : (db.jobs.map JobRow.id).Nodup)
    (h : existing db logicalId = some id) : ∃ row, db.job? id = some row ∧ row.logicalJobId = logicalId := by
  obtain ⟨row, hfind, rfl⟩ := Option.map_eq_some_iff.mp h
  have hmem : row ∈ db.jobs := (List.perm_insertionSort _ _).mem_iff.mp (List.mem_of_find?_eq_some hfind)
  exact ⟨row, job?_of_mem hids hmem, by simpa using List.find?_some hfind⟩

theorem insertJob_job? {logicalId : String} {kind : JobKind} {id : JobId} (h : insertJob logicalId kind db = .ok (id, db'))
    (i : JobId) : db'.job? i = if i = id then some (newRow id logicalId kind) else db.job? i := by
  obtain ⟨hfresh, -, rfl⟩ := insertJob_ok h
  have hnew : ∀ r ∈ db.jobs, r.id ≠ (newRow id logicalId kind).id := fun r hr => (hfresh r hr).1
  exact job?_append hnew

theorem insertJob_keeps {logicalId : String} {kind : JobKind} {id : JobId}
    (h : insertJob logicalId kind db = .ok (id, db')) (i : JobId) (row : JobRow) (hrow : db.job? i = some row) :
    db'.job? i = some row := by
  rw [insertJob_job? h, if_neg]
  · exact hrow
  · rintro rfl
    exact ((insertJob_ok h).1 row (mem_jobs_of_job? hrow)).1 (job?_id hrow)

theorem EntrySound.step {e : Entry} (h : EntrySound db e) (hstep : DbStep π db db')
    (hkeep : ∀ i row, db.job? i = some row → db'.job? i = some row) : EntrySound db' e where
  id := by rw [DbStep.runId hstep, h.id]
  created hc := by
    obtain ⟨row, hrow, hpending⟩ := h.created hc
    exact ⟨row, hkeep e.id row hrow, hpending⟩
  existed hc := (h.existed hc).step hstep

theorem ensureJob_inserting (hnodup : (plan.jobs.map PlannedJob.logicalId).Nodup) (planned : PlannedJob)
    (rest : List PlannedJob) (entries : List Entry) :
    Spec (Inserting plan (planned :: rest) entries) (ensureJob entries planned) (Inserting plan rest) (Safe plan) := by
  refine Spec.bind (Q := fun db db' starts => db' = db ∧ Inserting plan (planned :: rest) entries db' starts)
    (.read fun _ _ h => ⟨rfl, h⟩) fun db => ?_
  have hjobs : ∀ {db starts}, Inserting plan (planned :: rest) entries db starts →
      ∀ e : Entry, e.planned = planned → (entries ++ [e]).map Entry.planned ++ rest = plan.jobs := by
    intro db starts h e he
    rw [List.map_append, List.map_singleton, he, List.append_assoc]
    exact h.jobs
  split
  · rename_i id hid
    refine .pure fun db' starts ⟨hdb, h⟩ => ?_
    subst hdb
    obtain ⟨row, hrow, hname⟩ := existing_eq_some h.safe.1.linked.ids hid
    have htext := hname ▸ h.safe.1.named id row hrow
    refine ⟨h.safe, hjobs h _ rfl, fun e he => ?_, fun p hp => h.rest p (.tail _ hp)⟩
    rcases List.mem_append.mp he with he | he
    · exact h.entries e he
    · rw [List.mem_singleton.mp he]
      exact ⟨htext, fun h => Bool.noConfusion h, fun _ => h.rest planned (.head _) ⟨row, mem_jobs_of_job? hrow, hname⟩⟩
  · refine Spec.bind (Q := fun id => Inserting plan rest (entries ++ [⟨planned, id, true⟩])) ?_
      fun id => .pure fun _ _ h => h
    refine .transact (fun _ _ h => h.2.safe) fun db' starts id db'' ⟨_, h⟩ hrun => ?_
    rw [List.append_nil]
    have hjob := insertJob_job? hrun
    have hkeep := insertJob_keeps hrun
    obtain ⟨hfresh, htext, rfl⟩ := insertJob_ok hrun
    have hstep : DbStep quiet db' _ :=
      .insert (newRow id planned.logicalId planned.kind) trivial hfresh htext rfl rfl rfl rfl rfl
    refine ⟨⟨DbStep.sound hstep False.elim h.safe.1, h.safe.2⟩, hjobs h _ rfl, fun e he => ?_, fun p hp hpresent => ?_⟩
    · rcases List.mem_append.mp he with he | he
      · exact (h.entries e he).step hstep hkeep
      · rw [List.mem_singleton.mp he]
        exact ⟨htext, fun _ => ⟨_, (hjob id).trans (if_pos rfl), rfl⟩, fun h => Bool.noConfusion h⟩
    · -- the new job is none of those that are left
      obtain ⟨row, hrow, hname⟩ := hpresent
      rcases List.mem_append.mp hrow with hrow | hrow
      · exact (h.rest p (.tail _ hp) ⟨row, hrow, hname⟩).step hstep
      · rw [List.mem_singleton.mp hrow] at hname
        have hsub : (planned :: rest).map PlannedJob.logicalId |>.Nodup := by
          refine List.Nodup.sublist ?_ hnodup
          rw [← h.jobs, List.map_append]
          exact List.sublist_append_right _ _
        have hname : planned.logicalId = p.logicalId := hname
        exact absurd (hname ▸ List.mem_map_of_mem hp) (List.nodup_cons.mp hsub).1

/-- The second loop: the entries in `rest` may still miss their dependencies. -/
structure Joining (plan : QueuePlan) (entries rest : List Entry) (db : RunDb) (starts : List Start) : Prop where
  safe : Safe plan db starts
  jobs : entries.map Entry.planned = plan.jobs
  sound : ∀ e ∈ entries, EntrySound db e
  suffix : ∃ done, entries = done ++ rest ∧ ∀ e ∈ done, HasEdges db e.planned

theorem addDependency_step {predecessor successor : JobId} {u : Unit}
    (h : addDependency predecessor successor db = .ok (u, db')) : DbStep .all db db' := by
  obtain ⟨hp, hs, hne, hnew, rfl⟩ := addDependency_ok h
  exact .edge predecessor successor trivial hp hs hne hnew

/-- One dependency of an entry that was created just now. -/
theorem ensureEdge_joining {entries rest : List Entry} {entry : Entry} (hentry : entry ∈ entries)
    (hcreated : entry.created = true) (name : String) (names : List String) (u : Unit) :
    Spec (fun db starts => Joining plan entries (entry :: rest) db starts ∧
        ∀ n ∈ entry.planned.dependsOn, n ∈ name :: names ∨ EdgeNamed db n entry.planned.logicalId)
      (ensureEdge entries entry u name)
      (fun _ db starts => Joining plan entries (entry :: rest) db starts ∧
        ∀ n ∈ entry.planned.dependsOn, n ∈ names ∨ EdgeNamed db n entry.planned.logicalId)
      (Safe plan) := by
  refine Spec.bind (Q := fun p db starts => (p ∈ entries ∧ p.planned.logicalId = name) ∧
    Joining plan entries (entry :: rest) db starts ∧
      ∀ n ∈ entry.planned.dependsOn, n ∈ name :: names ∨ EdgeNamed db n entry.planned.logicalId)
    (.orFail (fun _ _ h => h.1.safe) fun p hp db starts h => ⟨⟨List.mem_of_find?_eq_some hp, ?_⟩, h⟩) fun p => ?_
  · simpa using List.find?_some hp
  refine .transact (fun _ _ h => h.2.1.safe) fun db starts _ db' ⟨⟨hp, hname⟩, h, hdone⟩ hrun => ?_
  rw [List.append_nil]
  have hstep := addDependency_step hrun
  obtain ⟨-, -, -, -, rfl⟩ := addDependency_ok hrun
  obtain ⟨row, hrow, hpending⟩ := (h.sound entry hentry).created hcreated
  have hjoins : JoinsPending db { db with dependencies := db.dependencies ++ [(p.id, entry.id)] } := by
    intro d hd hnew row' hrow'
    have hd := (List.mem_append.mp hd).resolve_left hnew
    rw [List.mem_singleton.mp hd, hrow] at hrow'
    rw [← Option.some_inj.mp hrow', hpending]
  refine ⟨⟨⟨DbStep.sound hstep (fun _ => hjoins) h.safe.1, h.safe.2⟩, h.jobs,
    fun e he => (h.sound e he).step hstep fun _ _ h => h, ?_⟩, fun n hn => ?_⟩
  · obtain ⟨done, hsplit, hedges⟩ := h.suffix
    exact ⟨done, hsplit, fun e he => (hedges e he).step hstep⟩
  · rcases hdone n hn with hmem | hedge
    · rcases List.mem_cons.mp hmem with rfl | hmem
      · refine .inr ⟨(p.id, entry.id), by simp, ?_, (h.sound entry hentry).id⟩
        rw [(h.sound p hp).id, hname]
      · exact .inl hmem
    · exact .inr (hedge.step hstep)

theorem ensureEdges_joining {entries rest : List Entry} (entry : Entry) (u : Unit) :
    Spec (Joining plan entries (entry :: rest)) (ensureEdges entries u entry) (fun _ => Joining plan entries rest)
      (Safe plan) := by
  have hnext : ∀ {db starts}, Joining plan entries (entry :: rest) db starts → HasEdges db entry.planned →
      Joining plan entries rest db starts := by
    intro db starts h hentry
    obtain ⟨done, hsplit, hedges⟩ := h.suffix
    refine ⟨h.safe, h.jobs, h.sound, done ++ [entry], by simp [hsplit], fun e he => ?_⟩
    rcases List.mem_append.mp he with he | he
    · exact hedges e he
    · exact List.mem_singleton.mp he ▸ hentry
  intro s hs
  have hentry : entry ∈ entries := by
    obtain ⟨done, hsplit, -⟩ := hs.suffix
    simp [hsplit]
  revert s hs
  change Spec _ _ _ _
  unfold ensureEdges
  split
  · rename_i hcreated
    have hloop := Spec.foldEach (I := fun names _ db starts => Joining plan entries (entry :: rest) db starts ∧
      ∀ n ∈ entry.planned.dependsOn, n ∈ names ∨ EdgeNamed db n entry.planned.logicalId)
      (l := entry.planned.dependsOn) (c := ()) fun name names u =>
        ensureEdge_joining hentry hcreated name names u
    refine hloop.mono (fun _ _ h => ⟨h, fun n hn => .inl hn⟩) fun _ db starts ⟨h, hdone⟩ => hnext h fun n hn => ?_
    exact (hdone n hn).resolve_left List.not_mem_nil
  · rename_i hcreated
    exact .pure fun db starts h => hnext h ((h.sound entry hentry).existed (by simpa using hcreated))

/-- Planning completes the plan, if the jobs that were there had their dependencies. -/
theorem ensurePlanned_planned (hnodup : (plan.jobs.map PlannedJob.logicalId).Nodup) :
    Spec (fun db starts => Safe plan db starts ∧ PresentComplete plan.jobs db) (ensurePlanned plan)
      (fun _ => Planned plan) (Safe plan) := by
  have hinsert := Spec.foldEach (I := Inserting plan) (l := plan.jobs) (c := []) fun planned rest entries =>
    ensureJob_inserting hnodup planned rest entries
  refine Spec.bind (hinsert.mono (fun db starts h => ⟨h.1, rfl, fun _ h => absurd h List.not_mem_nil, h.2⟩) fun _ _ _ h => h) fun entries => ?_
  have hjoin := Spec.foldEach (I := fun rest (_ : Unit) => Joining plan entries rest) (l := entries) (c := ())
    fun entry rest u => ensureEdges_joining entry u
  refine Spec.bind (Q := fun _ => Planned plan) (hjoin.mono ?_ ?_) fun _ => .pure fun _ _ h => h
  · intro db starts h
    exact ⟨h.safe, by simpa using h.jobs, h.entries, [], rfl, fun _ h => absurd h List.not_mem_nil⟩
  · intro _ db starts h
    obtain ⟨done, hsplit, hedges⟩ := h.suffix
    refine ⟨h.safe, fun planned hplanned => ?_⟩
    rw [← h.jobs] at hplanned
    obtain ⟨e, he, rfl⟩ := List.mem_map.mp hplanned
    exact hedges e (by simpa [hsplit] using he)

theorem map_logicalJobId_updateJob {f : JobRow → JobRow} (hf : ∀ row, (f row).logicalJobId = row.logicalJobId) :
    (updateJob job f db).jobs.map JobRow.logicalJobId = db.jobs.map JobRow.logicalJobId := by
  unfold updateJob
  rw [List.map_map]
  refine List.map_congr_left fun row _ => ?_
  simp only [Function.comp]
  split
  · exact hf row
  · rfl

/-- A recovery inserts nothing and adds no dependency. -/
theorem recoverInterrupted_jobs {count : ℕ} (hunique : UniqueAttempts db) (h : recoverInterrupted db = .ok (count, db')) :
    db'.jobs.map JobRow.logicalJobId = db.jobs.map JobRow.logicalJobId ∧ db'.dependencies = db.dependencies ∧
      db'.runId = db.runId := by
  refine recoverInterrupted_invariant (I := fun s => s.jobs.map JobRow.logicalJobId = db.jobs.map JobRow.logicalJobId ∧
    s.dependencies = db.dependencies ∧ s.runId = db.runId) hunique ?_ ⟨rfl, rfl, rfl⟩ h
  intro job s _ hs _ _
  exact ⟨(map_logicalJobId_updateJob (f := recoverRow) fun _ => rfl).trans hs.1, hs.2⟩

theorem PresentComplete.congr {planned : List PlannedJob} (h : PresentComplete planned db)
    (hjobs : db'.jobs.map JobRow.logicalJobId = db.jobs.map JobRow.logicalJobId)
    (hdeps : db'.dependencies = db.dependencies) (hrun : db'.runId = db.runId) : PresentComplete planned db' := by
  rintro p hp ⟨row, hrow, hname⟩ name hn
  have hmem : p.logicalId ∈ db.jobs.map JobRow.logicalJobId := by
    rw [← hjobs, ← hname]
    exact List.mem_map_of_mem hrow
  obtain ⟨row₀, hrow₀, hname₀⟩ := List.mem_map.mp hmem
  obtain ⟨d, hd, h₁, h₂⟩ := h p hp ⟨row₀, hrow₀, hname₀⟩ name hn
  exact ⟨d, hdeps ▸ hd, by rwa [hrun], by rwa [hrun]⟩

theorem runQueue_planned (hnodup : (plan.jobs.map PlannedJob.logicalId).Nodup) (runtime : QueueRuntime) :
    Spec (fun db starts => Safe plan db starts ∧ PresentComplete plan.jobs db) (runQueue runtime plan)
      (fun _ => Planned plan) (Safe plan) := by
  refine Spec.bind (Q := fun _ db starts => Safe plan db starts ∧ PresentComplete plan.jobs db) ?_ fun _ => ?_
  · refine .transact (fun _ _ h => h.1) fun db starts count db' ⟨hsafe, hpresent⟩ hrun => ?_
    obtain ⟨hjobs, hdeps, hrunId⟩ := recoverInterrupted_jobs hsafe.1.unique hrun
    have hsteps := recoverInterrupted_steps (π := noLinks) hsafe.1.unique hrun
    rw [List.append_nil]
    exact ⟨⟨Steps.sound hsteps hsafe.1, hsafe.2⟩, hpresent.congr hjobs hdeps hrunId⟩
  · refine (ensurePlanned_planned hnodup).bind fun entries => (queueRounds_planned runtime entries _ _).bind fun rounds => ?_
    exact read_planned.bind fun db => .pure fun _ _ h => h

end Dependencies

section Invocations

/-- One call of the queue: its surroundings, and after how many transactions it is stopped, if it is. -/
structure Invocation where
  runtime : QueueRuntime
  budget : Option ℕ

/-- The database after a call, and the starts so far. -/
def invoke (plan : QueuePlan) (state : RunDb × List Start) (invocation : Invocation) : RunDb × List Start :=
  ((runQueue invocation.runtime plan ⟨state.1, state.2, invocation.budget⟩).2.store,
    (runQueue invocation.runtime plan ⟨state.1, state.2, invocation.budget⟩).2.trace)

def invokeAll (plan : QueuePlan) (state : RunDb × List Start) (invocations : List Invocation) : RunDb × List Start :=
  invocations.foldl (invoke plan) state

/-- Every call finds the jobs of the plan that are already there with all their dependencies. -/
def FindsComplete (plan : QueuePlan) : RunDb × List Start → List Invocation → Prop
  | _, [] => True
  | state, invocation :: rest => PresentComplete plan.jobs state.1 ∧ FindsComplete plan (invoke plan state invocation) rest

theorem invokeAll_safe {plan : QueuePlan} (hnodup : (plan.jobs.map PlannedJob.logicalId).Nodup)
    {state : RunDb × List Start} {invocations : List Invocation} (hstate : Safe plan state.1 state.2)
    (hfinds : FindsComplete plan state invocations) :
    Safe plan (invokeAll plan state invocations).1 (invokeAll plan state invocations).2 := by
  induction invocations generalizing state with
  | nil => exact hstate
  | cons invocation rest ih =>
      have hspec := runQueue_planned hnodup invocation.runtime ⟨state.1, state.2, invocation.budget⟩ ⟨hstate, hfinds.1⟩
      refine ih ?_ hfinds.2
      unfold invoke
      cases hrun : runQueue invocation.runtime plan ⟨state.1, state.2, invocation.budget⟩ with
      | mk result s =>
          rw [hrun] at hspec
          cases result with
          | ok a => exact hspec.1
          | error e => exact hspec

/-- In every sequence of calls of the queue on a fresh run that all find the plan's jobs with their
dependencies, whenever an attempt of a planned job starts, every job that it depends on is verified. -/
theorem starts_after_dependencies (plan : QueuePlan) (hnodup : (plan.jobs.map PlannedJob.logicalId).Nodup)
    (runId : String) (invocations : List Invocation) (hfinds : FindsComplete plan (RunDb.empty runId, []) invocations) :
    ∀ start ∈ (invokeAll plan (RunDb.empty runId, []) invocations).2, DependenciesVerified plan start :=
  (invokeAll_safe hnodup ⟨empty_sound runId, fun _ h => absurd h List.not_mem_nil⟩ hfinds).2

def smallRequest : ResourceRequest := ⟨1, 1, 0, 0, by decide, by decide⟩

def zeroDigest : Digest32 := ⟨Vector.replicate 32 0⟩

def witnessBinding : ProofBinding :=
  ⟨.witness, 0, .notApplicable, zeroDigest, zeroDigest, zeroDigest, zeroDigest, zeroDigest, zeroDigest, zeroDigest,
    zeroDigest, "halo2", "cpu"⟩

/-- Two jobs, the second (and first by its id) depending on the first. -/
def pairPlan (kind : JobKind) : QueuePlan :=
  ⟨[⟨"b", kind, [], smallRequest, .proof witnessBinding⟩, ⟨"a", kind, ["b"], smallRequest, .proof witnessBinding⟩]⟩

/-- Surroundings in which every attempt ends in the same way. -/
def uniform (result : AttemptResult) : QueueRuntime where
  attemptResult _ := result
  admits _ := true
  now _ := 0
  keyIdentityDigest _ := zeroDigest
  capacity := ⟨1, 1, 0, 0⟩
  maxRounds := 10

theorem starts_after_dependencies_pairPlan :
    (invokeAll (pairPlan .leafVerification) (RunDb.empty "r", []) [⟨uniform (.accepted none), none⟩]).2.length = 2 ∧
      ∀ start ∈ (invokeAll (pairPlan .leafVerification) (RunDb.empty "r", []) [⟨uniform (.accepted none), none⟩]).2,
        DependenciesVerified (pairPlan .leafVerification) start := by
  refine ⟨by decide +kernel, starts_after_dependencies _ (by decide) "r" _ ⟨?_, trivial⟩⟩
  rintro p - ⟨row, hrow, -⟩
  exact absurd hrow List.not_mem_nil

/-- The first call stops after it has inserted the two jobs. -/
def stoppedWhilePlanning : List Invocation := [⟨uniform .rejected, some 3⟩, ⟨uniform .rejected, none⟩]

theorem starts_before_dependency : ¬∀ (plan : QueuePlan) (runId : String) (invocations : List Invocation),
    ∀ start ∈ (invokeAll plan (RunDb.empty runId, []) invocations).2, DependenciesVerified plan start := by
  intro h
  have hstarts : (invokeAll (pairPlan .witness) (RunDb.empty "r", []) stoppedWhilePlanning).2.map
      (fun start => (start.job.text, start.db.runId, start.db.jobs.map fun row => (row.id.text, row.state))) =
        [("r:a", "r", [("r:b", .ready), ("r:a", .ready)])] := by decide +kernel
  obtain ⟨start, hstart, heq⟩ := List.mem_map.mp (hstarts ▸ List.mem_singleton_self _)
  obtain ⟨hjob, hrun, hjobs⟩ : start.job.text = "r:a" ∧ start.db.runId = "r" ∧
      start.db.jobs.map (fun row => (row.id.text, row.state)) = [("r:b", .ready), ("r:a", .ready)] := by
    simpa only [Prod.mk.injEq] using heq
  obtain ⟨predecessor, row, -, hrow, hverified⟩ := h (pairPlan .witness) "r" stoppedWhilePlanning start hstart
    ⟨"a", .witness, ["b"], smallRequest, .proof witnessBinding⟩ (by simp [pairPlan]) (by rw [hjob, hrun]; decide) "b"
    (by simp)
  have hmem : (row.id.text, row.state) ∈ [("r:b", JobState.ready), ("r:a", JobState.ready)] := by
    rw [← hjobs]
    exact List.mem_map_of_mem (mem_jobs_of_job? hrow)
  rw [hverified] at hmem
  simp at hmem

end Invocations

end Zkie.RunPlanning
