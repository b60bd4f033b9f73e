import Zkie.RunDatabase

namespace Zkie.RunLifecycle

open RunState Transaction RunDatabase RunDatabase.RunDb

/-- What the database holds about one job. -/
structure JobView where
  row : Option JobRow
  attempts : List AttemptRow
  records : List VerificationRow
  artifacts : List ArtifactRow
  keys : List KeyRow

def view (db : RunDb) (job : JobId) : JobView :=
  ⟨db.job? job, db.attemptsOf job, db.recordsOf job, db.artifactsOf job, db.keysOf job⟩

def closeAll (state : JobState) (attempts : List AttemptRow) : List AttemptRow :=
  attempts.map fun a => if a.finished = false then { a with state, finished := true } else a

/-- The job enters `row`; its open attempts are closed with the state `closing`. -/
def JobView.enter (v : JobView) (closing : JobState) (row : JobRow) : JobView :=
  { v with row := some row, attempts := closeAll closing v.attempts }

def openOf (attempts : List AttemptRow) : List AttemptRow := attempts.filter fun a => !a.finished

/-- The attempt whose output may be judged: an open one, or the last one. -/
def Source (v : JobView) (row : JobRow) (attempt : AttemptId) : Prop :=
  VerifiesOpen row.kind row.state ∧ (openOf v.attempts).map AttemptRow.id = [attempt] ∨
    VerifiesFinished row.kind row.state ∧ ∃ latest ∈ v.attempts.getLast?,
      latest.finished = true ∧ latest.id = attempt ∧ latest.state = row.state

/-- What a verification publishes, by the kind of the job. -/
inductive Product (row : JobRow) (attempt : AttemptId) : List ArtifactRow → List KeyRow → Prop
  | artifact (a : ArtifactRow) (hjob : a.job = row.id) (hattempt : a.attempt = attempt)
      (hidentity : a.verified.identity.attempt = attempt) (howner : a.verified.identity.job = row.id)
      (hkind : a.verified.identity.jobKind = row.kind) : Product row attempt [a] []
  | key (k : KeyRow) (hjob : k.job = row.id) (hattempt : k.attempt = attempt)
      (hidentity : k.verified.identity.attempt = attempt) (howner : k.verified.identity.job = row.id)
      (hkind : k.verified.identity.jobKind = row.kind) : Product row attempt [] [k]
  | nothing (hkind : row.kind = .leafVerification) : Product row attempt [] []

/-- The event of a failed attempt. -/
def failureEvent (isResource : Bool) (failure : FailureRecord) : JobEvent :=
  if isResource then .resourceExceeded failure else .executionFailed failure

def retryEvent (isResource : Bool) : JobEvent := if isResource then .retryResourceExceeded else .retryExecution

/-- What one operation may do to one job. `satisfied` says that all its predecessors are verified, `skips`
that it may be skipped by a sweep, and `fails` that it may fail for good. -/
inductive Move (satisfied skips fails : Prop) (v : JobView) (row : JobRow) : JobView → Prop
  | ready (hwaiting : IsWaiting row.state) (h : satisfied) :
      Move satisfied skips fails v row (v.enter .ready (rowAfter .dependenciesSatisfied .ready none row))
  | skip (p : JobId) (hwaiting : IsWaiting row.state) (h : skips) :
      Move satisfied skips fails v row (v.enter .blocked (rowAfter (.dependencyBlocked p) .blocked none row))
  | block (p : JobId) (hwaiting : IsWaiting row.state) (h : fails) :
      Move satisfied skips fails v row
        (v.enter .blocked { rowAfter (.dependencyBlocked p) .blocked none row with terminalFailure := true })
  | begin (event : JobEvent) (a : AttemptRow) (hstart : event.StartsAttempt)
      (hkind : StartMatchesKind row.kind event) (hopen : openOf v.attempts = [])
      (hid : a.id.text = s!"{row.id.text}:attempt:{row.attemptCount + 1}") (hfinished : a.finished = false)
      (hstate : row.state.transition event = .ok a.state) :
      Move satisfied skips fails v row { v with
        row := some (rowAfter event a.state (some (row.attemptCount + 1)) row)
        attempts := v.attempts ++ [a] }
  | complete (event : JobEvent) (next : JobState) (attempt : AttemptId) (hevent : IsAttemptEvent event)
      (hopen : (openOf v.attempts).map AttemptRow.id = [attempt]) (hstate : row.state.transition event = .ok next) :
      Move satisfied skips fails v row (v.enter next (rowAfter event next none row))
  | retry (isResource : Bool) (failure : FailureRecord) (failed : JobState) (attempt : AttemptId)
      (hopen : (openOf v.attempts).map AttemptRow.id = [attempt])
      (hstate : row.state.transition (failureEvent isResource failure) = .ok failed)
      (hretries : retries isResource row < retryLimit isResource) :
      Move satisfied skips fails v row (v.enter failed (rowAfter (retryEvent isResource) .requeued none
        (countRetry isResource (rowAfter (failureEvent isResource failure) failed none row))))
  | exhaust (isResource : Bool) (failure : FailureRecord) (failed : JobState) (attempt : AttemptId)
      (hopen : (openOf v.attempts).map AttemptRow.id = [attempt])
      (hstate : row.state.transition (failureEvent isResource failure) = .ok failed)
      (hretries : ¬retries isResource row < retryLimit isResource) (h : fails) :
      Move satisfied skips fails v row (v.enter failed
        { rowAfter (failureEvent isResource failure) failed none row with terminalFailure := true })
  | reject (failure : FailureRecord) (attempt : AttemptId) (hsource : Source v row attempt)
      (hstate : row.state.transition (.verificationFailed failure) = .ok .verificationFailed) (h : fails) :
      Move satisfied skips fails v row (v.enter .verificationFailed
        { rowAfter (.verificationFailed failure) .verificationFailed none row with terminalFailure := true })
  | recover (failure : FailureRecord) (hactive : row.state.IsActive) :
      Move satisfied skips fails v row (v.enter .interrupted
        (rowAfter .recoveryRequeue .requeued none (rowAfter (.interrupted failure) .interrupted none row)))
  | verify (record : VerificationRow) (artifacts : List ArtifactRow) (keys : List KeyRow) (hjob : record.job = row.id)
      (hsource : Source v row record.attempt) (hproduct : Product row record.attempt artifacts keys) :
      Move satisfied skips fails v row { v.enter .verified
        (rowAfter (.verificationSucceeded (some record.id)) .verified none row) with
          records := v.records ++ [record]
          artifacts := v.artifacts ++ artifacts
          keys := v.keys ++ keys }

/-- All predecessors of the job are verified. -/
def Satisfied (db : RunDb) (job : JobId) : Prop :=
  ∀ p ∈ db.predecessors job, ∀ row, db.job? p = some row → row.state = .verified

/-- A predecessor of the job will never be verified. -/
def HasFailed (db : RunDb) (job : JobId) : Prop :=
  ∃ p ∈ db.predecessors job, ∃ row, db.job? p = some row ∧ IsFailed row

/-- The keys of the attempts, with the jobs they belong to. -/
def attemptKeys (db : RunDb) : List (AttemptId × JobId) := db.attempts.map fun a => (a.id, a.job)

/-- Which of the rarer changes the steps of an operation may make: to skip a job for the failure of a
predecessor, to add a dependency, to fail a job for good, to insert a job. -/
structure Policy where
  skips : Prop
  links : Prop
  fails : Prop
  inserts : Prop

/-- One elementary change of the database. -/
inductive DbStep (π : Policy) (db : RunDb) : RunDb → Prop
  | insert (row : JobRow) (h : π.inserts) (hfresh : ∀ r ∈ db.jobs, r.id ≠ row.id ∧ r.logicalJobId ≠ row.logicalJobId)
      (hid : row.id.text = s!"{db.runId}:{row.logicalJobId}") (hstate : row.state = .pending) (hcount : row.attemptCount = 0)
      (hterminal : row.terminalFailure = false) (hexecution : row.executionRetries = 0)
      (hresource : row.resourceRequeues = 0) : DbStep π db { db with jobs := db.jobs ++ [row] }
  | edge (predecessor successor : JobId) (h : π.links) (hp : (db.job? predecessor).isSome)
      (hs : (db.job? successor).isSome) (hne : predecessor ≠ successor)
      (hnew : (predecessor, successor) ∉ db.dependencies) :
      DbStep π db { db with dependencies := db.dependencies ++ [(predecessor, successor)] }
  | history (h : List (ReservationKey × ℕ)) : DbStep π db { db with resourceHistory := h }
  | move (job : JobId) (row : JobRow) (db' : RunDb) (hrow : db.job? job = some row)
      (hmove : Move (Satisfied db job) (π.skips ∧ HasFailed db job) π.fails (view db job) row (view db' job))
      (hframe : ∀ i, i ≠ job → view db' i = view db i) (hids : db'.jobs.map JobRow.id = db.jobs.map JobRow.id)
      (hdeps : db'.dependencies = db.dependencies) (hrun : db'.runId = db.runId)
      (hkeys : ∃ new : Option AttemptId, attemptKeys db' = attemptKeys db ++ new.toList.map (·, job) ∧
        ∀ a ∈ db.attempts, a.id ∉ new) : DbStep π db db'

abbrev Steps (π : Policy) : RunDb → RunDb → Prop := Relation.ReflTransGen (DbStep π)

variable {π : Policy}

section Updates

variable {db : RunDb} {job i : JobId}

theorem job?_updateJob {f : JobRow → JobRow} (hf : ∀ row, (f row).id = row.id) :
    (updateJob job f db).job? i = if i = job then (db.job? i).map f else db.job? i := by
  unfold updateJob RunDb.job?
  induction db.jobs with
  | nil => split <;> rfl
  | cons row rows ih =>
      by_cases hrow : row.id = job
      · by_cases hi : row.id = i
        · simp [hrow, hf, ← hi]
        · rw [List.map_cons, List.find?_cons_of_neg (by simpa [hrow, hf] using hrow ▸ hi),
            List.find?_cons_of_neg (by simpa using hi), ih]
      · by_cases hi : row.id = i
        · have hne : i ≠ job := hi ▸ hrow
          simp [hi, hne]
        · rw [List.map_cons, List.find?_cons_of_neg (by simpa [hrow] using hi),
            List.find?_cons_of_neg (by simpa using hi), ih]

theorem map_id_updateJob {f : JobRow → JobRow} (hf : ∀ row, (f row).id = row.id) :
    (updateJob job f db).jobs.map JobRow.id = db.jobs.map JobRow.id := by
  unfold updateJob
  rw [List.map_map]
  refine List.map_congr_left fun row _ => ?_
  simp only [Function.comp]
  split
  · exact hf row
  · rfl

/-- Filtering by job commutes with a change that keeps the job. -/
theorem filter_map_job {f : AttemptRow → AttemptRow} (hf : ∀ a, (f a).job = a.job) (as : List AttemptRow) :
    (as.map f).filter (fun a => a.job = i) = (as.filter fun a => a.job = i).map f := by
  rw [List.filter_map]
  congr 1
  refine List.filter_congr fun a _ => ?_
  simp only [Function.comp, hf]

theorem attemptsOf_closeAttempts {s : JobState} :
    (closeAttempts job s db).attemptsOf i = if i = job then closeAll s (db.attemptsOf i) else db.attemptsOf i := by
  have hcommute := filter_map_job (i := i) (f := fun a =>
    if a.job = job ∧ a.finished = false then { a with state := s, finished := true } else a)
    (fun a => by split <;> rfl) db.attempts
  unfold closeAttempts attemptsOf closeAll
  rw [hcommute]
  split
  · rename_i hij
    refine List.map_congr_left fun a ha => ?_
    have hjob : a.job = job := by simpa [hij] using (List.mem_filter.mp ha).2
    simp only [hjob, true_and]
  · rename_i hij
    refine (List.map_congr_left fun a ha => ?_).trans (List.map_id _)
    have hjob : a.job ≠ job := by
      have hi : a.job = i := by simpa using (List.mem_filter.mp ha).2
      exact hi ▸ hij
    rw [if_neg fun h => hjob h.1]
    rfl

theorem attemptKeys_closeAttempts {s : JobState} : attemptKeys (closeAttempts job s db) = attemptKeys db := by
  unfold attemptKeys closeAttempts
  rw [List.map_map]
  refine List.map_congr_left fun a _ => ?_
  simp only [Function.comp]
  split <;> rfl

theorem rowAfter_id {event : JobEvent} {next : JobState} {count : Option ℕ} (row : JobRow) :
    (rowAfter event next count row).id = row.id := rfl

theorem view_updateJob {f : JobRow → JobRow} (hf : ∀ row, (f row).id = row.id) :
    view (updateJob job f db) i = { view db i with row := if i = job then (db.job? i).map f else db.job? i } := by
  unfold view
  rw [job?_updateJob hf]
  rfl

theorem view_closeAttempts {s : JobState} : view (closeAttempts job s db) i =
    { view db i with attempts := if i = job then closeAll s (db.attemptsOf i) else db.attemptsOf i } := by
  unfold view
  rw [attemptsOf_closeAttempts]
  rfl

theorem openOf_closeAll (s : JobState) (as : List AttemptRow) : openOf (closeAll s as) = [] := by
  refine List.filter_eq_nil_iff.mpr fun a ha => ?_
  obtain ⟨b, -, rfl⟩ := List.mem_map.mp ha
  cases hb : b.finished <;> simp [hb]

theorem closeAll_of_closed {s : JobState} {as : List AttemptRow} (h : openOf as = []) : closeAll s as = as := by
  refine (List.map_congr_left fun a ha => ?_).trans (List.map_id _)
  have hfin := List.filter_eq_nil_iff.mp h a ha
  rw [if_neg (by simpa using hfin)]
  rfl

theorem openAttempts_eq : db.openAttempts job = openOf (view db job).attempts := rfl

end Updates

section Events

variable {db db' : RunDb} {job : JobId} {attempt : Option AttemptId} {event : JobEvent} {count : Option ℕ}
  {next : JobState}

theorem currentState_eq_ok {s : JobState} :
    currentState job db = .ok (s, db') ↔ (∃ row, db.job? job = some row ∧ s = row.state) ∧ db' = db := by
  unfold currentState
  simp only [bind_eq_ok, get_eq_ok, fromOption_eq_ok, pure_eq_ok]
  constructor
  · rintro ⟨_, _, ⟨rfl, rfl⟩, row, _, ⟨hrow, rfl⟩, rfl, rfl⟩
    exact ⟨⟨row, hrow, rfl⟩, rfl⟩
  · rintro ⟨⟨row, hrow, rfl⟩, rfl⟩
    exact ⟨_, _, ⟨rfl, rfl⟩, row, _, ⟨hrow, rfl⟩, rfl, rfl⟩

theorem mapError_eq_ok {x : Except TransitionError JobState} :
    x.mapError DbError.transition = .ok next ↔ x = .ok next := by
  cases x <;> simp [Except.mapError]

theorem applyEventTx_eq_ok : applyEventTx job attempt event count db = .ok (next, db') ↔
    ∃ row, db.job? job = some row ∧ row.state.transition event = .ok next ∧
      db' = attemptsAfter job attempt next (updateJob job (rowAfter event next count) db) := by
  unfold applyEventTx
  simp only [bind_eq_ok, currentState_eq_ok, fromExcept_eq_ok, mapError_eq_ok, modify_eq_ok, pure_eq_ok]
  constructor
  · rintro ⟨_, _, ⟨⟨row, hrow, rfl⟩, rfl⟩, s, _, ⟨hs, rfl⟩, _, _, rfl, _, _, rfl, rfl, rfl⟩
    exact ⟨row, hrow, hs, rfl⟩
  · rintro ⟨row, hrow, hs, rfl⟩
    exact ⟨_, _, ⟨⟨row, hrow, rfl⟩, rfl⟩, next, _, ⟨hs, rfl⟩, ⟨⟩, _, rfl, ⟨⟩, _, rfl, rfl, rfl⟩

/-- The database after an event that leads to an inactive state, and after a last change `f` of the row. -/
def settled (job : JobId) (closing : JobState) (f : JobRow → JobRow) (db : RunDb) : RunDb :=
  closeAttempts job closing (updateJob job f db)

theorem applyEventTx_settled (h : applyEventTx job attempt event count db = .ok (next, db')) (hnext : ¬next.IsActive) :
    ∃ row, db.job? job = some row ∧ row.state.transition event = .ok next ∧
      db' = settled job next (rowAfter event next count) db := by
  obtain ⟨row, hrow, hs, rfl⟩ := applyEventTx_eq_ok.mp h
  exact ⟨row, hrow, hs, by rw [attemptsAfter, if_neg hnext]; rfl⟩

theorem job?_settled {f : JobRow → JobRow} (hf : ∀ row, (f row).id = row.id) {closing : JobState} {i : JobId} :
    (settled job closing f db).job? i = if i = job then (db.job? i).map f else db.job? i := job?_updateJob hf

theorem view_settled {f : JobRow → JobRow} (hf : ∀ row, (f row).id = row.id) {row : JobRow}
    (hrow : db.job? job = some row) (closing : JobState) :
    view (settled job closing f db) job = (view db job).enter closing (f row) := by
  rw [settled, view_closeAttempts, view_updateJob hf, if_pos rfl, if_pos rfl, hrow]
  rfl

theorem view_settled_ne {f : JobRow → JobRow} (hf : ∀ row, (f row).id = row.id) (closing : JobState) {i : JobId}
    (hi : i ≠ job) : view (settled job closing f db) i = view db i := by
  rw [settled, view_closeAttempts, view_updateJob hf, if_neg hi, if_neg hi]
  rfl

/-- A step of the database from a move of one job. -/
theorem DbStep.of_settled {f : JobRow → JobRow} (hf : ∀ row, (f row).id = row.id) {row : JobRow}
    (hrow : db.job? job = some row) {closing : JobState}
    (hmove : Move (Satisfied db job) (π.skips ∧ HasFailed db job) π.fails (view db job) row ((view db job).enter closing (f row))) :
    DbStep π db (settled job closing f db) :=
  .move job row _ hrow (by rwa [view_settled hf hrow]) (fun i hi => view_settled_ne hf closing hi)
    (map_id_updateJob hf) rfl rfl
    ⟨none, by rw [settled, attemptKeys_closeAttempts]; simp [attemptKeys, updateJob], fun _ _ h => by cases h⟩

end Events

section Operations

variable {db db' : RunDb} {job : JobId} {attempt : AttemptId}

theorem updateJob_settled {f g : JobRow → JobRow} (hf : ∀ row, (f row).id = row.id) (closing : JobState) :
    updateJob job g (settled job closing f db) = settled job closing (g ∘ f) db := by
  unfold settled closeAttempts updateJob
  simp only [List.map_map]
  congr 1
  refine List.map_congr_left fun row _ => ?_
  by_cases hrow : row.id = job
  · simp [hrow, hf]
  · simp [hrow]

theorem settled_settled {f g : JobRow → JobRow} (hf : ∀ row, (f row).id = row.id) (s s' : JobState) :
    settled job s' g (settled job s f db) = settled job s (g ∘ f) db := by
  rw [settled, updateJob_settled hf]
  unfold settled closeAttempts
  simp only [List.map_map]
  congr 1
  refine List.map_congr_left fun a _ => ?_
  by_cases ha : a.job = job ∧ a.finished = false
  · simp [ha.1, ha.2]
  · simp only [Function.comp, if_neg ha]

theorem requireUniqueOpenAttempt_eq_ok {u : Unit} : requireUniqueOpenAttempt job attempt db = .ok (u, db') ↔
    (openOf (view db job).attempts).map AttemptRow.id = [attempt] ∧ db' = db := by
  unfold requireUniqueOpenAttempt
  simp only [bind_eq_ok, get_eq_ok, ensure_eq_ok]
  constructor
  · rintro ⟨_, _, ⟨rfl, rfl⟩, hopen, rfl⟩
    exact ⟨hopen, rfl⟩
  · rintro ⟨hopen, rfl⟩
    exact ⟨_, _, ⟨rfl, rfl⟩, hopen, rfl⟩

theorem requireVerificationSource_ok {u : Unit} (h : requireVerificationSource job attempt db = .ok (u, db')) :
    (∃ row, db.job? job = some row ∧ Source (view db job) row attempt) ∧ db' = db := by
  unfold requireVerificationSource at h
  simp only [bind_eq_ok, get_eq_ok, fromOption_eq_ok] at h
  obtain ⟨_, _, ⟨rfl, rfl⟩, row, _, ⟨hrow, rfl⟩, h⟩ := h
  split at h
  · rename_i hopen
    obtain ⟨hids, rfl⟩ := requireUniqueOpenAttempt_eq_ok.mp h
    exact ⟨⟨row, hrow, .inl ⟨hopen, hids⟩⟩, rfl⟩
  · obtain ⟨⟨hfinished, hlatest⟩, rfl⟩ := ensure_eq_ok.mp h
    exact ⟨⟨row, hrow, .inr ⟨hfinished, hlatest⟩⟩, rfl⟩

theorem new?_eq_some {text : String} {id : Identifier} (h : Identifier.new? text = some id) : id.text = text := by
  unfold Identifier.new? at h
  split at h
  · cases h
    rfl
  · cases h

theorem job?_id {row : JobRow} (h : db.job? job = some row) : row.id = job := by
  simpa using List.find?_some h

theorem startsAttempt_active {event : JobEvent} {s next : JobState} (h : event.StartsAttempt)
    (hs : s.transition event = .ok next) : next.IsActive := by
  rw [(JobState.transition_eq_ok.mp hs).2]
  simp only [JobEvent.StartsAttempt, List.mem_cons, List.not_mem_nil, or_false] at h
  rcases h with rfl | rfl | rfl | rfl <;> decide

/-- A new attempt already has the state that it is set to. -/
theorem setAttemptState_of_fresh {a : AttemptRow} (hnew : ∀ b ∈ db.attempts, b.id ≠ a.id) {next : JobState}
    (hstate : a.state = next) {f : JobRow → JobRow} :
    setAttemptState a.id next (updateJob job f { db with attempts := db.attempts ++ [a] }) =
      updateJob job f { db with attempts := db.attempts ++ [a] } := by
  unfold setAttemptState updateJob
  congr 1
  refine (List.map_congr_left fun b hb => ?_).trans (List.map_id _)
  rcases List.mem_append.mp hb with hb | hb
  · rw [if_neg (hnew b hb)]
    rfl
  · rw [List.mem_singleton.mp hb, if_pos rfl, ← hstate]
    rfl

/-- The row of a job that has just been inserted. -/
def newRow (id : JobId) (logicalJobId : String) (kind : JobKind) : JobRow :=
  ⟨id, logicalJobId, kind, .pending, none, 0, 0, 0, false, none⟩

theorem insertJob_ok {logicalJobId : String} {kind : JobKind} {id : JobId}
    (h : insertJob logicalJobId kind db = .ok (id, db')) :
    (∀ r ∈ db.jobs, r.id ≠ id ∧ r.logicalJobId ≠ logicalJobId) ∧ id.text = s!"{db.runId}:{logicalJobId}" ∧
      db' = { db with jobs := db.jobs ++ [newRow id logicalJobId kind] } := by
  unfold insertJob at h
  simp only [bind_eq_ok, get_eq_ok, fromOption_eq_ok, ensure_eq_ok, modify_eq_ok, pure_eq_ok] at h
  obtain ⟨_, _, ⟨-, rfl⟩, _, _, ⟨rfl, rfl⟩, _, _, ⟨hid, rfl⟩, _, _, ⟨hfresh, rfl⟩, _, _, rfl, rfl, rfl⟩ := h
  exact ⟨hfresh, new?_eq_some hid, rfl⟩

theorem insertJob_steps (hπ : π.inserts) (logicalJobId : String) (kind : JobKind) :
    Effect (insertJob logicalJobId kind) (Steps π) := by
  intro db id db' h
  obtain ⟨hfresh, hid, rfl⟩ := insertJob_ok h
  exact .single (.insert _ hπ hfresh hid rfl rfl rfl rfl rfl)

theorem requireJobInRun_eq_ok {u : Unit} :
    requireJobInRun job db = .ok (u, db') ↔ (db.job? job).isSome ∧ db' = db := by
  unfold requireJobInRun
  simp only [bind_eq_ok, get_eq_ok, ensure_eq_ok]
  constructor
  · rintro ⟨_, _, ⟨rfl, rfl⟩, hjob, rfl⟩
    exact ⟨hjob, rfl⟩
  · rintro ⟨hjob, rfl⟩
    exact ⟨_, _, ⟨rfl, rfl⟩, hjob, rfl⟩

theorem addDependency_ok {predecessor successor : JobId} {u : Unit}
    (h : addDependency predecessor successor db = .ok (u, db')) :
    (db.job? predecessor).isSome ∧ (db.job? successor).isSome ∧ predecessor ≠ successor ∧
      (predecessor, successor) ∉ db.dependencies ∧
      db' = { db with dependencies := db.dependencies ++ [(predecessor, successor)] } := by
  unfold addDependency at h
  simp only [bind_eq_ok, requireJobInRun_eq_ok, get_eq_ok, ensure_eq_ok, modify_eq_ok] at h
  obtain ⟨_, _, ⟨hp, rfl⟩, _, _, ⟨hs, rfl⟩, _, _, ⟨rfl, rfl⟩, _, _, ⟨⟨hne, hnew⟩, rfl⟩, rfl⟩ := h
  exact ⟨hp, hs, hne, hnew, rfl⟩

theorem addDependency_steps (hπ : π.links) (predecessor successor : JobId) :
    Effect (addDependency predecessor successor) (Steps π) := by
  intro db u db' h
  obtain ⟨hp, hs, hne, hnew, rfl⟩ := addDependency_ok h
  exact .single (.edge predecessor successor hπ hp hs hne hnew)

theorem attemptEvent_inactive {event : JobEvent} {s next : JobState} (hevent : IsAttemptEvent event)
    (hs : s.transition event = .ok next) : ¬next.IsActive := by
  rw [(JobState.transition_eq_ok.mp hs).2]
  cases event with
  | witnessCompleted | preparationCompleted | proofProduced => decide
  | interrupted f => exact show ¬JobState.interrupted.IsActive by decide
  | _ => exact absurd hevent id

theorem applyAttemptEvent_ok {event : JobEvent} {next : JobState}
    (h : applyAttemptEvent job attempt event db = .ok (next, db')) :
    ∃ row, db.job? job = some row ∧ IsAttemptEvent event ∧
      (openOf (view db job).attempts).map AttemptRow.id = [attempt] ∧ row.state.transition event = .ok next ∧
      db' = settled job next (rowAfter event next none) db := by
  unfold applyAttemptEvent at h
  simp only [bind_eq_ok, ensure_eq_ok, requireUniqueOpenAttempt_eq_ok] at h
  obtain ⟨_, _, ⟨hevent, rfl⟩, _, _, ⟨hopen, rfl⟩, h⟩ := h
  obtain ⟨_, -, hs, -⟩ := applyEventTx_eq_ok.mp h
  obtain ⟨row, hrow, hs, rfl⟩ := applyEventTx_settled h (attemptEvent_inactive hevent hs)
  exact ⟨row, hrow, hevent, hopen, hs, rfl⟩

theorem applyAttemptEvent_steps (job : JobId) (attempt : AttemptId) (event : JobEvent) :
    Effect (applyAttemptEvent job attempt event) (Steps π) := by
  intro db next db' h
  obtain ⟨row, hrow, hevent, hopen, hs, rfl⟩ := applyAttemptEvent_ok h
  exact .single (.of_settled rowAfter_id hrow (.complete event next attempt hevent hopen hs))

/-- The database after a new attempt has been started. -/
def begun (job : JobId) (event : JobEvent) (a : AttemptRow) (count : ℕ) (db : RunDb) : RunDb :=
  updateJob job (rowAfter event a.state (some count)) { db with attempts := db.attempts ++ [a] }

theorem beginAttempt_ok {event : JobEvent} (h : beginAttempt job event db = .ok (attempt, db')) :
    ∃ row next, db.job? job = some row ∧ event.StartsAttempt ∧ StartMatchesKind row.kind event ∧
      openOf (view db job).attempts = [] ∧ attempt.text = s!"{row.id.text}:attempt:{row.attemptCount + 1}" ∧
      row.state.transition event = .ok next ∧ (∀ a ∈ db.attempts, a.id ≠ attempt) ∧
      db' = begun job event ⟨attempt, job, next, false⟩ (row.attemptCount + 1) db := by
  unfold beginAttempt at h
  simp only [bind_eq_ok, get_eq_ok, fromOption_eq_ok, ensure_eq_ok, fromExcept_eq_ok, mapError_eq_ok, modify_eq_ok,
    pure_eq_ok] at h
  obtain ⟨_, _, ⟨hstart, rfl⟩, _, _, ⟨rfl, rfl⟩, row, _, ⟨hrow, rfl⟩, _, _, ⟨hkind, rfl⟩, _, _, ⟨hopen, rfl⟩, _, _,
    ⟨-, rfl⟩, id, _, ⟨hid, rfl⟩, next, _, ⟨hnext, rfl⟩, _, db, ⟨hnew, rfl⟩, _, _, rfl, _, _, happly, rfl, rfl⟩ := h
  obtain ⟨row', hrow', hs, rfl⟩ := applyEventTx_eq_ok.mp happly
  obtain rfl : row' = row := Option.some_inj.mp (hrow'.symm.trans hrow)
  obtain rfl := Except.ok.inj (hnext.symm.trans hs)
  refine ⟨row', next, hrow, hstart, hkind, hopen, ?_, hnext, hnew, ?_⟩
  · rw [job?_id hrow]
    exact new?_eq_some hid
  · rw [attemptsAfter, if_pos (startsAttempt_active hstart hnext)]
    exact setAttemptState_of_fresh (a := ⟨attempt, job, next, false⟩) hnew rfl

theorem view_begun {event : JobEvent} {a : AttemptRow} {count : ℕ} {row : JobRow} (hrow : db.job? job = some row)
    (ha : a.job = job) : view (begun job event a count db) job = { view db job with
      row := some (rowAfter event a.state (some count) row)
      attempts := (view db job).attempts ++ [a] } := by
  have hrow' : ({ db with attempts := db.attempts ++ [a] } : RunDb).job? job = some row := hrow
  rw [begun, view_updateJob rowAfter_id, if_pos rfl, hrow']
  simp [view, attemptsOf, recordsOf, artifactsOf, keysOf, ha]

theorem view_begun_ne {event : JobEvent} {a : AttemptRow} {count : ℕ} (ha : a.job = job) {i : JobId} (hi : i ≠ job) :
    view (begun job event a count db) i = view db i := by
  rw [begun, view_updateJob rowAfter_id, if_neg hi]
  simp [view, attemptsOf, recordsOf, artifactsOf, keysOf, job?, ha, Ne.symm hi]

theorem beginAttempt_steps (job : JobId) (event : JobEvent) : Effect (beginAttempt job event) (Steps π) := by
  intro db attempt db' h
  obtain ⟨row, next, hrow, hstart, hkind, hopen, hid, hnext, hnew, rfl⟩ := beginAttempt_ok h
  refine .single (.move job row _ hrow ?_ (fun i hi => view_begun_ne rfl hi) (map_id_updateJob rowAfter_id) rfl rfl
    ⟨some attempt, ?_, ?_⟩)
  · rw [view_begun hrow rfl]
    exact .begin event _ hstart hkind hopen hid rfl hnext
  · simp [attemptKeys, begun, updateJob]
  · intro a ha h
    exact hnew a ha (Option.some_inj.mp h).symm

theorem setTerminal_eq_ok {u : Unit} : setTerminal job db = .ok (u, db') ↔
    db' = updateJob job (fun row => { row with terminalFailure := true }) db := modify_eq_ok

/-- A job that is blocked by its predecessor `p` in the course of a failure. -/
def blockRow (p : JobId) (row : JobRow) : JobRow :=
  { rowAfter (.dependencyBlocked p) .blocked none row with terminalFailure := true }

theorem blockSuccessor_ok {p successor : JobId} {frontier frontier' : List JobId}
    (h : blockSuccessor p frontier successor db = .ok (frontier', db')) :
    ∃ row, db.job? successor = some row ∧
      (IsWaiting row.state ∧ frontier' = successor :: frontier ∧ db' = settled successor .blocked (blockRow p) db ∨
        ¬IsWaiting row.state ∧ frontier' = frontier ∧ db' = db) := by
  unfold blockSuccessor at h
  simp only [bind_eq_ok, currentState_eq_ok] at h
  obtain ⟨_, _, ⟨⟨row, hrow, rfl⟩, rfl⟩, h⟩ := h
  refine ⟨row, hrow, ?_⟩
  split at h
  · rename_i hwaiting
    simp only [bind_eq_ok, setTerminal_eq_ok, pure_eq_ok] at h
    obtain ⟨next, _, happly, _, _, rfl, rfl, rfl⟩ := h
    obtain ⟨row', hrow', hs, -⟩ := applyEventTx_eq_ok.mp happly
    obtain rfl : next = .blocked := (JobState.transition_eq_ok.mp hs).2
    obtain ⟨-, -, -, rfl⟩ := applyEventTx_settled happly (by decide)
    exact .inl ⟨hwaiting, rfl, updateJob_settled rowAfter_id _⟩
  · rename_i hwaiting
    obtain ⟨rfl, rfl⟩ := pure_eq_ok.mp h
    exact .inr ⟨hwaiting, rfl, rfl⟩

theorem blockSuccessor_steps (hπ : π.fails) (p : JobId) (frontier : List JobId) (successor : JobId) :
    Effect (blockSuccessor p frontier successor) (Steps π) := by
  intro db frontier' db' h
  obtain ⟨row, hrow, ⟨hwaiting, -, rfl⟩ | ⟨-, -, rfl⟩⟩ := blockSuccessor_ok h
  · exact .single (.of_settled (f := blockRow p) (fun _ => rfl) hrow (.block p hwaiting hπ))
  · exact .refl

/-- A loop of steps is a sequence of steps. -/
theorem foldEach_steps {α β : Type} {f : β → α → Db β} (hf : ∀ b x, Effect (f b x) (Steps π)) (b : β)
    (xs : List α) : Effect (foldEach f b xs) (Steps π) := fun _ _ _ h =>
  foldEach_invariant (I := fun _ _ => Steps π _) (fun x _ b s b' s' hI hx => hI.trans (hf b x s b' s' hx)) h .refl

/-- The rule of the walk: an invariant survives it if it survives that one waiting job gets blocked. -/
theorem blockFrontier_invariant {I : RunDb → Prop}
    (hI : ∀ p successor s row, I s → s.job? successor = some row → IsWaiting row.state →
      I (settled successor .blocked (blockRow p) s)) {fuel : ℕ} {frontier : List JobId} {u : Unit} (hdb : I db)
    (h : blockFrontier fuel frontier db = .ok (u, db')) : I db' := by
  induction fuel generalizing frontier db with
  | zero =>
      obtain rfl : db' = db := by
        cases frontier with
        | nil => exact (pure_eq_ok.mp h).2
        | cons p ps => exact (pure_eq_ok.mp h).2
      exact hdb
  | succ fuel ih =>
      cases frontier with
      | nil =>
          obtain rfl := (pure_eq_ok.mp h).2
          exact hdb
      | cons p rest =>
          unfold blockFrontier at h
          simp only [bind_eq_ok, get_eq_ok] at h
          obtain ⟨_, db₀, ⟨rfl, rfl⟩, frontier', db₁, hfold, hrest⟩ := h
          refine ih ?_ hrest
          refine foldEach_invariant (I := fun _ _ => I) ?_ hfold hdb
          intro successor _ _ s _ s' hs hrun
          obtain ⟨row, hrow, ⟨hwaiting, -, rfl⟩ | ⟨-, -, rfl⟩⟩ := blockSuccessor_ok hrun
          · exact hI p successor s row hs hrow hwaiting
          · exact hs

theorem blockDescendantsTx_eq_ok {u : Unit} : blockDescendantsTx job db = .ok (u, db') ↔
    blockFrontier (db.jobs.length + 1) [job] db = .ok (u, db') := by
  unfold blockDescendantsTx
  simp only [bind_eq_ok, get_eq_ok]
  constructor
  · rintro ⟨_, _, ⟨rfl, rfl⟩, h⟩
    exact h
  · intro h
    exact ⟨_, _, ⟨rfl, rfl⟩, h⟩

/-- A job whose verification failed. -/
def rejectRow (failure : FailureRecord) (row : JobRow) : JobRow :=
  { rowAfter (.verificationFailed failure) .verificationFailed none row with terminalFailure := true }

theorem failVerification_ok {failure : FailureRecord} {next : JobState}
    (h : failVerification job attempt failure db = .ok (next, db')) :
    ∃ row, db.job? job = some row ∧ Source (view db job) row attempt ∧
      row.state.transition (.verificationFailed failure) = .ok .verificationFailed ∧
      blockDescendantsTx job (settled job .verificationFailed (rejectRow failure) db) = .ok ((), db') := by
  unfold failVerification at h
  simp only [bind_eq_ok, setTerminal_eq_ok, pure_eq_ok] at h
  obtain ⟨_, _, hsource, _, _, happly, _, _, rfl, _, _, hblock, rfl, rfl⟩ := h
  obtain ⟨⟨row, hrow, hsource⟩, rfl⟩ := requireVerificationSource_ok hsource
  obtain ⟨row', hrow', hs, -⟩ := applyEventTx_eq_ok.mp happly
  obtain rfl : next = .verificationFailed := (JobState.transition_eq_ok.mp hs).2
  obtain ⟨row'', hrow'', hs, rfl⟩ := applyEventTx_settled happly (by decide)
  obtain rfl : row'' = row := Option.some_inj.mp (hrow''.symm.trans hrow)
  rw [updateJob_settled rowAfter_id] at hblock
  exact ⟨row'', hrow, hsource, hs, hblock⟩

theorem blockDescendantsTx_steps (hπ : π.fails) (job : JobId) : Effect (blockDescendantsTx job) (Steps π) :=
  fun _ _ _ h => blockFrontier_invariant (fun p _ _ _ hsteps hrow hwaiting =>
    hsteps.tail (.of_settled (f := blockRow p) (fun _ => rfl) hrow (.block p hwaiting hπ))) .refl
    (blockDescendantsTx_eq_ok.mp h)

theorem failVerification_steps (hπ : π.fails) (job : JobId) (attempt : AttemptId) (failure : FailureRecord) :
    Effect (failVerification job attempt failure) (Steps π) := by
  intro db next db' h
  obtain ⟨row, hrow, hsource, hs, hblock⟩ := failVerification_ok h
  refine .head ?_ (blockDescendantsTx_steps hπ job _ _ _ hblock)
  exact .of_settled (f := rejectRow failure) (fun _ => rfl) hrow (.reject failure attempt hsource hs hπ)

theorem recordResourcePeak_steps (key : ReservationKey) (peak : UInt64) :
    Effect (recordResourcePeak key peak) (Steps π) := by
  intro db u db' h
  unfold recordResourcePeak at h
  simp only [bind_eq_ok, ensure_eq_ok, modify_eq_ok] at h
  obtain ⟨_, _, ⟨-, rfl⟩, rfl⟩ := h
  exact .single (.history _)

/-- The database with the observed peak. -/
def observed : Option (ReservationKey × UInt64) → RunDb → RunDb
  | some (key, peak), db => { db with resourceHistory := peakAfter key peak.toNat db.resourceHistory }
  | none, db => db

theorem recordObservation_ok {observation : Option (ReservationKey × UInt64)} {u : Unit}
    (h : recordObservation observation db = .ok (u, db')) : db' = observed observation db := by
  cases observation with
  | none => exact (pure_eq_ok.mp h).2
  | some o =>
      simp only [recordObservation, recordResourcePeak, bind_eq_ok, ensure_eq_ok, modify_eq_ok] at h
      obtain ⟨_, _, ⟨-, rfl⟩, rfl⟩ := h
      rfl

theorem view_observed (observation : Option (ReservationKey × UInt64)) (i : JobId) :
    view (observed observation db) i = view db i := by
  cases observation <;> rfl

theorem observed_steps (observation : Option (ReservationKey × UInt64)) : Steps π db (observed observation db) := by
  cases observation with
  | none => exact .refl
  | some o => exact .single (.history _)

/-- A job that is queued again after a failed attempt. -/
def retryRow (isResource : Bool) (failure : FailureRecord) (failed : JobState) (row : JobRow) : JobRow :=
  rowAfter (retryEvent isResource) .requeued none
    (countRetry isResource (rowAfter (failureEvent isResource failure) failed none row))

/-- A job whose retries are exhausted. -/
def exhaustRow (isResource : Bool) (failure : FailureRecord) (failed : JobState) (row : JobRow) : JobRow :=
  { rowAfter (failureEvent isResource failure) failed none row with terminalFailure := true }

theorem countRetry_id (isResource : Bool) (row : JobRow) : (countRetry isResource row).id = row.id := by
  cases isResource <;> rfl

theorem retryRow_id (isResource : Bool) (failure : FailureRecord) (failed : JobState) (row : JobRow) :
    (retryRow isResource failure failed row).id = row.id := countRetry_id isResource _

theorem failureEvent_inactive {isResource : Bool} {failure : FailureRecord} {s next : JobState}
    (h : s.transition (failureEvent isResource failure) = .ok next) : ¬next.IsActive := by
  rw [(JobState.transition_eq_ok.mp h).2]
  cases isResource
  · exact show ¬JobState.executionFailed.IsActive by decide
  · exact show ¬JobState.resourceExceeded.IsActive by decide

theorem handleAttemptFailure_ok {failure : FailureRecord} {observation : Option (ReservationKey × UInt64)}
    {decision : RetryDecision} (h : handleAttemptFailure job attempt failure observation db = .ok (decision, db')) :
    ∃ row failed isResource, isResource = decide (failure.kind = .resourceExceeded) ∧ db.job? job = some row ∧
      (openOf (view db job).attempts).map AttemptRow.id = [attempt] ∧
      row.state.transition (failureEvent isResource failure) = .ok failed ∧
      (retries isResource row < retryLimit isResource ∧ decision = .requeued ∧
          db' = settled job failed (retryRow isResource failure failed) (observed observation db) ∨
        ¬retries isResource row < retryLimit isResource ∧ decision = .terminal ∧
          blockDescendantsTx job (settled job failed (exhaustRow isResource failure failed) (observed observation db)) =
            .ok ((), db')) := by
  unfold handleAttemptFailure at h
  simp only [bind_eq_ok, ensure_eq_ok, requireUniqueOpenAttempt_eq_ok, get_eq_ok, fromOption_eq_ok] at h
  obtain ⟨_, _, ⟨-, rfl⟩, _, _, ⟨hopen, rfl⟩, _, db₁, hpeak, failed, _, happly, _, _, ⟨rfl, rfl⟩, row', _, ⟨hrow', rfl⟩,
    h⟩ := h
  generalize decide (failure.kind = .resourceExceeded) = isResource at happly h
  obtain rfl := recordObservation_ok hpeak
  change applyEventTx job (some attempt) (failureEvent isResource failure) none _ = _ at happly
  obtain ⟨_, -, hs, -⟩ := applyEventTx_eq_ok.mp happly
  obtain ⟨row, hrow, hs, rfl⟩ := applyEventTx_settled happly (failureEvent_inactive hs)
  rw [job?_settled rowAfter_id, if_pos rfl, hrow] at hrow'
  obtain rfl : row' = rowAfter (failureEvent isResource failure) failed none row := (Option.some_inj.mp hrow').symm
  have hrow₀ := (congrArg JobView.row (view_observed observation job)).symm.trans hrow
  refine ⟨row, failed, isResource, rfl, hrow₀, hopen, hs, ?_⟩
  split at h
  · rename_i hretries
    simp only [bind_eq_ok, modify_eq_ok, pure_eq_ok] at h
    obtain ⟨_, _, rfl, next, _, hretry, rfl, rfl⟩ := h
    change applyEventTx job (some attempt) (retryEvent isResource) none _ = _ at hretry
    obtain ⟨_, -, hs', -⟩ := applyEventTx_eq_ok.mp hretry
    obtain rfl : next = .requeued := by
      rw [(JobState.transition_eq_ok.mp hs').2]
      cases isResource <;> rfl
    obtain ⟨-, -, -, rfl⟩ := applyEventTx_settled hretry (by decide)
    refine .inl ⟨by cases isResource <;> exact hretries, rfl, ?_⟩
    rw [updateJob_settled rowAfter_id]
    exact settled_settled (f := countRetry isResource ∘ rowAfter (failureEvent isResource failure) failed none)
      (fun _ => countRetry_id isResource _) _ _
  · rename_i hretries
    simp only [bind_eq_ok, setTerminal_eq_ok, pure_eq_ok] at h
    obtain ⟨_, _, rfl, _, _, hblock, rfl, rfl⟩ := h
    rw [updateJob_settled rowAfter_id] at hblock
    exact .inr ⟨by cases isResource <;> exact hretries, rfl, hblock⟩

theorem handleAttemptFailure_steps (hπ : π.fails) (job : JobId) (attempt : AttemptId) (failure : FailureRecord)
    (observation : Option (ReservationKey × UInt64)) :
    Effect (handleAttemptFailure job attempt failure observation) (Steps π) := by
  intro db decision db' h
  obtain ⟨row, failed, isResource, -, hrow, hopen, hs, h⟩ := handleAttemptFailure_ok h
  have hrow' : (observed observation db).job? job = some row :=
    (congrArg JobView.row (view_observed observation job)).trans hrow
  rw [← view_observed observation] at hopen
  refine (observed_steps observation).trans ?_
  rcases h with ⟨hretries, -, rfl⟩ | ⟨hretries, -, hblock⟩
  · exact .single (.of_settled (retryRow_id isResource failure failed) hrow'
      (.retry isResource failure failed attempt hopen hs hretries))
  · refine .head ?_ (blockDescendantsTx_steps hπ job _ _ _ hblock)
    exact .of_settled (f := exhaustRow isResource failure failed) (fun _ => rfl) hrow'
      (.exhaust isResource failure failed attempt hopen hs hretries hπ)

theorem mem_predecessorStates {row : JobRow} :
    row ∈ db.predecessorStates job ↔ ∃ p ∈ db.predecessors job, db.job? p = some row := by
  unfold predecessorStates sortIds
  rw [List.mem_filterMap]
  refine exists_congr fun p => and_congr_left fun _ => ?_
  exact (List.perm_insertionSort IdLe _).mem_iff

theorem waiting_of_arm {event : JobEvent} {s next : JobState} (h : s.transition event = .ok next)
    (hevent : event = .dependenciesSatisfied ∨ ∃ p, event = .dependencyBlocked p) : IsWaiting s := by
  have hmem := (JobState.transition_eq_ok.mp h).1
  rcases hevent with rfl | ⟨p, rfl⟩ <;> simpa [JobState.arm, IsWaiting] using hmem

theorem refreshJob_ok {count count' : ℕ} (h : refreshJob count job db = .ok (count', db')) :
    (∃ row, db.job? job = some row ∧ IsWaiting row.state ∧ Satisfied db job ∧
        db' = settled job .ready (rowAfter .dependenciesSatisfied .ready none) db) ∨
      (∃ row p, db.job? job = some row ∧ IsWaiting row.state ∧ ¬Satisfied db job ∧ HasFailed db job ∧
        db' = settled job .blocked (rowAfter (.dependencyBlocked p) .blocked none) db) ∨
      ¬Satisfied db job ∧ ¬HasFailed db job ∧ db' = db := by
  have hsatisfied : (∀ row ∈ db.predecessorStates job, row.state = .verified) ↔ Satisfied db job := by
    simp only [mem_predecessorStates, Satisfied]
    exact ⟨fun h p hp row hrow => h row ⟨p, hp, hrow⟩, fun h row ⟨p, hp, hrow⟩ => h p hp row hrow⟩
  unfold refreshJob at h
  simp only [bind_eq_ok, get_eq_ok] at h
  obtain ⟨_, _, ⟨rfl, rfl⟩, h⟩ := h
  split at h
  · rename_i hall
    simp only [bind_eq_ok, pure_eq_ok] at h
    obtain ⟨next, _, happly, -, rfl⟩ := h
    obtain ⟨_, -, hs, -⟩ := applyEventTx_eq_ok.mp happly
    obtain rfl : next = .ready := (JobState.transition_eq_ok.mp hs).2
    obtain ⟨row, hrow, hs, rfl⟩ := applyEventTx_settled happly (by decide)
    exact .inl ⟨row, hrow, waiting_of_arm hs (.inl rfl), hsatisfied.mp hall, rfl⟩
  · rename_i hall
    generalize hfind : List.find? (fun row => decide (IsFailed row)) _ = found at h
    cases found with
    | some p =>
      simp only [bind_eq_ok, pure_eq_ok] at h
      obtain ⟨next, _, happly, -, rfl⟩ := h
      obtain ⟨_, -, hs, -⟩ := applyEventTx_eq_ok.mp happly
      obtain rfl : next = .blocked := (JobState.transition_eq_ok.mp hs).2
      obtain ⟨row, hrow, hs, rfl⟩ := applyEventTx_settled happly (by decide)
      obtain ⟨i, hi, hprow⟩ := mem_predecessorStates.mp (List.mem_of_find?_eq_some hfind)
      have hfailed : IsFailed p := by simpa using List.find?_some hfind
      exact .inr (.inl ⟨row, p.id, hrow, waiting_of_arm hs (.inr ⟨_, rfl⟩),
        fun hs => hall (hsatisfied.mpr hs), ⟨i, hi, p, hprow, hfailed⟩, rfl⟩)
    | none =>
      obtain ⟨-, rfl⟩ := pure_eq_ok.mp h
      refine .inr (.inr ⟨fun hs => hall (hsatisfied.mpr hs), ?_, rfl⟩)
      rintro ⟨i, hi, row, hrow, hfailed⟩
      have := List.find?_eq_none.mp hfind row (mem_predecessorStates.mpr ⟨i, hi, hrow⟩)
      exact this (by simpa using hfailed)

theorem refreshJob_steps (hπ : π.skips) (count : ℕ) (job : JobId) : Effect (refreshJob count job) (Steps π) := by
  intro db count' db' h
  obtain ⟨row, hrow, hwaiting, hs, rfl⟩ | ⟨row, p, hrow, hwaiting, -, hf, rfl⟩ | ⟨-, -, rfl⟩ := refreshJob_ok h
  · exact .single (.of_settled rowAfter_id hrow (.ready hwaiting hs))
  · exact .single (.of_settled rowAfter_id hrow (.skip p hwaiting ⟨hπ, hf⟩))
  · exact .refl

theorem refreshReadiness_eq_ok {count : ℕ} : refreshReadiness db = .ok (count, db') ↔
    foldEach refreshJob 0 (sortIds ((db.jobs.filter fun row => IsWaiting row.state).map JobRow.id)) db =
      .ok (count, db') := by
  unfold refreshReadiness
  simp only [bind_eq_ok, get_eq_ok]
  constructor
  · rintro ⟨_, _, ⟨rfl, rfl⟩, h⟩
    exact h
  · intro h
    exact ⟨_, _, ⟨rfl, rfl⟩, h⟩

theorem refreshReadiness_steps (hπ : π.skips) : Effect refreshReadiness (Steps π) := fun _ _ _ h =>
  foldEach_steps (refreshJob_steps hπ) 0 _ _ _ _ (refreshReadiness_eq_ok.mp h)

/-- No two attempts have the same id. -/
def UniqueAttempts (db : RunDb) : Prop := ((attemptKeys db).map Prod.fst).Nodup

theorem DbStep.uniqueAttempts (h : DbStep π db db') (hdb : UniqueAttempts db) : UniqueAttempts db' := by
  cases h with
  | insert | edge | history => exact hdb
  | move job row _ hrow hmove hframe hids hdeps hrun hkeys =>
      obtain ⟨new, hkeys, hfresh⟩ := hkeys
      unfold UniqueAttempts
      rw [hkeys, List.map_append]
      refine hdb.append ?_ ?_
      · cases new <;> simp
      · intro id hid hnew
        obtain ⟨k, hk, rfl⟩ := List.mem_map.mp hid
        obtain ⟨a, ha, rfl⟩ := List.mem_map.mp hk
        refine hfresh a ha ?_
        cases new with
        | none => simp at hnew
        | some n => simpa [eq_comm] using hnew

theorem Steps.uniqueAttempts (h : Steps π db db') (hdb : UniqueAttempts db) : UniqueAttempts db' := by
  induction h with
  | refl => exact hdb
  | tail _ hstep ih => exact hstep.uniqueAttempts ih

/-- A job that is queued again after its attempt was cut off. -/
def recoverRow (row : JobRow) : JobRow :=
  rowAfter .recoveryRequeue .requeued none
    (rowAfter (.interrupted (FailureRecord.new .interrupted .scheduler .schedulerRestart)) .interrupted none row)

/-- The attempt that a recovery closes was closed together with the job's others. -/
theorem close_settled {a : AttemptRow} {f : JobRow → JobRow} {s : JobState} (hunique : UniqueAttempts db)
    (hmem : (a.id, a.job) ∈ attemptKeys db) :
    ({ settled a.job s f db with attempts := (settled a.job s f db).attempts.map fun b =>
      if b.id = a.id ∧ b.finished = false then { b with state := .interrupted, finished := true } else b } : RunDb) =
      settled a.job s f db := by
  have hclosed : ∀ b ∈ (settled a.job s f db).attempts, ¬(b.id = a.id ∧ b.finished = false) := by
    rintro b hb ⟨hid, hopen⟩
    obtain ⟨c, hc, rfl⟩ := List.mem_map.mp hb
    have hcid : c.id = a.id := by
      split at hid <;> exact hid
    have hkey : (c.id, c.job) ∈ attemptKeys db := List.mem_map_of_mem hc
    have hjob : c.job = a.job :=
      congrArg Prod.snd (List.inj_on_of_nodup_map hunique hkey hmem hcid)
    cases hfin : c.finished <;> simp [hjob, hfin] at hopen
  have hmap : (settled a.job s f db).attempts.map (fun b =>
      if b.id = a.id ∧ b.finished = false then { b with state := .interrupted, finished := true } else b) =
      (settled a.job s f db).attempts :=
    (List.map_congr_left fun b hb => if_neg (hclosed b hb)).trans (List.map_id _)
  rw [hmap]

theorem recoverAttempt_ok {count count' : ℕ} {entry : AttemptRow × JobState} (hunique : UniqueAttempts db)
    (hmem : (entry.1.id, entry.1.job) ∈ attemptKeys db) (h : recoverAttempt count entry db = .ok (count', db')) :
    entry.2.IsActive ∧ (∃ row, db.job? entry.1.job = some row ∧ row.state.IsActive) ∧
        db' = settled entry.1.job .interrupted recoverRow db ∨
      ¬entry.2.IsActive ∧ db' = db := by
  unfold recoverAttempt at h
  split at h
  · rename_i hactive
    simp only [bind_eq_ok, modify_eq_ok, pure_eq_ok] at h
    obtain ⟨s, _, hinterrupt, s', _, hrequeue, _, _, rfl, -, rfl⟩ := h
    obtain ⟨_, -, hs, -⟩ := applyEventTx_eq_ok.mp hinterrupt
    obtain rfl : s = .interrupted := (JobState.transition_eq_ok.mp hs).2
    obtain ⟨_, -, hs', -⟩ := applyEventTx_eq_ok.mp hrequeue
    obtain rfl : s' = .requeued := (JobState.transition_eq_ok.mp hs').2
    obtain ⟨row, hrow, hs, rfl⟩ := applyEventTx_settled hinterrupt (by decide)
    obtain ⟨-, -, -, rfl⟩ := applyEventTx_settled hrequeue (by decide)
    refine .inl ⟨hactive, ⟨row, hrow, (JobState.transition_eq_ok.mp hs).1⟩, ?_⟩
    rw [settled_settled rowAfter_id]
    exact close_settled hunique hmem
  · rename_i hactive
    obtain ⟨-, rfl⟩ := pure_eq_ok.mp h
    exact .inr ⟨hactive, rfl⟩

/-- The open attempts that a recovery starts from. -/
def interruptedAttempts (db : RunDb) : List (AttemptRow × JobState) :=
  ((db.attempts.filter fun a => !a.finished).insertionSort fun a b => IdLe a.id b.id).filterMap
    fun a => (db.job? a.job).map fun row => (a, row.state)

theorem mem_interruptedAttempts {entry : AttemptRow × JobState} : entry ∈ interruptedAttempts db ↔
    entry.1 ∈ db.attempts ∧ entry.1.finished = false ∧ ∃ row, db.job? entry.1.job = some row ∧ entry.2 = row.state := by
  obtain ⟨a, s⟩ := entry
  simp only [interruptedAttempts, List.mem_filterMap, (List.perm_insertionSort _ _).mem_iff, List.mem_filter,
    Option.map_eq_some_iff, Prod.mk.injEq]
  constructor
  · rintro ⟨b, ⟨hb, hopen⟩, row, hrow, rfl, rfl⟩
    exact ⟨hb, by simpa using hopen, row, hrow, rfl⟩
  · rintro ⟨ha, hopen, row, hrow, rfl⟩
    exact ⟨a, ⟨ha, by simpa using hopen⟩, row, hrow, rfl, rfl⟩

theorem recoverInterrupted_eq_ok {count : ℕ} : recoverInterrupted db = .ok (count, db') ↔
    foldEach recoverAttempt 0 (interruptedAttempts db) db = .ok (count, db') := by
  unfold recoverInterrupted
  simp only [bind_eq_ok, get_eq_ok]
  constructor
  · rintro ⟨_, _, ⟨rfl, rfl⟩, h⟩
    exact h
  · intro h
    exact ⟨_, _, ⟨rfl, rfl⟩, h⟩

/-- The rule of the recovery: an invariant survives it if it survives that one active job is queued again. -/
theorem recoverInterrupted_invariant {I : RunDb → Prop} {count : ℕ} (hunique : UniqueAttempts db)
    (hI : ∀ job s row, I s → s.job? job = some row → row.state.IsActive → I (settled job .interrupted recoverRow s))
    (hdb : I db) (h : recoverInterrupted db = .ok (count, db')) : I db' := by
  have hkeys : ∀ entry ∈ interruptedAttempts db, (entry.1.id, entry.1.job) ∈ attemptKeys db := fun entry hentry =>
    List.mem_map_of_mem (mem_interruptedAttempts.mp hentry).1
  refine (foldEach_invariant (I := fun rest _ s => I s ∧ attemptKeys s = attemptKeys db ∧
    ∀ entry ∈ rest, (entry.1.id, entry.1.job) ∈ attemptKeys db) ?_ (recoverInterrupted_eq_ok.mp h) ⟨hdb, rfl, hkeys⟩).1
  rintro entry rest _ s _ s' ⟨hs, hsame, hrest⟩ hentry
  have htail : ∀ e ∈ rest, (e.1.id, e.1.job) ∈ attemptKeys db := fun e he => hrest e (.tail _ he)
  have hunique' : UniqueAttempts s := by
    unfold UniqueAttempts
    rwa [hsame]
  obtain ⟨-, ⟨row, hrow, hactive⟩, rfl⟩ | ⟨-, rfl⟩ := recoverAttempt_ok hunique' (hsame ▸ hrest entry (.head _)) hentry
  · refine ⟨hI entry.1.job s row hs hrow hactive, ?_, htail⟩
    rw [settled, attemptKeys_closeAttempts]
    exact hsame
  · exact ⟨hs, hsame, htail⟩

theorem recoverInterrupted_steps {count : ℕ} (hunique : UniqueAttempts db)
    (h : recoverInterrupted db = .ok (count, db')) : Steps π db db' := by
  refine recoverInterrupted_invariant (I := Steps π db) hunique ?_ .refl h
  intro job s row hsteps hrow hactive
  exact hsteps.tail (.of_settled (f := recoverRow) (fun _ => rfl) hrow (.recover _ hactive))

/-- The database after a verification. -/
def verifiedDb (record : VerificationRow) (artifacts : List ArtifactRow) (keys : List KeyRow) (db : RunDb) : RunDb :=
  settled record.job .verified (rowAfter (.verificationSucceeded (some record.id)) .verified none) { db with
    verificationRecords := db.verificationRecords ++ [record]
    artifacts := db.artifacts ++ artifacts
    keyArtifacts := db.keyArtifacts ++ keys }

theorem view_verifiedDb {record : VerificationRow} {artifacts : List ArtifactRow} {keys : List KeyRow} {row : JobRow}
    (hrow : db.job? record.job = some row) (hartifacts : ∀ a ∈ artifacts, a.job = record.job)
    (hkeys : ∀ k ∈ keys, k.job = record.job) :
    view (verifiedDb record artifacts keys db) record.job = { (view db record.job).enter .verified
      (rowAfter (.verificationSucceeded (some record.id)) .verified none row) with
        records := (view db record.job).records ++ [record]
        artifacts := (view db record.job).artifacts ++ artifacts
        keys := (view db record.job).keys ++ keys } := by
  have hartifacts' : artifacts.filter (fun a => a.job = record.job) = artifacts :=
    List.filter_eq_self.mpr fun a ha => decide_eq_true (hartifacts a ha)
  have hkeys' : keys.filter (fun k => k.job = record.job) = keys :=
    List.filter_eq_self.mpr fun k hk => decide_eq_true (hkeys k hk)
  have hrow' : ({ db with
      verificationRecords := db.verificationRecords ++ [record]
      artifacts := db.artifacts ++ artifacts
      keyArtifacts := db.keyArtifacts ++ keys } : RunDb).job? record.job = some row := hrow
  rw [verifiedDb, view_settled rowAfter_id hrow']
  simp only [view, JobView.enter, attemptsOf, recordsOf, artifactsOf, keysOf, List.filter_append, hartifacts', hkeys']
  simp

theorem view_verifiedDb_ne {record : VerificationRow} {artifacts : List ArtifactRow} {keys : List KeyRow}
    (hartifacts : ∀ a ∈ artifacts, a.job = record.job) (hkeys : ∀ k ∈ keys, k.job = record.job) {i : JobId}
    (hi : i ≠ record.job) : view (verifiedDb record artifacts keys db) i = view db i := by
  rw [verifiedDb, view_settled_ne rowAfter_id _ hi]
  have hartifacts' : artifacts.filter (fun a => a.job = i) = [] :=
    List.filter_eq_nil_iff.mpr fun a ha => by simpa [hartifacts a ha] using Ne.symm hi
  have hkeys' : keys.filter (fun k => k.job = i) = [] :=
    List.filter_eq_nil_iff.mpr fun k hk => by simpa [hkeys k hk] using Ne.symm hi
  simp only [view, attemptsOf, recordsOf, artifactsOf, keysOf, List.filter_append, hartifacts', hkeys']
  simp [Ne.symm hi, job?]

theorem Product.jobs {row : JobRow} {attempt : AttemptId} {artifacts : List ArtifactRow} {keys : List KeyRow}
    (h : Product row attempt artifacts keys) : (∀ a ∈ artifacts, a.job = row.id) ∧ ∀ k ∈ keys, k.job = row.id := by
  cases h with
  | artifact a hjob => simpa using hjob
  | key k hjob => simpa using hjob
  | nothing => simp

theorem verifiedDb_step {record : VerificationRow} {artifacts : List ArtifactRow} {keys : List KeyRow} {row : JobRow}
    (hrow : db.job? record.job = some row) (hsource : Source (view db record.job) row record.attempt)
    (hproduct : Product row record.attempt artifacts keys) : DbStep π db (verifiedDb record artifacts keys db) := by
  have hid := job?_id hrow
  obtain ⟨hartifacts, hkeys⟩ := hid ▸ hproduct.jobs
  refine .move record.job row _ hrow ?_ (fun i hi => view_verifiedDb_ne hartifacts hkeys hi)
    (map_id_updateJob rowAfter_id) rfl rfl ⟨none, ?_, fun _ _ h => by cases h⟩
  · rw [view_verifiedDb hrow hartifacts hkeys]
    exact .verify record artifacts keys hid.symm hsource hproduct
  · rw [verifiedDb, settled, attemptKeys_closeAttempts]
    simp [attemptKeys, updateJob]

theorem recordVerification_ok {verifier : String} {id : VerificationRecordId}
    (h : recordVerification job attempt verifier db = .ok (id, db')) :
    db' = { db with verificationRecords := db.verificationRecords ++ [⟨id, job, attempt, verifier⟩] } := by
  unfold recordVerification at h
  simp only [bind_eq_ok, get_eq_ok, fromOption_eq_ok, ensure_eq_ok, modify_eq_ok, pure_eq_ok] at h
  obtain ⟨_, _, ⟨rfl, rfl⟩, id', _, ⟨hid, rfl⟩, _, _, ⟨-, rfl⟩, _, _, rfl, rfl, rfl⟩ := h
  rfl

theorem verificationSucceeded_ok {id : VerificationRecordId} {next : JobState}
    (h : applyEventTx job (some attempt) (.verificationSucceeded (some id)) none db = .ok (next, db')) :
    db' = settled job .verified (rowAfter (.verificationSucceeded (some id)) .verified none) db := by
  obtain ⟨_, -, hs, -⟩ := applyEventTx_eq_ok.mp h
  obtain rfl : next = .verified := (JobState.transition_eq_ok.mp hs).2
  obtain ⟨-, -, -, rfl⟩ := applyEventTx_settled h (by decide)
  rfl

/-- A commit verifies the job and publishes what was attested. -/
theorem commitVerifiedArtifact_publishes {verified : VerifiedArtifact} {next : JobState}
    (h : commitVerifiedArtifact verified db = .ok (next, db')) :
    ∃ record row, record.job = verified.identity.job ∧ record.attempt = verified.identity.attempt ∧
      verified.identity.runId = db.runId ∧ db.job? record.job = some row ∧ row.kind = verified.identity.jobKind ∧
      Source (view db record.job) row record.attempt ∧
      db' = verifiedDb record [⟨verified.identity.job, row.logicalJobId, verified.identity.attempt, verified⟩] [] db := by
  unfold commitVerifiedArtifact at h
  simp only [bind_eq_ok, get_eq_ok, ensure_eq_ok, fromOption_eq_ok, modify_eq_ok] at h
  obtain ⟨_, _, ⟨rfl, rfl⟩, _, _, ⟨hrun, rfl⟩, _, _, ⟨-, rfl⟩, _, _, hsource, row, _, ⟨hrow, rfl⟩, _, _, ⟨hkind, rfl⟩,
    id, _, hrecord, _, _, ⟨-, rfl⟩, _, _, rfl, happly⟩ := h
  obtain ⟨⟨row', hrow', hsource⟩, rfl⟩ := requireVerificationSource_ok hsource
  obtain rfl := Option.some_inj.mp (hrow'.symm.trans hrow)
  obtain rfl := recordVerification_ok hrecord
  obtain rfl := verificationSucceeded_ok happly
  refine ⟨⟨id, verified.identity.job, verified.identity.attempt, verified.identity.executionBackend⟩, row', rfl, rfl,
    hrun, hrow, hkind, hsource, ?_⟩
  simp [verifiedDb]

theorem commitVerifiedArtifact_ok {verified : VerifiedArtifact} {next : JobState}
    (h : commitVerifiedArtifact verified db = .ok (next, db')) :
    ∃ record artifacts keys row, record.job = verified.identity.job ∧ db.job? record.job = some row ∧
      Source (view db record.job) row record.attempt ∧ Product row record.attempt artifacts keys ∧
      db' = verifiedDb record artifacts keys db := by
  obtain ⟨record, row, hjob, hattempt, -, hrow, hkind, hsource, hdb'⟩ := commitVerifiedArtifact_publishes h
  have howner : verified.identity.job = row.id := hjob.symm.trans (job?_id hrow).symm
  exact ⟨record, _, _, row, hjob, hrow, hsource,
    .artifact _ howner hattempt.symm hattempt.symm howner hkind.symm, hdb'⟩

theorem commitVerifiedKey_publishes {digest : TrustedKeyIdentity → Digest32} {verified : VerifiedKey}
    {next : JobState} (h : commitVerifiedKey digest verified db = .ok (next, db')) :
    ∃ record row, record.job = verified.identity.job ∧ record.attempt = verified.identity.attempt ∧
      verified.identity.runId = db.runId ∧ db.job? record.job = some row ∧ row.kind = verified.identity.jobKind ∧
      Source (view db record.job) row record.attempt ∧
      db' = verifiedDb record [] [⟨verified.identity.job, row.logicalJobId, verified.identity.attempt, verified⟩] db := by
  unfold commitVerifiedKey at h
  simp only [bind_eq_ok, get_eq_ok, ensure_eq_ok, fromOption_eq_ok, modify_eq_ok] at h
  obtain ⟨_, _, ⟨rfl, rfl⟩, _, _, ⟨hrun, rfl⟩, _, _, ⟨-, rfl⟩, _, _, hsource, row, _, ⟨hrow, rfl⟩, _, _, ⟨hkind, rfl⟩,
    id, _, hrecord, _, _, ⟨-, rfl⟩, _, _, ⟨-, rfl⟩, _, _, rfl, happly⟩ := h
  obtain ⟨⟨row', hrow', hsource⟩, rfl⟩ := requireVerificationSource_ok hsource
  obtain rfl := Option.some_inj.mp (hrow'.symm.trans hrow)
  obtain rfl := recordVerification_ok hrecord
  obtain rfl := verificationSucceeded_ok happly
  refine ⟨⟨id, verified.identity.job, verified.identity.attempt, verified.identity.metadata.proofFlavor⟩, row', rfl,
    rfl, hrun, hrow, hkind, hsource, ?_⟩
  simp [verifiedDb]

theorem commitVerifiedKey_ok {digest : TrustedKeyIdentity → Digest32} {verified : VerifiedKey} {next : JobState}
    (h : commitVerifiedKey digest verified db = .ok (next, db')) :
    ∃ record artifacts keys row, record.job = verified.identity.job ∧ db.job? record.job = some row ∧
      Source (view db record.job) row record.attempt ∧ Product row record.attempt artifacts keys ∧
      db' = verifiedDb record artifacts keys db := by
  obtain ⟨record, row, hjob, hattempt, -, hrow, hkind, hsource, hdb'⟩ := commitVerifiedKey_publishes h
  have howner : verified.identity.job = row.id := hjob.symm.trans (job?_id hrow).symm
  exact ⟨record, _, _, row, hjob, hrow, hsource, .key _ howner hattempt.symm hattempt.symm howner hkind.symm, hdb'⟩

theorem completeVerification_records {verifier : String} {next : JobState}
    (h : completeVerification job attempt verifier db = .ok (next, db')) :
    ∃ record row, record.job = job ∧ db.job? record.job = some row ∧ row.kind = .leafVerification ∧
      Source (view db record.job) row record.attempt ∧ db' = verifiedDb record [] [] db := by
  unfold completeVerification at h
  simp only [bind_eq_ok, get_eq_ok, ensure_eq_ok, fromOption_eq_ok] at h
  obtain ⟨_, _, ⟨-, rfl⟩, _, _, ⟨rfl, rfl⟩, row, _, ⟨hrow, rfl⟩, _, _, ⟨hkind, rfl⟩, _, _, hsource, id, _, hrecord,
    happly⟩ := h
  obtain ⟨⟨row', hrow', hsource⟩, rfl⟩ := requireVerificationSource_ok hsource
  obtain rfl := Option.some_inj.mp (hrow'.symm.trans hrow)
  obtain rfl := recordVerification_ok hrecord
  obtain rfl := verificationSucceeded_ok happly
  refine ⟨⟨id, job, attempt, verifier⟩, row', rfl, hrow, hkind, hsource, ?_⟩
  simp [verifiedDb]

theorem completeVerification_ok {verifier : String} {next : JobState}
    (h : completeVerification job attempt verifier db = .ok (next, db')) :
    ∃ record artifacts keys row, record.job = job ∧ db.job? record.job = some row ∧
      Source (view db record.job) row record.attempt ∧ Product row record.attempt artifacts keys ∧
      db' = verifiedDb record artifacts keys db := by
  obtain ⟨record, row, hjob, hrow, hkind, hsource, hdb'⟩ := completeVerification_records h
  exact ⟨record, [], [], row, hjob, hrow, hsource, .nothing hkind, hdb'⟩

end Operations

section Runs

/-- The operations of the database, with their arguments. -/
inductive Op where
  | insertJob (logicalJobId : String) (kind : JobKind)
  | addDependency (predecessor successor : JobId)
  | refreshReadiness
  | beginAttempt (job : JobId) (event : JobEvent)
  | applyAttemptEvent (job : JobId) (attempt : AttemptId) (event : JobEvent)
  | handleAttemptFailure (job : JobId) (attempt : AttemptId) (failure : FailureRecord)
      (observation : Option (ReservationKey × UInt64))
  | failVerification (job : JobId) (attempt : AttemptId) (failure : FailureRecord)
  | recoverInterrupted
  | recordResourcePeak (key : ReservationKey) (peak : UInt64)
  | commitVerifiedArtifact (verified : VerifiedArtifact)
  | commitVerifiedKey (identityDigest : TrustedKeyIdentity → Digest32) (verified : VerifiedKey)
  | completeVerification (job : JobId) (attempt : AttemptId) (verifier : String)

/-- The database after an operation that succeeds. -/
def Op.exec (db : RunDb) : Op → Except DbError RunDb
  | insertJob logicalJobId kind => Prod.snd <$> RunDatabase.insertJob logicalJobId kind db
  | addDependency p s => Prod.snd <$> RunDatabase.addDependency p s db
  | refreshReadiness => Prod.snd <$> RunDatabase.refreshReadiness db
  | beginAttempt job event => Prod.snd <$> RunDatabase.beginAttempt job event db
  | applyAttemptEvent job attempt event => Prod.snd <$> RunDatabase.applyAttemptEvent job attempt event db
  | handleAttemptFailure job attempt failure observation =>
      Prod.snd <$> RunDatabase.handleAttemptFailure job attempt failure observation db
  | failVerification job attempt failure => Prod.snd <$> RunDatabase.failVerification job attempt failure db
  | recoverInterrupted => Prod.snd <$> RunDatabase.recoverInterrupted db
  | recordResourcePeak key peak => Prod.snd <$> RunDatabase.recordResourcePeak key peak db
  | commitVerifiedArtifact verified => Prod.snd <$> RunDatabase.commitVerifiedArtifact verified db
  | commitVerifiedKey digest verified => Prod.snd <$> RunDatabase.commitVerifiedKey digest verified db
  | completeVerification job attempt verifier =>
      Prod.snd <$> RunDatabase.completeVerification job attempt verifier db

/-- An operation either succeeds or is rolled back. -/
def Op.run (db : RunDb) (op : Op) : RunDb := ((op.exec db).toOption).getD db

def runOps (db : RunDb) (ops : List Op) : RunDb := ops.foldl Op.run db

variable {db db' : RunDb}

theorem snd_map_eq_ok {α : Type} {x : Except DbError (α × RunDb)} :
    Prod.snd <$> x = .ok db' ↔ ∃ a, x = .ok (a, db') := by
  cases x with
  | error e => simp [Functor.map, Except.map]
  | ok p => simp [Functor.map, Except.map, Prod.ext_iff]

/-- The readiness sweep. -/
def Op.IsSweep : Op → Prop
  | refreshReadiness => True
  | _ => False

/-- The operation that adds an edge. -/
def Op.IsLink : Op → Prop
  | addDependency _ _ => True
  | _ => False

/-- The operations that may fail a job for good. -/
def Op.IsFailure : Op → Prop
  | handleAttemptFailure _ _ _ _ | failVerification _ _ _ => True
  | _ => False

/-- The operation that inserts a job. -/
def Op.IsInsert : Op → Prop
  | insertJob _ _ => True
  | _ => False

/-- The policy covers what the operation may do. -/
structure Policy.Covers (π : Policy) (op : Op) : Prop where
  skips : op.IsSweep → π.skips
  links : op.IsLink → π.links
  fails : op.IsFailure → π.fails
  inserts : op.IsInsert → π.inserts

theorem Op.exec_steps {op : Op} (hπ : π.Covers op) (hunique : UniqueAttempts db)
    (h : op.exec db = .ok db') : Steps π db db' := by
  cases op with
  | insertJob l k => exact (snd_map_eq_ok.mp h).elim fun a h => insertJob_steps (hπ.inserts trivial) l k db a db' h
  | addDependency p s => exact (snd_map_eq_ok.mp h).elim fun a h => addDependency_steps (hπ.links trivial) p s db a db' h
  | refreshReadiness =>
      exact (snd_map_eq_ok.mp h).elim fun a h => refreshReadiness_steps (hπ.skips trivial) db a db' h
  | beginAttempt j e => exact (snd_map_eq_ok.mp h).elim fun a h => beginAttempt_steps j e db a db' h
  | applyAttemptEvent j a e => exact (snd_map_eq_ok.mp h).elim fun b h => applyAttemptEvent_steps j a e db b db' h
  | handleAttemptFailure j a f o =>
      exact (snd_map_eq_ok.mp h).elim fun b h => handleAttemptFailure_steps (hπ.fails trivial) j a f o db b db' h
  | failVerification j a f =>
      exact (snd_map_eq_ok.mp h).elim fun b h => failVerification_steps (hπ.fails trivial) j a f db b db' h
  | recoverInterrupted => exact (snd_map_eq_ok.mp h).elim fun b h => recoverInterrupted_steps hunique h
  | recordResourcePeak k p => exact (snd_map_eq_ok.mp h).elim fun b h => recordResourcePeak_steps k p db b db' h
  | commitVerifiedArtifact v =>
      obtain ⟨_, h⟩ := snd_map_eq_ok.mp h
      obtain ⟨record, artifacts, keys, row, -, hrow, hsource, hproduct, rfl⟩ := commitVerifiedArtifact_ok h
      exact .single (verifiedDb_step hrow hsource hproduct)
  | commitVerifiedKey d v =>
      obtain ⟨_, h⟩ := snd_map_eq_ok.mp h
      obtain ⟨record, artifacts, keys, row, -, hrow, hsource, hproduct, rfl⟩ := commitVerifiedKey_ok h
      exact .single (verifiedDb_step hrow hsource hproduct)
  | completeVerification j a v =>
      obtain ⟨_, h⟩ := snd_map_eq_ok.mp h
      obtain ⟨record, artifacts, keys, row, -, hrow, hsource, hproduct, rfl⟩ := completeVerification_ok h
      exact .single (verifiedDb_step hrow hsource hproduct)

theorem Op.run_cases (db : RunDb) (op : Op) : op.exec db = .ok (op.run db) ∨ op.run db = db := by
  unfold Op.run
  cases h : op.exec db with
  | ok db' => exact .inl rfl
  | error e => exact .inr rfl

theorem Op.run_steps {op : Op} (hπ : π.Covers op) (hunique : UniqueAttempts db) :
    Steps π db (op.run db) := by
  rcases Op.run_cases db op with h | h
  · exact Op.exec_steps hπ hunique h
  · rw [h]

/-- Everything is allowed. -/
def Policy.all : Policy := ⟨True, True, True, True⟩

theorem Policy.all_covers (op : Op) : Policy.all.Covers op :=
  ⟨fun _ => trivial, fun _ => trivial, fun _ => trivial, fun _ => trivial⟩

/-- Every run of operations is a sequence of elementary steps. -/
theorem runOps_steps {ops : List Op} (hunique : UniqueAttempts db) : Steps .all db (runOps db ops) := by
  induction ops generalizing db with
  | nil => exact .refl
  | cons op ops ih =>
      have hop : Steps .all db (op.run db) := Op.run_steps (Policy.all_covers op) hunique
      exact hop.trans (ih (hop.uniqueAttempts hunique))

theorem empty_uniqueAttempts (runId : String) : UniqueAttempts (RunDb.empty runId) := List.nodup_nil

end Runs

end Zkie.RunLifecycle
