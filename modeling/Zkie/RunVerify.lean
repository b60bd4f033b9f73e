import Zkie.RunCompletion
import Mathlib.Data.List.Find

namespace Zkie.RunVerify

open RunState Transaction RunDatabase RunDatabase.RunDb RunLifecycle RunInvariants RunBlocking RunQueue RunPlanning
  RunCompletion Interruptible

variable {db db' : RunDb} {π : Policy} {v : JobView} {row row' : JobRow} {job i : JobId}

structure ArtifactMetadata where
  artifactId : String
  contentDigest : Digest32
  size : UInt64
  proofIdentityDigest : Option Digest32

inductive ObjectMetadata where
  | artifact (value : ArtifactMetadata)
  | key (value : KeyMetadata) (keyIdentityDigest : Option Digest32)

/-- The errors that are raised when an object is compared with its row; a store has others. -/
inductive StoreError where
  | wrongStoreKind
  | proofIdentityMismatch
  | keyIdentityMismatch
  | other (text : String)
  deriving DecidableEq, Repr

def StoreError.text : StoreError → String
  | .wrongStoreKind => "object metadata belongs to the other store kind"
  | .proofIdentityMismatch => "trusted proof identity does not match the exact published artifact"
  | .keyIdentityMismatch => "trusted key identity does not match the exact published key object"
  | .other text => text

inductive ReopenError where
  | jobNotFound (job : JobId)
  | store (e : StoreError)
  deriving DecidableEq, Repr

def ReopenError.text : ReopenError → String
  | .jobNotFound job => s!"job not found: {job.text}"
  | .store e => s!"published artifact failed durable-store revalidation: {e.text}"

/-- The digests that bind an object to what it was verified for. -/
structure Digests where
  proofIdentity : TrustedProofIdentity → Digest32
  keyIdentity : TrustedKeyIdentity → Digest32
  proofAttestation : Digest32 → Digest32 → String → JobId → AttemptId → Digest32
  keyAttestation : Digest32 → Digest32 → String → JobId → AttemptId → Digest32

/-- What `reopen_persisted` returns for the identity of a store and the digest of an object. -/
abbrev Store : Type := Digest32 → Digest32 → Except StoreError ObjectMetadata

/-- An object as a row knows it, and the comparison of its metadata with that row. -/
structure PersistedObject where
  published : PublishedObject
  compare : ObjectMetadata → Except StoreError Unit

/-- The identity columns are read back as the identity that was attested; the digest of the attestation is
computed again from the columns of the row. -/
def persistedArtifact (digests : Digests) (runId : String) (row : ArtifactRow) : PersistedObject where
  published := row.verified.published
  compare
    | .artifact artifact =>
        let identity := row.verified.identity
        let digest := digests.proofIdentity identity
        if (artifact.artifactId = row.verified.artifactId ∧ artifact.proofIdentityDigest = some digest ∧
            artifact.contentDigest = identity.proofContentDigest) ∧
          digests.proofAttestation digest row.verified.published.digest runId row.job row.attempt =
            digests.proofAttestation digest row.verified.published.digest identity.runId identity.job identity.attempt
        then .ok () else .error .proofIdentityMismatch
    | .key .. => .error .wrongStoreKind

def persistedKey (digests : Digests) (runId : String) (row : KeyRow) : PersistedObject where
  published := row.verified.published
  compare
    | .key key keyIdentityDigest =>
        let identity := row.verified.identity
        let digest := digests.keyIdentity identity
        if (keyIdentityDigest = some digest ∧ key.contentDigest = identity.metadata.contentDigest) ∧
          digests.keyAttestation digest row.verified.published.digest runId row.job row.attempt =
            digests.keyAttestation digest row.verified.published.digest identity.runId identity.job identity.attempt
        then .ok () else .error .keyIdentityMismatch
    | .artifact _ => .error .wrongStoreKind

/-- Opens the object of a job, if it has one. -/
def reopenForJob (store : Store) (db : RunDb) (job : JobId) (record : Option PersistedObject) :
    Except ReopenError (Option ObjectMetadata) :=
  if (db.job? job).isNone then .error (.jobNotFound job)
  else
    match record with
    | none => .ok none
    | some record => do
        let metadata ← (store record.published.storeIdentityDigest record.published.digest).mapError .store
        (record.compare metadata).mapError .store
        return some metadata

def reopenArtifactForJob (digests : Digests) (artifacts : Store) (db : RunDb) (job : JobId) :
    Except ReopenError (Option ObjectMetadata) :=
  reopenForJob artifacts db job ((db.artifactsOf job).head?.map (persistedArtifact digests db.runId))

def reopenKeyForJob (digests : Digests) (keys : Store) (db : RunDb) (job : JobId) :
    Except ReopenError (Option ObjectMetadata) :=
  reopenForJob keys db job ((db.keysOf job).head?.map (persistedKey digests db.runId))

structure VerifyReport where
  verified : ℕ
  failures : List String
  deriving DecidableEq, Repr

section Command

variable (digests : Digests) (artifacts keys : Store) (db : RunDb)

/-- Whether the object of a job was there; its kind says where to look. -/
def reopened (record : JobRow) : Except ReopenError Bool :=
  match record.kind with
  | .prepare => (reopenKeyForJob digests keys db record.id).map Option.isSome
  | _ => (reopenArtifactForJob digests artifacts db record.id).map Option.isSome

def verifyJob (report : VerifyReport) (record : JobRow) : VerifyReport :=
  if record.state ≠ .verified then report
  else
    match reopened digests artifacts keys db record with
    | .ok true => { report with verified := report.verified + 1 }
    | .ok false => { report with failures := report.failures ++ [s!"{record.logicalJobId} has no stored object"] }
    | .error error => { report with failures := report.failures ++ [s!"{record.logicalJobId}: {error.text}"] }

/-- The command, once the run directory with its database and its two stores has been opened. -/
def verifyRun : VerifyReport := (orderedJobs db).foldl (verifyJob digests artifacts keys db) ⟨0, []⟩

end Command

section Report

variable {digests : Digests} {artifacts keys : Store} {report : VerifyReport}

/-- The command finds what the job was verified for. -/
def Passes (digests : Digests) (artifacts keys : Store) (db : RunDb) (row : JobRow) : Prop :=
  row.state = .verified ∧ reopened digests artifacts keys db row = .ok true

theorem verifyJob_of_passes (h : Passes digests artifacts keys db row) :
    verifyJob digests artifacts keys db report row = ⟨report.verified + 1, report.failures⟩ := by
  unfold verifyJob
  rw [if_neg (not_not.mpr h.1), h.2]

theorem verifyJob_verified (h : ¬Passes digests artifacts keys db row) :
    (verifyJob digests artifacts keys db report row).verified = report.verified := by
  unfold verifyJob
  split
  · rfl
  · rename_i hstate
    split
    · rename_i hfound
      exact absurd ⟨not_not.mp hstate, hfound⟩ h
    · rfl
    · rfl

/-- No job is counted twice. -/
theorem foldl_verifyJob_le (report : VerifyReport) (rows : List JobRow) :
    (rows.foldl (verifyJob digests artifacts keys db) report).verified ≤ report.verified + rows.length := by
  induction rows generalizing report with
  | nil => exact le_rfl
  | cons row rows ih =>
      refine (ih (verifyJob digests artifacts keys db report row)).trans ?_
      rw [List.length_cons]
      by_cases hrow : Passes digests artifacts keys db row
      · rw [verifyJob_of_passes hrow]
        exact le_of_eq (Nat.add_right_comm _ _ _)
      · rw [verifyJob_verified hrow]
        omega

theorem foldl_verifyJob_eq_iff (report : VerifyReport) (rows : List JobRow) :
    rows.foldl (verifyJob digests artifacts keys db) report = ⟨report.verified + rows.length, report.failures⟩ ↔
      ∀ row ∈ rows, Passes digests artifacts keys db row := by
  induction rows generalizing report with
  | nil => simp
  | cons row rows ih =>
      rw [List.foldl_cons, List.length_cons, List.forall_mem_cons]
      by_cases hrow : Passes digests artifacts keys db row
      · rw [verifyJob_of_passes hrow, ← ih ⟨report.verified + 1, report.failures⟩]
        simp only [hrow, true_and, Nat.add_assoc, Nat.add_comm 1]
      · refine ⟨fun h => ?_, fun h => absurd h.1 hrow⟩
        have hle : (rows.foldl (verifyJob digests artifacts keys db)
            (verifyJob digests artifacts keys db report row)).verified ≤ _ := foldl_verifyJob_le _ rows
        rw [h, verifyJob_verified hrow] at hle
        exact absurd hle (by simp)

theorem verifyRun_eq_iff :
    verifyRun digests artifacts keys db = ⟨db.jobs.length, []⟩ ↔
      ∀ row ∈ db.jobs, Passes digests artifacts keys db row := by
  have hperm : (orderedJobs db).Perm db.jobs := List.perm_insertionSort _ _
  have hfold : (orderedJobs db).foldl (verifyJob digests artifacts keys db) ⟨0, []⟩ =
      ⟨0 + (orderedJobs db).length, []⟩ ↔ _ := foldl_verifyJob_eq_iff ⟨0, []⟩ (orderedJobs db)
  rw [hperm.length_eq, Nat.zero_add] at hfold
  exact hfold.trans (forall_congr' fun row => by rw [hperm.mem_iff])

end Report

section Objects

variable {digests : Digests} {artifacts keys : Store}

/-- Every object that the database knows opens with the metadata that it was published with, which the
attestation has compared with the identity. -/
structure AsPublished (digests : Digests) (artifacts keys : Store) (db : RunDb) : Prop where
  artifact : ∀ a ∈ db.artifacts, ∃ size, artifacts a.verified.published.storeIdentityDigest a.verified.published.digest =
    .ok (.artifact ⟨a.verified.artifactId, a.verified.identity.proofContentDigest, size,
      some (digests.proofIdentity a.verified.identity)⟩)
  key : ∀ k ∈ db.keyArtifacts, keys k.verified.published.storeIdentityDigest k.verified.published.digest =
    .ok (.key k.verified.identity.metadata (some (digests.keyIdentity k.verified.identity)))

theorem reopenForJob_none {store : Store} (hrow : db.job? job = some row) :
    reopenForJob store db job none = .ok none := by
  unfold reopenForJob
  rw [hrow]
  rfl

theorem reopenForJob_some {store : Store} {record : PersistedObject} {metadata : ObjectMetadata}
    (hrow : db.job? job = some row)
    (hstore : store record.published.storeIdentityDigest record.published.digest = .ok metadata)
    (hcompare : record.compare metadata = .ok ()) : reopenForJob store db job (some record) = .ok (some metadata) := by
  unfold reopenForJob
  rw [hrow]
  simp only [Option.isNone_some, Bool.false_eq_true, if_false, hstore]
  change (Except.mapError ReopenError.store (record.compare metadata) >>= fun _ => pure (some metadata)) = _
  rw [hcompare]
  rfl

theorem reopenArtifactForJob_none (hrow : db.job? job = some row) (h : db.artifactsOf job = []) :
    reopenArtifactForJob digests artifacts db job = .ok none := by
  unfold reopenArtifactForJob
  rw [h]
  exact reopenForJob_none hrow

theorem reopenKeyForJob_none (hrow : db.job? job = some row) (h : db.keysOf job = []) :
    reopenKeyForJob digests keys db job = .ok none := by
  unfold reopenKeyForJob
  rw [h]
  exact reopenForJob_none hrow

/-- An artifact of the job whose columns agree with its identity. -/
theorem reopenArtifactForJob_some {a : ArtifactRow} (hstores : AsPublished digests artifacts keys db)
    (hrow : db.job? job = some row) (h : db.artifactsOf job = [a]) (hrun : a.verified.identity.runId = db.runId)
    (hjob : a.verified.identity.job = a.job) (hattempt : a.verified.identity.attempt = a.attempt) :
    ∃ metadata, reopenArtifactForJob digests artifacts db job = .ok (some metadata) := by
  have hmem : a ∈ db.artifacts := List.mem_of_mem_filter (h ▸ List.mem_singleton_self a : a ∈ db.artifactsOf job)
  obtain ⟨size, hstore⟩ := hstores.artifact a hmem
  unfold reopenArtifactForJob
  rw [h]
  refine ⟨_, reopenForJob_some hrow hstore ?_⟩
  simp [persistedArtifact, hrun, hjob, hattempt]

theorem reopenKeyForJob_some {k : KeyRow} (hstores : AsPublished digests artifacts keys db)
    (hrow : db.job? job = some row) (h : db.keysOf job = [k]) (hrun : k.verified.identity.runId = db.runId)
    (hjob : k.verified.identity.job = k.job) (hattempt : k.verified.identity.attempt = k.attempt) :
    ∃ metadata, reopenKeyForJob digests keys db job = .ok (some metadata) := by
  have hmem : k ∈ db.keyArtifacts := List.mem_of_mem_filter (h ▸ List.mem_singleton_self k : k ∈ db.keysOf job)
  unfold reopenKeyForJob
  rw [h]
  refine ⟨_, reopenForJob_some hrow (hstores.key k hmem) ?_⟩
  simp [persistedKey, hrun, hjob, hattempt]

/-- Only a preparation is looked for among the keys. -/
theorem reopened_of_ne_prepare (hkind : row.kind ≠ .prepare) :
    reopened digests artifacts keys db row = (reopenArtifactForJob digests artifacts db row.id).map Option.isSome := by
  unfold reopened
  split
  · rename_i h
    exact absurd h hkind
  · rfl

end Objects

section Tracking

variable {plan : QueuePlan} {runId : String} {planned : PlannedJob} {record : VerificationRow}

/-- The plan entry that the job of a logical id is run by: the first one. -/
def plannedAs (plan : QueuePlan) (logicalId : String) : Option PlannedJob :=
  plan.jobs.find? fun planned => planned.logicalId = logicalId

/-- What has been published for a planned job fits its binding and its run. -/
structure Fits (planned : PlannedJob) (runId : String) (artifacts : List ArtifactRow) (keys : List KeyRow) : Prop where
  artifact : ∀ a ∈ artifacts, a.verified.identity.runId = runId ∧ ∃ binding, planned.binding = .proof binding
  key : ∀ k ∈ keys, k.verified.identity.runId = runId ∧ ∃ binding, planned.binding = .key binding

theorem Fits.nil : Fits planned runId [] [] := ⟨fun _ h => absurd h List.not_mem_nil, fun _ h => absurd h List.not_mem_nil⟩

/-- The job belongs to the plan. -/
def Traced (plan : QueuePlan) (runId : String) (v : JobView) : Prop := ∀ row, v.row = some row →
  ∃ planned, plannedAs plan row.logicalJobId = some planned ∧ row.kind = planned.kind ∧
    Fits planned runId v.artifacts v.keys

/-- The invariant of a run that is only driven by the queue, with one plan. -/
structure Tracked (plan : QueuePlan) (runId : String) (db : RunDb) : Prop where
  grounded : Grounded db
  run : db.runId = runId
  verdicts : ∀ i, VerdictSound (view db i)
  traced : ∀ i, Traced plan runId (view db i)

theorem empty_tracked (plan : QueuePlan) (runId : String) : Tracked plan runId (RunDb.empty runId) where
  grounded := empty_grounded runId
  run := rfl
  verdicts _ := ⟨fun _ => ⟨rfl, rfl, rfl⟩, fun _ h => by cases h⟩
  traced _ row h := by cases h

theorem DbStep.verdictSound (h : DbStep π db db') (hattempts : ∀ i, AttemptsSound (view db i))
    (hdb : ∀ i, VerdictSound (view db i)) (i : JobId) : VerdictSound (view db' i) := by
  obtain hview | ⟨row, hnew, -, hnone, hview⟩ | ⟨row, hrow, hm⟩ := DbStep.view_cases h i
  · exact hview ▸ hdb i
  · exact hview ▸ (hdb i).insert hnone hnew
  · exact Move.verdictSound hm hrow ((hattempts i).2 row hrow) (hdb i)

/-- A step that leaves the job its name and its kind, and publishes nothing for it. -/
theorem Traced.keep {v' : JobView} (h : Traced plan runId v)
    (hrow : ∀ row', v'.row = some row' → ∃ row, v.row = some row ∧ row.logicalJobId = row'.logicalJobId ∧
      row.kind = row'.kind)
    (hartifacts : v'.artifacts = v.artifacts) (hkeys : v'.keys = v.keys) : Traced plan runId v' := by
  intro row' hrow'
  obtain ⟨row, hr, hname, hkind⟩ := hrow row' hrow'
  obtain ⟨planned, hplanned, hk, hfits⟩ := h row hr
  exact ⟨planned, hname ▸ hplanned, hkind.symm.trans hk, hartifacts ▸ hkeys ▸ hfits⟩

/-- The rows that commits add. -/
def publishedRows (db : RunDb) : List ArtifactRow × List KeyRow := (db.artifacts, db.keyArtifacts)

theorem Steps.old_row (h : Steps noLinks db db') (hrow' : db'.job? i = some row') :
    ∃ row, db.job? i = some row ∧ row.logicalJobId = row'.logicalJobId ∧ row.kind = row'.kind := by
  induction h generalizing row' with
  | refl => exact ⟨row', hrow', rfl, rfl⟩
  | tail _ hstep ih =>
      obtain ⟨row₁, hrow₁, hname₁, hkind₁⟩ := DbStep.old_row hstep id hrow'
      obtain ⟨row, hrow, hname, hkind⟩ := ih hrow₁
      exact ⟨row, hrow, hname.trans hname₁, hkind.trans hkind₁⟩

theorem Tracked.steps (h : Tracked plan runId db) (hsteps : Steps noLinks db db')
    (hpublished : publishedRows db' = publishedRows db) : Tracked plan runId db' := by
  have hboth : Grounded db' ∧ db'.runId = runId ∧ ∀ i, VerdictSound (view db' i) := by
    clear hpublished
    induction hsteps with
    | refl => exact ⟨h.grounded, h.run, h.verdicts⟩
    | tail _ hstep ih =>
        obtain ⟨hgrounded, hrun, hverdicts⟩ := ih
        exact ⟨DbStep.grounded hstep hgrounded, (DbStep.runId hstep).trans hrun,
          DbStep.verdictSound hstep hgrounded.attempts hverdicts⟩
  refine ⟨hboth.1, hboth.2.1, hboth.2.2, fun i => (h.traced i).keep (fun row' => Steps.old_row hsteps) ?_ ?_⟩
  · exact congrArg (fun rows => rows.1.filter fun a : ArtifactRow => a.job = i) hpublished
  · exact congrArg (fun rows => rows.2.filter fun k : KeyRow => k.job = i) hpublished

theorem insertJob_tracked {id : JobId} (h : Tracked plan runId db)
    (hplanned : plannedAs plan planned.logicalId = some planned)
    (hrun : insertJob planned.logicalId planned.kind db = .ok (id, db')) : Tracked plan runId db' := by
  have hjob := insertJob_job? hrun
  obtain ⟨hfresh, htext, rfl⟩ := insertJob_ok hrun
  have hstep : DbStep quiet db { db with jobs := db.jobs ++ [newRow id planned.logicalId planned.kind] } :=
    .insert (newRow id planned.logicalId planned.kind) trivial hfresh htext rfl rfl rfl rfl rfl
  refine ⟨DbStep.grounded hstep h.grounded, h.run, DbStep.verdictSound hstep h.grounded.attempts h.verdicts, ?_⟩
  intro i row hrow
  have hrow : _ = some row := (hjob i).symm.trans hrow
  split at hrow
  · rename_i hi
    have hnone : db.job? i = none := List.find?_eq_none.mpr fun r hr => by simpa [hi] using (hfresh r hr).1
    obtain ⟨-, hartifacts, hkeys⟩ := (h.verdicts i).1 hnone
    rw [← Option.some_inj.mp hrow]
    refine ⟨planned, hplanned, rfl, ?_⟩
    change Fits planned runId (view db i).artifacts (view db i).keys
    rw [hartifacts, hkeys]
    exact .nil
  · exact h.traced i row hrow

theorem addDependency_tracked {predecessor successor : JobId} {u : Unit} (h : Tracked plan runId db)
    (hrun : addDependency predecessor successor db = .ok (u, db')) : Tracked plan runId db' := by
  have hstep := addDependency_step hrun
  obtain ⟨-, -, -, -, rfl⟩ := addDependency_ok hrun
  exact ⟨DbStep.grounded hstep h.grounded, h.run, h.verdicts, h.traced⟩

/-- A commit for a planned job, of what fits its binding. -/
theorem verifiedDb_tracked {artifacts : List ArtifactRow} {keys : List KeyRow} (h : Tracked plan runId db)
    (hrow : db.job? record.job = some row) (hplanned : plannedAs plan row.logicalJobId = some planned)
    (hsource : Source (view db record.job) row record.attempt) (hproduct : Product row record.attempt artifacts keys)
    (hfits : Fits planned runId artifacts keys) : Tracked plan runId (verifiedDb record artifacts keys db) := by
  have hstep : DbStep .all db (verifiedDb record artifacts keys db) := verifiedDb_step hrow hsource hproduct
  obtain ⟨hartifacts, hkeys⟩ := job?_id hrow ▸ hproduct.jobs
  refine ⟨DbStep.grounded hstep h.grounded, h.run, DbStep.verdictSound hstep h.grounded.attempts h.verdicts, ?_⟩
  intro i
  by_cases hi : i = record.job
  · subst hi
    have hlive : row.state ≠ .verified := fun hverified => absurd (hverified ▸ isLive_of_source hsource) (by decide)
    obtain ⟨-, hold, holdKeys⟩ := ((h.verdicts record.job).2 row hrow).2 hlive
    obtain ⟨planned', hplanned', hkind, -⟩ := h.traced record.job row hrow
    obtain rfl := Option.some_inj.mp (hplanned.symm.trans hplanned')
    rw [view_verifiedDb hrow hartifacts hkeys, hold, holdKeys, List.nil_append, List.nil_append]
    intro row' hrow'
    obtain rfl := Option.some_inj.mp hrow'
    exact ⟨planned, hplanned, hkind, hfits⟩
  · rw [view_verifiedDb_ne hartifacts hkeys hi]
    exact h.traced i

theorem refreshReadiness_tracked {count : ℕ} (h : Tracked plan runId db) (hrun : refreshReadiness db = .ok (count, db')) :
    Tracked plan runId db' := by
  apply h.steps (refreshReadiness_steps (π := noLinks) trivial db count db' hrun)
  refine foldEach_invariant (I := fun _ _ s => publishedRows s = publishedRows db) ?_ (refreshReadiness_eq_ok.mp hrun) rfl
  intro job rest _ s _ s' hs hjob
  obtain ⟨-, -, -, -, rfl⟩ | ⟨-, -, -, -, -, -, rfl⟩ | ⟨-, -, rfl⟩ := refreshJob_ok hjob
  · exact hs
  · exact hs
  · exact hs

theorem recoverInterrupted_tracked {count : ℕ} (h : Tracked plan runId db)
    (hrun : recoverInterrupted db = .ok (count, db')) : Tracked plan runId db' := by
  apply h.steps (recoverInterrupted_steps h.grounded.unique hrun)
  exact recoverInterrupted_invariant (I := fun s => publishedRows s = publishedRows db) h.grounded.unique
    (fun _ _ _ hs _ _ => hs) rfl hrun

theorem beginAttempt_tracked {event : JobEvent} {attempt : AttemptId} (h : Tracked plan runId db)
    (hrun : beginAttempt job event db = .ok (attempt, db')) : Tracked plan runId db' := by
  apply h.steps (beginAttempt_steps (π := noLinks) job event db attempt db' hrun)
  obtain ⟨row, next, -, -, -, -, -, -, -, rfl⟩ := beginAttempt_ok hrun
  rfl

theorem applyAttemptEvent_tracked {attempt : AttemptId} {event : JobEvent} {next : JobState}
    (h : Tracked plan runId db) (hrun : applyAttemptEvent job attempt event db = .ok (next, db')) :
    Tracked plan runId db' := by
  apply h.steps (applyAttemptEvent_steps (π := noLinks) job attempt event db next db' hrun)
  obtain ⟨row, -, -, -, -, rfl⟩ := applyAttemptEvent_ok hrun
  rfl

theorem handleAttemptFailure_tracked {attempt : AttemptId} {failure : FailureRecord} {decision : RetryDecision}
    (h : Tracked plan runId db) (hrun : handleAttemptFailure job attempt failure none db = .ok (decision, db')) :
    Tracked plan runId db' := by
  apply h.steps (handleAttemptFailure_steps (π := noLinks) trivial job attempt failure none db decision db' hrun)
  obtain ⟨row, failed, isResource, -, -, -, -, ⟨-, -, rfl⟩ | ⟨-, -, hblock⟩⟩ := handleAttemptFailure_ok hrun
  · rfl
  · refine blockFrontier_invariant (I := fun s => publishedRows s = publishedRows db) ?_ ?_
      (blockDescendantsTx_eq_ok.mp hblock)
    · exact fun _ _ _ _ hs _ _ => hs
    · rfl

end Tracking

section Queue

variable {plan : QueuePlan} {runId : String} {planned : PlannedJob}

/-- The process keeps the invariant, also where it stops. -/
abbrev Keeps {α : Type} (plan : QueuePlan) (runId : String) (p : Queue α) : Prop :=
  Spec (fun db _ => Tracked plan runId db) p (fun _ db _ => Tracked plan runId db) fun db _ => Tracked plan runId db

theorem keeps_transact {α : Type} {note : RunDb → List Start} {p : Db α}
    (h : ∀ db a db', Tracked plan runId db → p db = .ok (a, db') → Tracked plan runId db') :
    Keeps plan runId (transact .db note p) :=
  .transact (fun _ _ h => h) fun db _ a db' hdb hrun => h db a db' hdb hrun

theorem keeps_orFail {α : Type} {e : QueueError} {x : Option α} : Keeps plan runId (orFail e x) :=
  .orFail (fun _ _ h => h) fun _ _ _ _ h => h

theorem keeps_read : Keeps plan runId read := .read fun _ _ h => h

theorem keeps_pure {α : Type} {a : α} : Keeps plan runId (pure a) := .pure fun _ _ h => h

theorem logicalId_of_text {a b : String} (h : s!"{runId}:{a}" = s!"{runId}:{b}") : a = b := by
  have hsame : toString a = toString b := by simpa using h
  exact hsame

/-- The id of a job gives its logical id. -/
theorem logicalJobId_of_id (h : Tracked plan runId db) (hrow : db.job? job = some row)
    (hjob : job.text = s!"{runId}:{planned.logicalId}") : row.logicalJobId = planned.logicalId := by
  have htext := h.grounded.named job row hrow
  rw [hjob, h.run] at htext
  exact (logicalId_of_text htext).symm

theorem commitProof_keeps {binding : ProofBinding} (hjob : job.text = s!"{runId}:{planned.logicalId}")
    (hplanned : plannedAs plan planned.logicalId = some planned) (hbinding : planned.binding = .proof binding)
    (attempt : AttemptId) (staged : Staged) : Keeps plan runId (commitProof planned job attempt staged binding) := by
  apply keeps_read.bind
  intro db₀
  apply Spec.bind (Q := fun identity db _ => identity.job = job ∧ Tracked plan runId db)
  · exact .orFail (fun _ _ h => h) fun identity hidentity _ _ h => ⟨ProofBinding.identity_job hidentity, h⟩
  intro identity
  apply Spec.given
  intro hidentity
  apply keeps_orFail.bind
  intro published
  apply Spec.bind _ fun _ => keeps_pure
  apply keeps_transact
  intro db next db' h hrun
  obtain ⟨record, row, hrecord, hattempt, hid, hrow, hkind, hsource, rfl⟩ := commitVerifiedArtifact_publishes hrun
  have howner := hrecord.symm.trans (job?_id hrow).symm
  have hname := logicalJobId_of_id h hrow (hrecord.trans hidentity ▸ hjob)
  refine verifiedDb_tracked h hrow (hname ▸ hplanned) hsource
    (.artifact _ howner hattempt.symm hattempt.symm howner hkind.symm) ⟨fun a ha => ?_, fun _ h => absurd h List.not_mem_nil⟩
  rw [List.mem_singleton.mp ha]
  exact ⟨hid.trans h.run, binding, hbinding⟩

theorem commitKey_keeps {binding : KeyBinding} (runtime : QueueRuntime) (hjob : job.text = s!"{runId}:{planned.logicalId}")
    (hplanned : plannedAs plan planned.logicalId = some planned) (hbinding : planned.binding = .key binding)
    (attempt : AttemptId) (staged : Staged) :
    Keeps plan runId (commitKey runtime planned job attempt staged binding) := by
  apply keeps_read.bind
  intro db₀
  apply Spec.bind (Q := fun identity db _ => identity.job = job ∧ Tracked plan runId db)
  · exact .orFail (fun _ _ h => h) fun identity hidentity _ _ h => ⟨KeyBinding.identity_job hidentity, h⟩
  intro identity
  apply Spec.given
  intro hidentity
  apply keeps_orFail.bind
  intro published
  apply Spec.bind _ fun _ => keeps_pure
  apply keeps_transact
  intro db next db' h hrun
  obtain ⟨record, row, hrecord, hattempt, hid, hrow, hkind, hsource, rfl⟩ := commitVerifiedKey_publishes hrun
  have howner := hrecord.symm.trans (job?_id hrow).symm
  have hname := logicalJobId_of_id h hrow (hrecord.trans hidentity ▸ hjob)
  refine verifiedDb_tracked h hrow (hname ▸ hplanned) hsource
    (.key _ howner hattempt.symm hattempt.symm howner hkind.symm) ⟨fun _ h => absurd h List.not_mem_nil, fun k hk => ?_⟩
  rw [List.mem_singleton.mp hk]
  exact ⟨hid.trans h.run, binding, hbinding⟩

theorem completeVerification_tracked {attempt : AttemptId} {verifier : String} {next : JobState}
    (h : Tracked plan runId db) (hrun : completeVerification job attempt verifier db = .ok (next, db')) :
    Tracked plan runId db' := by
  obtain ⟨record, row, -, hrow, hkind, hsource, rfl⟩ := completeVerification_records hrun
  obtain ⟨planned, hplanned, -, -⟩ := h.traced record.job row hrow
  exact verifiedDb_tracked h hrow hplanned hsource (.nothing hkind) .nil

/-- The run of one job, with the plan entry of its logical id. -/
theorem runOne_keeps (runtime : QueueRuntime) (hjob : job.text = s!"{runId}:{planned.logicalId}")
    (hplanned : plannedAs plan planned.logicalId = some planned) : Keeps plan runId (runOne runtime planned job) := by
  apply Spec.bind
  · exact keeps_transact fun db attempt db' h hrun => beginAttempt_tracked h hrun
  intro attempt
  split
  · exact .fail fun _ _ h => h
  · apply Spec.bind
    · exact keeps_transact fun db decision db' h hrun => handleAttemptFailure_tracked h hrun
    · exact fun _ => keeps_pure
  · exact .fail fun _ _ h => h
  · rename_i staged _
    unfold finishSuccess
    split
    · apply Spec.bind
      · exact keeps_transact fun db next db' h hrun => completeVerification_tracked h hrun
      · exact fun _ => keeps_pure
    · apply Spec.bind (Q := fun _ db _ => Tracked plan runId db)
      · unfold finishSuccess.completeAttempt
        split
        · apply Spec.bind
          · exact keeps_transact fun db next db' h hrun => applyAttemptEvent_tracked h hrun
          · exact fun _ => keeps_pure
        · exact keeps_pure
      intro _
      apply keeps_orFail.bind
      intro object
      split
      · rename_i binding hbinding
        exact commitProof_keeps hjob hplanned hbinding attempt object
      · rename_i binding hbinding
        exact commitKey_keeps runtime hjob hplanned hbinding attempt object

/-- The entries are those of the plan, with the ids of their jobs. -/
structure Entered (plan : QueuePlan) (runId : String) (entries : List Entry) : Prop where
  jobs : entries.map Entry.planned = plan.jobs
  ids : ∀ e ∈ entries, e.id.text = s!"{runId}:{e.planned.logicalId}"

/-- The entry that the queue finds by the id of a job is the first one with its logical id. -/
theorem Entered.find {entries : List Entry} {entry : Entry} (h : Entered plan runId entries)
    (hfind : (entries.find? fun e => e.id = job) = some entry) :
    job.text = s!"{runId}:{entry.planned.logicalId}" ∧
      plannedAs plan entry.planned.logicalId = some entry.planned := by
  have hmem := List.mem_of_find?_eq_some hfind
  have hid : entry.id = job := by simpa using List.find?_some hfind
  refine ⟨hid ▸ h.ids entry hmem, ?_⟩
  have hsame : ∀ e ∈ entries, decide (e.planned.logicalId = entry.planned.logicalId) = decide (e.id = job) := by
    intro e he
    have hids : e.id = job ↔ e.planned.logicalId = entry.planned.logicalId := by
      rw [← hid]
      constructor
      · intro heq
        have htext := (h.ids e he).symm.trans ((congrArg Identifier.text heq).trans (h.ids entry hmem))
        exact logicalId_of_text htext
      · intro heq
        exact Identifier.ext ((h.ids e he).trans (heq ▸ (h.ids entry hmem).symm))
    simp only [hids]
  unfold plannedAs
  rw [← h.jobs, List.find?_map]
  exact congrArg (Option.map Entry.planned) ((List.find?_congr hsame).trans hfind)

/-- The first loop of the planning: `rest` is left to be inserted. -/
structure Entering (plan : QueuePlan) (runId : String) (rest : List PlannedJob) (entries : List Entry) (db : RunDb) :
    Prop where
  tracked : Tracked plan runId db
  jobs : entries.map Entry.planned ++ rest = plan.jobs
  rows : ∀ e ∈ entries, ∃ row, db.job? e.id = some row ∧ row.logicalJobId = e.planned.logicalId

/-- A job that is not there yet is inserted for the first plan entry of its logical id. -/
theorem Entering.plannedAs_eq {rest : List PlannedJob} {entries : List Entry}
    (h : Entering plan runId (planned :: rest) entries db) (hfresh : ∀ r ∈ db.jobs, r.logicalJobId ≠ planned.logicalId) :
    plannedAs plan planned.logicalId = some planned := by
  have hnone : (entries.map Entry.planned).find? (fun p => p.logicalId = planned.logicalId) = none := by
    refine List.find?_eq_none.mpr fun p hp => ?_
    obtain ⟨e, he, rfl⟩ := List.mem_map.mp hp
    obtain ⟨row, hrow, hname⟩ := h.rows e he
    simpa [← hname] using hfresh row (mem_jobs_of_job? hrow)
  unfold plannedAs
  rw [← h.jobs, List.find?_append, hnone]
  simp

theorem Entering.next {rest : List PlannedJob} {entries : List Entry} {e : Entry}
    (h : Entering plan runId (planned :: rest) entries db) (htracked : Tracked plan runId db')
    (hkeeps : ∀ i row, db.job? i = some row → db'.job? i = some row) (he : e.planned = planned)
    (hrow : db'.job? e.id = some row) (hname : row.logicalJobId = planned.logicalId) :
    Entering plan runId rest (entries ++ [e]) db' := by
  refine ⟨htracked, ?_, ?_⟩
  · rw [List.map_append, List.map_singleton, he, List.append_assoc]
    exact h.jobs
  · intro e' he'
    rcases List.mem_append.mp he' with he' | he'
    · obtain ⟨row', hrow', hname'⟩ := h.rows e' he'
      exact ⟨row', hkeeps e'.id row' hrow', hname'⟩
    · rw [List.mem_singleton.mp he', he]
      exact ⟨row, hrow, hname⟩

theorem ensureJob_keeps (planned : PlannedJob) (rest : List PlannedJob) (entries : List Entry) :
    Spec (fun db _ => Entering plan runId (planned :: rest) entries db) (ensureJob entries planned)
      (fun entries' db _ => Entering plan runId rest entries' db) fun db _ => Tracked plan runId db := by
  apply Spec.bind (Q := fun db₀ db _ => db = db₀ ∧ Entering plan runId (planned :: rest) entries db)
  · exact .read fun _ _ h => ⟨rfl, h⟩
  intro db₀
  split
  · rename_i id hid
    apply Spec.pure
    rintro db _ ⟨rfl, h⟩
    obtain ⟨row, hrow, hname⟩ := existing_eq_some h.tracked.grounded.ids hid
    exact h.next h.tracked (fun _ _ h => h) rfl hrow hname
  · apply Spec.bind (Q := fun id db _ => Entering plan runId rest (entries ++ [⟨planned, id, true⟩]) db)
    · apply Spec.transact
      · exact fun _ _ h => h.2.tracked
      · rintro db _ id db' ⟨-, h⟩ hrun
        have hrow := (insertJob_job? hrun id).trans (if_pos rfl)
        have hplanned := h.plannedAs_eq fun r hr => ((insertJob_ok hrun).1 r hr).2
        exact h.next (insertJob_tracked h.tracked hplanned hrun) (insertJob_keeps hrun) rfl hrow rfl
    · exact fun id => .pure fun _ _ h => h

theorem ensureEdges_keeps (entries : List Entry) (entry : Entry) (u : Unit) :
    Keeps plan runId (ensureEdges entries u entry) := by
  unfold ensureEdges
  split
  · apply Spec.foldEach (I := fun _ _ db _ => Tracked plan runId db)
    intro name rest _
    apply keeps_orFail.bind
    intro predecessor
    exact keeps_transact fun db _ db' h hrun => addDependency_tracked h hrun
  · exact keeps_pure

theorem ensurePlanned_keeps (plan : QueuePlan) (runId : String) :
    Spec (fun db _ => Tracked plan runId db) (ensurePlanned plan)
      (fun entries db _ => Entered plan runId entries ∧ Tracked plan runId db) fun db _ => Tracked plan runId db := by
  have hloop := Spec.foldEach (f := ensureJob) (E := fun db _ => Tracked plan runId db) (l := plan.jobs) (c := [])
    (I := fun rest entries db _ => Entering plan runId rest entries db) ensureJob_keeps
  apply Spec.bind (hloop.mono (fun _ _ h => ⟨h, rfl, fun _ h => absurd h List.not_mem_nil⟩) fun _ _ _ h => h)
  intro entries
  apply Spec.bind (Q := fun _ db _ => Entered plan runId entries ∧ Tracked plan runId db)
  · have hedges := Spec.foldEach (f := ensureEdges entries) (E := fun db _ => Tracked plan runId db) (l := entries) (c := ())
      (I := fun _ _ db _ => Tracked plan runId db) fun entry rest u => ensureEdges_keeps entries entry u
    intro s hs
    have hentered : Entered plan runId entries := by
      refine ⟨by simpa using hs.jobs, fun e he => ?_⟩
      obtain ⟨row, hrow, hname⟩ := hs.rows e he
      rw [hs.tracked.grounded.named e.id row hrow, hs.tracked.run, hname]
    have hspec : Spec (fun db _ => Tracked plan runId db) (foldEach (ensureEdges entries) () entries)
        (fun _ db _ => Entered plan runId entries ∧ Tracked plan runId db) fun db _ => Tracked plan runId db :=
      hedges.mono (fun _ _ h => h) fun _ _ _ h => ⟨hentered, h⟩
    exact hspec s hs.tracked
  · exact fun _ => .pure fun _ _ h => h

/-- The queue keeps the invariant, wherever it is stopped. -/
theorem runQueue_keeps (plan : QueuePlan) (runId : String) (runtime : QueueRuntime) :
    Keeps plan runId (runQueue runtime plan) := by
  apply Spec.bind
  · exact keeps_transact fun db count db' h hrun => recoverInterrupted_tracked h hrun
  intro _
  apply (ensurePlanned_keeps plan runId).bind
  intro entries
  apply Spec.given
  intro hentered
  apply Spec.bind
  · apply queueRounds_keeps (I := fun db _ => Tracked plan runId db) (fun _ _ h => h)
    · exact keeps_transact fun db count db' h hrun => refreshReadiness_tracked h hrun
    · intro entry job hfind
      obtain ⟨hjob, hplanned⟩ := hentered.find hfind
      exact runOne_keeps runtime hjob hplanned
  · exact fun rounds => keeps_read.bind fun _ => keeps_pure

theorem invoke_tracked {state : RunDb × List Start} (invocation : Invocation) (h : Tracked plan runId state.1) :
    Tracked plan runId (invoke plan state invocation).1 := by
  have hspec := runQueue_keeps plan runId invocation.runtime ⟨state.1, state.2, invocation.budget⟩ h
  unfold invoke
  generalize runQueue invocation.runtime plan ⟨state.1, state.2, invocation.budget⟩ = result at hspec
  obtain ⟨result, s⟩ := result
  cases result with
  | ok outcome => exact hspec
  | error e => exact hspec

theorem invokeAll_tracked {state : RunDb × List Start} (invocations : List Invocation) (h : Tracked plan runId state.1) :
    Tracked plan runId (invokeAll plan state invocations).1 := by
  induction invocations generalizing state with
  | nil => exact h
  | cons invocation rest ih => exact ih (invoke_tracked invocation h)

end Queue

section Agreement

variable {digests : Digests} {artifacts keys : Store} {plan : QueuePlan} {runId : String} {planned : PlannedJob}

/-- The planned jobs whose evidence the command looks for where the queue puts it. -/
def Reopenable (planned : PlannedJob) : Prop :=
  planned.kind ≠ .leafVerification ∧ (planned.kind = .prepare → ∃ binding, planned.binding = .key binding)

/-- A verified job passes exactly if its evidence is where its kind says. -/
theorem passes_iff (h : Tracked plan runId db) (hstores : AsPublished digests artifacts keys db)
    (hrow : db.job? job = some row) (hverified : row.state = .verified)
    (hplanned : plannedAs plan row.logicalJobId = some planned) :
    Passes digests artifacts keys db row ↔ Reopenable planned := by
  obtain rfl := job?_id hrow
  obtain ⟨planned', hplanned', hkind, hfits⟩ := h.traced row.id row hrow
  obtain rfl := Option.some_inj.mp (hplanned.symm.trans hplanned')
  obtain ⟨record, hearned⟩ := ((h.verdicts row.id).2 row hrow).1 hverified
  have hproduct : Product row record.attempt (db.artifactsOf row.id) (db.keysOf row.id) := hearned.product
  change Fits planned runId (db.artifactsOf row.id) (db.keysOf row.id) at hfits
  unfold Passes Reopenable
  rw [← hkind, eq_true hverified, true_and]
  generalize hartifacts : db.artifactsOf row.id = as at hproduct hfits
  generalize hkeys : db.keysOf row.id = ks at hproduct hfits
  cases hproduct with
  | artifact a hjob hattempt hidentity howner hk =>
      obtain ⟨hrun, binding, hbinding⟩ := hfits.artifact a (List.mem_singleton_self a)
      have hroles := a.verified.identity.roleMatches
      have hleaf : row.kind ≠ .leafVerification := by
        intro hleaf
        rw [hk, hleaf] at hroles
        exact absurd hroles (by simp [RoleMatches])
      by_cases hprepare : row.kind = .prepare
      · -- the artifact of a preparation is not among the keys
        have hnone : reopened digests artifacts keys db row = .ok false := by
          unfold reopened
          rw [hprepare]
          simp only [reopenKeyForJob_none hrow hkeys]
          rfl
        rw [hnone, hbinding]
        simp [hprepare]
      · obtain ⟨metadata, hfound⟩ := reopenArtifactForJob_some hstores hrow hartifacts (hrun.trans h.run.symm)
          (howner.trans hjob.symm) (hidentity.trans hattempt.symm)
        rw [reopened_of_ne_prepare hprepare, hfound]
        simp [hleaf, hprepare, Except.map]
  | key k hjob hattempt hidentity howner hk =>
      obtain ⟨hrun, binding, hbinding⟩ := hfits.key k (List.mem_singleton_self k)
      have hprepare : row.kind = .prepare := hk.symm.trans k.verified.identity.prepares
      obtain ⟨metadata, hfound⟩ := reopenKeyForJob_some hstores hrow hkeys (hrun.trans h.run.symm)
        (howner.trans hjob.symm) (hidentity.trans hattempt.symm)
      have hsome : reopened digests artifacts keys db row = .ok true := by
        unfold reopened
        rw [hprepare]
        simp only [hfound]
        rfl
      rw [hsome, hprepare, hbinding]
      simp
  | nothing hleaf =>
      have hnone : reopened digests artifacts keys db row = .ok false := by
        rw [reopened_of_ne_prepare (by rw [hleaf]; decide), reopenArtifactForJob_none hrow hartifacts]
        rfl
      rw [hnone, hleaf]
      simp

theorem plannedAs_mem {name : String} (h : plannedAs plan name = some planned) :
    planned ∈ plan.jobs ∧ planned.logicalId = name :=
  ⟨List.mem_of_find?_eq_some h, by simpa using List.find?_some h⟩

/-- However often the queue is called with a plan on a new run, and wherever the calls are stopped: once all jobs
of the plan are verified, and while the stores hold what was published, the command reports all jobs and no failure
exactly if the plan has no leaf verification, and binds every preparation to a key. Of the plan entries with one
logical id only the first one counts. -/
theorem verifyRun_clean_iff (digests : Digests) (artifacts keys : Store) (plan : QueuePlan) (runId : String)
    (invocations : List Invocation)
    (hverified : PlanVerified plan (invokeAll plan (RunDb.empty runId, []) invocations).1)
    (hstores : AsPublished digests artifacts keys (invokeAll plan (RunDb.empty runId, []) invocations).1) :
    verifyRun digests artifacts keys (invokeAll plan (RunDb.empty runId, []) invocations).1 =
        ⟨(invokeAll plan (RunDb.empty runId, []) invocations).1.jobs.length, []⟩ ↔
      ∀ name planned, plannedAs plan name = some planned → Reopenable planned := by
  have htracked : Tracked plan runId (invokeAll plan (RunDb.empty runId, []) invocations).1 :=
    invokeAll_tracked invocations (empty_tracked plan runId)
  generalize (invokeAll plan (RunDb.empty runId, []) invocations).1 = db at hverified hstores htracked
  -- the job of every plan entry that counts
  have hjob : ∀ name planned, plannedAs plan name = some planned →
      ∃ i row, db.job? i = some row ∧ row.state = .verified ∧ row.logicalJobId = name := by
    intro name planned hplanned
    obtain ⟨hmem, rfl⟩ := plannedAs_mem hplanned
    obtain ⟨i, row, htext, hrow, hstate⟩ := hverified planned hmem
    exact ⟨i, row, hrow, hstate, logicalJobId_of_id htracked hrow (htracked.run ▸ htext)⟩
  rw [verifyRun_eq_iff]
  constructor
  · intro h name planned hplanned
    obtain ⟨i, row, hrow, hstate, rfl⟩ := hjob name planned hplanned
    exact (passes_iff htracked hstores hrow hstate hplanned).mp (h row (mem_jobs_of_job? hrow))
  · intro h row hmem
    have hrow := job?_of_mem htracked.grounded.ids hmem
    obtain ⟨planned, hplanned, -, -⟩ := htracked.traced row.id row hrow
    obtain ⟨i, row', hrow', hstate, hname⟩ := hjob row.logicalJobId planned hplanned
    have hid := htracked.grounded.id_eq hrow hrow' hname.symm
    rw [← hid, hrow] at hrow'
    rw [← Option.some_inj.mp hrow'] at hstate
    exact (passes_iff htracked hstores hrow hstate hplanned).mpr (h row.logicalJobId planned hplanned)

theorem Tracked.planVerified (h : Tracked plan runId db) (hrows : ∀ planned ∈ plan.jobs,
    (planned.logicalId, JobState.verified) ∈ db.jobs.map fun row => (row.logicalJobId, row.state)) :
    PlanVerified plan db := by
  intro planned hplanned
  obtain ⟨row, hmem, heq⟩ := List.mem_map.mp (hrows planned hplanned)
  obtain ⟨hname, hstate⟩ := Prod.mk.inj heq
  have hrow := job?_of_mem h.grounded.ids hmem
  exact ⟨row.id, row, hname ▸ h.grounded.named row.id row hrow, hrow, hstate⟩

/-- The digests play no part in what follows. -/
def plainDigests : Digests :=
  ⟨fun _ => zeroDigest, fun _ => zeroDigest, fun _ _ _ _ _ => zeroDigest, fun _ _ _ _ _ => zeroDigest⟩

def emptyStore : Store := fun _ _ => .error (.other "object does not exist")

def setupKey : KeyMetadata := ⟨zeroDigest, 5, zeroDigest, "halo2", zeroDigest, 10, 1⟩

def setupStore : Store := fun _ _ => .ok (.key setupKey (some zeroDigest))

/-- One preparation that is bound to a key. -/
def setupPlan : QueuePlan :=
  ⟨[⟨"setup", .prepare, [], smallRequest, .key ⟨zeroDigest, "halo2", zeroDigest, 10, 1⟩⟩]⟩

def setupCalls : List Invocation :=
  [⟨uniform (.accepted (some ⟨zeroDigest, 5, some ⟨zeroDigest, zeroDigest, true⟩⟩)), none⟩]

theorem verifyRun_clean_iff_setupPlan :
    verifyRun plainDigests emptyStore setupStore (invokeAll setupPlan (RunDb.empty "r", []) setupCalls).1 =
      ⟨(invokeAll setupPlan (RunDb.empty "r", []) setupCalls).1.jobs.length, []⟩ := by
  have htracked : Tracked setupPlan "r" (invokeAll setupPlan (RunDb.empty "r", []) setupCalls).1 :=
    invokeAll_tracked setupCalls (empty_tracked setupPlan "r")
  have hartifacts : (invokeAll setupPlan (RunDb.empty "r", []) setupCalls).1.artifacts.length = 0 := by decide +kernel
  have hkeys : (invokeAll setupPlan (RunDb.empty "r", []) setupCalls).1.keyArtifacts.map
      (fun k => k.verified.identity.metadata) = [setupKey] := by decide +kernel
  refine (verifyRun_clean_iff plainDigests emptyStore setupStore setupPlan "r" setupCalls
    (htracked.planVerified (by decide +kernel)) ⟨?_, ?_⟩).mpr ?_
  · rw [List.eq_nil_of_length_eq_zero hartifacts]
    exact fun a ha => absurd ha List.not_mem_nil
  · intro k hk
    have hmem : k.verified.identity.metadata ∈ [setupKey] := hkeys ▸ List.mem_map_of_mem hk
    rw [List.mem_singleton.mp hmem]
    rfl
  · intro name planned hplanned
    obtain rfl := List.mem_singleton.mp (plannedAs_mem hplanned).1
    exact ⟨by decide, fun _ => ⟨_, rfl⟩⟩

/-- Two leaf verifications are verified, and the command misses an object of each. -/
theorem verifyRun_leafVerification : ¬∀ (digests : Digests) (artifacts keys : Store) (plan : QueuePlan) (runId : String)
    (invocations : List Invocation), PlanVerified plan (invokeAll plan (RunDb.empty runId, []) invocations).1 →
      AsPublished digests artifacts keys (invokeAll plan (RunDb.empty runId, []) invocations).1 →
      verifyRun digests artifacts keys (invokeAll plan (RunDb.empty runId, []) invocations).1 =
        ⟨(invokeAll plan (RunDb.empty runId, []) invocations).1.jobs.length, []⟩ := by
  intro h
  have hagree := h plainDigests emptyStore emptyStore (pairPlan .leafVerification) "r"
    [⟨uniform (.accepted none), none⟩]
  generalize hrun : (invokeAll (pairPlan .leafVerification) (RunDb.empty "r", [])
    [⟨uniform (.accepted none), none⟩]).1 = db at hagree
  have htracked : Tracked (pairPlan .leafVerification) "r" db := hrun ▸ invokeAll_tracked _ (empty_tracked _ "r")
  have hartifacts : db.artifacts.length = 0 := by
    rw [← hrun]
    decide +kernel
  have hkeys : db.keyArtifacts.length = 0 := by
    rw [← hrun]
    decide +kernel
  have hfailures : (verifyRun plainDigests emptyStore emptyStore db).failures =
      ["a has no stored object", "b has no stored object"] := by
    rw [← hrun]
    decide +kernel
  rw [hagree (htracked.planVerified ?_) ⟨?_, ?_⟩] at hfailures
  · cases hfailures
  · rw [← hrun]
    decide +kernel
  · rw [List.eq_nil_of_length_eq_zero hartifacts]
    exact fun a ha => absurd ha List.not_mem_nil
  · rw [List.eq_nil_of_length_eq_zero hkeys]
    exact fun k hk => absurd hk List.not_mem_nil

end Agreement

end Zkie.RunVerify
