import Zkie.RunState
import Zkie.Transaction
import Mathlib.Data.List.Sort

namespace Zkie.RunDatabase

open RunState Transaction

structure Digest32 where
  bytes : Vector UInt8 32
  deriving DecidableEq, Repr

inductive ArtifactRole where
  | witness
  | preparedMaterial
  | leafProof
  | nativeVerifiedManifest
  deriving DecidableEq, Repr

inductive AggregationArity where
  | notApplicable
  | actual (arity : UInt32)
  deriving DecidableEq, Repr

/-- The combinations of role, kind and arity that a proof identity may have. -/
def RoleMatches : ArtifactRole → JobKind → AggregationArity → Prop
  | .witness, .witness, .notApplicable => True
  | .preparedMaterial, .prepare, .notApplicable => True
  | .leafProof, .leafProof, .notApplicable => True
  | .nativeVerifiedManifest, .nativeAggregate, .actual arity => 2 ≤ arity.toNat
  | _, _, _ => False

instance (role : ArtifactRole) (kind : JobKind) (arity : AggregationArity) : Decidable (RoleMatches role kind arity) := by
  unfold RoleMatches
  split <;> infer_instance

/-- The identity of a published proof, as `TrustedProofIdentity::new` accepts it. -/
structure TrustedProofIdentity where
  artifactRole : ArtifactRole
  jobKind : JobKind
  k : UInt32
  aggregationArity : AggregationArity
  runId : String
  job : JobId
  attempt : AttemptId
  proofContentDigest : Digest32
  artifactManifestDigest : Digest32
  runIdentityDigest : Digest32
  publicStatementDigest : Digest32
  circuitDigest : Digest32
  verifyingKeyDigest : Digest32
  srsSourceDigest : Digest32
  shardIdentityDigest : Digest32
  witnessArtifactDigest : Digest32
  proofFlavor : String
  executionBackend : String
  roleMatches : RoleMatches artifactRole jobKind aggregationArity

structure KeyMetadata where
  contentDigest : Digest32
  size : UInt64
  srsSourceDigest : Digest32
  proofFlavor : String
  circuitDigest : Digest32
  k : UInt32
  aggregationArity : UInt32
  deriving DecidableEq, Repr

/-- The identity of a published key. Its role is the only one there is. -/
structure TrustedKeyIdentity where
  jobKind : JobKind
  runId : String
  job : JobId
  attempt : AttemptId
  metadata : KeyMetadata
  prepares : jobKind = .prepare

/-- A published object. `intact` says that it passes revalidation when it is committed. -/
structure PublishedObject where
  digest : Digest32
  storeIdentityDigest : Digest32
  intact : Bool

/-- An attested artifact; the attestation has checked that the object is the identity's own. -/
structure VerifiedArtifact where
  identity : TrustedProofIdentity
  artifactId : String
  published : PublishedObject

structure VerifiedKey where
  identity : TrustedKeyIdentity
  published : PublishedObject

structure ReservationKey where
  circuitDigest : Digest32
  k : UInt32
  proofFlavor : String
  executionBackend : String
  hardwareProfile : String
  deriving DecidableEq, Repr

inductive DbError where
  | constraintViolated
  | invalidIdentifier
  | transition (e : TransitionError)
  | jobNotFound (job : JobId)
  | notAttemptStart
  | controlledEventRequired
  | attemptNotOpenForJob (attempt : AttemptId) (job : JobId)
  | openAttemptConflict (job : JobId)
  | attemptCountExhausted (job : JobId)
  | invalidVerificationSource (attempt : AttemptId) (job : JobId)
  | wrongStartForJobKind (kind : JobKind) (event : String)
  | store
  | verifiedArtifactRunMismatch
  | verifiedIdentityJobKindMismatch
  | resourcePeakOutOfRange
  | invalidFailureObservation
  deriving DecidableEq, Repr

inductive RetryDecision where
  | requeued
  | terminal
  deriving DecidableEq, Repr

structure JobRow where
  id : JobId
  logicalJobId : String
  kind : JobKind
  state : JobState
  failure : Option FailureRecord
  attemptCount : ℕ
  executionRetries : ℕ
  resourceRequeues : ℕ
  terminalFailure : Bool
  blockingPredecessorId : Option JobId
  deriving DecidableEq, Repr

/-- An attempt is open until its finishing time is set. -/
structure AttemptRow where
  id : AttemptId
  job : JobId
  state : JobState
  finished : Bool
  deriving DecidableEq, Repr

structure VerificationRow where
  id : VerificationRecordId
  job : JobId
  attempt : AttemptId
  verifier : String
  deriving DecidableEq, Repr

/-- The digest columns are functions of the attested artifact. -/
structure ArtifactRow where
  job : JobId
  logicalJobId : String
  attempt : AttemptId
  verified : VerifiedArtifact

structure KeyRow where
  job : JobId
  logicalJobId : String
  attempt : AttemptId
  verified : VerifiedKey

/-- The rows of one run. The lists are in the order of insertion; times and the event log are left
out, since no operation reads them. -/
structure RunDb where
  runId : String
  jobs : List JobRow
  dependencies : List (JobId × JobId)
  attempts : List AttemptRow
  verificationRecords : List VerificationRow
  artifacts : List ArtifactRow
  keyArtifacts : List KeyRow
  resourceHistory : List (ReservationKey × ℕ)

abbrev Db : Type → Type := Tx RunDb DbError

namespace RunDb

/-- A run that has just been opened. -/
def empty (runId : String) : RunDb := ⟨runId, [], [], [], [], [], [], []⟩

def job? (db : RunDb) (job : JobId) : Option JobRow := db.jobs.find? fun row => row.id = job

def attemptsOf (db : RunDb) (job : JobId) : List AttemptRow := db.attempts.filter fun a => a.job = job

def openAttempts (db : RunDb) (job : JobId) : List AttemptRow := (db.attemptsOf job).filter fun a => !a.finished

def recordsOf (db : RunDb) (job : JobId) : List VerificationRow := db.verificationRecords.filter fun r => r.job = job

def artifactsOf (db : RunDb) (job : JobId) : List ArtifactRow := db.artifacts.filter fun a => a.job = job

def keysOf (db : RunDb) (job : JobId) : List KeyRow := db.keyArtifacts.filter fun k => k.job = job

def updateJob (job : JobId) (f : JobRow → JobRow) (db : RunDb) : RunDb :=
  { db with jobs := db.jobs.map fun row => if row.id = job then f row else row }

/-- The open attempts of a job are closed with its new state. -/
def closeAttempts (job : JobId) (state : JobState) (db : RunDb) : RunDb :=
  { db with attempts := db.attempts.map fun a =>
      if a.job = job ∧ a.finished = false then { a with state, finished := true } else a }

def setAttemptState (attempt : AttemptId) (state : JobState) (db : RunDb) : RunDb :=
  { db with attempts := db.attempts.map fun a => if a.id = attempt then { a with state } else a }

/-- The order of `ORDER BY job_id`. -/
def IdLe (i j : Identifier) : Prop := i.text ≤ j.text

instance : DecidableRel IdLe := fun _ _ => inferInstanceAs (Decidable (_ ≤ _))

def sortIds (ids : List Identifier) : List Identifier := ids.insertionSort IdLe

def predecessors (db : RunDb) (job : JobId) : List JobId :=
  (db.dependencies.filter fun d => d.2 = job).map Prod.fst

def successors (db : RunDb) (job : JobId) : List JobId :=
  sortIds ((db.dependencies.filter fun d => d.1 = job).map Prod.snd)

def IsWaiting (state : JobState) : Prop := state = .pending ∨ state = .requeued

instance (state : JobState) : Decidable (IsWaiting state) := inferInstanceAs (Decidable (_ ∨ _))

/-- The predecessors of a job that are in the database, in the order of their ids. -/
def predecessorStates (db : RunDb) (job : JobId) : List JobRow :=
  (sortIds (db.predecessors job)).filterMap db.job?

/-- A predecessor that will never be verified. -/
def IsFailed (row : JobRow) : Prop :=
  row.terminalFailure = true ∨ row.state = .verificationFailed ∨ row.state = .blocked

instance (row : JobRow) : Decidable (IsFailed row) := inferInstanceAs (Decidable (_ ∨ _))

end RunDb

open RunDb

def requireJobInRun (job : JobId) : Db Unit := do
  let db ← get
  ensure (db.job? job).isSome (.jobNotFound job)

def insertJob (logicalJobId : String) (kind : JobKind) : Db JobId := do
  ensure (IsIdentifier logicalJobId) .invalidIdentifier
  let db ← get
  let id ← fromOption .invalidIdentifier (Identifier.new? s!"{db.runId}:{logicalJobId}")
  ensure (∀ row ∈ db.jobs, row.id ≠ id ∧ row.logicalJobId ≠ logicalJobId) .constraintViolated
  modify fun db => { db with jobs := db.jobs ++ [⟨id, logicalJobId, kind, .pending, none, 0, 0, 0, false, none⟩] }
  return id

def addDependency (predecessor successor : JobId) : Db Unit := do
  requireJobInRun predecessor
  requireJobInRun successor
  let db ← get
  ensure (predecessor ≠ successor ∧ (predecessor, successor) ∉ db.dependencies) .constraintViolated
  modify fun db => { db with dependencies := db.dependencies ++ [(predecessor, successor)] }

def currentState (job : JobId) : Db JobState := do
  let db ← get
  let row ← fromOption (.jobNotFound job) (db.job? job)
  return row.state

/-- What an event writes into the failure columns: its own failure, the failure of a blocked
dependency, nothing once the dependencies are satisfied, or what was there. -/
def failureAfter (event : JobEvent) (row : JobRow) : Option FailureRecord :=
  if event.failure.isSome ∨ event.blockingPredecessor.isSome then
    event.failure.or (some (FailureRecord.new .dependency .scheduler .predecessorFailed))
  else if event = .dependenciesSatisfied then none
  else row.failure

def blockerAfter (event : JobEvent) (row : JobRow) : Option JobId :=
  if event.failure.isSome ∨ event.blockingPredecessor.isSome then event.blockingPredecessor
  else if event = .dependenciesSatisfied then none
  else row.blockingPredecessorId

/-- The row of a job after an event that leads to `next`. -/
def rowAfter (event : JobEvent) (next : JobState) (attemptCount : Option ℕ) (row : JobRow) : JobRow :=
  { row with
    state := next
    failure := failureAfter event row
    blockingPredecessorId := blockerAfter event row
    attemptCount := attemptCount.getD row.attemptCount }

/-- Entering an inactive state closes the attempts of the job. -/
def attemptsAfter (job : JobId) (attempt : Option AttemptId) (next : JobState) (db : RunDb) : RunDb :=
  if next.IsActive then attempt.elim db fun a => setAttemptState a next db else closeAttempts job next db

def applyEventTx (job : JobId) (attempt : Option AttemptId) (event : JobEvent) (attemptCount : Option ℕ) :
    Db JobState := do
  let current ← currentState job
  let next ← fromExcept ((current.transition event).mapError .transition)
  modify (updateJob job (rowAfter event next attemptCount))
  modify (attemptsAfter job attempt next)
  return next

def setTerminal (job : JobId) : Db Unit := do
  modify (updateJob job fun row => { row with terminalFailure := true })

def requireUniqueOpenAttempt (job : JobId) (attempt : AttemptId) : Db Unit := do
  let db ← get
  ensure ((db.openAttempts job).map AttemptRow.id = [attempt]) (.attemptNotOpenForJob attempt job)

/-- The kinds whose open attempt is verified, and those whose finished attempt is. -/
def VerifiesOpen (kind : JobKind) (state : JobState) : Prop :=
  (kind = .leafVerification ∨ kind = .nativeAggregate) ∧ state = .verifying

instance (kind : JobKind) (state : JobState) : Decidable (VerifiesOpen kind state) :=
  inferInstanceAs (Decidable (_ ∧ _))

def VerifiesFinished (kind : JobKind) (state : JobState) : Prop :=
  (kind, state) ∈ [(JobKind.witness, JobState.witnessReady), (.prepare, .prepared), (.leafProof, .proved)]

instance (kind : JobKind) (state : JobState) : Decidable (VerifiesFinished kind state) :=
  inferInstanceAs (Decidable (_ ∈ _))

def requireVerificationSource (job : JobId) (attempt : AttemptId) : Db Unit := do
  let db ← get
  let row ← fromOption (.jobNotFound job) (db.job? job)
  if VerifiesOpen row.kind row.state then requireUniqueOpenAttempt job attempt
  else
    ensure (VerifiesFinished row.kind row.state ∧ ∃ latest ∈ (db.attemptsOf job).getLast?,
      latest.finished = true ∧ latest.id = attempt ∧ latest.state = row.state) (.invalidVerificationSource attempt job)

/-- One successor of `predecessor`; the jobs that become blocked are pushed on the frontier. -/
def blockSuccessor (predecessor : JobId) (frontier : List JobId) (successor : JobId) : Db (List JobId) := do
  let state ← currentState successor
  if IsWaiting state then
    let _ ← applyEventTx successor none (.dependencyBlocked predecessor) none
    setTerminal successor
    return successor :: frontier
  else return frontier

/-- The walk of `block_descendants_tx`, from the top of the frontier. A job is pushed at most once, so
the number of jobs bounds the number of rounds. -/
def blockFrontier : ℕ → List JobId → Db Unit
  | _, [] => pure ()
  | 0, _ => pure ()
  | fuel + 1, predecessor :: frontier => do
      let db ← get
      let frontier ← foldEach (blockSuccessor predecessor) frontier (db.successors predecessor)
      blockFrontier fuel frontier

def blockDescendantsTx (failed : JobId) : Db Unit := do
  let db ← get
  blockFrontier (db.jobs.length + 1) [failed]

def failVerification (job : JobId) (sourceAttempt : AttemptId) (failure : FailureRecord) : Db JobState := do
  requireVerificationSource job sourceAttempt
  let state ← applyEventTx job (some sourceAttempt) (.verificationFailed failure) none
  setTerminal job
  blockDescendantsTx job
  return state

/-- The largest peak seen for each key. -/
def peakAfter (key : ReservationKey) (peak : ℕ) (history : List (ReservationKey × ℕ)) : List (ReservationKey × ℕ) :=
  if ∃ e ∈ history, e.1 = key then history.map fun e => if e.1 = key then (key, max e.2 peak) else e
  else history ++ [(key, peak)]

/-- A peak has to fit a signed 64-bit integer. -/
def recordResourcePeak (key : ReservationKey) (peakBytes : UInt64) : Db Unit := do
  ensure (peakBytes.toNat < 2 ^ 63) .resourcePeakOutOfRange
  modify fun db => { db with resourceHistory := peakAfter key peakBytes.toNat db.resourceHistory }

def recordObservation : Option (ReservationKey × UInt64) → Db Unit
  | some (key, peak) => recordResourcePeak key peak
  | none => pure ()

def retryLimit (isResource : Bool) : ℕ := if isResource then 3 else 2

def retries (isResource : Bool) (row : JobRow) : ℕ := if isResource then row.resourceRequeues else row.executionRetries

def countRetry (isResource : Bool) (row : JobRow) : JobRow :=
  if isResource then { row with resourceRequeues := row.resourceRequeues + 1 }
  else { row with executionRetries := row.executionRetries + 1 }

def handleAttemptFailure (job : JobId) (attempt : AttemptId) (failure : FailureRecord)
    (resourceObservation : Option (ReservationKey × UInt64)) : Db RetryDecision := do
  let isResource : Bool := failure.kind = .resourceExceeded
  ensure (isResource = resourceObservation.isSome ∧ (failure.kind = .execution ∨ failure.kind = .resourceExceeded))
    .invalidFailureObservation
  requireUniqueOpenAttempt job attempt
  recordObservation resourceObservation
  let _ ← applyEventTx job (some attempt) (if isResource then .resourceExceeded failure else .executionFailed failure) none
  let db ← get
  let row ← fromOption (.jobNotFound job) (db.job? job)
  if retries isResource row < retryLimit isResource then
    modify (updateJob job (countRetry isResource))
    let _ ← applyEventTx job (some attempt) (if isResource then .retryResourceExceeded else .retryExecution) none
    return .requeued
  else
    setTerminal job
    blockDescendantsTx job
    return .terminal

/-- The events that finish an attempt without a decision of the scheduler or the verifier. -/
def IsAttemptEvent : JobEvent → Prop
  | .witnessCompleted | .preparationCompleted | .proofProduced | .interrupted _ => True
  | _ => False

instance : DecidablePred IsAttemptEvent := fun event => by
  unfold IsAttemptEvent
  cases event <;> infer_instance

def applyAttemptEvent (job : JobId) (attempt : AttemptId) (event : JobEvent) : Db JobState := do
  ensure (IsAttemptEvent event) .controlledEventRequired
  requireUniqueOpenAttempt job attempt
  applyEventTx job (some attempt) event none

def beginAttempt (job : JobId) (event : JobEvent) : Db AttemptId := do
  ensure event.StartsAttempt .notAttemptStart
  let db ← get
  let row ← fromOption (.jobNotFound job) (db.job? job)
  ensure (StartMatchesKind row.kind event) (.wrongStartForJobKind row.kind event.name)
  ensure (db.openAttempts job = []) (.openAttemptConflict job)
  ensure (row.attemptCount + 1 < 2 ^ 32) (.attemptCountExhausted job)
  let attempt ← fromOption .invalidIdentifier (Identifier.new? s!"{job.text}:attempt:{row.attemptCount + 1}")
  let next ← fromExcept ((row.state.transition event).mapError .transition)
  ensure (∀ a ∈ db.attempts, a.id ≠ attempt) .constraintViolated
  modify fun db => { db with attempts := db.attempts ++ [⟨attempt, job, next, false⟩] }
  let _ ← applyEventTx job (some attempt) event (some (row.attemptCount + 1))
  return attempt

/-- One candidate of a readiness sweep. -/
def refreshJob (ready : ℕ) (job : JobId) : Db ℕ := do
  let db ← get
  let predecessors := db.predecessorStates job
  if ∀ row ∈ predecessors, row.state = .verified then
    let _ ← applyEventTx job none .dependenciesSatisfied none
    return ready + 1
  else
    match predecessors.find? fun row => IsFailed row with
    | some predecessor =>
        let _ ← applyEventTx job none (.dependencyBlocked predecessor.id) none
        return ready
    | none => return ready

def refreshReadiness : Db ℕ := do
  let db ← get
  foldEach refreshJob 0 (sortIds ((db.jobs.filter fun row => IsWaiting row.state).map JobRow.id))

/-- One open attempt of a recovery, with the state that its job had when the recovery started. -/
def recoverAttempt (recovered : ℕ) (entry : AttemptRow × JobState) : Db ℕ :=
  if entry.2.IsActive then do
    let interruption := FailureRecord.new .interrupted .scheduler .schedulerRestart
    let _ ← applyEventTx entry.1.job (some entry.1.id) (.interrupted interruption) none
    let _ ← applyEventTx entry.1.job (some entry.1.id) .recoveryRequeue none
    modify fun db => { db with attempts := db.attempts.map fun a =>
      if a.id = entry.1.id ∧ a.finished = false then { a with state := .interrupted, finished := true } else a }
    return recovered + 1
  else return recovered

def recoverInterrupted : Db ℕ := do
  let db ← get
  let opened := ((db.attempts.filter fun a => !a.finished).insertionSort fun a b => IdLe a.id b.id).filterMap
    fun a => (db.job? a.job).map fun row => (a, row.state)
  foldEach recoverAttempt 0 opened

/-- The verification record that a commit adds. -/
def recordVerification (job : JobId) (attempt : AttemptId) (verifier : String) : Db VerificationRecordId := do
  let db ← get
  let id ← fromOption .invalidIdentifier
    (Identifier.new? s!"{job.text}:verification:{(db.recordsOf job).length + 1}")
  ensure (∀ r ∈ db.verificationRecords, r.id ≠ id) .constraintViolated
  modify fun db => { db with verificationRecords := db.verificationRecords ++ [⟨id, job, attempt, verifier⟩] }
  return id

def commitVerifiedArtifact (verified : VerifiedArtifact) : Db JobState := do
  let db ← get
  ensure (verified.identity.runId = db.runId) .verifiedArtifactRunMismatch
  ensure (verified.published.intact = true) .store
  let job := verified.identity.job
  let attempt := verified.identity.attempt
  requireVerificationSource job attempt
  let row ← fromOption (.jobNotFound job) (db.job? job)
  ensure (row.kind = verified.identity.jobKind) .verifiedIdentityJobKindMismatch
  let verification ← recordVerification job attempt verified.identity.executionBackend
  ensure (∀ a ∈ db.artifacts, a.verified.artifactId ≠ verified.artifactId ∧ a.logicalJobId ≠ row.logicalJobId ∧
    a.verified.published.digest ≠ verified.published.digest) .constraintViolated
  modify fun db => { db with artifacts := db.artifacts ++ [⟨job, row.logicalJobId, attempt, verified⟩] }
  applyEventTx job (some attempt) (.verificationSucceeded (some verification)) none

def commitVerifiedKey (identityDigest : TrustedKeyIdentity → Digest32) (verified : VerifiedKey) : Db JobState := do
  let db ← get
  ensure (verified.identity.runId = db.runId) .verifiedArtifactRunMismatch
  ensure (verified.published.intact = true) .store
  let job := verified.identity.job
  let attempt := verified.identity.attempt
  requireVerificationSource job attempt
  let row ← fromOption (.jobNotFound job) (db.job? job)
  ensure (row.kind = verified.identity.jobKind) .verifiedIdentityJobKindMismatch
  let verification ← recordVerification job attempt verified.identity.metadata.proofFlavor
  ensure (verified.identity.metadata.size.toNat < 2 ^ 63) .store
  ensure (∀ k ∈ db.keyArtifacts, identityDigest k.verified.identity ≠ identityDigest verified.identity ∧
    k.logicalJobId ≠ row.logicalJobId ∧ k.verified.published.digest ≠ verified.published.digest) .constraintViolated
  modify fun db => { db with keyArtifacts := db.keyArtifacts ++ [⟨job, row.logicalJobId, attempt, verified⟩] }
  applyEventTx job (some attempt) (.verificationSucceeded (some verification)) none

def completeVerification (job : JobId) (attempt : AttemptId) (verifier : String) : Db JobState := do
  ensure (IsIdentifier verifier) .invalidIdentifier
  let db ← get
  let row ← fromOption (.jobNotFound job) (db.job? job)
  ensure (row.kind = .leafVerification) .controlledEventRequired
  requireVerificationSource job attempt
  let id ← recordVerification job attempt verifier
  applyEventTx job (some attempt) (.verificationSucceeded (some id)) none

end Zkie.RunDatabase
