import Zkie.Interruptible
import Zkie.RunBlocking

namespace Zkie.RunQueue

open RunState RunDatabase RunDatabase.RunDb RunLifecycle Interruptible

/-- A request as `ResourceRequest::new` accepts it. -/
structure ResourceRequest where
  cpuCores : ℕ
  ramBytes : ℕ
  gpuCount : ℕ
  gpuVramBytesPerDevice : ℕ
  cpuCores_pos : 0 < cpuCores
  gpu : gpuCount = 0 ↔ gpuVramBytesPerDevice = 0
  deriving DecidableEq

structure ResourceCapacity where
  cpuCores : ℕ
  ramBytes : ℕ
  gpuCount : ℕ
  gpuVramBytesPerDevice : ℕ
  deriving DecidableEq, Repr

namespace ResourceCapacity

def Fits (c : ResourceCapacity) (r : ResourceRequest) : Prop :=
  r.cpuCores ≤ c.cpuCores ∧ r.ramBytes ≤ c.ramBytes ∧ r.gpuCount ≤ c.gpuCount ∧
    r.gpuVramBytesPerDevice ≤ c.gpuVramBytesPerDevice

instance (c : ResourceCapacity) (r : ResourceRequest) : Decidable (c.Fits r) := inferInstanceAs (Decidable (_ ∧ _))

/-- What is left of a capacity that fits the request. -/
def reserve (c : ResourceCapacity) (r : ResourceRequest) : ResourceCapacity where
  cpuCores := c.cpuCores - r.cpuCores
  ramBytes := c.ramBytes - r.ramBytes
  gpuCount := c.gpuCount - r.gpuCount
  gpuVramBytesPerDevice := if c.gpuCount - r.gpuCount ≠ 0 then c.gpuVramBytesPerDevice else 0

/-- The capacity that a decision starts from, of what is available and what is configured. -/
def usable (available configured : ResourceCapacity) : ResourceCapacity where
  cpuCores := min available.cpuCores configured.cpuCores
  ramBytes := min available.ramBytes configured.ramBytes
  gpuCount := min available.gpuCount configured.gpuCount
  gpuVramBytesPerDevice :=
    if min available.gpuCount configured.gpuCount = 0 then 0
    else min available.gpuVramBytesPerDevice configured.gpuVramBytesPerDevice

end ResourceCapacity

structure ProofBinding where
  role : ArtifactRole
  k : UInt32
  arity : AggregationArity
  artifactManifestDigest : Digest32
  runIdentityDigest : Digest32
  publicStatementDigest : Digest32
  circuitDigest : Digest32
  verifyingKeyDigest : Digest32
  srsSourceDigest : Digest32
  shardIdentityDigest : Digest32
  witnessArtifactDigest : Digest32
  proofFlavor : String
  executionBackend : String

structure KeyBinding where
  srsSourceDigest : Digest32
  proofFlavor : String
  circuitDigest : Digest32
  k : UInt32
  aggregationArity : UInt32

inductive JobBinding where
  | proof (binding : ProofBinding)
  | key (binding : KeyBinding)

/-- A planned job. The job that the worker runs is only handed on, so it is left out. -/
structure PlannedJob where
  logicalId : String
  kind : JobKind
  dependsOn : List String
  request : ResourceRequest
  binding : JobBinding

structure QueuePlan where
  jobs : List PlannedJob

/-- A staged object: its content, and what the store publishes for it, if it does. -/
structure Staged where
  contentDigest : Digest32
  size : UInt64
  published : Option PublishedObject

/-- What becomes of an attempt outside the database: the worker cannot be launched, it fails, its output is
rejected, or it is accepted and staged (if the file is there). -/
inductive AttemptResult where
  | notLaunched
  | failed
  | rejected
  | accepted (staged : Option Staged)

/-- Everything that a run of the queue does not decide itself. -/
structure QueueRuntime where
  attemptResult : AttemptId → AttemptResult
  /-- Whether the memory monitor admits new work in a round. -/
  admits : ℕ → Bool
  /-- The clock, in a round. -/
  now : ℕ → ℤ
  keyIdentityDigest : TrustedKeyIdentity → Digest32
  capacity : ResourceCapacity
  maxRounds : ℕ

structure QueueOutcome where
  verified : List JobId
  terminal : List JobId
  blocked : List JobId
  rounds : ℕ
  deriving DecidableEq, Repr

def QueueOutcome.IsComplete (outcome : QueueOutcome) : Prop := outcome.terminal = [] ∧ outcome.blocked = []

instance (outcome : QueueOutcome) : Decidable outcome.IsComplete := inferInstanceAs (Decidable (_ ∧ _))

inductive QueueError where
  | db (e : DbError)
  | protocol
  | store
  | duplicateCandidate (job : JobId)
  | stalled (rounds : ℕ)
  | unknownPredecessor (job predecessor : String)
  | missingStaged (attempt logicalId : String)
  | verificationRejected (attempt : AttemptId)
  deriving DecidableEq, Repr

/-- The database at the moment of each start of an attempt. -/
structure Start where
  job : JobId
  db : RunDb

abbrev Queue : Type → Type := Process RunDb Start QueueError

def perform {α : Type} (p : Db α) : Queue α := transact .db (fun _ => []) p

def queryJob (job : JobId) : Queue JobRow := do
  let db ← read
  orFail (.db (.jobNotFound job)) (db.job? job)

section Planning

/-- One planned job with its id, and whether it was inserted just now. -/
structure Entry where
  planned : PlannedJob
  id : JobId
  created : Bool

/-- The jobs of the run, in the order of their logical ids. -/
def orderedJobs (db : RunDb) : List JobRow := db.jobs.insertionSort fun a b => a.logicalJobId ≤ b.logicalJobId

def existing (db : RunDb) (logicalId : String) : Option JobId :=
  ((orderedJobs db).find? fun row => row.logicalJobId = logicalId).map JobRow.id

def ensureJob (entries : List Entry) (planned : PlannedJob) : Queue (List Entry) := do
  let db ← read
  match existing db planned.logicalId with
  | some id => return entries ++ [⟨planned, id, false⟩]
  | none =>
      let id ← perform (insertJob planned.logicalId planned.kind)
      return entries ++ [⟨planned, id, true⟩]

def ensureEdge (entries : List Entry) (entry : Entry) (_ : Unit) (predecessorName : String) : Queue Unit := do
  let predecessor ← orFail (.unknownPredecessor entry.planned.logicalId predecessorName)
    (entries.find? fun e => e.planned.logicalId = predecessorName)
  perform (addDependency predecessor.id entry.id)

def ensureEdges (entries : List Entry) (_ : Unit) (entry : Entry) : Queue Unit :=
  if entry.created then foldEach (ensureEdge entries entry) () entry.planned.dependsOn else pure ()

def ensurePlanned (plan : QueuePlan) : Queue (List Entry) := do
  let entries ← foldEach ensureJob [] plan.jobs
  foldEach (ensureEdges entries) () entries
  return entries

end Planning

section Scheduling

structure SchedulableJob where
  jobId : JobId
  request : ResourceRequest
  readySince : ℤ
  deriving DecidableEq

def lookup (entries : List Entry) (logicalId : String) : Queue JobId := do
  let entry ← orFail (.unknownPredecessor logicalId logicalId)
    (entries.find? fun e => e.planned.logicalId = logicalId)
  return entry.id

def readyCandidate (entries : List Entry) (candidates : List SchedulableJob) (planned : PlannedJob) :
    Queue (List SchedulableJob) := do
  let id ← lookup entries planned.logicalId
  let row ← queryJob id
  return if row.state = .ready then candidates ++ [⟨id, planned.request, 0⟩] else candidates

def readyCandidates (plan : QueuePlan) (entries : List Entry) : Queue (List SchedulableJob) :=
  foldEach (readyCandidate entries) [] plan.jobs

def normalizedLeftover (leftover capacity : ℕ) : ℕ := if capacity = 0 then 0 else leftover * 10 ^ 12 / capacity

def fitScore (r : ResourceRequest) (c : ResourceCapacity) : ℕ :=
  normalizedLeftover (c.ramBytes - r.ramBytes) c.ramBytes + normalizedLeftover (c.cpuCores - r.cpuCores) c.cpuCores +
    if c.gpuCount ≠ 0 then
      normalizedLeftover (c.gpuCount - r.gpuCount) c.gpuCount +
        if r.gpuCount ≠ 0 then
          normalizedLeftover (c.gpuVramBytesPerDevice - r.gpuVramBytesPerDevice) c.gpuVramBytesPerDevice
        else 0
    else 0

/-- The order of the queue: who has been ready for longer, then by id. -/
def Precedes (a b : SchedulableJob) : Prop :=
  a.readySince < b.readySince ∨ a.readySince = b.readySince ∧ IdLe a.jobId b.jobId

instance : DecidableRel Precedes := fun _ _ => inferInstanceAs (Decidable (_ ∨ _))

/-- `a` fits no worse than `b`. -/
def FitsBetter (c : ResourceCapacity) (a b : SchedulableJob) : Prop :=
  fitScore a.request c < fitScore b.request c ∨ fitScore a.request c = fitScore b.request c ∧ Precedes a b

instance (c : ResourceCapacity) : DecidableRel (FitsBetter c) := fun _ _ => inferInstanceAs (Decidable (_ ∨ _))

/-- The first of the best candidates. -/
def best (c : ResourceCapacity) : List SchedulableJob → Option SchedulableJob
  | [] => none
  | a :: rest =>
      match best c rest with
      | none => some a
      | some b => if FitsBetter c a b then some a else some b

/-- The best-fit rounds of a decision; every round takes one candidate out. -/
def fill : ℕ → List SchedulableJob → ResourceCapacity → List JobId
  | 0, _, _ => []
  | fuel + 1, eligible, remaining =>
      match best remaining (eligible.filter fun c => remaining.Fits c.request) with
      | none => []
      | some b => b.jobId :: fill fuel (eligible.filter fun c => c.jobId ≠ b.jobId) (remaining.reserve b.request)

def agingSeconds : ℤ := 600

/-- The jobs that a decision selects among those that are eligible. -/
def select (configured available : ResourceCapacity) (now : ℤ) (eligible : List SchedulableJob) : List JobId :=
  match eligible.find? fun c => configured.Fits c.request ∧ agingSeconds ≤ now - c.readySince with
  | none => fill eligible.length eligible available
  | some aged =>
      if available.Fits aged.request then
        aged.jobId :: fill eligible.length (eligible.filter fun c => c.jobId ≠ aged.jobId)
          (available.reserve aged.request)
      else []

/-- No predecessor of the job is in a state other than verified. -/
def RequiredPredecessorsVerified (db : RunDb) (job : JobId) : Prop :=
  ∀ row ∈ db.predecessorStates job, row.state = .verified

instance (db : RunDb) (job : JobId) : Decidable (RequiredPredecessorsVerified db job) :=
  inferInstanceAs (Decidable (∀ row ∈ _, _))

def eligibleCandidate (eligible : List SchedulableJob) (candidate : SchedulableJob) : Queue (List SchedulableJob) := do
  let row ← queryJob candidate.jobId
  let db ← read
  return if row.state = .ready ∧ RequiredPredecessorsVerified db candidate.jobId then eligible ++ [candidate]
    else eligible

/-- The first candidate that has been seen before. -/
def duplicate? (seen : List JobId) : List SchedulableJob → Option JobId
  | [] => none
  | c :: rest => if c.jobId ∈ seen then some c.jobId else duplicate? (c.jobId :: seen) rest

def decide (configured available : ResourceCapacity) (now : ℤ) (candidates : List SchedulableJob) :
    Queue (List JobId) := do
  match duplicate? [] candidates with
  | some job => fail (.duplicateCandidate job)
  | none =>
      let _ ← perform refreshReadiness
      let eligible ← foldEach eligibleCandidate [] candidates
      return select configured (available.usable configured) now (eligible.insertionSort Precedes)

/-- While the monitor does not admit work, nothing is selected. -/
def decideWithMemory (admits : Bool) (configured available : ResourceCapacity) (now : ℤ)
    (candidates : List SchedulableJob) : Queue (List JobId) :=
  if admits then decide configured available now candidates else pure []

end Scheduling

section Attempts

def startEvent : JobKind → JobEvent
  | .witness => .startWitnessing
  | .prepare => .startPreparing
  | .leafProof => .startProving
  | .leafVerification | .nativeAggregate => .startVerification

def stageFor : JobKind → FailureStage
  | .witness => .witness
  | .prepare => .prepare
  | .leafProof => .prove
  | .leafVerification | .nativeAggregate => .verify

/-- The identity of a proof, if the binding may be used for the kind of job. -/
def ProofBinding.identity (b : ProofBinding) (kind : JobKind) (runId : String) (job : JobId) (attempt : AttemptId)
    (contentDigest : Digest32) : Option TrustedProofIdentity :=
  if h : RoleMatches b.role kind b.arity ∧ IsIdentifier b.proofFlavor ∧ IsIdentifier b.executionBackend ∧
      IsIdentifier runId then
    some ⟨b.role, kind, b.k, b.arity, runId, job, attempt, contentDigest, b.artifactManifestDigest, b.runIdentityDigest,
      b.publicStatementDigest, b.circuitDigest, b.verifyingKeyDigest, b.srsSourceDigest, b.shardIdentityDigest,
      b.witnessArtifactDigest, b.proofFlavor, b.executionBackend, h.1⟩
  else none

def KeyBinding.identity (b : KeyBinding) (kind : JobKind) (runId : String) (job : JobId) (attempt : AttemptId)
    (staged : Staged) : Option TrustedKeyIdentity :=
  if h : kind = .prepare ∧ IsIdentifier b.proofFlavor ∧ IsIdentifier runId ∧ b.aggregationArity ≠ 0 then
    some ⟨kind, runId, job, attempt,
      ⟨staged.contentDigest, staged.size, b.srsSourceDigest, b.proofFlavor, b.circuitDigest, b.k, b.aggregationArity⟩, h.1⟩
  else none

def commitProof (planned : PlannedJob) (job : JobId) (attempt : AttemptId) (staged : Staged) (binding : ProofBinding) :
    Queue Unit := do
  let db ← read
  let identity ← orFail .store (binding.identity planned.kind db.runId job attempt staged.contentDigest)
  let published ← orFail .store staged.published
  let _ ← perform (commitVerifiedArtifact ⟨identity, planned.logicalId, published⟩)

def commitKey (runtime : QueueRuntime) (planned : PlannedJob) (job : JobId) (attempt : AttemptId) (staged : Staged)
    (binding : KeyBinding) : Queue Unit := do
  let db ← read
  let identity ← orFail .store (binding.identity planned.kind db.runId job attempt staged)
  let published ← orFail .store staged.published
  let _ ← perform (commitVerifiedKey runtime.keyIdentityDigest ⟨identity, published⟩)

/-- The event that ends the attempt, for the kinds that have one. -/
def completionEvent : JobKind → Option JobEvent
  | .witness => some .witnessCompleted
  | .prepare => some .preparationCompleted
  | .leafProof => some .proofProduced
  | .leafVerification | .nativeAggregate => none

/-- The attempt is completed in one transaction, and its output committed in another. -/
def finishSuccess (runtime : QueueRuntime) (planned : PlannedJob) (job : JobId) (attempt : AttemptId)
    (staged : Option Staged) : Queue Unit :=
  if planned.kind = .leafVerification then do
    let _ ← perform (completeVerification job attempt "independent-verifier")
  else do
    completeAttempt
    let object ← orFail (.missingStaged attempt.text planned.logicalId) staged
    match planned.binding with
    | .proof binding => commitProof planned job attempt object binding
    | .key binding => commitKey runtime planned job attempt object binding
where
  completeAttempt : Queue Unit :=
    match completionEvent planned.kind with
    | some event => do
        let _ ← perform (applyAttemptEvent job attempt event)
    | none => pure ()

def runOne (runtime : QueueRuntime) (planned : PlannedJob) (job : JobId) : Queue Unit := do
  let attempt ← transact .db (fun db => [⟨job, db⟩]) (beginAttempt job (startEvent planned.kind))
  match runtime.attemptResult attempt with
  | .notLaunched => fail .protocol
  | .failed => do
      let _ ← perform (handleAttemptFailure job attempt
        (FailureRecord.new .execution (stageFor planned.kind) .workerExit) none)
  | .rejected => fail (.verificationRejected attempt)
  | .accepted staged => finishSuccess runtime planned job attempt staged

end Attempts

/-- One selected job of a round; the first plan entry with its id is run. -/
def runSelected (runtime : QueueRuntime) (entries : List Entry) (_ : Unit) (job : JobId) : Queue Unit := do
  let entry ← orFail (.missingStaged "" job.text) (entries.find? fun e => e.id = job)
  runOne runtime entry.planned job

/-- The rounds of the queue, at most `fuel` of them. It is left when nothing is ready or nothing is selected. -/
def queueRounds (runtime : QueueRuntime) (plan : QueuePlan) (entries : List Entry) : ℕ → ℕ → Queue ℕ
  | 0, _ => fail (.stalled runtime.maxRounds)
  | fuel + 1, round => do
      let _ ← perform refreshReadiness
      let candidates ← readyCandidates plan entries
      if candidates = [] then return round
      else
        let selected ← decideWithMemory (runtime.admits round) runtime.capacity runtime.capacity (runtime.now round)
          candidates
        if selected = [] then return round
        else
          foldEach (runSelected runtime entries) () selected
          queueRounds runtime plan entries fuel (round + 1)

def summarize (db : RunDb) (rounds : ℕ) : QueueOutcome where
  verified := ((orderedJobs db).filter fun row => row.state = .verified).map JobRow.id
  terminal := ((orderedJobs db).filter fun row => row.state ≠ .verified ∧ row.state ≠ .blocked ∧
    (row.state = .verificationFailed ∨ row.terminalFailure = true)).map JobRow.id
  blocked := ((orderedJobs db).filter fun row => row.state = .blocked).map JobRow.id
  rounds := rounds

def runQueue (runtime : QueueRuntime) (plan : QueuePlan) : Queue QueueOutcome := do
  let _ ← perform recoverInterrupted
  let entries ← ensurePlanned plan
  let rounds ← queueRounds runtime plan entries runtime.maxRounds 0
  let db ← read
  return summarize db rounds

section Invariants

variable {I E : RunDb → List Start → Prop} {plan : QueuePlan} {entries : List Entry}

theorem queryJob_keeps (hE : ∀ db starts, I db starts → E db starts) (job : JobId) :
    Spec I (queryJob job) (fun _ => I) E :=
  Spec.bind (Q := fun _ => I) (.read fun _ _ h => h) fun _ => .orFail hE fun _ _ _ _ h => h

theorem readyCandidates_keeps (hE : ∀ db starts, I db starts → E db starts) :
    Spec I (readyCandidates plan entries) (fun _ => I) E := by
  apply Spec.foldEach (I := fun _ _ => I)
  intro planned rest candidates
  apply Spec.bind (Q := fun _ => I)
  · apply Spec.bind (Q := fun _ => I)
    · exact .orFail hE fun _ _ _ _ h => h
    · exact fun _ => .pure fun _ _ h => h
  · exact fun job => (queryJob_keeps hE job).bind fun _ => .pure fun _ _ h => h

theorem decide_keeps (hE : ∀ db starts, I db starts → E db starts)
    (hrefresh : Spec I (perform refreshReadiness) (fun _ => I) E) (configured available : ResourceCapacity) (now : ℤ)
    (candidates : List SchedulableJob) : Spec I (decide configured available now candidates) (fun _ => I) E := by
  unfold decide
  split
  · exact .fail hE
  apply hrefresh.bind
  intro _
  apply Spec.bind (Q := fun _ => I)
  · apply Spec.foldEach (I := fun _ _ => I)
    intro candidate rest eligible
    apply (queryJob_keeps hE candidate.jobId).bind
    intro row
    exact Spec.bind (Q := fun _ => I) (.read fun _ _ h => h) fun _ => .pure fun _ _ h => h
  · exact fun _ => .pure fun _ _ h => h

/-- An invariant that a sweep and the run of one job keep is kept by all rounds. -/
theorem queueRounds_keeps {runtime : QueueRuntime} (hE : ∀ db starts, I db starts → E db starts)
    (hrefresh : Spec I (perform refreshReadiness) (fun _ => I) E)
    (hrun : ∀ entry job, (entries.find? fun e => e.id = job) = some entry →
      Spec I (runOne runtime entry.planned job) (fun _ => I) E) (fuel round : ℕ) :
    Spec I (queueRounds runtime plan entries fuel round) (fun _ => I) E := by
  induction fuel generalizing round with
  | zero => exact .fail hE
  | succ fuel ih =>
      apply hrefresh.bind
      intro _
      apply (readyCandidates_keeps hE).bind
      intro candidates
      split
      · exact .pure fun _ _ h => h
      apply Spec.bind (Q := fun _ => I)
      · unfold decideWithMemory
        split
        · exact decide_keeps hE hrefresh _ _ _ candidates
        · exact .pure fun _ _ h => h
      intro selected
      split
      · exact .pure fun _ _ h => h
      apply Spec.bind (Q := fun _ => I)
      · apply Spec.foldEach (I := fun _ _ => I)
        intro job rest _
        apply Spec.bind (Q := fun entry db starts => (entries.find? fun e => e.id = job) = some entry ∧ I db starts)
        · exact .orFail hE fun entry hentry _ _ h => ⟨hentry, h⟩
        · exact fun entry => .given (hrun entry job)
      · exact fun _ => ih (round + 1)

end Invariants

end Zkie.RunQueue
