import Mathlib.Data.String.Basic

namespace Zkie.RunState

def maxIdBytes : ℕ := 256

/-- The check of every identifier: nonempty, short, and printable ASCII. -/
def IsIdentifier (text : String) : Prop :=
  text ≠ "" ∧ text.utf8ByteSize ≤ maxIdBytes ∧
    ∀ c ∈ text.toList, c.toNat < 128 ∧ ¬(c.toNat < 32 ∨ c.toNat = 127)

instance (text : String) : Decidable (IsIdentifier text) :=
  @instDecidableAnd _ _ _ (@instDecidableAnd _ _ _ (List.decidableBAll _ _))

@[ext]
structure Identifier where
  text : String
  valid : IsIdentifier text
  deriving DecidableEq, Repr

abbrev JobId : Type := Identifier

abbrev AttemptId : Type := Identifier

abbrev VerificationRecordId : Type := Identifier

def Identifier.new? (text : String) : Option Identifier :=
  if h : IsIdentifier text then some ⟨text, h⟩ else none

inductive JobKind where
  | witness
  | prepare
  | leafProof
  | leafVerification
  | nativeAggregate
  deriving DecidableEq, Repr

inductive JobState where
  | pending
  | ready
  | witnessing
  | witnessReady
  | preparing
  | prepared
  | proving
  | proved
  | verifying
  | verified
  | executionFailed
  | verificationFailed
  | resourceExceeded
  | interrupted
  | requeued
  | blocked
  deriving DecidableEq, Repr

inductive FailureKind where
  | execution
  | verification
  | resourceExceeded
  | dependency
  | interrupted
  deriving DecidableEq, Repr

def FailureKind.summary : FailureKind → String
  | .execution => "execution failed"
  | .verification => "verification failed"
  | .resourceExceeded => "resource limit exceeded"
  | .dependency => "dependency failed"
  | .interrupted => "interrupted"

inductive FailureStage where
  | witness
  | prepare
  | prove
  | verify
  | aggregate
  | scheduler
  deriving DecidableEq, Repr

inductive FailureCode where
  | workerExit
  | invalidResult
  | resourceLimit
  | predecessorFailed
  | schedulerRestart
  deriving DecidableEq, Repr

structure FailureRecord where
  kind : FailureKind
  stage : FailureStage
  code : FailureCode
  summary : String
  deriving DecidableEq, Repr

def FailureRecord.new (kind : FailureKind) (stage : FailureStage) (code : FailureCode) : FailureRecord :=
  ⟨kind, stage, code, kind.summary⟩

inductive JobEvent where
  | dependenciesSatisfied
  | dependencyBlocked (predecessor : JobId)
  | startWitnessing
  | witnessCompleted
  | startPreparing
  | preparationCompleted
  | startProving
  | proofProduced
  | startVerification
  | verificationSucceeded (verificationRecord : Option VerificationRecordId)
  | executionFailed (failure : FailureRecord)
  | verificationFailed (failure : FailureRecord)
  | resourceExceeded (failure : FailureRecord)
  | interrupted (failure : FailureRecord)
  | retryExecution
  | retryResourceExceeded
  | recoveryRequeue
  deriving DecidableEq, Repr

namespace JobEvent

def name : JobEvent → String
  | dependenciesSatisfied => "dependencies-satisfied"
  | dependencyBlocked _ => "dependency-blocked"
  | startWitnessing => "start-witnessing"
  | witnessCompleted => "witness-completed"
  | startPreparing => "start-preparing"
  | preparationCompleted => "preparation-completed"
  | startProving => "start-proving"
  | proofProduced => "proof-produced"
  | startVerification => "start-verification"
  | verificationSucceeded _ => "verification-succeeded"
  | executionFailed _ => "execution-failed"
  | verificationFailed _ => "verification-failed"
  | resourceExceeded _ => "resource-exceeded"
  | interrupted _ => "interrupted"
  | retryExecution => "retry-execution"
  | retryResourceExceeded => "retry-resource-exceeded"
  | recoveryRequeue => "recovery-requeue"

def failure : JobEvent → Option FailureRecord
  | executionFailed f | verificationFailed f | resourceExceeded f | interrupted f => some f
  | _ => none

def blockingPredecessor : JobEvent → Option JobId
  | dependencyBlocked predecessor => some predecessor
  | _ => none

def StartsAttempt (event : JobEvent) : Prop :=
  event ∈ [startWitnessing, startPreparing, startProving, startVerification]

instance (event : JobEvent) : Decidable event.StartsAttempt := inferInstanceAs (Decidable (_ ∈ _))

end JobEvent

namespace JobState

def activeStates : List JobState := [witnessing, preparing, proving, verifying]

def IsActive (s : JobState) : Prop := s ∈ activeStates

instance (s : JobState) : Decidable s.IsActive := inferInstanceAs (Decidable (_ ∈ _))

/-- The states that an event leaves and the state that it enters: one arm of the source's match for
each event. A failure event only applies to a failure of its own kind. -/
def arm : JobEvent → List JobState × JobState
  | .dependenciesSatisfied => ([pending, requeued], ready)
  | .dependencyBlocked _ => ([pending, requeued], blocked)
  | .startWitnessing => ([ready], witnessing)
  | .witnessCompleted => ([witnessing], witnessReady)
  | .startPreparing => ([ready, witnessReady], preparing)
  | .preparationCompleted => ([preparing], prepared)
  | .startProving => ([ready, preparing], proving)
  | .proofProduced => ([proving], proved)
  | .startVerification => ([ready, witnessReady, preparing, proved], verifying)
  | .verificationSucceeded (some _) => ([witnessReady, prepared, proved, verifying], verified)
  | .verificationSucceeded none => ([], verified)
  | .executionFailed f => (if f.kind = .execution then activeStates else [], executionFailed)
  | .verificationFailed f =>
      (if f.kind = .verification then [witnessReady, prepared, proved, verifying] else [], verificationFailed)
  | .resourceExceeded f => (if f.kind = .resourceExceeded then activeStates else [], resourceExceeded)
  | .interrupted f => (if f.kind = .interrupted then activeStates else [], interrupted)
  | .retryExecution => ([executionFailed], requeued)
  | .retryResourceExceeded => ([resourceExceeded], requeued)
  | .recoveryRequeue => ([interrupted], requeued)

end JobState

structure TransitionError where
  source : JobState
  event : String
  deriving DecidableEq, Repr

def JobState.transition (s : JobState) (event : JobEvent) : Except TransitionError JobState :=
  if s ∈ (arm event).1 then .ok (arm event).2 else .error ⟨s, event.name⟩

theorem JobState.transition_eq_ok {s next : JobState} {event : JobEvent} :
    s.transition event = .ok next ↔ s ∈ (arm event).1 ∧ next = (arm event).2 := by
  unfold transition
  split
  · simp_all [eq_comm]
  · simp_all

/-- The start event that a kind of job needs. -/
def StartMatchesKind (kind : JobKind) (event : JobEvent) : Prop :=
  (kind, event) ∈ [(JobKind.witness, JobEvent.startWitnessing), (.prepare, .startPreparing), (.leafProof, .startProving),
    (.leafVerification, .startVerification), (.nativeAggregate, .startVerification)]

instance (kind : JobKind) (event : JobEvent) : Decidable (StartMatchesKind kind event) :=
  inferInstanceAs (Decidable (_ ∈ _))

end Zkie.RunState
