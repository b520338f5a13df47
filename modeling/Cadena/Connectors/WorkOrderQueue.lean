import Cadena.Connectors.WorkOrder

/-!
# The work-order queue as a system

Any number of `executeWorkOrder` calls run against one database. The
load, the blocked check, the claim, the saving of the translation and
each outcome are separate atomic steps; between them other calls,
insertions, re-injections and restarts may run. Clock readings are
arguments of the steps, so nothing is assumed about the clocks.

A call that never takes another step is a worker that crashed.
-/

namespace Cadena.Connectors

open Cadena.Base

/-- What the translation services decided for a propagated order. -/
inductive Translation where
  | hold (transactionId : Option Uuid) (reason : String) (message : Option String)
  | ready (transactionId : Option Uuid) (targetState : Option String) (fields : Fields)
      (effectiveStatus : Option String)

/-- What a translation or a provider write can throw. -/
inductive ExecError where
  | loadShed (message : String) (until_ : Millis)
  | remote (message : String) (retryable : Bool) (retryAfterSeconds : Option Nat)
  | credential (message : String)
  | other (message : String)

namespace ExecError

def message : ExecError → String
  | loadShed m _ | remote m _ _ | credential m | other m => m

/-- Worth another attempt by itself, whatever was in progress. -/
def retryable : ExecError → Bool
  | remote _ r _ => r
  | credential _ => true
  | _ => false

end ExecError

def retryAfterMs (error : ExecError) (attempts : Nat) : Nat :=
  match error with
  | .remote _ _ (some (n + 1)) => (n + 1) * 1000
  | _ => min (workOrderBaseBackoffMs * 2 ^ (attempts - 1)) workOrderMaxBackoffMs

/-- Where a call of `executeWorkOrder` stands. -/
inductive Stage where
  | loaded (row : WorkOrder)
  | unblocked (row : WorkOrder)
  | translating (work : WorkOrder) (claimId : String)
  | writing (work : WorkOrder) (claimId : String) (transactionId : Option Uuid)
      (targetState : Option String) (fields : Fields)
  | returned (status : WorkOrderStatus)

/-- The database and every call that has begun. -/
structure QueueState where
  db : Db
  calls : Nat → Option Stage

/-- The clock readings of one attempt. -/
structure AttemptTimes where
  startedAt : Millis
  completedAt : Millis

inductive QueueAction where
  | insert (order : NewWorkOrder)
  | load (call : Nat) (orgId workOrderId : Uuid) (now : Millis) (connectorOpen : Bool)
  | checkBlocked (call : Nat)
  | claim (call : Nat) (claimId : String) (dbNow workerNow : Millis)
  | translate (call : Nat) (translation : Translation) (times : AttemptTimes)
  | push (call : Nat) (provider message : String) (times : AttemptTimes)
  | fail (call : Nat) (error : ExecError) (transactionId : Option Uuid)
      (targetState : Option String) (times : AttemptTimes)
  | renew (call : Nat) (workerNow : Millis)
  | reinject (orgId connectorId entryId twinId : Uuid) (sourcePayload : Fields)
      (targetState : String) (fields : Fields) (history : List ConnectorQueueAttempt)
      (corrected : Bool)
  | recover (dbNow : Millis)

def attemptOf (work : WorkOrder) (times : AttemptTimes) (outcome : AttemptOutcome)
    (error : Option String) : ConnectorQueueAttempt :=
  ⟨work.attempts, times.startedAt, times.completedAt, outcome, error⟩

def reportOf (work : WorkOrder) (transactionId : Option Uuid)
    (targetState : Option String) : WorkOrderReport where
  workOrderId := work.id
  transactionId := transactionId
  targetConnectorId := work.targetConnectorId
  targetTwinId := work.targetTwinId
  targetExternalId := work.targetExternalId
  targetState := targetState
  attempts := work.attempts

/-- The stage after a successful claim: a propagated order that has no
translation yet is translated first. -/
def claimedStage (work : WorkOrder) (claimId : String) : Stage :=
  if work.origin = .statePropagation ∧ work.transactionId = none then
    .translating work claimId
  else .writing work claimId work.transactionId work.targetState work.fields

/-- The claim a call holds, or believes it holds. -/
def Stage.claim? : Stage → Option (WorkOrder × String)
  | .translating work claimId => some (work, claimId)
  | .writing work claimId _ _ _ => some (work, claimId)
  | _ => none

section Steps

variable (P : Platform)

def QueueState.advance (s : QueueState) (db : Db) (call : Nat) (stage : Stage) : QueueState :=
  ⟨db, setAt s.calls call (some stage)⟩

def loadStep (s : QueueState) (call : Nat) (orgId workOrderId : Uuid) (now : Millis)
    (connectorOpen : Bool) : Option QueueState :=
  match s.calls call, loadWorkOrder s.db orgId workOrderId with
  | none, some row =>
    some (s.advance s.db call
      (if mayExecute row now connectorOpen then .loaded row else .returned row.status))
  | _, _ => none

def checkBlockedStep (s : QueueState) (call : Nat) : Option QueueState :=
  match s.calls call with
  | some (.loaded row) =>
    some (s.advance s.db call
      (if blocked s.db row then .returned row.status else .unblocked row))
  | _ => none

def claimStep (s : QueueState) (call : Nat) (claimId : String) (dbNow workerNow : Millis) :
    Option QueueState :=
  match s.calls call with
  | some (.unblocked row) =>
    let result := claimWorkOrder s.db row claimId dbNow workerNow
    some (s.advance result.1 call
      (match result.2 with
        | some work => claimedStage work claimId
        | none => .returned row.status))
  | _ => none

/-- Nothing to write: the state is the one in force and no field is set. -/
def isNoop (targetState : Option String) (fields : Fields)
    (effectiveStatus : Option String) : Bool :=
  (!truthy targetState || sameState P effectiveStatus targetState) && fields.isEmpty

def translateStep (s : QueueState) (call : Nat) (translation : Translation)
    (times : AttemptTimes) : Option QueueState :=
  match s.calls call with
  | some (.translating work claimId) =>
    match translation with
    | .hold transactionId reason message =>
      some (s.advance
        (holdWorkOrder s.db work claimId transactionId reason message
          (attemptOf work times .held message))
        call (.returned .held))
    | .ready transactionId targetState fields effectiveStatus =>
      if isNoop P targetState fields effectiveStatus then
        some (s.advance
          (settleNoop s.db work claimId transactionId targetState fields
            (attemptOf work times .completed none))
          call (.returned .noop))
      else
        some (s.advance
          (saveTranslation s.db work claimId transactionId targetState fields)
          call (.writing work claimId transactionId targetState fields))
  | _ => none

def pushStep (s : QueueState) (call : Nat) (provider message : String)
    (times : AttemptTimes) : Option QueueState :=
  match s.calls call with
  | some (.writing work claimId transactionId targetState fields) =>
    some (s.advance
      (settleExecuted s.db work claimId times.completedAt
        (attemptOf work times .executed none)
        (executedEvent work work.targetEntityType provider
          (reportOf work transactionId targetState) fields message))
      call (.returned .executed))
  | _ => none

/-- The catch block of `executeWorkOrder`. -/
def failWith (s : QueueState) (call : Nat) (work : WorkOrder) (claimId : String)
    (translationInProgress : Bool) (report : WorkOrderReport) (error : ExecError)
    (times : AttemptTimes) : QueueState :=
  match error with
  | .loadShed message until_ =>
    s.advance (deferShedWork s.db work claimId message until_) call (.returned .pending)
  | error =>
    let retryable := translationInProgress || error.retryable
    let final := !(retryable && work.attempts < maxWorkOrderAttempts)
    s.advance
      (settleFailed s.db work claimId final error.message
        (if final then none
          else some (times.completedAt + retryAfterMs error work.attempts))
        (attemptOf work times (if final then .deadLettered else .retryScheduled)
          (some error.message))
        (.connectorWorkOrderFailed report retryable final error.message))
      call (.returned (if final then .dead else .failed))

def failStep (s : QueueState) (call : Nat) (error : ExecError)
    (transactionId : Option Uuid) (targetState : Option String) (times : AttemptTimes) :
    Option QueueState :=
  match s.calls call with
  | some (.translating work claimId) =>
    some (failWith s call work claimId true (reportOf work transactionId targetState)
      error times)
  | some (.writing work claimId transactionId targetState _) =>
    some (failWith s call work claimId false (reportOf work transactionId targetState)
      error times)
  | _ => none

def renewStep (s : QueueState) (call : Nat) (workerNow : Millis) : Option QueueState :=
  match (s.calls call).bind Stage.claim? with
  | some (work, claimId) =>
    some { s with db := renewWorkOrderClaim s.db work.id claimId workerNow }
  | none => none

/-- The primary key refuses an id that is already there. -/
def insertStep (s : QueueState) (order : NewWorkOrder) : Option QueueState :=
  if s.db.orders.any fun w => w.id = order.id then none
  else some { s with db := insertWorkOrder s.db order }

def queueStep (s : QueueState) : QueueAction → Option QueueState
  | .insert order => insertStep s order
  | .load call orgId workOrderId now connectorOpen =>
    loadStep s call orgId workOrderId now connectorOpen
  | .checkBlocked call => checkBlockedStep s call
  | .claim call claimId dbNow workerNow => claimStep s call claimId dbNow workerNow
  | .translate call translation times => translateStep P s call translation times
  | .push call provider message times => pushStep s call provider message times
  | .fail call error transactionId targetState times =>
    failStep s call error transactionId targetState times
  | .renew call workerNow => renewStep s call workerNow
  | .reinject orgId connectorId entryId twinId sourcePayload targetState fields history
      corrected =>
      let db := reinjectWorkOrder s.db orgId connectorId entryId twinId sourcePayload
        targetState fields history corrected
      some { s with db := db }
  | .recover dbNow => some { s with db := recoverClaims s.db dbNow }

def queue : System QueueState QueueAction := ⟨queueStep P⟩

end Steps

def emptyQueue (twins : List CanonicalTwin) : QueueState where
  db := ⟨[], twins, [], 1⟩
  calls := fun _ => none

def stateEdit (id : Uuid) : NewWorkOrder where
  id := id
  orgId := 1
  origin := .operatorEdit
  sourceEventId := none
  sourcePayload := []
  sourceConnectorId := none
  targetConnectorId := 2
  targetTwinId := 5
  targetEntityType := "incident"
  targetExternalId := "INC1"
  targetState := some "Closed"
  fields := []

end Cadena.Connectors
