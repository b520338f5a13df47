import Cadena.Base.Table
import Cadena.Base.Transition
import Cadena.Connectors.Types

/-!
# Work orders

The table `integration_connector_work_orders` and every statement of
`connector.service.ts` that writes it, each as one function on the
database. Which statement runs when is `WorkOrderQueue`.
-/

namespace Cadena.Connectors

open Cadena.Base

def maxWorkOrderAttempts : Nat := 5
def workOrderBaseBackoffMs : Nat := 30000
def workOrderMaxBackoffMs : Nat := 60 * 60000
def workOrderClaimMs : Millis := 2 * 60000

inductive WorkOrderStatus where
  | pending | processing | executed | failed | dead | held | noop
  deriving DecidableEq

namespace WorkOrderStatus

/-- `status IN ('pending', 'processing', 'failed', 'dead', 'held')`: what
keeps younger orders of the twin waiting. -/
def unfinished : WorkOrderStatus → Bool
  | pending | processing | failed | dead | held => true
  | executed | noop => false

/-- Executed and noop orders are done for good. -/
def settled (s : WorkOrderStatus) : Bool := !s.unfinished

end WorkOrderStatus

inductive WorkOrderOrigin where
  | stateTranslation | statePropagation | operatorEdit
  deriving DecidableEq

inductive AttemptOutcome where
  | completed | executed | held | retryScheduled | deadLettered | requeued
  deriving DecidableEq

/-- One entry of `attempt_history`. -/
structure ConnectorQueueAttempt where
  attempt : Nat
  startedAt : Millis
  completedAt : Millis
  outcome : AttemptOutcome
  error : Option String
  deriving DecidableEq

/-- A row of `integration_connector_work_orders`. -/
structure WorkOrder where
  id : Uuid
  orgId : Uuid
  transactionId : Option Uuid
  origin : WorkOrderOrigin
  sourceEventId : Option Uuid
  sourcePayload : Fields
  sourceConnectorId : Option Uuid
  targetConnectorId : Uuid
  targetTwinId : Uuid
  targetEntityType : String
  targetExternalId : String
  targetState : Option String
  fields : Fields
  status : WorkOrderStatus
  attempts : Nat
  lastError : Option String
  nextAttemptAt : Option Millis
  executedAt : Option Millis
  queuePosition : Nat
  attemptHistory : List ConnectorQueueAttempt
  claimedBy : Option String
  claimExpiresAt : Option Millis

/-- The columns no statement changes once the order is inserted. -/
def WorkOrder.key (w : WorkOrder) : Uuid × Uuid × Uuid × Nat × Option Uuid :=
  (w.id, w.orgId, w.targetTwinId, w.queuePosition, w.sourceEventId)

/-- `q` waits in front of `w` in the queue of one twin. -/
def WorkOrder.Before (q w : WorkOrder) : Prop :=
  q.orgId = w.orgId ∧ q.targetTwinId = w.targetTwinId ∧ q.queuePosition < w.queuePosition

instance (q w : WorkOrder) : Decidable (q.Before w) :=
  inferInstanceAs (Decidable (_ ∧ _ ∧ _))

/-- What `ConnectorWorkOrderExecuted`, `ConnectorOperatorStateWritten` and
`ConnectorWorkOrderFailed` have in common. -/
structure WorkOrderReport where
  workOrderId : Uuid
  transactionId : Option Uuid
  targetConnectorId : Uuid
  targetTwinId : Uuid
  targetExternalId : String
  targetState : Option String
  attempts : Nat

/-- What `ConnectorOperatorStateWritten` adds for the propagation consumer. -/
structure OperatorWrite where
  identity : SyncIdentity
  nativeStatus : Option String
  stateChanged : Bool
  fieldsChanged : Bool
  updatedBy : Uuid
  fields : Fields

/-- The domain events that the statements below append. -/
inductive WorkOrderEvent where
  | connectorWorkOrderHeld (workOrderId : Uuid) (transactionId : Option Uuid)
      (targetTwinId : Uuid) (reason : String) (error : Option String)
  | connectorWorkOrderExecuted (report : WorkOrderReport) (message : String)
  | connectorOperatorStateWritten (report : WorkOrderReport) (write : OperatorWrite)
      (message : String)
  | connectorWorkOrderFailed (report : WorkOrderReport) (retryable final : Bool)
      (error : String)
  | twinQueueEntryReinjected (queueEntryId connectorId : Uuid) (twinId : Option Uuid)
      (corrected : Bool)

/-- The tables a work order's life touches, and the sequence that hands
out queue positions. -/
structure Db where
  orders : List WorkOrder
  twins : List CanonicalTwin
  events : List WorkOrderEvent
  nextPosition : Nat

/-- The columns the inserting caller supplies. -/
structure NewWorkOrder where
  id : Uuid
  orgId : Uuid
  origin : WorkOrderOrigin
  sourceEventId : Option Uuid
  sourcePayload : Fields
  sourceConnectorId : Option Uuid
  targetConnectorId : Uuid
  targetTwinId : Uuid
  targetEntityType : String
  targetExternalId : String
  targetState : Option String
  fields : Fields

def NewWorkOrder.row (n : NewWorkOrder) (position : Nat) : WorkOrder where
  id := n.id
  orgId := n.orgId
  transactionId := none
  origin := n.origin
  sourceEventId := n.sourceEventId
  sourcePayload := n.sourcePayload
  sourceConnectorId := n.sourceConnectorId
  targetConnectorId := n.targetConnectorId
  targetTwinId := n.targetTwinId
  targetEntityType := n.targetEntityType
  targetExternalId := n.targetExternalId
  targetState := n.targetState
  fields := n.fields
  status := .pending
  attempts := 0
  lastError := none
  nextAttemptAt := none
  executedAt := none
  queuePosition := position
  attemptHistory := []
  claimedBy := none
  claimExpiresAt := none

/-- The unique index on `(source_event_id, target_twin_id)` has this pair. -/
def eventTwinTaken (orders : List WorkOrder) (n : NewWorkOrder) : Bool :=
  n.sourceEventId.isSome && orders.any fun w =>
    w.sourceEventId = n.sourceEventId && w.targetTwinId = n.targetTwinId

/-- `INSERT … ON CONFLICT (source_event_id, target_twin_id) DO NOTHING`. The
default of `queue_position` draws from the sequence either way. -/
def insertWorkOrder (db : Db) (n : NewWorkOrder) : Db :=
  { db with
    orders :=
      if eventTwinTaken db.orders n then db.orders
      else db.orders ++ [n.row db.nextPosition]
    nextPosition := db.nextPosition + 1 }

/-- The order as `executeWorkOrder` first reads it. -/
def loadWorkOrder (db : Db) (orgId workOrderId : Uuid) : Option WorkOrder :=
  db.orders.find? fun w => w.id = workOrderId && w.orgId = orgId

/-- `claim_expires_at IS NULL OR claim_expires_at <= now`. -/
def claimExpired (w : WorkOrder) (now : Millis) : Bool :=
  match w.claimExpiresAt with
  | none => true
  | some e => e ≤ now

/-- Whether the loaded row lets the call go on: its status is one that can
be worked on, no live claim holds it, and its connector is activated and
not paused. -/
def mayExecute (row : WorkOrder) (now : Millis) (connectorOpen : Bool) : Bool :=
  match row.status with
  | .pending | .failed => connectorOpen
  | .processing => claimExpired row now && connectorOpen
  | _ => false

/-- An unfinished older order of the same twin exists. -/
def blocked (db : Db) (row : WorkOrder) : Bool :=
  db.orders.any fun w => decide (w.Before row) && w.status.unfinished

/-- The `WHERE` of the claim: the attempt count is still the one that was
read, and nobody holds a live claim. -/
def claimable (row : WorkOrder) (dbNow : Millis) (w : WorkOrder) : Bool :=
  w.id = row.id && w.orgId = row.orgId && w.attempts = row.attempts
    && (w.status = .pending || w.status = .failed
      || (w.status = .processing && claimExpired w dbNow))

def claimRow (claimId : String) (expires : Millis) (w : WorkOrder) : WorkOrder :=
  { w with
    status := .processing, attempts := w.attempts + 1, claimedBy := some claimId
    claimExpiresAt := some expires }

/-- The claim statement and the row it returns. -/
def claimWorkOrder (db : Db) (row : WorkOrder) (claimId : String)
    (dbNow workerNow : Millis) : Db × Option WorkOrder :=
  let claim := claimRow claimId (workerNow + workOrderClaimMs)
  ({ db with orders := Table.update (claimable row dbNow) claim db.orders },
    (db.orders.find? (claimable row dbNow)).map claim)

/-! ## Statements of the claim's holder

Each names the claim id in its `WHERE`. The twin row and the event beside
it, where there are any, do not. -/

/-- `WHERE id = … AND org_id = … AND claimed_by = …`. -/
def heldBy (work : WorkOrder) (claimId : String) (w : WorkOrder) : Bool :=
  w.id = work.id && w.orgId = work.orgId && w.claimedBy = some claimId

def updateHeld (db : Db) (work : WorkOrder) (claimId : String)
    (set : WorkOrder → WorkOrder) : Db :=
  { db with orders := Table.update (heldBy work claimId) set db.orders }

/-- Gives the claim up with a new status. -/
def WorkOrder.release (w : WorkOrder) (status : WorkOrderStatus) : WorkOrder :=
  { w with status := status, claimedBy := none, claimExpiresAt := none }

def setSyncState (twins : List CanonicalTwin) (twinId orgId : Uuid) (s : SyncState) :
    List CanonicalTwin :=
  Table.update (fun t => t.id = twinId && t.orgId = orgId)
    (fun t => { t with syncState := s }) twins

/-- The translation is saved before the provider is called. -/
def saveTranslation (db : Db) (work : WorkOrder) (claimId : String)
    (transactionId : Option Uuid) (targetState : Option String) (fields : Fields) : Db :=
  updateHeld db work claimId fun w =>
    { w with transactionId := transactionId, targetState := targetState, fields := fields }

def settleNoop (db : Db) (work : WorkOrder) (claimId : String)
    (transactionId : Option Uuid) (targetState : Option String) (fields : Fields)
    (attempt : ConnectorQueueAttempt) : Db :=
  updateHeld db work claimId fun w =>
    { w.release .noop with
      transactionId := transactionId, targetState := targetState, fields := fields
      attemptHistory := work.attemptHistory ++ [attempt] }

def holdWorkOrder (db : Db) (work : WorkOrder) (claimId : String)
    (transactionId : Option Uuid) (reason : String) (message : Option String)
    (attempt : ConnectorQueueAttempt) : Db :=
  let held := updateHeld db work claimId fun w =>
    { w.release .held with
      transactionId := transactionId, lastError := some (sliceString (message.getD "") 500)
      attemptHistory := work.attemptHistory ++ [attempt] }
  { held with
    twins := setSyncState db.twins work.targetTwinId work.orgId .paused
    events := db.events ++
      [.connectorWorkOrderHeld work.id transactionId work.targetTwinId reason message] }

def otherBlocked (orders : List WorkOrder) (t : CanonicalTwin) (workOrderId : Uuid) : Bool :=
  orders.any fun w =>
    w.orgId = t.orgId && w.targetTwinId = t.id && w.id ≠ workOrderId
      && (w.status = .dead || w.status = .held)

def executedEvent (work : WorkOrder) (targetEntity provider : String)
    (report : WorkOrderReport) (fields : Fields) (message : String) : WorkOrderEvent :=
  if work.origin = .operatorEdit then
    .connectorOperatorStateWritten report
      { identity := ⟨provider, targetEntity, work.targetExternalId⟩
        nativeStatus := report.targetState
        stateChanged := truthy report.targetState
        fieldsChanged := fields.length > 0
        updatedBy := report.targetConnectorId
        fields := ((lookup work.sourcePayload "fields").bind Json.entries?).getD [] }
      message
  else .connectorWorkOrderExecuted report message

/-- A successful write: the order row, the guarded resync of the twin and
the event in one transaction. -/
def settleExecuted (db : Db) (work : WorkOrder) (claimId : String)
    (now : Millis) (attempt : ConnectorQueueAttempt) (event : WorkOrderEvent) : Db :=
  let done := updateHeld db work claimId fun w =>
    { w.release .executed with
      executedAt := some now, lastError := none, nextAttemptAt := none
      attemptHistory := work.attemptHistory ++ [attempt] }
  { done with
    twins := Table.update
      (fun t => t.id = work.targetTwinId && t.orgId = work.orgId
        && !otherBlocked done.orders t work.id)
      (fun t => { t with syncState := .synced }) db.twins
    events := db.events ++ [event] }

/-- A failed attempt: the order row, the twin when the order is dead, and
the event in one transaction. -/
def settleFailed (db : Db) (work : WorkOrder) (claimId : String) (final : Bool)
    (message : String) (nextAttemptAt : Option Millis) (attempt : ConnectorQueueAttempt)
    (event : WorkOrderEvent) : Db :=
  let failed := updateHeld db work claimId fun w =>
    { w.release (if final then .dead else .failed) with
      lastError := some (sliceString message 500), nextAttemptAt := nextAttemptAt
      attemptHistory := work.attemptHistory ++ [attempt] }
  { failed with
    twins :=
      if final then setSyncState db.twins work.targetTwinId work.orgId .paused
      else db.twins
    events := db.events ++ [event] }

/-- Load shedding gives the attempt back. -/
def deferShedWork (db : Db) (work : WorkOrder) (claimId : String) (message : String)
    (until_ : Millis) : Db :=
  updateHeld db work claimId fun w =>
    { w.release .pending with
      attempts := w.attempts - 1
      lastError := some (sliceString ("Deferred: " ++ message) 500)
      nextAttemptAt := some until_ }

/-- The heartbeat of a running call. -/
def renewWorkOrderClaim (db : Db) (workOrderId : Uuid) (claimId : String)
    (workerNow : Millis) : Db :=
  { db with
    orders := Table.update
      (fun w => w.id = workOrderId && w.claimedBy = some claimId && w.status = .processing)
      (fun w => { w with claimExpiresAt := some (workerNow + workOrderClaimMs) }) db.orders }

/-- The transaction of `reinjectTwinDeadLetter` for a work order; the entry
was read before and the new payload computed from it. -/
def reinjectWorkOrder (db : Db) (orgId connectorId entryId twinId : Uuid)
    (sourcePayload : Fields) (targetState : String) (fields : Fields)
    (history : List ConnectorQueueAttempt) (corrected : Bool) : Db :=
  { db with
    orders := Table.update
      (fun w => w.id = entryId && w.orgId = orgId && w.targetConnectorId = connectorId
        && (w.status = .dead || w.status = .held))
      (fun w => { w.release .pending with
        sourcePayload := sourcePayload, targetState := some targetState, fields := fields
        transactionId := if w.origin = .statePropagation then none else w.transactionId
        attempts := 0, attemptHistory := history, lastError := none
        nextAttemptAt := none, executedAt := none }) db.orders
    twins := setSyncState db.twins twinId orgId .synced
    events := db.events ++ [.twinQueueEntryReinjected entryId connectorId (some twinId) corrected] }

/-- `onApplicationBootstrap` returns abandoned claims to the queue. -/
def recoverClaims (db : Db) (dbNow : Millis) : Db :=
  { db with
    orders := Table.update
      (fun w => w.status = .processing && claimExpired w dbNow)
      (fun w => { w.release .failed with nextAttemptAt := some dbNow }) db.orders }

end Cadena.Connectors
