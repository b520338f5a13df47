import Cadena.Connectors.FieldMapping
import Cadena.Connectors.WorkOrderFifo
import Cadena.Integrations.SyncGuardMarkers

/-!
# Propagation of twin events

`acceptPropagationEvent`: a committed change of a twin becomes one work
order for each counterpart, unless the guard recognises it as the return
of a write Cadena made. One delivery attempt is one function; it may throw
at any statement that follows the guard's evaluation.
-/

namespace Cadena.Connectors

open Cadena.Base Cadena.Integrations

inductive TwinEventType where
  | canonicalTwinMaterialized | canonicalTwinUpdated | connectorOperatorStateWritten
  deriving DecidableEq

/-- The payload entries that the consumer reads; `none` where there is none. -/
structure TwinEventPayload where
  orgId : Option Uuid
  twinId : Option Uuid
  stateChanged : Option Bool
  fieldsChanged : Option Bool
  identity : Option SyncIdentity
  nativeStatus : Option String
  state : Option String
  fields : Option Fields
  updatedBy : Option String
  title : Option String

structure TwinEvent where
  eventId : Uuid
  eventType : TwinEventType
  workItemId : Option Uuid
  payload : TwinEventPayload

inductive PropagationStatus where
  | processing | completed | echoSuppressed
  deriving DecidableEq

/-- A row of `integration_connector_propagations`. -/
structure PropagationReceipt where
  sourceEventId : Uuid
  orgId : Uuid
  sourceTwinId : Uuid
  status : PropagationStatus
  echoesSuppressed : Nat

/-- A row of `integration_correlation_links`. -/
structure CorrelationLink where
  orgId : Uuid
  sourceNodeId : Uuid
  targetNodeId : Uuid
  relationship : String

/-- What propagation reads and writes. -/
structure PropagationState where
  queue : QueueState
  receipts : List PropagationReceipt
  links : List CorrelationLink
  nodes : List SyncNode
  mappings : List FieldMappingDefinition
  guard : GuardState

/-! ## Reading the event -/

/-- `a || b || …` over strings; absent and empty are passed over. -/
def firstText (values : List (Option String)) : String :=
  ((values.find? truthy).getD (some "")).getD ""

/-- The event, resolved against the source twin. -/
structure PropagationInput where
  orgId : Uuid
  source : CanonicalTwin
  identity : SyncIdentity
  state : String
  stateChanged : Bool
  sourceFields : Fields

def propagationInput (event : TwinEvent) (orgId : Uuid) (source : CanonicalTwin) :
    PropagationInput where
  orgId := orgId
  source := source
  identity :=
    event.payload.identity.getD ⟨source.provider, source.artifactType, source.externalId⟩
  state := firstText [event.payload.nativeStatus, event.payload.state, source.nativeStatus]
  stateChanged := event.payload.stateChanged = some true
  sourceFields := event.payload.fields.getD source.payload

/-- `{ ...(stateChanged && state ? { state } : {}), ...(fields ? { fields } : {}) }`. -/
def echoPayload (state : Option String) (fields : Fields) : Json :=
  .obj ((match state with
    | some s => if s = "" then [] else [("state", .str s)]
    | none => [])
    ++ (if fields.isEmpty then [] else [("fields", .obj fields)]))

/-- What the guard is asked: the state if it changed, and of the fields
those that a published mapping writes to this endpoint. -/
def echoCheck (mappings : List FieldMappingDefinition) (event : TwinEvent)
    (input : PropagationInput) : EvaluateSyncWebhookDto where
  identity := input.identity
  actorId :=
    firstText [event.payload.updatedBy, some (input.source.provider ++ ":unattributed")]
  payload :=
    echoPayload (if input.stateChanged then some input.state else none)
      (pickPaths input.sourceFields
        (writtenFieldNames mappings input.orgId
          ⟨input.source.provider, input.source.artifactType⟩))

def counterpartNode (link : CorrelationLink) (orgId node : Uuid) : Option Uuid :=
  if link.orgId = orgId ∧ link.relationship = "counterpart"
      ∧ (link.sourceNodeId = node ∨ link.targetNodeId = node) then
    some (if link.sourceNodeId = node then link.targetNodeId else link.sourceNodeId)
  else none

def counterparts (s : PropagationState) (orgId : Uuid) (source : CanonicalTwin) :
    List CanonicalTwin :=
  match source.correlationNodeId with
  | none => []
  | some node =>
    ((s.links.filterMap fun link => counterpartNode link orgId node).flatMap fun other =>
      s.queue.db.twins.filter fun t =>
        t.orgId = orgId && t.correlationNodeId = some other).insertionSort
      fun a b => a.id.toNat ≤ b.id.toNat

def identityJson (identity : SyncIdentity) : Json :=
  .obj [("system", .str identity.system), ("entity_type", .str identity.entityType),
    ("immutable_id", .str identity.immutableId)]

/-- `state || null`. -/
def textOrNull (s : String) : Json := if s = "" then .null else .str s

/-- `payload.title || source.title`. -/
def titleJson (event source : Option String) : Json :=
  match (if truthy event then event else source) with
  | some t => .str t
  | none => .null

/-- The order for one counterpart: a snapshot of the source. -/
def propagationOrder (event : TwinEvent) (input : PropagationInput) (id : Uuid)
    (target : CanonicalTwin) : NewWorkOrder where
  id := id
  orgId := input.orgId
  origin := .statePropagation
  sourceEventId := some event.eventId
  sourcePayload :=
    [("identity", identityJson input.identity), ("state", textOrNull input.state),
      ("stateChanged", .bool input.stateChanged), ("fields", .obj input.sourceFields),
      ("title", titleJson event.payload.title input.source.title)]
  sourceConnectorId := some input.source.connectorId
  targetConnectorId := target.connectorId
  targetTwinId := target.id
  targetEntityType := target.artifactType
  targetExternalId := target.externalId
  targetState :=
    if input.stateChanged && input.state ≠ "" then some input.state else none
  fields := []

/-! ## One attempt -/

/-- What an attempt meets: the clock, the random ids, what happens while it
drains the target connectors, and the statement at which it throws,
counted from the guard's evaluation. -/
structure Attempt where
  now : Millis
  orderIds : Nat → Uuid
  drain : List QueueAction
  drainGuard : List GuardCall
  failAt : Option Nat

inductive Delivery where
  | returned | threw
  deriving DecidableEq

/-- `INSERT … ON CONFLICT (source_event_id) DO NOTHING`. -/
def openReceipt (s : PropagationState) (event : TwinEvent) (orgId twinId : Uuid) :
    PropagationState :=
  if s.receipts.any fun r => r.sourceEventId = event.eventId then s
  else { s with
    receipts := s.receipts ++ [⟨event.eventId, orgId, twinId, .processing, 0⟩] }

def settleReceipt (s : PropagationState) (event : TwinEvent)
    (set : PropagationReceipt → PropagationReceipt) : PropagationState :=
  { s with receipts := Table.update (fun r => r.sourceEventId = event.eventId) set s.receipts }

def receiptSettled (s : PropagationState) (event : TwinEvent) (orgId : Uuid) : Bool :=
  match s.receipts.find? fun r => r.sourceEventId = event.eventId && r.orgId = orgId with
  | some r => r.status = .completed || r.status = .echoSuppressed
  | none => false

/-- The inserts, one statement a counterpart; `false` when one throws. -/
def insertOrders (order : Nat → CanonicalTwin → NewWorkOrder) (failAt : Option Nat) :
    Nat → List CanonicalTwin → QueueState → QueueState × Bool
  | _, [], q => (q, true)
  | i, target :: rest, q =>
    if failAt = some (i + 1) then (q, false)
    else
      match insertStep q (order i target) with
      | some q' => insertOrders order failAt (i + 1) rest q'
      | none => (q, false)

section Attempts

variable (P : Platform)

/-- `processDueWorkOrders` for the target connectors: steps of the queue,
and the writes and events that the guard sees meanwhile. -/
def drainTargets (s : PropagationState) (a : Attempt) : PropagationState :=
  { s with
    queue := ((queue P).run s.queue a.drain).getD s.queue
    guard := a.drainGuard.foldl (fun g c => (c.run P g).2) s.guard }

/-- From the counterparts' query to the end. -/
def deliver (event : TwinEvent) (input : PropagationInput) (a : Attempt)
    (s : PropagationState) : Delivery × PropagationState :=
  if a.failAt = some 0 then (.threw, s)
  else
    let targets := counterparts s input.orgId input.source
    let order := fun i => propagationOrder event input (a.orderIds i)
    match insertOrders order a.failAt 0 targets s.queue with
    | (q, false) => (.threw, { s with queue := q })
    | (q, true) =>
      let s := drainTargets P { s with queue := q } a
      if a.failAt = some (targets.length + 1) ∨ a.failAt = some (targets.length + 2) then
        (.threw, s)
      else (.returned, settleReceipt s event fun r => { r with status := .completed })

def acceptPropagationEvent (event : TwinEvent) (a : Attempt) (s : PropagationState) :
    Delivery × PropagationState :=
  match event.payload.orgId, event.payload.twinId.or event.workItemId with
  | some orgId, some twinId =>
    if event.payload.stateChanged = some false ∧ event.payload.fieldsChanged = some false
    then (.returned, s)
    else if receiptSettled s event orgId then (.returned, s)
    else
      match s.queue.db.twins.find? fun t => t.id = twinId && t.orgId = orgId with
      | none => (.threw, s)
      | some source =>
        let input := propagationInput event orgId source
        let s := openReceipt s event orgId twinId
        if event.eventType = .connectorOperatorStateWritten then deliver P event input a s
        else
          match evaluateWebhook P s.nodes orgId (echoCheck s.mappings event input) a.now
            s.guard with
          | .error _ => (.threw, s)
          | .ok (decision, guard) =>
            let s := { s with guard := guard }
            if decision.suppressed then
              if a.failAt = some 0 then (.threw, s)
              else (.returned, settleReceipt s event fun r =>
                { r with status := .echoSuppressed, echoesSuppressed := 1 })
            else deliver P event input a s
  | _, _ => (.returned, s)

end Attempts

end Cadena.Connectors
