import Cadena.Base.Table
import Cadena.Base.Transition
import Cadena.Connectors.Types

/-!
# The outbound relay

The requests of one relay in `integration_relay_requests`, the agents that
poll for them and share one execution ledger, and the operations that wait
for the answers: `ConnectorRelayService`, `OutboundRelayAgent` and
`RelayExecutionLedger`. Every statement and every call is one step. A party
can stop between any two of them, and a call can be lost on its way.

A poll looks up the head of the queue and updates that row in one statement.
When the row has changed in between, PostgreSQL looks at the other
conditions again, on the new row, and not at the head: these are two steps.

Headers that a request carries are passed on and decide nothing; they are
left out.
-/

namespace Cadena.Connectors.Relay

open Cadena.Base

inductive RequestStatus where
  | pending | leased | completed | failed
  deriving DecidableEq

structure StoredExecution where
  status : Nat
  headers : List (String × String)
  body : String
  deriving DecidableEq

structure HttpRequest where
  method : String
  url : String
  body : Option String
  deriving DecidableEq

/-- A row of `integration_relay_requests`. -/
structure RelayRequest where
  id : Uuid
  idempotencyKey : String
  request : HttpRequest
  queuePosition : Nat
  status : RequestStatus
  attempts : Nat
  leaseId : Option Uuid
  leaseExpiresAt : Option Millis
  nextAttemptAt : Option Millis
  response : Option StoredExecution
  errorMessage : Option String
  deriving DecidableEq

structure ConnectorRelayDelivery where
  id : Uuid
  sequence : Nat
  idempotencyKey : String
  leaseId : Uuid
  request : HttpRequest

/-- An acknowledgement supplies a response or an error. -/
inductive AckPayload where
  | response (result : StoredExecution)
  | error (message : String)

structure ConnectorRelayAck where
  deliveryId : Uuid
  leaseId : Uuid
  payload : AckPayload

/-- A call of `acknowledge` under way; `read` holds the attempts of the row
once it has been read and found current. -/
structure AckCall where
  ack : ConnectorRelayAck
  read : Option Nat

/-! ## The statements on the rows -/

def relayLeaseMs : Millis := 30000

def RelayRequest.isOpen (r : RelayRequest) : Bool :=
  r.status == .pending || r.status == .leased

/-- `ORDER BY queue_position ASC LIMIT 1` over the open requests; the rows
stand in the order of their positions. -/
def queueHead (rows : List RelayRequest) : Option RelayRequest :=
  rows.find? (·.isOpen)

/-- A missing time, or one that has come. -/
def reached (t : Option Millis) (now : Millis) : Bool :=
  match t with
  | none => true
  | some t => t ≤ now

/-- The conditions of the poll on the row itself. -/
def RelayRequest.claimable (r : RelayRequest) (now : Millis) : Bool :=
  reached r.nextAttemptAt now && (r.status == .pending || reached r.leaseExpiresAt now)

def RelayRequest.lease (r : RelayRequest) (leaseId : Uuid) (now : Millis) : RelayRequest :=
  { r with
    status := .leased
    leaseId := some leaseId
    leaseExpiresAt := some (now + relayLeaseMs)
    attempts := r.attempts + 1 }

def mapDelivery (r : RelayRequest) (leaseId : Uuid) : ConnectorRelayDelivery where
  id := r.id
  sequence := r.queuePosition
  idempotencyKey := r.idempotencyKey
  leaseId := leaseId
  request := r.request

def responseHeaderLimit : Nat := 50

/-- What `acknowledge` refuses before it writes. -/
def AckPayload.valid : AckPayload → Bool
  | .response result =>
    100 ≤ result.status && result.status ≤ 599 && result.headers.length ≤ responseHeaderLimit
  | .error message => message != ""

def validateResponseHeaders (P : Platform) (headers : List (String × String)) :
    List (String × String) :=
  headers.map fun h => (sliceString (P.toLowerCase h.1) 100, sliceString h.2 1000)

/-- The delay after a failed attempt. -/
def ackBackoff (attempts : Nat) : Millis := min (1000 * 2 ^ (attempts - 1)) 30000

/-- The row after an accepted acknowledgement. -/
def RelayRequest.acknowledged (P : Platform) (now : Millis) (attempts : Nat) (r : RelayRequest) :
    AckPayload → RelayRequest
  | .error message =>
    { r with
      status := .pending
      errorMessage := some (sliceString message 500)
      leaseId := none
      leaseExpiresAt := none
      nextAttemptAt := some (now + ackBackoff attempts) }
  | .response result =>
    { r with
      status := .completed
      response := some { result with headers := validateResponseHeaders P result.headers }
      errorMessage := none
      leaseId := none
      leaseExpiresAt := none
      nextAttemptAt := none }

/-- `WHERE id = $1 AND lease_id = $2`. -/
def ackMatches (ack : ConnectorRelayAck) (r : RelayRequest) : Bool :=
  r.id == ack.deliveryId && r.leaseId == some ack.leaseId

/-- A row as `request` inserts it. -/
def insertedRow (id : Uuid) (key : String) (request : HttpRequest) (position : Nat) :
    RelayRequest where
  id := id
  idempotencyKey := key
  request := request
  queuePosition := position
  status := .pending
  attempts := 0
  leaseId := none
  leaseExpiresAt := none
  nextAttemptAt := none
  response := none
  errorMessage := none

inductive Reply where
  | response (result : StoredExecution)
  /-- The wait was aborted or timed out, or the request was refused. -/
  | failure

/-- What an adapter does with its transport: one request after the other,
each depending on the replies so far. -/
inductive Operation where
  | finished
  | call (request : HttpRequest) (next : Reply → Operation)

/-- A request that an attempt has submitted: whether the table knew its key,
and the row that was put into the queue for it. -/
structure Submission where
  key : String
  known : Bool
  inserted : Option Uuid
  deriving DecidableEq

inductive CallerPhase where
  | running (op : Operation)
  /-- The row is stored; its id and status are read next. -/
  | submitted (key : String) (next : Reply → Operation)
  | waiting (id : Uuid) (next : Reply → Operation)

/-- One attempt at an operation, with what it has submitted and whether it
has given up on a request. -/
structure Caller where
  operationId : Uuid
  phase : CallerPhase
  submissions : List Submission
  gaveUp : Bool

/-- No attempt yet. -/
def Caller.idle : Caller := ⟨0, .running .finished, [], false⟩

/-! ## The system -/

/-- Where an agent stands in `runOnce`. -/
inductive AgentPhase where
  | idle
  /-- The poll has looked up the head of the queue. -/
  | polled (head : Uuid)
  | delivered (delivery : ConnectorRelayDelivery)
  /-- The ledger had no response. -/
  | checked (delivery : ConnectorRelayDelivery)
  /-- The provider has been called. -/
  | requested (delivery : ConnectorRelayDelivery)
  | responded (delivery : ConnectorRelayDelivery) (result : StoredExecution)
  | acknowledging (delivery : ConnectorRelayDelivery) (payload : AckPayload)

/-- The database, the ledger, the parties, and the log of the deliveries
that were sent to the provider. -/
structure RelayState where
  now : Millis
  rows : List RelayRequest
  nextPosition : Nat
  ledger : Uuid → Option StoredExecution
  agents : Nat → AgentPhase
  calls : List AckCall
  callers : Nat → Caller
  sends : List Uuid

inductive RelayAction where
  | tick (elapsed : Nat)
  /-- An attempt at an operation starts. -/
  | attempt (caller : Nat) (operationId : Uuid) (op : Operation)
  | submit (caller : Nat) (requestId : Uuid)
  | locate (caller : Nat)
  | collect (caller : Nat)
  | giveUp (caller : Nat)
  | look (agent : Nat)
  | lease (agent : Nat) (leaseId : Uuid)
  | check (agent : Nat)
  | send (agent : Nat)
  | respond (agent : Nat) (result : StoredExecution)
  | networkError (agent : Nat) (message : String)
  | put (agent : Nat)
  | putError (agent : Nat) (message : String)
  | acknowledge (agent : Nat)
  | crash (agent : Nat)
  /-- The `n`-th call under way. -/
  | readAck (n : Nat)
  | writeAck (n : Nat)
  | loseAck (n : Nat)

/-- The relay and the origins that its two ends accept. -/
structure RelayConfig where
  platform : Platform
  relayId : Uuid
  inBaseUrl : String → Bool
  inTargetOrigin : String → Bool

def dedupeKey (R : RelayConfig) (operationId : Uuid) (request : HttpRequest) : String :=
  R.platform.sha256 (uuidText R.relayId ++ '\n' :: uuidText operationId ++ '\n' ::
    request.method.toList ++ '\n' :: request.url.toList ++ '\n' :: (request.body.getD "").toList)

def RelayState.setAgent (s : RelayState) (i : Nat) (phase : AgentPhase) : RelayState :=
  { s with agents := setAt s.agents i phase }

def RelayState.setCaller (s : RelayState) (j : Nat) (caller : Caller) : RelayState :=
  { s with callers := setAt s.callers j caller }

/-- The first statement of `request`. -/
def submitStep (R : RelayConfig) (s : RelayState) (j : Nat) (id : Uuid) : Option RelayState :=
  let caller := s.callers j
  match caller.phase with
  | .running (.call request next) =>
    if R.inBaseUrl request.url then
      let key := dedupeKey R caller.operationId request
      let drawn := { s with nextPosition := s.nextPosition + 1 }
      if s.rows.any (·.idempotencyKey == key) then
        some (drawn.setCaller j { caller with
          phase := .submitted key next, submissions := caller.submissions ++ [⟨key, true, none⟩] })
      -- randomUUID(): no row has the id
      else if s.rows.any (·.id == id) || (s.ledger id).isSome || s.sends.contains id then none
      else
        some { drawn.setCaller j { caller with
            phase := .submitted key next
            submissions := caller.submissions ++ [⟨key, false, some id⟩] }
          with rows := s.rows ++ [insertedRow id key request s.nextPosition] }
    else some (s.setCaller j { caller with phase := .running (next .failure) })
  | _ => none

/-- The row is read by its key, and a failed one put back into the queue. -/
def locateStep (s : RelayState) (j : Nat) : Option RelayState :=
  let caller := s.callers j
  match caller.phase with
  | .submitted key next =>
    match s.rows.find? (·.idempotencyKey == key) with
    | none => some (s.setCaller j { caller with phase := .running (next .failure) })
    | some row =>
      some { s.setCaller j { caller with phase := .waiting row.id next } with
        rows := Table.update (fun r => r.id == row.id && r.status == .failed)
          (fun r => { r with status := .pending, errorMessage := none }) s.rows }
  | _ => none

/-- One look of `waitForResponse`. -/
def collectStep (s : RelayState) (j : Nat) : Option RelayState :=
  let caller := s.callers j
  match caller.phase with
  | .waiting id next =>
    match s.rows.find? (·.id == id) with
    | none => some (s.setCaller j { caller with phase := .running (next .failure) })
    | some row =>
      match row.status, row.response with
      | .completed, some result =>
        some (s.setCaller j { caller with phase := .running (next (.response result)) })
      | .failed, _ => some (s.setCaller j { caller with phase := .running (next .failure) })
      | _, _ => none
  | _ => none

/-- The abort signal or the response timeout. -/
def giveUpStep (s : RelayState) (j : Nat) : Option RelayState :=
  let caller := s.callers j
  match caller.phase with
  | .waiting _ next =>
    some (s.setCaller j { caller with phase := .running (next .failure), gaveUp := true })
  | _ => none

/-- The subquery of the poll and its conditions on the row found. -/
def lookStep (s : RelayState) (i : Nat) : Option RelayState :=
  match s.agents i with
  | .idle =>
    match queueHead s.rows with
    | some head => if head.claimable s.now then some (s.setAgent i (.polled head.id)) else none
    | none => none
  | _ => none

def leaseStep (s : RelayState) (i : Nat) (leaseId : Uuid) : Option RelayState :=
  match s.agents i with
  | .polled head =>
    match s.rows.find? (fun r => r.id == head && r.claimable s.now) with
    | none => some (s.setAgent i .idle)
    | some row =>
      some { s.setAgent i (.delivered (mapDelivery row leaseId)) with
        rows := Table.update (fun r => r.id == head && r.claimable s.now)
          (·.lease leaseId s.now) s.rows }
  | _ => none

/-- The agent's part of `runOnce` after the poll. -/
def checkStep (R : RelayConfig) (s : RelayState) (i : Nat) : Option RelayState :=
  match s.agents i with
  | .delivered d =>
    if R.inTargetOrigin d.request.url then
      match s.ledger d.id with
      | some result => some (s.setAgent i (.acknowledging d (.response result)))
      | none => some (s.setAgent i (.checked d))
    else some (s.setAgent i
      (.acknowledging d (.error "Delivery target is outside the relay targetOrigin")))
  | _ => none

def sendStep (s : RelayState) (i : Nat) : Option RelayState :=
  match s.agents i with
  | .checked d => some { s.setAgent i (.requested d) with sends := s.sends ++ [d.id] }
  | _ => none

def respondStep (s : RelayState) (i : Nat) (result : StoredExecution) : Option RelayState :=
  match s.agents i with
  | .requested d => some (s.setAgent i (.responded d result))
  | _ => none

def orDefault (message : String) : String :=
  if message = "" then "provider network error" else message

def networkErrorStep (s : RelayState) (i : Nat) (message : String) : Option RelayState :=
  match s.agents i with
  | .requested d => some (s.setAgent i (.acknowledging d (.error (orDefault message))))
  | _ => none

def putStep (s : RelayState) (i : Nat) : Option RelayState :=
  match s.agents i with
  | .responded d result =>
    some { s.setAgent i (.acknowledging d (.response result)) with
      ledger := setAt s.ledger d.id (some ((s.ledger d.id).getD result)) }
  | _ => none

def putErrorStep (s : RelayState) (i : Nat) (message : String) : Option RelayState :=
  match s.agents i with
  | .responded d _ => some (s.setAgent i (.acknowledging d (.error (orDefault message))))
  | _ => none

def acknowledgeStep (s : RelayState) (i : Nat) : Option RelayState :=
  match s.agents i with
  | .acknowledging d payload =>
    some { s.setAgent i .idle with calls := s.calls ++ [⟨⟨d.id, d.leaseId, payload⟩, none⟩] }
  | _ => none

def currentRow (rows : List RelayRequest) (ack : ConnectorRelayAck) : Option RelayRequest :=
  rows.find? fun r => r.id == ack.deliveryId && r.status == .leased && r.leaseId == some ack.leaseId

/-- The read of `acknowledge`; a refused call or a replay is over. -/
def readAckStep (s : RelayState) (n : Nat) : Option RelayState :=
  match s.calls[n]? with
  | some ⟨ack, none⟩ =>
    match currentRow s.rows ack, ack.payload.valid with
    | some row, true => some { s with calls := s.calls.set n ⟨ack, some row.attempts⟩ }
    | _, _ => some { s with calls := s.calls.eraseIdx n }
  | _ => none

def writeAckStep (R : RelayConfig) (s : RelayState) (n : Nat) : Option RelayState :=
  match s.calls[n]? with
  | some ⟨ack, some attempts⟩ =>
    some { s with
      calls := s.calls.eraseIdx n
      rows := Table.update (ackMatches ack)
        (fun r => r.acknowledged R.platform s.now attempts ack.payload) s.rows }
  | _ => none

def relayStep (R : RelayConfig) (s : RelayState) : RelayAction → Option RelayState
  | .tick elapsed => some { s with now := s.now + elapsed }
  | .attempt j operationId op => some (s.setCaller j ⟨operationId, .running op, [], false⟩)
  | .submit j id => submitStep R s j id
  | .locate j => locateStep s j
  | .collect j => collectStep s j
  | .giveUp j => giveUpStep s j
  | .look i => lookStep s i
  | .lease i leaseId => leaseStep s i leaseId
  | .check i => checkStep R s i
  | .send i => sendStep s i
  | .respond i result => respondStep s i result
  | .networkError i message => networkErrorStep s i message
  | .put i => putStep s i
  | .putError i message => putErrorStep s i message
  | .acknowledge i => acknowledgeStep s i
  | .crash i => some (s.setAgent i .idle)
  | .readAck n => readAckStep s n
  | .writeAck n => writeAckStep R s n
  | .loseAck n => some { s with calls := s.calls.eraseIdx n }

def relay (R : RelayConfig) : System RelayState RelayAction where
  step := relayStep R

/-- A relay that has just been provisioned. -/
def RelayState.start (now : Millis) : RelayState where
  now := now
  rows := []
  nextPosition := 0
  ledger _ := none
  agents _ := .idle
  calls := []
  callers _ := .idle
  sends := []

end Cadena.Connectors.Relay
