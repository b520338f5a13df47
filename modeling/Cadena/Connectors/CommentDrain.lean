import Cadena.Connectors.CommentSync
import Cadena.Connectors.WorkOrderQueue

/-!
# The drain of comment deliveries

`processDueCommentDeliveries` reads the fifty oldest due deliveries, passes over
those whose target must not be written to, and hands the others one by one to
`executeCommentDelivery`, until a batch has none to hand over. Between any two
statements other workers may change the table.
-/

namespace Cadena.Connectors.CommentDrain

open Cadena.Base Cadena.Connectors Comments

/-- A row of `integration_connectors`. -/
structure DrainConnector where
  provider : Provider
  paused : Bool
  activatedAt : Option Millis
  policy : CommentSyncPolicy
  relayMode : Bool
  credentials : List (String × String)

/-- A row of `integration_comment_deliveries`, with the source connector and the
author of its comment. -/
structure Delivery where
  id : Uuid
  targetConnectorId : Uuid
  sourceConnectorId : Uuid
  originalAuthorId : Text
  marker : Text
  createdAt : Millis
  status : DeliveryStatus
  attempts : Nat
  targetCommentId : Option Text
  lastError : Option String
  nextAttemptAt : Option Millis
  claimedBy : Option String
  claimExpiresAt : Option Millis

/-- A due row with the two connectors it is joined with. -/
structure DueRow where
  delivery : Delivery
  target : DrainConnector
  source : DrainConnector

inductive SecretLookup where
  | notReference
  | unresolved
  | found

structure CommentAdapter where
  fetchesComments : Bool
  pushesComments : Bool

structure CommentWorld where
  platform : Platform
  adapters : Provider → Option CommentAdapter
  secret : String → SecretLookup

inductive CommentEvent where
  | transferred (deliveryId targetConnectorId : Uuid) (targetCommentId : Text)
  | transferFailed (deliveryId targetConnectorId : Uuid) (attempts : Nat) (retryable final : Bool) (error : String)

inductive DrainPhase where
  | reading
  /-- The rows of the batch that are still to be handed over. -/
  | working (rest : List DueRow)
  /-- `executeCommentDelivery` has claimed the row. -/
  | calling (row : DueRow) (claimId : String) (attempts : Nat) (rest : List DueRow)
  /-- After the read at this time. -/
  | returned (readAt : Millis)
  | thrown (message : String)

structure DrainState where
  deliveries : List Delivery
  connectors : Uuid → Option DrainConnector
  events : List CommentEvent
  processed : Nat
  transferred : Nat
  failed : Nat
  phase : DrainPhase

def claimFree (now : Millis) (d : Delivery) : Bool :=
  match d.status with
  | .pending | .failed => true
  | .processing => d.claimExpiresAt.all (· ≤ now)
  | _ => false

def isDue (now : Millis) (d : Delivery) : Bool := claimFree now d && d.nextAttemptAt.all (· ≤ now)

/-- `ORDER BY d.created_at ASC, d.id ASC`. -/
def deliveryLe (a b : Delivery) : Bool :=
  a.createdAt < b.createdAt || a.createdAt = b.createdAt && a.id ≤ b.id

def joinRow (connectors : Uuid → Option DrainConnector) (d : Delivery) : Option DueRow :=
  match connectors d.targetConnectorId, connectors d.sourceConnectorId with
  | some target, some source => some ⟨d, target, source⟩
  | _, _ => none

/-- Every due row, in the order of the query. -/
def dueRows (connectors : Uuid → Option DrainConnector) (deliveries : List Delivery) (now : Millis) : List DueRow :=
  ((deliveries.filter (isDue now)).insertionSort fun a b => deliveryLe a b).filterMap (joinRow connectors)

def batchLimit : Nat := 50

def drainLimit : Nat := 500

def eligible (row : DueRow) : Bool :=
  row.target.activatedAt.isSome && !row.target.paused && commentCanWrite row.target.policy

def transferPermitted (P : Platform) (row : DueRow) : Bool :=
  commentCanRead row.source.policy
    && commentAuthorPermitted P row.source.policy row.delivery.originalAuthorId
    && commentAuthorPermitted P row.target.policy row.delivery.originalAuthorId

/-- The read, and the rows of the batch that the loop does not pass over. -/
def readBatch (s : DrainState) (now : Millis) : DrainPhase :=
  if drainLimit ≤ s.processed then .returned now
  else
    match ((dueRows s.connectors s.deliveries now).take batchLimit).filter eligible with
    | [] => .returned now
    | rows => .working rows

/-! ## `executeCommentDelivery` -/

def policyForbids : String := "Current source or target comment policy does not permit this transfer"

def sameId (id : Uuid) (d : Delivery) : Bool := d.id = id

def heldBy (id : Uuid) (claimId : String) (d : Delivery) : Bool := d.id = id && d.claimedBy = some claimId

def Delivery.claim (claimId : String) (expires : Millis) (d : Delivery) : Delivery :=
  { d with
    status := .processing
    attempts := d.attempts + 1
    claimedBy := some claimId
    claimExpiresAt := some expires }

def Delivery.execute (externalId : Text) (d : Delivery) : Delivery :=
  { d with
    status := .executed
    targetCommentId := some externalId
    lastError := none
    nextAttemptAt := none
    claimedBy := none
    claimExpiresAt := none }

def Delivery.fail (status : DeliveryStatus) (message : String) (nextAttemptAt : Option Millis) (d : Delivery) :
    Delivery :=
  { d with
    status := status
    lastError := some (sliceString message 500)
    nextAttemptAt := nextAttemptAt
    claimedBy := none
    claimExpiresAt := none }

/-- `deferShedWork`. -/
def Delivery.defer (message : String) (until_ : Millis) (d : Delivery) : Delivery :=
  { d with
    status := .pending
    attempts := d.attempts - 1
    lastError := some (sliceString ("Deferred: " ++ message) 500)
    nextAttemptAt := some until_
    claimedBy := none
    claimExpiresAt := none }

/-- A transaction with the dispatch of its event, which comes after the commit.
A statement that goes with no event fails or is done. -/
inductive Committing where
  | done
  | rolledBack (message : String)
  | undispatched (message : String)

def Committing.error? : Committing → Option String
  | .done => none
  | .rolledBack message | .undispatched message => some message

def Committing.commits : Committing → Bool
  | .rolledBack _ => false
  | _ => true

/-- What the provider and the database answer to one call. -/
structure CallAnswers where
  fetched : Except ExecError (List (Text × Option Text))
  pushed : Except ExecError Text
  settled : Committing
  handled : Committing
  handledAt : Millis

def idText (id : Uuid) : String := String.ofList (uuidText id)

def providerKey : Provider → String
  | .jira => "jira"
  | .servicenow => "servicenow"

/-- `resolveAll`: the first credential that cannot be resolved. -/
def resolveAll (secret : String → SecretLookup) : List (String × String) → Except String Unit
  | [] => .ok ()
  | (key, reference) :: rest =>
    match secret reference with
    | .notReference => .error ("credentials." ++ key ++ " is not a secret reference")
    | .unresolved => .error ("credentials." ++ key ++ " reference " ++ reference ++ " could not be resolved")
    | .found => resolveAll secret rest

variable (W : CommentWorld)

/-- The statements between the claim and the `try`: `getConnector`, `getAdapter`
and `context`. -/
def prepareCall (connectors : Uuid → Option DrainConnector) (row : DueRow) :
    Except String (DrainConnector × CommentAdapter) :=
  match connectors row.delivery.targetConnectorId with
  | none => .error ("Connector " ++ idText row.delivery.targetConnectorId ++ " not found")
  | some target =>
    match W.adapters target.provider with
    | none =>
      let available := [Provider.jira, .servicenow].filter fun p => (W.adapters p).isSome
      .error ("Connector provider '" ++ providerKey target.provider ++ "' is not available. Available providers: "
        ++ String.intercalate ", " (available.map providerKey))
    | some adapter =>
      match if target.relayMode then .ok () else resolveAll W.secret target.credentials with
      | .error message => .error message
      | .ok () => .ok (target, adapter)

/-- The provider calls of the `try`: the id of a comment that is there already or
has been written. -/
def transferComment (row : DueRow) (target : DrainConnector) (adapter : CommentAdapter) (answers : CallAnswers) :
    Except ExecError Text :=
  if !adapter.pushesComments then
    .error (.other (providerKey target.provider ++ " does not support public-comment writes"))
  else if adapter.fetchesComments then
    match answers.fetched with
    | .error error => .error error
    | .ok comments =>
      match comments.find? fun c => c.2.map lowerText = some (lowerText row.delivery.marker) with
      | some existing => .ok existing.1
      | none => answers.pushed
  else answers.pushed

def errorText (error : ExecError) : String := orText (some error.message) "Public comment write failed"

def handleError (s : DrainState) (row : DueRow) (claimId : String) (attempts : Nat) (rest : List DueRow)
    (error : ExecError) (answers : CallAnswers) : DrainState :=
  match error with
  | .loadShed message until_ =>
    let deliveries := Table.update (heldBy row.delivery.id claimId) (·.defer message until_) s.deliveries
    match answers.handled with
    | .done => { s with deliveries := deliveries, processed := s.processed + 1, phase := .working rest }
    | .rolledBack failure | .undispatched failure => { s with phase := .thrown failure }
  | error =>
    let retry := error.retryable && attempts < maxWorkOrderAttempts
    let status : DeliveryStatus := if retry then .failed else .dead
    let next := if retry then some (answers.handledAt + retryAfterMs error attempts) else none
    let settled := { s with
      deliveries := Table.update (heldBy row.delivery.id claimId) (·.fail status (errorText error) next) s.deliveries
      events := s.events ++ [CommentEvent.transferFailed row.delivery.id row.delivery.targetConnectorId attempts error.retryable
        (!retry) (errorText error)] }
    match answers.handled with
    | .done => { settled with processed := s.processed + 1, failed := s.failed + 1, phase := .working rest }
    | .rolledBack failure => { s with phase := .thrown failure }
    | .undispatched failure => { settled with phase := .thrown failure }

def callDelivery (s : DrainState) (row : DueRow) (claimId : String) (attempts : Nat) (rest : List DueRow)
    (answers : CallAnswers) : DrainState :=
  match prepareCall W s.connectors row with
  | .error message => { s with phase := .thrown message }
  | .ok (target, adapter) =>
    match transferComment row target adapter answers with
    | .error error => handleError s row claimId attempts rest error answers
    | .ok externalId =>
      let settled := { s with
        deliveries := Table.update (heldBy row.delivery.id claimId) (·.execute externalId) s.deliveries
        events := s.events ++ [CommentEvent.transferred row.delivery.id row.delivery.targetConnectorId externalId] }
      match answers.settled with
      | .done =>
        { settled with
          processed := s.processed + 1, transferred := s.transferred + 1, phase := .working rest }
      | .rolledBack message => handleError s row claimId attempts rest (.other message) answers
      | .undispatched message => handleError settled row claimId attempts rest (.other message) answers

inductive DrainAction where
  | read (now : Millis)
  | next (claimId : String) (now : Millis)
  | call (answers : CallAnswers)
  | others (deliveries : List Delivery) (connectors : Uuid → Option DrainConnector)

/-- One row of the batch: it is skipped, or claimed unless another worker has
it. -/
def nextRow (s : DrainState) (row : DueRow) (rest : List DueRow) (claimId : String) (now : Millis) : DrainState :=
  if !transferPermitted W.platform row then
    { s with
      deliveries := Table.update (sameId row.delivery.id)
        (fun d => { d with status := .skipped, lastError := some policyForbids }) s.deliveries
      processed := s.processed + 1
      phase := .working rest }
  else
    match s.deliveries.find? fun d => d.id = row.delivery.id && claimFree now d with
    | none => { s with processed := s.processed + 1, phase := .working rest }
    | some d =>
      { s with
        deliveries := Table.update (fun d => d.id = row.delivery.id && claimFree now d)
          (·.claim claimId (now + workOrderClaimMs)) s.deliveries
        phase := .calling row claimId (d.attempts + 1) rest }

/-- Other workers leave a row that they do not write as it is, claim included. -/
def drainStep (s : DrainState) : DrainAction → Option DrainState
  | .read now =>
    match s.phase with
    | .reading | .working [] => some { s with phase := readBatch s now }
    | _ => none
  | .next claimId now =>
    match s.phase with
    | .working (row :: rest) => some (nextRow W s row rest claimId now)
    | _ => none
  | .call answers =>
    match s.phase with
    | .calling row claimId attempts rest => some (callDelivery W s row claimId attempts rest answers)
    | _ => none
  | .others deliveries connectors =>
    match s.phase with
    | .returned _ | .thrown _ => none
    | _ => some { s with deliveries := deliveries, connectors := connectors }

def commentDrain : System DrainState DrainAction := ⟨drainStep W⟩

def drainOf (deliveries : List Delivery) (connectors : Uuid → Option DrainConnector) : DrainState :=
  ⟨deliveries, connectors, [], 0, 0, 0, .reading⟩

end Cadena.Connectors.CommentDrain
