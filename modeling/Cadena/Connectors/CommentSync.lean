import Cadena.Connectors.CommentMarker
import Cadena.Connectors.WorkOrder

/-!
# Comment synchronization

Two counterpart twins, their provider comments, and the two tables of the
synchronization. People post; any number of syncs run `syncRecordComments`
and any number of workers `executeCommentDelivery`, one statement or one
provider call a step, and each may stop anywhere. A claim of a delivery
expires only after its holder has stopped. The providers give back what they
were given and number their comments.
-/

namespace Cadena.Connectors.Comments

open Cadena.Base

/-- The two counterpart twins. -/
inductive Side where
  | left
  | right
  deriving DecidableEq

def Side.other : Side → Side
  | .left => .right
  | .right => .left

inductive CommentDirection where
  | fromSource
  | toSource
  | bidirectional
  deriving DecidableEq

structure CommentSyncPolicy where
  enabled : Bool
  direction : CommentDirection
  authorAllowList : List String
  authorBlockList : List String

def commentCanRead (policy : CommentSyncPolicy) : Bool :=
  policy.enabled && (policy.direction == .fromSource || policy.direction == .bidirectional)

def commentCanWrite (policy : CommentSyncPolicy) : Bool :=
  policy.enabled && (policy.direction == .toSource || policy.direction == .bidirectional)

def commentAuthorPermitted (P : Platform) (policy : CommentSyncPolicy) (authorId : Text) : Bool :=
  let id := P.toLowerCase (String.ofList (trim authorId))
  let allow := policy.authorAllowList.map P.toLowerCase
  let block := policy.authorBlockList.map P.toLowerCase
  id != "" && !block.contains id && (allow.isEmpty || allow.contains id)

/-- The connector of a twin, and the account it writes with. -/
structure Endpoint where
  connectorId : Uuid
  provider : Provider
  policy : CommentSyncPolicy
  accountId : Text
  displayName : Text

/-! ## Comments at the providers -/

/-- A comment at a provider. `isPublic` is what the filter of the adapter
tests; `writtenBy`, which no program sees, is the delivery that Cadena wrote
the comment for. -/
structure ProviderComment where
  twin : Side
  id : Text
  body : ProviderBody
  accountId : Text
  displayName : Text
  createdAt : Option Millis
  isPublic : Bool
  writtenBy : Option Uuid

structure ExternalPublicComment where
  externalId : Text
  body : Text
  authorId : Text
  authorName : Text
  createdAt : Millis
  originMarker : Option Text
  /-- As in `ProviderComment`. -/
  writtenBy : Option Uuid

/-- `value || fallback`. -/
def orElse (value fallback : Text) : Text := if value = [] then fallback else value

def unattributed : Provider → Text
  | .jira => "jira:unattributed".toList
  | .servicenow => "servicenow:unattributed".toList

def unknownAuthor : Provider → Text
  | .jira => "Unknown Jira author".toList
  | .servicenow => "Unknown ServiceNow author".toList

def toExternal (provider : Provider) (c : ProviderComment) : ExternalPublicComment :=
  let body := readBody c.body
  { externalId := c.id
    body := body
    authorId := orElse c.accountId (unattributed provider)
    authorName := orElse c.displayName (orElse c.accountId (unknownAuthor provider))
    createdAt := c.createdAt.getD 0
    originMarker := commentMarker body
    writtenBy := c.writtenBy }

/-- The comments that the provider counts for its limit: ServiceNow is asked
for the public ones only. -/
def listed : Provider → List ProviderComment → List ProviderComment
  | .jira, comments => comments
  | .servicenow, comments => comments.filter (·.isPublic)

/-- `maxResults=1000` and `sysparm_limit=1000`. -/
def commentLimit : Nat := 1000

def fetchPublicComments (provider : Provider) (comments : List ProviderComment) :
    List ExternalPublicComment :=
  (((listed provider comments).take commentLimit).filter (·.isPublic)).map (toExternal provider)

/-- The last test of the source, that the time parses, always holds: the
adapters give every comment a time. -/
def validPublicComment (c : ExternalPublicComment) : Bool :=
  trim c.externalId != [] && trim c.body != [] && trim c.authorId != [] && trim c.authorName != []

/-- A row of `integration_public_comments`. -/
structure PublicComment where
  id : Uuid
  sourceTwin : Side
  sourceConnectorId : Uuid
  providerCommentId : Text
  body : Text
  originalAuthorId : Text
  originalAuthorName : Text
  sourceSystem : Provider
  sourceCreatedAt : Millis

inductive DeliveryStatus where
  | pending
  | processing
  | failed
  | executed
  | dead
  | skipped
  deriving DecidableEq

/-- A row of `integration_comment_deliveries`; its connector is that of the
target twin. -/
structure CommentDelivery where
  id : Uuid
  commentId : Uuid
  targetTwin : Side
  marker : Text
  status : DeliveryStatus
  attempts : Nat
  claimedBy : Option Nat
  targetCommentId : Option Text

/-! ## Parties -/

/-- Where a run of `syncRecordComments` stands. -/
inductive SyncPhase where
  | stopped
  /-- The comments still to be looked at; none at the end of the run. -/
  | checking (rest : List ExternalPublicComment)
  | storing (comment : ExternalPublicComment) (rest : List ExternalPublicComment)
  /-- The comment is stored; its delivery is next. -/
  | ensuring (commentId : Uuid) (rest : List ExternalPublicComment)

/-- A run of `syncRecordComments` for a twin; `seen`, which the program does
not keep, is all that stood at the twin when the comments were read. -/
structure CommentSync where
  twin : Side
  seen : List ProviderComment
  phase : SyncPhase

/-- Where a call of `executeCommentDelivery` stands. -/
inductive DeliveryCall where
  | idle
  | claimed (delivery : Uuid)
  /-- The marker was not found. -/
  | looked (delivery : Uuid)
  | pushed (delivery : Uuid) (externalId : Text)
  | errored (delivery : Uuid)
  | finished
  | crashed

/-- The delivery a running call works on. -/
def DeliveryCall.holds : DeliveryCall → Option Uuid
  | .claimed d | .looked d | .pushed d _ | .errored d => some d
  | .idle | .finished | .crashed => none

structure CommentState where
  provider : List ProviderComment
  comments : List PublicComment
  deliveries : List CommentDelivery
  syncs : Nat → CommentSync
  calls : Nat → DeliveryCall

/-- The id and the time the provider gives a comment that is written. -/
structure Receipt where
  id : Text
  createdAt : Millis

inductive CommentAction where
  /-- A person writes a comment. -/
  | post (comment : ProviderComment)
  | fetch (sync : Nat) (twin : Side)
  | check (sync : Nat)
  | store (sync : Nat) (commentId : Uuid)
  | ensure (sync : Nat) (deliveryId : Uuid)
  | stop (sync : Nat)
  /-- One turn of the loop of `ensureConnectorCommentDeliveries`. -/
  | catchUp (commentId deliveryId : Uuid)
  | claim (call : Nat) (delivery : Uuid)
  | skip (delivery : Uuid)
  | look (call : Nat)
  /-- The id that is answered need not be that of the comment. -/
  | push (call : Nat) (receipt : Receipt) (answered : Text)
  /-- The comment is written and the answer lost. -/
  | pushLost (call : Nat) (receipt : Receipt)
  | throw (call : Nat)
  | settle (call : Nat)
  | fail (call : Nat) (retryable : Bool)
  /-- The provider is shedding load. -/
  | defer (call : Nat)
  | crash (call : Nat)

section
variable (P : Platform) (E : Side → Endpoint)

/-! ## `syncRecordComments` -/

def CommentState.setSync (s : CommentState) (k : Nat) (phase : SyncPhase) : CommentState :=
  { s with syncs := setAt s.syncs k { s.syncs k with phase := phase } }

/-- Whether the comments of the twin's connector hold the id. -/
def idTaken (s : CommentState) (twin : Side) (id : Text) : Bool :=
  s.provider.any fun c => (E c.twin).connectorId == (E twin).connectorId && c.id == id

def postStep (s : CommentState) (c : ProviderComment) : Option CommentState :=
  if c.writtenBy.isSome || idTaken E s c.twin c.id then none
  else some { s with provider := s.provider ++ [c] }

def commentsOf (s : CommentState) (twin : Side) : List ProviderComment :=
  s.provider.filter (·.twin == twin)

def fetchStep (s : CommentState) (k : Nat) (twin : Side) : Option CommentState :=
  match (s.syncs k).phase with
  | .stopped | .checking [] =>
    if commentCanRead (E twin).policy then
      let seen := commentsOf s twin
      some { s with
        syncs := setAt s.syncs k
          ⟨twin, seen, .checking (fetchPublicComments (E twin).provider seen)⟩ }
    else none
  | _ => none

/-- The query for a delivery that has written the comment. -/
def isEcho (s : CommentState) (twin : Side) (c : ExternalPublicComment) : Bool :=
  match c.originMarker with
  | none => false
  | some marker => s.deliveries.any fun d => d.targetTwin == twin && d.marker == lowerText marker

/-- What the policy of the connector and the form of the comment permit. -/
def permitted (twin : Side) (c : ExternalPublicComment) : Bool :=
  validPublicComment c && commentAuthorPermitted P (E twin).policy c.authorId

def checkStep (s : CommentState) (k : Nat) : Option CommentState :=
  match (s.syncs k).phase with
  | .checking (c :: rest) =>
    if !permitted P E (s.syncs k).twin c || isEcho s (s.syncs k).twin c then
      some (s.setSync k (.checking rest))
    else some (s.setSync k (.storing c rest))
  | _ => none

def insertedComment (twin : Side) (id : Uuid) (c : ExternalPublicComment) : PublicComment where
  id := id
  sourceTwin := twin
  sourceConnectorId := (E twin).connectorId
  providerCommentId := c.externalId
  body := trim c.body
  originalAuthorId := c.authorId
  originalAuthorName := c.authorName
  sourceSystem := (E twin).provider
  sourceCreatedAt := c.createdAt

/-- The unique key of the table. -/
def storedAs (twin : Side) (externalId : Text) (r : PublicComment) : Bool :=
  r.sourceConnectorId == (E twin).connectorId && r.providerCommentId == externalId

/-- The insert that does nothing on a conflict, and the query after it. -/
def storeStep (s : CommentState) (k : Nat) (id : Uuid) : Option CommentState :=
  match (s.syncs k).phase with
  | .storing c rest =>
    match s.comments.find? (storedAs E (s.syncs k).twin c.externalId) with
    | some row => some (s.setSync k (.ensuring row.id rest))
    | none =>
      -- randomUUID(): no row has the id
      if s.comments.any (·.id == id) then none
      else some { s.setSync k (.ensuring id rest) with
        comments := s.comments ++ [insertedComment E (s.syncs k).twin id c] }
  | _ => none

def pendingDelivery (id commentId : Uuid) (target : Side) : CommentDelivery where
  id := id
  commentId := commentId
  targetTwin := target
  marker := uuidText id
  status := .pending
  attempts := 0
  claimedBy := none
  targetCommentId := none

def ensureCommentDeliveries (deliveries : List CommentDelivery) (commentId : Uuid) (source : Side)
    (id : Uuid) : Option (List CommentDelivery) :=
  let target := source.other
  if !commentCanWrite (E target).policy
      || deliveries.any (fun d => d.commentId == commentId && d.targetTwin == target) then
    some deliveries
  else if deliveries.any (·.id == id) then none
  else some (deliveries ++ [pendingDelivery id commentId target])

def ensureStep (s : CommentState) (k : Nat) (id : Uuid) : Option CommentState :=
  match (s.syncs k).phase with
  | .ensuring commentId rest =>
    (ensureCommentDeliveries E s.deliveries commentId (s.syncs k).twin id).map fun deliveries =>
      { s.setSync k (.checking rest) with deliveries := deliveries }
  | _ => none

def catchUpStep (s : CommentState) (commentId id : Uuid) : Option CommentState :=
  match s.comments.find? (·.id == commentId) with
  | some row =>
    (ensureCommentDeliveries E s.deliveries commentId row.sourceTwin id).map fun deliveries =>
      { s with deliveries := deliveries }
  | none => none

/-! ## `executeCommentDelivery` -/

def CommentState.setCall (s : CommentState) (c : Nat) (call : DeliveryCall) : CommentState :=
  { s with calls := setAt s.calls c call }

def deliveryRow (s : CommentState) (id : Uuid) : Option (CommentDelivery × PublicComment) :=
  (s.deliveries.find? (·.id == id)).bind fun d =>
    (s.comments.find? (·.id == d.commentId)).map fun r => (d, r)

def transferPermitted (d : CommentDelivery) (r : PublicComment) : Bool :=
  commentCanRead (E r.sourceTwin).policy
    && commentAuthorPermitted P (E r.sourceTwin).policy r.originalAuthorId
    && commentAuthorPermitted P (E d.targetTwin).policy r.originalAuthorId

/-- A claim has expired only when its holder runs no more. -/
def claimable (s : CommentState) (d : CommentDelivery) : Bool :=
  match d.status with
  | .pending | .failed => true
  | .processing =>
    match d.claimedBy with
    | none => true
    | some c => (s.calls c).holds.isNone
  | _ => false

def CommentDelivery.claim (call : Nat) (d : CommentDelivery) : CommentDelivery :=
  { d with status := .processing, attempts := d.attempts + 1, claimedBy := some call }

def claimStep (s : CommentState) (c : Nat) (id : Uuid) : Option CommentState :=
  match s.calls c, deliveryRow s id with
  | .idle, some (d, r) =>
    if commentCanWrite (E d.targetTwin).policy && transferPermitted P E d r && claimable s d then
      some { s.setCall c (.claimed id) with
        deliveries := Table.update (·.id == id) (·.claim c) s.deliveries }
    else none
  | _, _ => none

def skipStep (s : CommentState) (id : Uuid) : Option CommentState :=
  match deliveryRow s id with
  | some (d, r) =>
    if commentCanWrite (E d.targetTwin).policy && !transferPermitted P E d r then
      some { s with
        deliveries := Table.update (·.id == id) ({ · with status := .skipped }) s.deliveries }
    else none
  | none => none

/-- `targetComments.find(…)`. -/
def findMarker (comments : List ExternalPublicComment) (marker : Text) :
    Option ExternalPublicComment :=
  comments.find? fun c => c.originMarker.map lowerText == some (lowerText marker)

def lookStep (s : CommentState) (c : Nat) : Option CommentState :=
  match s.calls c with
  | .claimed id =>
    match deliveryRow s id with
    | some (d, _) =>
      let comments := fetchPublicComments (E d.targetTwin).provider (commentsOf s d.targetTwin)
      match findMarker comments d.marker with
      | some existing => some (s.setCall c (.pushed id existing.externalId))
      | none => some (s.setCall c (.looked id))
    | none => none
  | _ => none

/-- The text of a stored comment before the marker. -/
def attributedText (r : PublicComment) : Text :=
  attribution r.body r.originalAuthorId r.originalAuthorName r.sourceSystem

/-- The comment that `pushPublicComment` makes. -/
def writtenComment (d : CommentDelivery) (r : PublicComment) (receipt : Receipt) :
    ProviderComment where
  twin := d.targetTwin
  id := receipt.id
  body := writeBody (E d.targetTwin).provider
    (transferredCommentBody r.body r.originalAuthorId r.originalAuthorName r.sourceSystem
      (lowerText d.marker))
  accountId := (E d.targetTwin).accountId
  displayName := (E d.targetTwin).displayName
  createdAt := some receipt.createdAt
  isPublic := true
  writtenBy := some d.id

/-- The provider call, which leaves the worker with a result or an error. -/
def pushStep (s : CommentState) (c : Nat) (receipt : Receipt) (next : Uuid → DeliveryCall) :
    Option CommentState :=
  match s.calls c with
  | .looked id =>
    match deliveryRow s id with
    | some (d, r) =>
      if idTaken E s d.targetTwin receipt.id then none
      else some { s.setCall c (next id) with
        provider := s.provider ++ [writtenComment E d r receipt] }
    | none => none
  | _ => none

/-- `WHERE id = … AND claimed_by = …`. -/
def heldBy (id : Uuid) (call : Nat) (d : CommentDelivery) : Bool :=
  d.id == id && d.claimedBy == some call

def CommentDelivery.execute (externalId : Text) (d : CommentDelivery) : CommentDelivery :=
  { d with status := .executed, targetCommentId := some externalId, claimedBy := none }

def CommentDelivery.fail (retryable : Bool) (d : CommentDelivery) : CommentDelivery :=
  { d with
    status := if retryable && d.attempts < maxWorkOrderAttempts then .failed else .dead
    claimedBy := none }

/-- The attempt is given back. -/
def CommentDelivery.defer (d : CommentDelivery) : CommentDelivery :=
  { d with status := .pending, attempts := d.attempts - 1, claimedBy := none }

def settleStep (s : CommentState) (c : Nat) : Option CommentState :=
  match s.calls c with
  | .pushed id externalId =>
    some { s.setCall c .finished with
      deliveries := Table.update (heldBy id c) (·.execute externalId) s.deliveries }
  | _ => none

/-- Any error between the claim and the end of the call. -/
def throwStep (s : CommentState) (c : Nat) : Option CommentState :=
  match s.calls c with
  | .claimed id | .looked id | .pushed id _ => some (s.setCall c (.errored id))
  | _ => none

def handleStep (s : CommentState) (c : Nat) (f : CommentDelivery → CommentDelivery) :
    Option CommentState :=
  match s.calls c with
  | .errored id =>
    some { s.setCall c .finished with
      deliveries := Table.update (heldBy id c) f s.deliveries }
  | _ => none

def crashStep (s : CommentState) (c : Nat) : Option CommentState :=
  if (s.calls c).holds.isSome then some (s.setCall c .crashed) else none

def commentStep (s : CommentState) : CommentAction → Option CommentState
  | .post c => postStep E s c
  | .fetch k twin => fetchStep E s k twin
  | .check k => checkStep P E s k
  | .store k id => storeStep E s k id
  | .ensure k id => ensureStep E s k id
  | .stop k => some (s.setSync k .stopped)
  | .catchUp commentId id => catchUpStep E s commentId id
  | .claim c id => claimStep P E s c id
  | .skip id => skipStep P E s id
  | .look c => lookStep E s c
  | .push c receipt answered => pushStep E s c receipt (.pushed · answered)
  | .pushLost c receipt => pushStep E s c receipt .errored
  | .throw c => throwStep s c
  | .settle c => settleStep s c
  | .fail c retryable => handleStep s c (·.fail retryable)
  | .defer c => handleStep s c CommentDelivery.defer
  | .crash c => crashStep s c

def commentSystem : System CommentState CommentAction where
  step := commentStep P E

/-- Nothing posted, nothing stored. -/
def CommentState.start : CommentState where
  provider := []
  comments := []
  deliveries := []
  syncs _ := ⟨.left, [], .stopped⟩
  calls _ := .idle

end

end Cadena.Connectors.Comments
