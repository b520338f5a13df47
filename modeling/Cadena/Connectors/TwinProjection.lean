import Cadena.Connectors.ProcessRecord
import Cadena.WorkItems.WorkItem

/-!
# Projecting a twin to its work item

`TwinProjectionService.projectTwin` with an event's snapshot: what the work
item of a twin should hold, and the statements that bring it there, one
after the other. `Projection` says how far a call has come, and `advance`
takes it one read or one transaction further.
-/

namespace Cadena.Connectors.Projections

open Cadena.Base Cadena.WorkItems

structure TwinProjectionConfig where
  enabled : Bool
  teamId : Option Uuid
  typeMap : List (String × WorkItemType)
  ownerMap : List (String × Uuid)

/-- What an event says of the source record. -/
structure Snapshot where
  title : String
  status : String
  fields : Fields
  sourceUpdatedAt : Millis

/-- The tenant's teams, people and projection configurations. -/
structure ProjectionContext where
  platform : Platform
  orgId : Uuid
  teams : List Uuid
  people : List (Uuid × String)
  config : Uuid → TwinProjectionConfig

/-! ## Resolving the fields -/

/-- `typeof fields[key] === 'string' ? fields[key] : null`. -/
def textField (fields : Fields) (key : String) : Option String :=
  match lookup fields key with
  | some (.str s) => some s
  | _ => none

def resolveType (P : Platform) (provider entityType : String) (fields : Fields)
    (config : TwinProjectionConfig) : Option WorkItemType :=
  let nativeType := textField fields "issueType"
  let typed := (nativeType.filter (· != "")).bind fun name =>
    config.typeMap.lookup (entityType ++ ":" ++ name)
  match typed.or (config.typeMap.lookup entityType) with
  | some type => some type
  | none =>
    if provider = "jira" ∧ entityType = "issue" then
      if nativeType.map P.toLowerCase = some "epic" then some .epic else some .story
    else if provider = "servicenow" ∧ (entityType = "incident" ∨ entityType = "problem") then
      some .incident
    else if provider = "servicenow" ∧ entityType = "change_request" then some .release
    else none

def priorityByNative : List (String × WorkItemPriority) :=
  [("highest", .p0), ("critical", .p0), ("1", .p0), ("high", .p1), ("2", .p1), ("medium", .p2),
   ("moderate", .p2), ("3", .p2), ("low", .p3), ("4", .p3), ("lowest", .p4), ("planning", .p4),
   ("5", .p4)]

/-- `\w`. -/
def isWordChar (c : Char) : Bool := c.isAlphanum || c == '_'

/-- A digit that stands alone at the head, or else the first word: what
comes before white space or a dash. -/
def priorityToken (raw : Text) : Text :=
  let word := raw.takeWhile fun c => !(isSpace c || c == '-')
  match raw with
  | d :: rest => if d.isDigit && !(rest.head?.any isWordChar) then [d] else word
  | [] => word

def resolvePriority (P : Platform) (fields : Fields) : WorkItemPriority :=
  let raw := P.toLowerCase (trimString ((textField fields "priority").getD ""))
  let token := String.ofList (priorityToken raw.toList)
  ((priorityByNative.lookup token).or (priorityByNative.lookup raw)).getD .p2

def severityByPriority : WorkItemPriority → WorkItemSeverity
  | .p0 => .sev1
  | .p1 => .sev2
  | .p2 => .sev3
  | .p3 | .p4 => .sev4

def resolveTeam (ctx : ProjectionContext) (config : TwinProjectionConfig) : Option Uuid :=
  match config.teamId with
  | some team => if ctx.teams.contains team then some team else none
  | none =>
    match ctx.teams with
    | [team] => some team
    | _ => none

/-- `stringList([fields[key], …])`. -/
def stringList (fields : Fields) (keys : List String) : List String :=
  (keys.filterMap fun key => (textField fields key).map trimString).filter (· != "")

def resolveOwner (ctx : ProjectionContext) (fields : Fields) (config : TwinProjectionConfig) :
    Option Uuid :=
  let candidates := stringList fields
    ["assigneeAccountId", "assignee", "assigned_to", "assigneeEmail", "assignedToEmail"]
  let mapped := (candidates.findSome? fun c => config.ownerMap.lookup c).filter fun id =>
    ctx.people.any (·.1 == id)
  let lower := ctx.platform.toLowerCase
  mapped.or
    ((stringList fields ["assigneeEmail", "assignedToEmail"]).head?.bind fun email =>
      (ctx.people.find? fun p => lower p.2 == lower email).map (·.1))

/-- The node types of a description that end a line. -/
def isBlockNode (type : Option Json) : Bool :=
  match type with
  | some (.str s) => ["paragraph", "heading", "listItem", "codeBlock", "blockquote"].contains s
  | _ => false

mutual

/-- `walk`: the text of a node and of its content. -/
def descriptionText : Json → Text
  | .obj entries =>
    ((textField entries "text").getD "").toList
      ++ contentText (isBlockNode (lookup entries "type")) entries
  | _ => []

/-- The part for `node.content`, if that is an array. -/
def contentText (block : Bool) : List (String × Json) → Text
  | [] => []
  | (key, value) :: entries =>
    if key = "content" then
      match value with
      | .arr nodes => descriptionTexts nodes ++ (if block then ['\n'] else [])
      | _ => []
    else contentText block entries

def descriptionTexts : List Json → Text
  | [] => []
  | node :: nodes => descriptionText node ++ descriptionTexts nodes

end

/-- `text.replace(/\n{3,}/g, '\n\n')`, after `k` ends of lines. -/
def collapseLines : Nat → Text → Text
  | _, [] => []
  | k, c :: t =>
    if c = '\n' then if k < 2 then c :: collapseLines (k + 1) t else collapseLines k t
    else c :: collapseLines 0 t

def plainText (value : Option Json) : String :=
  match value with
  | some (.str s) => s
  | some node => String.ofList (trim (collapseLines 0 (descriptionText node)))
  | none => ""

/-- The fields a projected item should have. -/
structure Desired where
  type : WorkItemType
  title : String
  description : String
  priority : WorkItemPriority
  severity : Option WorkItemSeverity
  ownerId : Option Uuid
  teamId : Uuid

/-- The native key, or the id of a record that has none. -/
def sourceKey (twin : CanonicalTwin) : String := orText twin.nativeKey twin.externalId

def desiredOf (ctx : ProjectionContext) (twin : CanonicalTwin) (state : Snapshot) (type : WorkItemType)
    (teamId : Uuid) : Desired :=
  let priority := resolvePriority ctx.platform state.fields
  { type := type
    title := sliceString (orText (some state.title) (sourceKey twin)) 500
    description := plainText (lookup state.fields "description")
    priority := priority
    severity := if type = .incident then some (severityByPriority priority) else none
    ownerId := resolveOwner ctx state.fields (ctx.config twin.connectorId)
    teamId := teamId }

/-- What the first part of a call makes of the twin's row: nothing when the
projection is off, or no type or team is resolved. -/
def planOf (ctx : ProjectionContext) (twin : CanonicalTwin) (state : Snapshot) : Option Desired :=
  let config := ctx.config twin.connectorId
  if config.enabled then
    (resolveType ctx.platform twin.provider twin.artifactType state.fields config).bind fun type =>
      (resolveTeam ctx config).map fun team => desiredOf ctx twin state type team
  else none

/-! ## Writing the item -/

/-- `sourceCreatedAt`: what `Date.parse` makes of the field is left open. -/
structure Clock where
  parse : String → Option Millis

def sourceCreatedAt (clock : Clock) (fields : Fields) : Option Millis :=
  (textField fields "createdAt").bind clock.parse

def Desired.setOn (d : Desired) (item : WorkItem) : WorkItem :=
  { item with
    type := d.type
    title := d.title
    description := d.description
    priority := d.priority
    severity := d.severity
    ownerId := d.ownerId
    teamId := d.teamId }

/-- The inserted row. -/
def projectedItem (ctx : ProjectionContext) (clock : Clock) (id : Uuid) (twin : CanonicalTwin)
    (state : Snapshot) (d : Desired) : WorkItem where
  id := id
  orgId := ctx.orgId
  itemKey := sourceKey twin
  type := d.type
  title := d.title
  description := d.description
  status := state.status
  workflowVersion := 1
  priority := d.priority
  severity := d.severity
  ownerId := d.ownerId
  teamId := d.teamId
  enteredStateAt := state.sourceUpdatedAt
  createdAt := (sourceCreatedAt clock state.fields).getD state.sourceUpdatedAt
  agingBucket := .green
  agingScore := 0
  sla := ⟨0, none, false⟩
  customFields := []
  tags := []
  source := some ⟨twin.id, twin.connectorId, twin.provider, orNull twin.nativeUrl,
    some state.sourceUpdatedAt⟩

/-- `GREATEST(COALESCE(source_updated_at, t), t)`. -/
def greatest (applied : Option Millis) (t : Millis) : Millis := max (applied.getD t) t

/-- The field update of an existing item. -/
def updatedItem (twin : CanonicalTwin) (state : Snapshot) (d : Desired) (item : WorkItem) : WorkItem :=
  { d.setOn item with
    itemKey := sourceKey twin
    source := item.source.map fun source =>
      { source with
        nativeUrl := orNull twin.nativeUrl
        updatedAt := some (greatest source.updatedAt state.sourceUpdatedAt) } }

/-- The time of the event that the item shows. -/
def appliedAt (item : WorkItem) : Option Millis := item.source.bind (·.updatedAt)

/-- The test for replays and late deliveries, on the item that was read. -/
def appliedLater (item : WorkItem) (state : Snapshot) : Bool :=
  match appliedAt item with
  | some t => state.sourceUpdatedAt < t
  | none => false

def isItemOf (twinId : Uuid) (item : WorkItem) : Bool :=
  item.source.map (·.twinId) == some twinId

/-! ## One call -/

/-- How far a call of `projectTwin` has come. -/
inductive Projection where
  /-- The row of the twin is read next. -/
  | started
  /-- The existing item is read next. -/
  | planned (twin : CanonicalTwin) (desired : Desired)
  | creating (twin : CanonicalTwin) (desired : Desired)
  | updating (twin : CanonicalTwin) (desired : Desired) (existing : WorkItem)
  /-- `applySourceStateChange` reads the item next. -/
  | moving (itemId : Uuid)
  | committing (itemId : Uuid) (change : StateChange)
  | returned
  | failed

structure ProjectionDb where
  twins : List CanonicalTwin
  items : List WorkItem
  policies : List SlaPolicy

/-- The unique index on `(org_id, item_key)` of another row. -/
def keyTaken (items : List WorkItem) (itemId : Uuid) (key : String) : Bool :=
  items.any fun i => i.id != itemId && i.itemKey == key

def insertLocal (items : List WorkItem) (item : WorkItem) : Option (List WorkItem) :=
  if item.source.isSome || items.any (·.id == item.id) || keyTaken items item.id item.itemKey then none
  else some (items ++ [item])

def createStage (ctx : ProjectionContext) (clock : Clock) (db : ProjectionDb) (state : Snapshot) (id : Uuid)
    (twin : CanonicalTwin) (d : Desired) : ProjectionDb × Projection :=
  -- ON CONFLICT (org_id, source_twin_id) DO NOTHING: a lost race starts again
  if db.items.any (isItemOf twin.id) then (db, .started)
  else if keyTaken db.items id (sourceKey twin) then (db, .failed)
  else ({ db with items := db.items ++ [projectedItem ctx clock id twin state d] }, .returned)

def updateStage (db : ProjectionDb) (state : Snapshot) (twin : CanonicalTwin) (d : Desired)
    (existing : WorkItem) : ProjectionDb × Projection :=
  if keyTaken db.items existing.id (sourceKey twin) then (db, .failed)
  else
    ({ db with items := Table.update (·.id == existing.id) (updatedItem twin state d) db.items },
      if state.status != "" && state.status != existing.status then .moving existing.id
      else .returned)

/-- The read of `applySourceStateChange`. -/
def moveStage (db : ProjectionDb) (state : Snapshot) (itemId : Uuid) : Projection :=
  match db.items.find? (·.id == itemId) with
  | none => .failed
  | some item =>
    if item.status = state.status then .returned
    else .committing itemId
      (stateChangeOf db.policies item state.status state.sourceUpdatedAt item.customFields)

def commitStage (db : ProjectionDb) (itemId : Uuid) (change : StateChange) :
    ProjectionDb × Projection :=
  if db.items.any fun i => i.id == itemId && i.status == change.fromState then
    ({ db with
      items := Table.update (fun i => i.id == itemId && i.status == change.fromState) change.apply
        db.items }, .returned)
  else (db, .failed)

/-- The next read or transaction of a call; `id` is the random id of an item
that it may create. -/
def advance (ctx : ProjectionContext) (clock : Clock) (twinId : Uuid) (state : Snapshot) (id : Uuid)
    (db : ProjectionDb) : Projection → ProjectionDb × Projection
  | .started =>
    match db.twins.find? (·.id == twinId) with
    | none => (db, .returned)
    | some twin =>
      match planOf ctx twin state with
      | none => (db, .returned)
      | some d => (db, .planned twin d)
  | .planned twin d =>
    match db.items.find? (isItemOf twin.id) with
    | none => (db, .creating twin d)
    | some existing =>
      if appliedLater existing state then (db, .returned)
      else (db, .updating twin d existing)
  | .creating twin d => createStage ctx clock db state id twin d
  | .updating twin d existing => updateStage db state twin d existing
  | .moving itemId => (db, moveStage db state itemId)
  | .committing itemId change => commitStage db itemId change
  | .returned => (db, .returned)
  | .failed => (db, .failed)

end Cadena.Connectors.Projections
