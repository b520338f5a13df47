import Cadena.Base.GrowingSearch
import Cadena.Base.Transition
import Cadena.WorkItems.Workflow

/-!
# Lineage exports

`createLineageExport` walks the links of a work item breadth first, one query
for each item, and stores what it has found as a report. Meanwhile `createLink`
inserts links. An action is one statement of either.
-/

namespace Cadena.Lineage

open Cadena.Base Cadena.WorkItems GrowingSearch

inductive LinkType where
  | parentOf | childOf | blocks | blockedBy | relatesTo | causedBy | fixedBy | deployedIn | affects | duplicateOf
  deriving DecidableEq

def LinkType.text : LinkType → String
  | .parentOf => "parent_of"
  | .childOf => "child_of"
  | .blocks => "blocks"
  | .blockedBy => "blocked_by"
  | .relatesTo => "relates_to"
  | .causedBy => "caused_by"
  | .fixedBy => "fixed_by"
  | .deployedIn => "deployed_in"
  | .affects => "affects"
  | .duplicateOf => "duplicate_of"

structure WorkItemLink where
  id : Uuid
  sourceId : Uuid
  targetId : Uuid
  linkType : LinkType
  createdAt : Millis
  deriving DecidableEq

/-- A row of `work_items`, the columns that lineage reads. -/
structure LineageItem where
  orgId : Uuid
  key : String
  type : WorkItemType
  title : String
  status : String
  createdAt : Millis
  updatedAt : Millis

/-- The rows of `work_item_links`, in the order of their insertion. -/
structure LinkTable where
  rows : List WorkItemLink
  unique : (rows.map (·.id)).Nodup

/-- `INSERT INTO work_item_links`, which fails on an id that is there. -/
def LinkTable.insert (links : LinkTable) (link : WorkItemLink) : Option LinkTable :=
  if h : link.id ∈ links.rows.map (·.id) then none
  else
    some ⟨links.rows ++ [link], by
      rw [List.map_append, List.map_singleton]
      exact List.nodup_append.mpr ⟨links.unique, List.nodup_singleton _, by
        rintro a ha b hb rfl
        exact h (List.mem_singleton.mp hb ▸ ha)⟩⟩

/-! ## `createLink` -/

/-- `ALLOWED_EDGES_BY_PAIR`. -/
def allowedEdges : WorkItemType → WorkItemType → List LinkType
  | .epic, .epic => [.parentOf, .childOf, .blocks, .blockedBy, .relatesTo, .duplicateOf]
  | .epic, .story => [.parentOf, .blocks, .relatesTo]
  | .story, .epic => [.childOf, .blockedBy, .relatesTo]
  | .epic, .incident => [.relatesTo, .causedBy, .affects]
  | .incident, .epic => [.relatesTo, .causedBy, .affects]
  | .story, .story =>
    [.parentOf, .childOf, .blocks, .blockedBy, .relatesTo, .duplicateOf, .fixedBy, .deployedIn]
  | .story, .incident => [.parentOf, .childOf, .blocks, .blockedBy, .relatesTo, .causedBy, .fixedBy, .affects]
  | .incident, .story => [.parentOf, .childOf, .blocks, .blockedBy, .relatesTo, .causedBy, .fixedBy, .affects]
  | .incident, .incident =>
    [.parentOf, .childOf, .blocks, .blockedBy, .relatesTo, .causedBy, .duplicateOf, .affects]
  | .release, .release => [.parentOf, .childOf, .blocks, .blockedBy, .relatesTo]
  | .release, .story => [.parentOf, .relatesTo]
  | .story, .release => [.childOf, .relatesTo, .deployedIn]
  | .release, .epic => [.childOf, .relatesTo]
  | .epic, .release => [.parentOf, .relatesTo, .deployedIn]
  | .release, .incident => [.relatesTo, .causedBy, .affects]
  | .incident, .release => [.relatesTo, .causedBy, .affects]

inductive LinkError where
  | sourceNotFound (sourceId : Uuid)
  | targetNotFound (targetId : Uuid)
  | crossTenant
  | invalidEdgeType (sourceType targetType : WorkItemType) (linkType : LinkType)

def typeText : WorkItemType → String
  | .epic => "epic"
  | .story => "story"
  | .incident => "incident"
  | .release => "release"

def idText (id : Uuid) : String := String.ofList (uuidText id)

def LinkError.message : LinkError → String
  | .sourceNotFound id => "Source work item " ++ quoted (idText id) ++ " not found"
  | .targetNotFound id => "Target work item " ++ quoted (idText id) ++ " not found"
  | .crossTenant => "Cross-tenant work item links are not allowed"
  | .invalidEdgeType sourceType targetType linkType =>
    "Edge type " ++ quoted linkType.text ++ " is not allowed between " ++ quoted (typeText sourceType) ++ " and "
      ++ quoted (typeText targetType)

structure CreateLinkRequest where
  sourceId : Uuid
  targetId : Uuid
  linkType : LinkType
  orgId : Option Uuid

/-- What a call of `createLink` does next. -/
inductive CreateCall where
  | readingSource (request : CreateLinkRequest)
  | readingTarget (request : CreateLinkRequest) (source : LineageItem)
  | inserting (link : WorkItemLink)

/-- `getWorkItemById`, with or without a tenant. -/
def readItem (items : Uuid → Option LineageItem) (orgId : Option Uuid) (id : Uuid) : Option LineageItem :=
  (items id).filter fun item => orgId.all (· = item.orgId)

def readSource (items : Uuid → Option LineageItem) (request : CreateLinkRequest) : Except LinkError CreateCall :=
  match readItem items request.orgId request.sourceId with
  | none => .error (.sourceNotFound request.sourceId)
  | some source => .ok (.readingTarget request source)

def readTarget (items : Uuid → Option LineageItem) (request : CreateLinkRequest) (source : LineageItem)
    (linkId : Uuid) (now : Millis) : Except LinkError CreateCall :=
  match readItem items request.orgId request.targetId with
  | none => .error (.targetNotFound request.targetId)
  | some target =>
    if source.orgId ≠ target.orgId then .error .crossTenant
    else if request.linkType ∉ allowedEdges source.type target.type then
      .error (.invalidEdgeType source.type target.type request.linkType)
    else .ok (.inserting ⟨linkId, request.sourceId, request.targetId, request.linkType, now⟩)

/-! ## `createLineageExport` -/

structure ExportRequest where
  workItemId : Uuid
  orgId : Uuid
  actorId : String

structure ExportNode where
  id : Uuid
  key : String
  type : WorkItemType
  title : String
  status : String
  createdAt : Millis
  updatedAt : Millis

structure LineageExportDocument where
  schema : String
  exportId : Uuid
  rootWorkItemId : Uuid
  rootKey : String
  orgId : Uuid
  generatedAt : Millis
  generatedBy : String
  downloadUrl : String
  nodeCount : Nat
  edgeCount : Nat
  nodes : List ExportNode
  edges : List WorkItemLink

/-- The walk: `visitedNodeIds` and `visitedEdgeIds` hold the ids of the two
lists. -/
structure Walk where
  orderedNodeIds : List Uuid
  queue : List Uuid
  edges : List WorkItemLink

def ofTenant (items : Uuid → Option LineageItem) (orgId id : Uuid) : Bool :=
  (readItem items (some orgId) id).isSome

/-- `ORDER BY link.created_at ASC, link.id ASC`. -/
def linkLe (a b : WorkItemLink) : Bool :=
  a.createdAt < b.createdAt || a.createdAt = b.createdAt && a.id ≤ b.id

def tenantLinks (items : Uuid → Option LineageItem) (orgId : Uuid) (rows : List WorkItemLink) : List WorkItemLink :=
  rows.filter fun link => ofTenant items orgId link.sourceId && ofTenant items orgId link.targetId

def linksOf (items : Uuid → Option LineageItem) (orgId : Uuid) (rows : List WorkItemLink) (currentId : Uuid) :
    List WorkItemLink :=
  ((tenantLinks items orgId rows).filter fun link =>
    link.sourceId = currentId || link.targetId = currentId).insertionSort fun a b => linkLe a b

def connectedId (currentId : Uuid) (link : WorkItemLink) : Uuid :=
  if link.sourceId = currentId then link.targetId else link.sourceId

/-- The body of the inner loop. -/
def visitLink (currentId : Uuid) (walk : Walk) (link : WorkItemLink) : Walk :=
  let edges := if link.id ∈ walk.edges.map (·.id) then walk.edges else walk.edges ++ [link]
  if connectedId currentId link ∈ walk.orderedNodeIds then { walk with edges := edges }
  else
    { orderedNodeIds := walk.orderedNodeIds ++ [connectedId currentId link]
      queue := walk.queue ++ [connectedId currentId link]
      edges := edges }

def visitLinks (currentId : Uuid) : Walk → List WorkItemLink → Walk := List.foldl (visitLink currentId)

def exportNode (id : Uuid) (item : LineageItem) : ExportNode :=
  ⟨id, item.key, item.type, item.title, item.status, item.createdAt, item.updatedAt⟩

def lineageReport (request : ExportRequest) (root : LineageItem) (nodes : List ExportNode)
    (edges : List WorkItemLink) (exportId : Uuid) (now : Millis) : LineageExportDocument where
  schema := "cadena.lineage-report.v1"
  exportId := exportId
  rootWorkItemId := request.workItemId
  rootKey := root.key
  orgId := request.orgId
  generatedAt := now
  generatedBy := request.actorId
  downloadUrl := "/workitems/" ++ idText request.workItemId ++ "/lineage-exports/" ++ idText exportId
  nodeCount := nodes.length
  edgeCount := edges.length
  nodes := nodes
  edges := edges

/-- The export: `reading` is the second loop, with the items it has still to
read; `stored` is the row of `lineage_exports`. -/
inductive ExportCall where
  | idle
  | notFound (workItemId : Uuid)
  | exploring (request : ExportRequest) (root : LineageItem) (walk : Walk)
  | reading (request : ExportRequest) (root : LineageItem) (left : List Uuid) (nodes : List ExportNode)
      (edges : List WorkItemLink)
  | stored (report : LineageExportDocument)

/-! ## The system -/

structure LineageState where
  items : Uuid → Option LineageItem
  links : LinkTable
  creating : Nat → Option CreateCall
  exporting : ExportCall

inductive LineageAction where
  | createLink (call : Nat) (request : CreateLinkRequest)
  | readSource (call : Nat)
  | readTarget (call : Nat) (linkId : Uuid) (now : Millis)
  | insertLink (call : Nat)
  | requestExport (request : ExportRequest)
  | explore
  | readNode
  | store (exportId : Uuid) (now : Millis)

/-- After the query, the loop goes on while the queue is not empty. -/
def nextExport (request : ExportRequest) (root : LineageItem) (walk : Walk) : ExportCall :=
  if walk.queue = [] then .reading request root walk.orderedNodeIds [] walk.edges
  else .exploring request root walk

def exportStep (items : Uuid → Option LineageItem) (rows : List WorkItemLink) :
    ExportCall → LineageAction → Option ExportCall
  | .idle, .requestExport request =>
    match readItem items (some request.orgId) request.workItemId with
    | none => some (.notFound request.workItemId)
    | some root => some (.exploring request root ⟨[request.workItemId], [request.workItemId], []⟩)
  | .exploring request root ⟨orderedNodeIds, currentId :: queue, edges⟩, .explore =>
    some (nextExport request root
      (visitLinks currentId ⟨orderedNodeIds, queue, edges⟩ (linksOf items request.orgId rows currentId)))
  | .reading request root (id :: left) nodes edges, .readNode =>
    match readItem items (some request.orgId) id with
    | none => some (.reading request root left nodes edges)
    | some item => some (.reading request root left (nodes ++ [exportNode id item]) edges)
  | .reading request root [] nodes edges, .store exportId now =>
    some (.stored (lineageReport request root nodes edges exportId now))
  | _, _ => none

/-- A call that throws is over. -/
def create (s : LineageState) (call : Nat) (next : Except LinkError CreateCall) : LineageState :=
  { s with creating := setAt s.creating call next.toOption }

def lineageStep (s : LineageState) : LineageAction → Option LineageState
  | .createLink call request =>
    match s.creating call with
    | none => some { s with creating := setAt s.creating call (some (.readingSource request)) }
    | some _ => none
  | .readSource call =>
    match s.creating call with
    | some (.readingSource request) => some (create s call (readSource s.items request))
    | _ => none
  | .readTarget call linkId now =>
    match s.creating call with
    | some (.readingTarget request source) => some (create s call (readTarget s.items request source linkId now))
    | _ => none
  | .insertLink call =>
    match s.creating call with
    | some (.inserting link) =>
      some { s with links := (s.links.insert link).getD s.links, creating := setAt s.creating call none }
    | _ => none
  | action =>
    (exportStep s.items s.links.rows s.exporting action).map fun exporting => { s with exporting := exporting }

def lineageSystem : System LineageState LineageAction := ⟨lineageStep⟩

end Cadena.Lineage
