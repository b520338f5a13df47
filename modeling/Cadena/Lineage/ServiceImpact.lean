import Cadena.Base.BreadthFirst
import Cadena.Lineage.LineageExport
import Cadena.Services.ServiceRegistry
import Mathlib.Data.Rat.Floor

/-!
# The impact of a service

`getServiceImpact` walks from the items that a service affects over the links
of work items, whichever way they point, and says for each item by which chain
of links it has come there. It finds exactly the items that are near enough,
and each chain is one of existing links.
-/

namespace Cadena.Lineage

open Cadena.Base Cadena.WorkItems Cadena.Services BreadthFirst

/-- A row of `work_item_service_links`. -/
structure ServiceLink where
  id : Uuid
  orgId : Uuid
  workItemId : Uuid
  serviceId : Uuid
  linkType : String
  createdAt : Millis

def serviceLinkType : String := "affects"

structure ServiceLinkTable where
  rows : List ServiceLink
  unique : (rows.map fun l => (l.workItemId, l.serviceId, l.linkType)).Nodup

/-- `ORDER BY` a time: rows of one time come as the database has them. -/
structure TimeOrder (ρ : Type) (stamp : ρ → Millis) where
  arrange : List ρ → List ρ
  perm : ∀ rows, (arrange rows).Perm rows
  sorted : ∀ rows, (arrange rows).Pairwise fun a b => stamp a ≤ stamp b

/-- The tables, and the order in which they answer: the affected items, and the
links of each item. -/
structure ImpactDb where
  items : Uuid → Option WorkItem
  keyed : ∀ id item, items id = some item → item.id = id
  links : List WorkItemLink
  serviceLinks : ServiceLinkTable
  itemOrder : TimeOrder WorkItem (·.createdAt)
  linkOrder : Uuid → TimeOrder WorkItemLink (·.createdAt)

structure ImpactedWorkItem where
  id : Uuid
  key : String
  type : WorkItemType
  title : String
  status : String
  severity : Option WorkItemSeverity
  priority : WorkItemPriority
  agingBucket : AgingBucket
  teamId : Uuid
  deriving DecidableEq

def mapItem (row : WorkItem) : ImpactedWorkItem :=
  ⟨row.id, row.itemKey, row.type, row.title, row.status, row.severity, row.priority, row.agingBucket,
    row.teamId⟩

structure ImpactEdge where
  linkType : String
  fromKey : String
  toKey : String
  deriving DecidableEq

/-- A `TraversalState`, and a node of the result. -/
structure ImpactNode where
  workItem : ImpactedWorkItem
  distance : Nat
  via : List ImpactEdge

structure ImpactSummary where
  total : Nat
  byType : List (String × Nat)
  openIncidents : Nat
  highestSeverity : Option WorkItemSeverity

/-- An empty list of types is no filter. -/
structure ServiceImpactQuery where
  orgId : Uuid
  serviceId : Uuid
  depth : Option Rat
  edgeTypes : List String

structure ServiceImpactResult where
  service : ServiceRecord
  depth : Nat
  generatedAt : Millis
  summary : ImpactSummary
  impacted : List ImpactNode

def defaultImpactDepth : Nat := 3

def maxImpactDepth : Int := 10

def clampDepth (depth : Option Rat) : Nat :=
  match depth with
  | none => defaultImpactDepth
  | some depth => (max 1 (min maxImpactDepth depth.floor)).toNat

/-- An item of the tenant. -/
def itemOf (db : ImpactDb) (orgId id : Uuid) : Option WorkItem := (db.items id).filter (·.orgId = orgId)

def directlyAffected (db : ImpactDb) (orgId serviceId : Uuid) : List WorkItem :=
  (db.serviceLinks.rows.filter fun l =>
    l.serviceId = serviceId && l.orgId = orgId && l.linkType = serviceLinkType).filterMap fun l =>
      itemOf db orgId l.workItemId

def loadDirectlyAffected (db : ImpactDb) (orgId serviceId : Uuid) : List ImpactedWorkItem :=
  (db.itemOrder.arrange (directlyAffected db orgId serviceId)).map mapItem

structure Neighbour where
  item : ImpactedWorkItem
  linkType : String
  reversed : Bool

def impactLinks (db : ImpactDb) (orgId workItemId : Uuid) : List WorkItemLink :=
  db.links.filter fun link => (link.sourceId = workItemId || link.targetId = workItemId)
    && (itemOf db orgId link.sourceId).isSome && (itemOf db orgId link.targetId).isSome

def loadNeighbours (db : ImpactDb) (orgId workItemId : Uuid) : List Neighbour :=
  ((db.linkOrder workItemId).arrange (impactLinks db orgId workItemId)).filterMap fun link =>
    (itemOf db orgId (connectedId workItemId link)).map fun other =>
      ⟨mapItem other, link.linkType.text, link.targetId = workItemId⟩

def reached (current : ImpactNode) (n : Neighbour) : ImpactNode where
  workItem := n.item
  distance := current.distance + 1
  via := current.via ++ [
    { linkType := n.linkType
      fromKey := if n.reversed then n.item.key else current.workItem.key
      toKey := if n.reversed then current.workItem.key else n.item.key }]

/-- The states visited, in the order of their visit, and the queue. -/
structure ImpactWalk where
  visited : List ImpactNode
  queue : List ImpactNode

def passes (edgeTypes : List String) (linkType : String) : Bool :=
  edgeTypes = [] || linkType ∈ edgeTypes

/-- The body of the inner loop. -/
def visitNeighbour (edgeTypes : List String) (current : ImpactNode) (walk : ImpactWalk) (n : Neighbour) :
    ImpactWalk :=
  if passes edgeTypes n.linkType = false then walk
  else if n.item.id ∈ walk.visited.map (·.workItem.id) then walk
  else ⟨walk.visited ++ [reached current n], walk.queue ++ [reached current n]⟩

def impactLoop (db : ImpactDb) (orgId : Uuid) (edgeTypes : List String) (depth : Nat) :
    Nat → ImpactWalk → ImpactWalk
  | 0, walk => walk
  | fuel + 1, walk =>
    match walk.queue with
    | [] => walk
    | current :: queue =>
      let taken := { walk with queue := queue }
      impactLoop db orgId edgeTypes depth fuel <|
        if depth ≤ current.distance then taken
        else (loadNeighbours db orgId current.workItem.id).foldl (visitNeighbour edgeTypes current) taken

def seedNode (service : ServiceRecord) (item : ImpactedWorkItem) : ImpactNode where
  workItem := item
  distance := 1
  via := [⟨serviceLinkType, String.ofList service.serviceKey, item.key⟩]

/-- Each affected item and each end of a link is queued once. -/
def impactWalk (db : ImpactDb) (service : ServiceRecord) (query : ServiceImpactQuery) : ImpactWalk :=
  let seeds := (loadDirectlyAffected db query.orgId query.serviceId).map (seedNode service)
  impactLoop db query.orgId query.edgeTypes (clampDepth query.depth)
    (db.serviceLinks.rows.length + 2 * db.links.length + 1) ⟨seeds, seeds⟩

def closedIncidentStates : List String := ["Resolved", "Closed"]

def severityIndex : WorkItemSeverity → Nat
  | .sev1 => 0
  | .sev2 => 1
  | .sev3 => 2
  | .sev4 => 3

def bump (key : String) : List (String × Nat) → List (String × Nat)
  | [] => [(key, 1)]
  | (k, n) :: rest => if k = key then (k, n + 1) :: rest else (k, n) :: bump key rest

def ImpactedWorkItem.openIncident (item : ImpactedWorkItem) : Bool :=
  item.type = .incident && !closedIncidentStates.contains item.status

/-- The more severe of the two. -/
def raiseSeverity (highest : Option WorkItemSeverity) (item : ImpactedWorkItem) : Option WorkItemSeverity :=
  match item.type, item.severity with
  | .incident, some severity =>
    match highest with
    | none => some severity
    | some current => if severityIndex severity < severityIndex current then some severity else some current
  | _, _ => highest

def summarize (impacted : List ImpactNode) : ImpactSummary where
  total := impacted.length
  byType := impacted.foldl (fun counts node => bump node.workItem.type.text counts) []
  openIncidents := impacted.foldl (fun n node => if node.workItem.openIncident then n + 1 else n) 0
  highestSeverity := impacted.foldl (fun highest node => raiseSeverity highest node.workItem) none

/-! ## `getServiceImpact` -/

inductive ImpactError where
  | serviceNotFound (serviceId : Uuid)
  deriving DecidableEq

def ImpactError.message : ImpactError → String
  | .serviceNotFound id => "Service " ++ quoted (idText id) ++ " not found in this tenant"

def getServiceById (services : ServiceTable) (orgId serviceId : Uuid) : Option ServiceRecord :=
  services.rows.find? fun s => s.orgId == orgId && s.id == serviceId

/-- By distance, and then as the runtime compares the keys. -/
def impactLe (keyLe : String → String → Bool) (a b : ImpactNode) : Bool :=
  a.distance < b.distance || a.distance = b.distance && keyLe a.workItem.key b.workItem.key

def getServiceImpact (keyLe : String → String → Bool) (db : ImpactDb) (services : ServiceTable)
    (query : ServiceImpactQuery) (now : Millis) : Except ImpactError ServiceImpactResult :=
  match getServiceById services query.orgId query.serviceId with
  | none => .error (.serviceNotFound query.serviceId)
  | some service =>
    let impacted := (impactWalk db service query).visited.insertionSort fun a b => impactLe keyLe a b
    .ok ⟨service, clampDepth query.depth, now, summarize impacted, impacted⟩

/-! ## Distances and chains -/

section
variable (db : ImpactDb) (service : ServiceRecord) (query : ServiceImpactQuery)

/-- The service affects the item, which is one of the tenant. -/
def Affects (v : Uuid) : Prop :=
  (itemOf db query.orgId v).isSome ∧ ∃ l ∈ db.serviceLinks.rows,
    l.serviceId = query.serviceId ∧ l.orgId = query.orgId ∧ l.linkType = serviceLinkType ∧ l.workItemId = v

/-- A link of the tenant that the filter lets pass. -/
def Passing (link : WorkItemLink) : Prop :=
  link ∈ db.links ∧ passes query.edgeTypes link.linkType.text = true ∧
    (itemOf db query.orgId link.sourceId).isSome ∧ (itemOf db query.orgId link.targetId).isSome

/-- A link joins the two items, whichever way it points. -/
def Joined (v w : Uuid) : Prop :=
  ∃ link, Passing db query link ∧
    (link.sourceId = v ∧ link.targetId = w ∨ link.targetId = v ∧ link.sourceId = w)

/-- The distance of an item from the service; what is affected directly is at
distance one. -/
def ImpactDistance (v : Uuid) (d : Nat) : Prop :=
  ∃ n, d = n + 1 ∧ AtDistance (Joined db query) (Affects db query) n v

/-- A chain from the service to an item: the edge of the service, and then
links that each join the item before to the next, as they are recorded. -/
inductive ViaChain : Uuid → List ImpactEdge → Prop where
  | affects {v : Uuid} {item : WorkItem} (h : Affects db query v)
      (hitem : itemOf db query.orgId v = some item) :
      ViaChain v [⟨serviceLinkType, String.ofList service.serviceKey, item.itemKey⟩]
  | link {v w : Uuid} {via : List ImpactEdge} {link : WorkItemLink} {source target : WorkItem}
      (h : ViaChain v via) (hlink : Passing db query link)
      (hsource : itemOf db query.orgId link.sourceId = some source)
      (htarget : itemOf db query.orgId link.targetId = some target)
      (hends : link.sourceId = v ∧ link.targetId = w ∨ link.targetId = v ∧ link.sourceId = w) :
      ViaChain w (via ++ [⟨link.linkType.text, source.itemKey, target.itemKey⟩])

/-- The node shows its item, and a chain as long as its distance. -/
structure Justified (node : ImpactNode) : Prop where
  item : (itemOf db query.orgId node.workItem.id).map mapItem = some node.workItem
  length : node.via.length = node.distance
  chain : ViaChain db service query node.workItem.id node.via

end

section
variable {db : ImpactDb} {service : ServiceRecord} {query : ServiceImpactQuery} {v w : Uuid}

theorem itemOf_id {orgId : Uuid} {item : WorkItem} (h : itemOf db orgId v = some item) : item.id = v := by
  rw [itemOf, Option.filter_eq_some_iff] at h
  exact db.keyed v item h.1

theorem ViaChain.length_pos {via : List ImpactEdge} (h : ViaChain db service query v via) :
    0 < via.length := by
  cases h <;> simp

theorem mem_loadNeighbours {orgId : Uuid} {n : Neighbour} :
    n ∈ loadNeighbours db orgId v ↔
      ∃ link ∈ db.links, (link.sourceId = v ∨ link.targetId = v) ∧
        (itemOf db orgId link.sourceId).isSome ∧ (itemOf db orgId link.targetId).isSome ∧
        ∃ other, itemOf db orgId (connectedId v link) = some other ∧
          n = ⟨mapItem other, link.linkType.text, link.targetId = v⟩ := by
  simp only [loadNeighbours, impactLinks, List.mem_filterMap,
    ((db.linkOrder v).perm _).mem_iff, List.mem_filter, Option.map_eq_some_iff, Bool.and_eq_true,
    Bool.or_eq_true, decide_eq_true_eq]
  constructor
  · rintro ⟨link, ⟨hlink, ⟨hend, hsource⟩, htarget⟩, other, hother, rfl⟩
    exact ⟨link, hlink, hend, hsource, htarget, other, hother, rfl⟩
  · rintro ⟨link, hlink, hend, hsource, htarget, other, hother, rfl⟩
    exact ⟨link, ⟨hlink, ⟨hend, hsource⟩, htarget⟩, other, hother, rfl⟩

theorem connectedId_cases {link : WorkItemLink} (h : link.sourceId = v ∨ link.targetId = v) :
    (link.targetId ≠ v ∧ link.sourceId = v ∧ connectedId v link = link.targetId) ∨
      (link.targetId = v ∧ connectedId v link = link.sourceId) := by
  unfold connectedId
  by_cases htarget : link.targetId = v
  · right
    refine ⟨htarget, ?_⟩
    split
    · rename_i hsource
      rw [htarget, hsource]
    · rfl
  · left
    have hsource := h.resolve_right htarget
    exact ⟨htarget, hsource, if_pos hsource⟩

theorem joined_iff : Joined db query v w ↔
    w ∈ ((loadNeighbours db query.orgId v).filter fun n => passes query.edgeTypes n.linkType).map
      (·.item.id) := by
  simp only [List.mem_map, List.mem_filter, mem_loadNeighbours]
  constructor
  · rintro ⟨link, ⟨hlink, hpass, hsource, htarget⟩, hends⟩
    have hend : link.sourceId = v ∨ link.targetId = v := hends.imp And.left And.left
    have hw : connectedId v link = w := by
      rcases connectedId_cases hend with ⟨hne, -, heq⟩ | ⟨ht, heq⟩
      · rw [heq]
        exact (hends.resolve_right fun h => hne h.1).2
      · rw [heq]
        rcases hends with ⟨hs, hw⟩ | ⟨-, hw⟩
        · rw [hs, ← ht, hw]
        · exact hw
    obtain ⟨other, hother⟩ : ∃ other, itemOf db query.orgId (connectedId v link) = some other := by
      rcases connectedId_cases hend with ⟨-, -, heq⟩ | ⟨-, heq⟩
      · exact heq ▸ Option.isSome_iff_exists.mp htarget
      · exact heq ▸ Option.isSome_iff_exists.mp hsource
    exact ⟨_, ⟨⟨link, hlink, hend, hsource, htarget, other, hother, rfl⟩, hpass⟩,
      (itemOf_id hother).trans hw⟩
  · rintro ⟨n, ⟨⟨link, hlink, hend, hsource, htarget, other, hother, rfl⟩, hpass⟩, rfl⟩
    refine ⟨link, ⟨hlink, hpass, hsource, htarget⟩, ?_⟩
    have hid : (mapItem other).id = connectedId v link := itemOf_id hother
    show _ ∧ _ = (mapItem other).id ∨ _ ∧ _ = (mapItem other).id
    rw [hid]
    rcases connectedId_cases hend with ⟨-, hs, heq⟩ | ⟨ht, heq⟩
    · exact .inl ⟨hs, heq.symm⟩
    · exact .inr ⟨ht, heq.symm⟩

theorem affects_iff : Affects db query v ↔
    v ∈ (loadDirectlyAffected db query.orgId query.serviceId).map (·.id) := by
  simp only [loadDirectlyAffected, List.mem_map, (db.itemOrder.perm _).mem_iff, directlyAffected,
    List.mem_filterMap, List.mem_filter, Bool.and_eq_true, decide_eq_true_eq, exists_exists_and_eq_and]
  constructor
  · rintro ⟨hsome, l, hl, hservice, horg, htype, rfl⟩
    obtain ⟨item, hitem⟩ := Option.isSome_iff_exists.mp hsome
    exact ⟨item, ⟨l, ⟨hl, ⟨hservice, horg⟩, htype⟩, hitem⟩, itemOf_id hitem⟩
  · rintro ⟨item, ⟨l, ⟨hl, ⟨hservice, horg⟩, htype⟩, hitem⟩, rfl⟩
    have hid : (mapItem item).id = l.workItemId := itemOf_id hitem
    exact ⟨by rw [hid, hitem]; rfl, l, hl, hservice, horg, htype, hid.symm⟩

theorem loadDirectlyAffected_nodup (orgId serviceId : Uuid) :
    ((loadDirectlyAffected db orgId serviceId).map (·.id)).Nodup := by
  rw [loadDirectlyAffected, List.map_map]
  refine ((db.itemOrder.perm _).map _).nodup_iff.mpr ?_
  rw [directlyAffected, List.Nodup, List.pairwise_map, List.pairwise_filterMap]
  have hunique := db.serviceLinks.unique
  rw [List.Nodup, List.pairwise_map] at hunique
  refine (hunique.filter _).imp_of_mem fun {a b} ha hb hne x hx y hy hid => hne ?_
  have ha' := (List.mem_filter.mp ha).2
  have hb' := (List.mem_filter.mp hb).2
  simp only [Bool.and_eq_true, decide_eq_true_eq] at ha' hb'
  have hitem : a.workItemId = b.workItemId := (itemOf_id hx).symm.trans (hid.trans (itemOf_id hy))
  rw [hitem, ha'.1.1, ha'.2, hb'.1.1, hb'.2]

/-! ## The walk -/

/-- What the neighbours of a node add, in their order. -/
def newNodes (edgeTypes : List String) (current : ImpactNode) : List Uuid → List Neighbour → List ImpactNode
  | _, [] => []
  | seen, n :: ns =>
    if passes edgeTypes n.linkType = false ∨ n.item.id ∈ seen then newNodes edgeTypes current seen ns
    else reached current n :: newNodes edgeTypes current (seen ++ [n.item.id]) ns

theorem foldl_visitNeighbour (edgeTypes : List String) (current : ImpactNode) (ns : List Neighbour)
    (visited queue : List ImpactNode) :
    ns.foldl (visitNeighbour edgeTypes current) ⟨visited, queue⟩ =
      ⟨visited ++ newNodes edgeTypes current (visited.map (·.workItem.id)) ns,
        queue ++ newNodes edgeTypes current (visited.map (·.workItem.id)) ns⟩ := by
  induction ns generalizing visited queue with
  | nil => simp [newNodes]
  | cons n ns ih =>
    rw [List.foldl_cons, visitNeighbour, newNodes]
    by_cases hpass : passes edgeTypes n.linkType = false
    · rw [if_pos hpass, if_pos (.inl hpass), ih]
    · by_cases hseen : n.item.id ∈ visited.map (·.workItem.id)
      · rw [if_neg hpass, if_pos hseen, if_pos (.inr hseen), ih]
      · rw [if_neg hpass, if_neg hseen, if_neg (not_or.mpr ⟨hpass, hseen⟩), ih]
        simp [reached]

theorem newNodes_ids (edgeTypes : List String) (current : ImpactNode) (seen : List Uuid)
    (ns : List Neighbour) :
    (newNodes edgeTypes current seen ns).map (·.workItem.id) =
      unseen seen ((ns.filter fun n => passes edgeTypes n.linkType).map (·.item.id)) := by
  induction ns generalizing seen with
  | nil => rfl
  | cons n ns ih =>
    rw [newNodes]
    by_cases hpass : passes edgeTypes n.linkType = false
    · rw [if_pos (.inl hpass), ih, List.filter_cons_of_neg (by simp [hpass])]
    · rw [List.filter_cons_of_pos (by simpa using hpass), List.map_cons, unseen]
      by_cases hseen : n.item.id ∈ seen
      · rw [if_pos (.inr hseen), if_pos hseen, ih]
      · rw [if_neg (not_or.mpr ⟨hpass, hseen⟩), if_neg hseen, List.map_cons, ih]
        rfl

theorem mem_newNodes {edgeTypes : List String} {current node : ImpactNode} {seen : List Uuid}
    {ns : List Neighbour} (h : node ∈ newNodes edgeTypes current seen ns) :
    ∃ n ∈ ns, passes edgeTypes n.linkType = true ∧ node = reached current n := by
  induction ns generalizing seen with
  | nil => cases h
  | cons n ns ih =>
    rw [newNodes] at h
    split at h
    · obtain ⟨n', hn', hnode⟩ := ih h
      exact ⟨n', List.mem_cons_of_mem _ hn', hnode⟩
    · rename_i hnew
      rcases List.mem_cons.mp h with rfl | h
      · exact ⟨n, List.mem_cons_self, by simpa using fun hpass => hnew (.inl hpass), rfl⟩
      · obtain ⟨n', hn', hnode⟩ := ih h
        exact ⟨n', List.mem_cons_of_mem _ hn', hnode⟩

theorem Justified.reached {current : ImpactNode} (h : Justified db service query current) {n : Neighbour}
    (hn : n ∈ loadNeighbours db query.orgId current.workItem.id)
    (hpass : passes query.edgeTypes n.linkType = true) :
    Justified db service query (reached current n) := by
  obtain ⟨link, hlink, hend, hsource, htarget, other, hother, rfl⟩ := mem_loadNeighbours.mp hn
  obtain ⟨source, hsource'⟩ := Option.isSome_iff_exists.mp hsource
  obtain ⟨target, htarget'⟩ := Option.isSome_iff_exists.mp htarget
  obtain ⟨item, hitem, hcurrent⟩ := Option.map_eq_some_iff.mp h.item
  have hid : (mapItem other).id = connectedId current.workItem.id link := itemOf_id hother
  have hkey : current.workItem.key = item.itemKey := by rw [← hcurrent]; rfl
  refine ⟨?_, ?_, ?_⟩
  · show (itemOf db query.orgId (mapItem other).id).map mapItem = some (mapItem other)
    rw [hid, hother]
    rfl
  · simp [Lineage.reached, h.length]
  · have hpassing : Passing db query link := ⟨hlink, hpass, hsource, htarget⟩
    rcases connectedId_cases hend with ⟨hne, hs, heq⟩ | ⟨ht, heq⟩
    · obtain rfl : target = other := Option.some.inj (htarget'.symm.trans (heq ▸ hother))
      obtain rfl : source = item := Option.some.inj (hsource'.symm.trans (hs ▸ hitem))
      have hchain := h.chain.link hpassing hsource' htarget' (.inl ⟨hs, (hid.trans heq).symm⟩)
      simpa [Lineage.reached, hne, hkey, mapItem] using hchain
    · obtain rfl : source = other := Option.some.inj (hsource'.symm.trans (heq ▸ hother))
      obtain rfl : target = item := Option.some.inj (htarget'.symm.trans (ht ▸ hitem))
      have hchain := h.chain.link hpassing hsource' htarget' (.inr ⟨ht, (hid.trans heq).symm⟩)
      simpa [Lineage.reached, ht, hkey, mapItem] using hchain

theorem Justified.seed {item : ImpactedWorkItem}
    (h : item ∈ loadDirectlyAffected db query.orgId query.serviceId) :
    Justified db service query (seedNode service item) := by
  have haffects : Affects db query item.id := affects_iff.mpr (List.mem_map_of_mem h)
  obtain ⟨row, hrow⟩ := Option.isSome_iff_exists.mp haffects.1
  have hmap : mapItem row = item := by
    rw [loadDirectlyAffected, List.mem_map] at h
    obtain ⟨row', hrow', rfl⟩ := h
    rw [(db.itemOrder.perm _).mem_iff, directlyAffected, List.mem_filterMap] at hrow'
    obtain ⟨l, -, hitem⟩ := hrow'
    have hsame : (mapItem row').id = l.workItemId := itemOf_id hitem
    rw [hsame, hitem] at hrow
    rw [Option.some.inj hrow]
  refine ⟨?_, rfl, ?_⟩
  · show (itemOf db query.orgId item.id).map mapItem = some item
    rw [hrow, Option.map_some, hmap]
  · subst hmap
    exact .affects haffects hrow

/-- A node as the search marks it: what is affected directly comes first. -/
def ImpactNode.mark (node : ImpactNode) : Uuid × Nat := (node.workItem.id, node.distance - 1)

/-- What holds whenever a node is taken from the queue. -/
structure ImpactFound (db : ImpactDb) (service : ServiceRecord) (query : ServiceImpactQuery) (depth : Nat)
    (walk : ImpactWalk) : Prop where
  leveled : Leveled (Joined db query) (Affects db query) (depth - 1) (walk.visited.map (·.mark))
    (walk.queue.map (·.mark))
  queued : ∀ node ∈ walk.queue, node ∈ walk.visited
  justified : ∀ node ∈ walk.visited, Justified db service query node

theorem Justified.distance_pos {node : ImpactNode} (h : Justified db service query node) :
    0 < node.distance := h.length ▸ h.chain.length_pos

variable {depth : Nat} {walk : ImpactWalk} {current : ImpactNode} {queue : List ImpactNode}

theorem ImpactFound.start (db : ImpactDb) (service : ServiceRecord) (query : ServiceImpactQuery) (depth : Nat) :
    ImpactFound db service query depth
      ⟨(loadDirectlyAffected db query.orgId query.serviceId).map (seedNode service),
        (loadDirectlyAffected db query.orgId query.serviceId).map (seedNode service)⟩ where
  leveled := by
    have hmarks : ((loadDirectlyAffected db query.orgId query.serviceId).map (seedNode service)).map
        (·.mark) = ((loadDirectlyAffected db query.orgId query.serviceId).map (·.id)).map (·, 0) := by
      rw [List.map_map, List.map_map]
      rfl
    rw [hmarks]
    exact .begin _ (loadDirectlyAffected_nodup _ _) fun v => affects_iff
  queued _ h := h
  justified node h := by
    obtain ⟨item, hitem, rfl⟩ := List.mem_map.mp h
    exact .seed hitem

theorem ImpactFound.skip (h : ImpactFound db service query depth walk)
    (hqueue : walk.queue = current :: queue) (hd : depth ≤ current.distance) :
    ImpactFound db service query depth { walk with queue := queue } where
  leveled := by
    have hleveled := h.leveled
    rw [hqueue] at hleveled
    exact hleveled.skip (Nat.sub_le_sub_right hd 1)
  queued node hnode := h.queued node (hqueue ▸ List.mem_cons_of_mem _ hnode)
  justified := h.justified

theorem ImpactFound.visit (h : ImpactFound db service query depth walk)
    (hqueue : walk.queue = current :: queue) (hd : current.distance < depth) :
    ImpactFound db service query depth
      ((loadNeighbours db query.orgId current.workItem.id).foldl (visitNeighbour query.edgeTypes current)
        { walk with queue := queue }) := by
  have hcurrent : current ∈ walk.visited := h.queued _ (hqueue ▸ List.mem_cons_self)
  have hpos := (h.justified _ hcurrent).distance_pos
  have hleveled := h.leveled
  rw [hqueue] at hleveled
  have hnear : current.distance - 1 < depth - 1 := by omega
  have hexpand := hleveled.expand hnear (fresh_unseen (fun w => joined_iff) _)
  have hkeys : (walk.visited.map (·.mark)).map Prod.fst = walk.visited.map (·.workItem.id) := by
    rw [List.map_map]
    rfl
  have hmarks : (newNodes query.edgeTypes current (walk.visited.map (·.workItem.id))
      (loadNeighbours db query.orgId current.workItem.id)).map (·.mark) =
      (unseen (walk.visited.map (·.workItem.id))
        (((loadNeighbours db query.orgId current.workItem.id).filter
          fun n => passes query.edgeTypes n.linkType).map (·.item.id))).map
            (·, current.distance - 1 + 1) := by
    rw [← newNodes_ids _ current, List.map_map]
    refine List.map_congr_left fun node hnode => ?_
    obtain ⟨n, -, -, rfl⟩ := mem_newNodes hnode
    show (n.item.id, current.distance + 1 - 1) = (n.item.id, current.distance - 1 + 1)
    rw [Nat.add_sub_cancel, Nat.sub_add_cancel hpos]
  rw [hkeys, ← hmarks] at hexpand
  rw [foldl_visitNeighbour]
  refine ⟨by simpa using hexpand, fun node hnode => ?_, fun node hnode => ?_⟩
  · rcases List.mem_append.mp hnode with hnode | hnode
    · exact List.mem_append_left _ (h.queued node (hqueue ▸ List.mem_cons_of_mem _ hnode))
    · exact List.mem_append_right _ hnode
  · rcases List.mem_append.mp hnode with hnode | hnode
    · exact h.justified node hnode
    · obtain ⟨n, hn, hpass, rfl⟩ := mem_newNodes hnode
      exact (h.justified _ hcurrent).reached hn hpass

theorem impactLoop_found (fuel : Nat) (h : ImpactFound db service query depth walk)
    (hfuel : db.serviceLinks.rows.length + 2 * db.links.length + walk.queue.length
      < fuel + walk.visited.length) :
    ∃ walk', impactLoop db query.orgId query.edgeTypes depth fuel walk = walk' ∧ walk'.queue = [] ∧
      ImpactFound db service query depth walk' := by
  induction fuel generalizing walk with
  | zero =>
    have hle := h.leveled.length_le
      (db.serviceLinks.rows.map (·.workItemId) ++
        db.links.flatMap fun link => [link.sourceId, link.targetId])
      (fun v hv => by
        obtain ⟨-, l, hl, -, -, -, rfl⟩ := hv
        exact List.mem_append_left _ (List.mem_map_of_mem hl))
      (fun v w hjoined => by
        obtain ⟨link, hlink, hends⟩ := hjoined
        refine List.mem_append_right _ (List.mem_flatMap.mpr ⟨link, hlink.1, ?_⟩)
        rcases hends with ⟨-, rfl⟩ | ⟨-, rfl⟩ <;> simp)
    have hlength : (db.links.flatMap fun link => [link.sourceId, link.targetId]).length =
        2 * db.links.length := by
      simp [List.length_flatMap, Nat.mul_comm]
    rw [List.length_append, List.length_map, List.length_map, hlength] at hle
    omega
  | succ fuel ih =>
    obtain ⟨visited, queue⟩ := walk
    cases queue with
    | nil => exact ⟨_, rfl, rfl, h⟩
    | cons current queue =>
      simp only [impactLoop]
      split
      · rename_i hdepth
        refine ih (h.skip rfl hdepth) ?_
        simp only [List.length_cons] at hfuel ⊢
        omega
      · rename_i hdepth
        refine ih (h.visit (show ImpactWalk.queue ⟨visited, current :: queue⟩ = current :: queue from rfl) (Nat.lt_of_not_le hdepth)) ?_
        rw [foldl_visitNeighbour]
        simp only [List.length_cons, List.length_append] at hfuel ⊢
        omega

theorem impactWalk_found (db : ImpactDb) (service : ServiceRecord) (query : ServiceImpactQuery) :
    (impactWalk db service query).queue = [] ∧
      ImpactFound db service query (clampDepth query.depth) (impactWalk db service query) := by
  obtain ⟨walk, rfl, hend⟩ := impactLoop_found (db.serviceLinks.rows.length + 2 * db.links.length + 1)
    (ImpactFound.start db service query (clampDepth query.depth)) (by simp)
  exact hend

theorem clampDepth_pos (d : Option Rat) : 0 < clampDepth d := by
  cases d with
  | none => decide
  | some d =>
    have hle : (1 : Int) ≤ max 1 (min maxImpactDepth d.floor) := le_max_left _ _
    simp only [clampDepth]
    omega

/-! ## The summary -/

theorem lookup_bump (key key' : String) (counts : List (String × Nat)) :
    ((bump key counts).lookup key').getD 0 =
      (counts.lookup key').getD 0 + if key = key' then 1 else 0 := by
  induction counts with
  | nil =>
    by_cases h : key = key'
    · simp [bump, h]
    · simp [bump, List.lookup_cons, h, beq_eq_false_iff_ne.mpr (Ne.symm h)]
  | cons e counts ih =>
    obtain ⟨k, n⟩ := e
    rw [bump]
    by_cases hk : k = key
    · rw [if_pos hk, List.lookup_cons, List.lookup_cons]
      by_cases hk' : key' = k
      · simp [hk', hk]
      · have hne : key ≠ key' := fun h => hk' (h.symm.trans hk.symm)
        simp [beq_eq_false_iff_ne.mpr hk', hne]
    · rw [if_neg hk, List.lookup_cons, List.lookup_cons]
      by_cases hk' : key' = k
      · have hne : key ≠ key' := fun h => hk (hk'.symm.trans h.symm)
        simp [hk', Ne.symm hk]
      · simp only [beq_eq_false_iff_ne.mpr hk']
        exact ih

theorem byType_eq (type : WorkItemType) (nodes : List ImpactNode) (counts : List (String × Nat)) :
    ((nodes.foldl (fun counts node => bump node.workItem.type.text counts) counts).lookup type.text).getD 0 =
      (counts.lookup type.text).getD 0 + nodes.countP fun node => node.workItem.type = type := by
  induction nodes generalizing counts with
  | nil => rfl
  | cons node nodes ih =>
    have htext : node.workItem.type.text = type.text ↔ node.workItem.type = type := by
      cases node.workItem.type <;> cases type <;> decide
    rw [List.foldl_cons, ih, lookup_bump, List.countP_cons]
    simp only [htext, decide_eq_true_eq]
    omega

theorem openIncidents_eq (nodes : List ImpactNode) (n : Nat) :
    nodes.foldl (fun n node => if node.workItem.openIncident then n + 1 else n) n =
      n + nodes.countP fun node => node.workItem.openIncident := by
  induction nodes generalizing n with
  | nil => rfl
  | cons node nodes ih =>
    rw [List.foldl_cons, ih, List.countP_cons]
    by_cases hopen : node.workItem.openIncident = true
    · rw [if_pos hopen, if_pos hopen, Nat.add_assoc, Nat.add_comm 1]
    · rw [if_neg hopen, if_neg hopen, Nat.add_zero]

/-- The severity is that of an incident, and none is more severe. -/
def IsHighest (nodes : List ImpactNode) (highest : Option WorkItemSeverity) : Prop :=
  (∀ severity, highest = some severity →
    ∃ node ∈ nodes, node.workItem.type = .incident ∧ node.workItem.severity = some severity) ∧
  ∀ node ∈ nodes, node.workItem.type = .incident → ∀ severity, node.workItem.severity = some severity →
    ∃ h, highest = some h ∧ severityIndex h ≤ severityIndex severity

theorem isHighest_append {nodes : List ImpactNode} {highest : Option WorkItemSeverity}
    (h : IsHighest nodes highest) (node : ImpactNode) :
    IsHighest (nodes ++ [node]) (raiseSeverity highest node.workItem) := by
  unfold raiseSeverity
  constructor
  · intro severity hseverity
    split at hseverity
    · rename_i new htype hnew
      have hnode : ∃ n ∈ nodes ++ [node], n.workItem.type = .incident ∧ n.workItem.severity = some new :=
        ⟨node, List.mem_append_right _ (List.mem_singleton_self _), htype, hnew⟩
      split at hseverity
      · exact Option.some.inj hseverity ▸ hnode
      · split at hseverity
        · exact Option.some.inj hseverity ▸ hnode
        · obtain ⟨n, hn, hn'⟩ := h.1 severity hseverity
          exact ⟨n, List.mem_append_left _ hn, hn'⟩
    · obtain ⟨n, hn, hn'⟩ := h.1 severity hseverity
      exact ⟨n, List.mem_append_left _ hn, hn'⟩
  · intro n hn htype severity hseverity
    rcases List.mem_append.mp hn with hn | hn
    · obtain ⟨current, rfl, hle⟩ := h.2 n hn htype severity hseverity
      split
      · simp only
        split
        · exact ⟨_, rfl, by omega⟩
        · exact ⟨_, rfl, hle⟩
      · exact ⟨_, rfl, hle⟩
    · obtain rfl := List.mem_singleton.mp hn
      rw [htype, hseverity]
      simp only
      split
      · exact ⟨_, rfl, Nat.le_refl _⟩
      · split
        · exact ⟨_, rfl, Nat.le_refl _⟩
        · exact ⟨_, rfl, by omega⟩

theorem highestSeverity_eq (nodes before : List ImpactNode) {highest : Option WorkItemSeverity}
    (h : IsHighest before highest) :
    IsHighest (before ++ nodes)
      (nodes.foldl (fun highest node => raiseSeverity highest node.workItem) highest) := by
  induction nodes generalizing before highest with
  | nil => simpa using h
  | cons node nodes ih =>
    have hrest := ih (before ++ [node]) (isHighest_append h node)
    rwa [List.append_assoc] at hrest

/-- The figures of the summary are those of the nodes. -/
structure Summarizes (summary : ImpactSummary) (nodes : List ImpactNode) : Prop where
  total : summary.total = nodes.length
  byType : ∀ type : WorkItemType, (summary.byType.lookup type.text).getD 0 =
    nodes.countP fun node => node.workItem.type = type
  openIncidents : summary.openIncidents = nodes.countP fun node => node.workItem.openIncident
  highestSeverity : IsHighest nodes summary.highestSeverity

theorem summarizes (nodes : List ImpactNode) : Summarizes (summarize nodes) nodes where
  total := rfl
  byType type := by
    rw [summarize, byType_eq]
    simp
  openIncidents := by
    rw [summarize, openIncidents_eq, Nat.zero_add]
  highestSeverity := highestSeverity_eq nodes [] ⟨fun _ h => (by cases h), fun _ h => (by cases h)⟩

/-! ## The result -/

/-- The result shows each item that is near enough once, with its distance and
a chain that leads there. -/
structure ImpactExact (db : ImpactDb) (services : ServiceTable) (query : ServiceImpactQuery)
    (result : ServiceImpactResult) : Prop where
  service : result.service ∈ services.rows ∧ result.service.id = query.serviceId ∧
    result.service.orgId = query.orgId
  depth : result.depth = clampDepth query.depth
  once : (result.impacted.map (·.workItem.id)).Nodup
  near : ∀ v d, (∃ node ∈ result.impacted, node.workItem.id = v ∧ node.distance = d) ↔
    d ≤ result.depth ∧ ImpactDistance db query v d
  justified : ∀ node ∈ result.impacted, Justified db result.service query node
  summary : Summarizes result.summary result.impacted

end

/-- **The impact of a service is exact, and every item in it is explained by a
chain of links.** -/
theorem getServiceImpact_exact (keyLe : String → String → Bool) (db : ImpactDb) (services : ServiceTable)
    (query : ServiceImpactQuery) (now : Millis) :
    match getServiceImpact keyLe db services query now with
    | .ok result => ImpactExact db services query result
    | .error _ => ∀ s ∈ services.rows, s.id = query.serviceId → s.orgId ≠ query.orgId := by
  rw [getServiceImpact]
  cases hservice : getServiceById services query.orgId query.serviceId with
  | none =>
    intro s hs hid horg
    have hnot := List.find?_eq_none.mp hservice s hs
    simp [hid, horg] at hnot
  | some service =>
    have hkey := List.find?_some hservice
    simp only [Bool.and_eq_true, beq_iff_eq] at hkey
    obtain ⟨hqueue, hfound⟩ := impactWalk_found db service query
    have hleveled := hfound.leveled
    rw [hqueue, List.map_nil] at hleveled
    have hmem (node : ImpactNode) :
        node ∈ (impactWalk db service query).visited.insertionSort (fun a b => impactLe keyLe a b) ↔
          node ∈ (impactWalk db service query).visited := (List.perm_insertionSort _ _).mem_iff
    have hpos := clampDepth_pos query.depth
    refine ⟨⟨List.mem_of_find?_eq_some hservice, hkey.2, hkey.1⟩, rfl, ?_, fun v d => ?_,
      fun node hnode => hfound.justified node ((hmem node).mp hnode), summarizes _⟩
    · refine ((List.perm_insertionSort _ _).map _).nodup_iff.mpr ?_
      have hkeys := hleveled.keys
      rwa [List.map_map] at hkeys
    · constructor
      · rintro ⟨node, hnode, rfl, rfl⟩
        have hvisited := (hmem node).mp hnode
        have hdistance := (hfound.justified node hvisited).distance_pos
        obtain ⟨hle, hat⟩ := hleveled.mem_iff.mp (List.mem_map_of_mem (f := (·.mark)) hvisited)
        exact ⟨by show node.distance ≤ clampDepth query.depth; omega, _,
          (Nat.sub_add_cancel hdistance).symm, hat⟩
      · rintro ⟨hle, n, rfl, hat⟩
        have hbound : n ≤ clampDepth query.depth - 1 := Nat.le_sub_of_add_le hle
        obtain ⟨node, hnode, hmark⟩ := List.mem_map.mp (hleveled.mem_iff.mpr ⟨hbound, hat⟩)
        have hdistance := (hfound.justified node hnode).distance_pos
        obtain ⟨rfl, hn⟩ := Prod.ext_iff.mp hmark
        refine ⟨node, (hmem node).mpr hnode, rfl, ?_⟩
        have hn' : node.distance - 1 = n := hn
        omega

end Cadena.Lineage
