import Cadena.Base.BreadthFirst
import Cadena.Integrations.CorrelationPairs

/-!
# Resolving correlations

`resolve` goes outward from a node level by level, one query for each level,
and collects the nodes and the links on its way. It finds every node within
the depth with its distance, but of the links only those with an end that is
nearer than the depth: two nodes at the depth itself may be linked, and the
answer does not show it.
-/

namespace Cadena.Integrations

open Cadena.Base Cadena.Connectors BreadthFirst

/-- The two tables, and the order in which a query answers. -/
structure CorrelationDb where
  nodes : List CorrelationNode
  nodeIds : (nodes.map (·.id)).Nodup
  nodeKeys : (nodes.map (·.key)).Nodup
  links : List PairLink
  linkIds : (links.map (·.id)).Nodup
  arrange : List PairLink → List PairLink
  arrange_perm : ∀ rows, (arrange rows).Perm rows

structure ResolvedNode where
  node : CorrelationNode
  distance : Nat
  deriving DecidableEq

structure CounterpartReference where
  nodeId : Uuid
  system : String
  field : String
  value : String
  deriving DecidableEq

structure CorrelationLink where
  link : PairLink
  source : CounterpartReference
  target : CounterpartReference
  deriving DecidableEq

structure CorrelationGraph where
  root : ResolvedNode
  depth : Nat
  nodes : List ResolvedNode
  links : List CorrelationLink
  nodeCount : Nat
  linkCount : Nat
  directCounterparts : Nat
  maxDistance : Nat

inductive ResolveError where
  | invalid (message : String)
  | notFound
  deriving DecidableEq

def maxCorrelationDepth : Int := 10

/-- A row of the query: a link of the tenant with the nodes at its ends. -/
structure JoinedLink where
  link : PairLink
  source : CorrelationNode
  target : CorrelationNode

def nodeOf (db : CorrelationDb) (orgId id : Uuid) : Option CorrelationNode :=
  db.nodes.find? fun n => n.id == id && n.orgId == orgId

def joinLink (db : CorrelationDb) (link : PairLink) : Option JoinedLink := do
  let source ← nodeOf db link.orgId link.sourceNodeId
  let target ← nodeOf db link.orgId link.targetNodeId
  return ⟨link, source, target⟩

def loadLevel (db : CorrelationDb) (orgId : Uuid) (frontier : List Uuid) : List JoinedLink :=
  (db.arrange (db.links.filter fun l => l.orgId == orgId
    && (frontier.contains l.sourceNodeId || frontier.contains l.targetNodeId))).filterMap (joinLink db)

def mapLink (row : JoinedLink) : CorrelationLink where
  link := row.link
  source := ⟨row.source.id, row.source.identity.system, "cadena_counterpart_id", row.target.identity.immutableId⟩
  target := ⟨row.target.id, row.target.identity.system, "cadena_counterpart_id", row.source.identity.immutableId⟩

/-- What has been found, and `next`. -/
structure ResolveLevel where
  nodes : List ResolvedNode
  links : List CorrelationLink
  next : List Uuid

def hasNode (nodes : List ResolvedNode) (id : Uuid) : Bool := nodes.any (·.node.id == id)

def addNode (distance : Nat) (s : ResolveLevel) (node : CorrelationNode) : ResolveLevel :=
  if hasNode s.nodes node.id then s
  else { s with nodes := s.nodes ++ [⟨node, distance⟩], next := s.next ++ [node.id] }

def addLink (s : ResolveLevel) (row : JoinedLink) : ResolveLevel :=
  if s.links.any (·.link.id == row.link.id) then s else { s with links := s.links ++ [mapLink row] }

/-- The body of the inner loop. -/
def visitRow (distance : Nat) (s : ResolveLevel) (row : JoinedLink) : ResolveLevel :=
  addLink (addNode distance (addNode distance s row.source) row.target) row

/-- `s.next` is the frontier of the level. -/
def resolveLevels (db : CorrelationDb) (orgId : Uuid) : Nat → Nat → ResolveLevel → ResolveLevel
  | 0, _, s => s
  | levels + 1, distance, s =>
    if s.next = [] then s
    else
      resolveLevels db orgId levels (distance + 1)
        ((loadLevel db orgId s.next).foldl (visitRow distance) { s with next := [] })

/-! ## `resolve` -/

/-- By distance, and then as the runtime compares texts. -/
def nodeOrder (collate : String → String → Ordering) (a b : ResolvedNode) : Ordering :=
  (compare a.distance b.distance).then <|
    (collate a.node.identity.system b.node.identity.system).then
      (collate a.node.identity.immutableId b.node.identity.immutableId)

def correlationGraph (collate : String → String → Ordering) (root : CorrelationNode) (depth : Nat)
    (s : ResolveLevel) : CorrelationGraph :=
  let nodes := s.nodes.insertionSort fun a b => nodeOrder collate a b ≠ .gt
  let links := s.links.filter fun l =>
    hasNode s.nodes l.link.sourceNodeId && hasNode s.nodes l.link.targetNodeId
  { root := ⟨root, 0⟩
    depth := depth
    nodes := nodes
    links := links
    nodeCount := nodes.length
    linkCount := links.length
    directCounterparts := (links.filter fun l => l.link.relationship == "counterpart"
      && (l.link.sourceNodeId == root.id || l.link.targetNodeId == root.id)).length
    maxDistance := (nodes.map (·.distance)).foldl max 0 }

/-- The nodes and links found within the depth of a node. -/
def resolveFrom (db : CorrelationDb) (orgId : Uuid) (root : CorrelationNode) (depth : Nat) : ResolveLevel :=
  resolveLevels db orgId depth 1 ⟨[⟨root, 0⟩], [], [root.id]⟩

def CorrelationDb.resolve (P : Platform) (collate : String → String → Ordering) (db : CorrelationDb)
    (orgId : Uuid) (system entityType immutableId : String) (depth : Option Int) :
    Except ResolveError CorrelationGraph :=
  match normalizePairEntity P ⟨system, entityType, immutableId, none, none⟩ "identity" with
  | .error message => .error (.invalid message)
  | .ok entity =>
    let depth := depth.getD maxCorrelationDepth
    if depth < 1 ∨ maxCorrelationDepth < depth then
      .error (.invalid ("depth must be an integer from 1 to " ++ toString maxCorrelationDepth))
    else
      match db.nodes.find? fun n => n.orgId == orgId && n.identity == entity.identity with
      | none => .error .notFound
      | some root =>
        .ok (correlationGraph collate root depth.toNat (resolveFrom db orgId root depth.toNat))

section
variable (db : CorrelationDb) (orgId : Uuid)

/-- A link of the tenant joins the two nodes, whichever way it points. -/
def Correlated (v w : Uuid) : Prop :=
  ∃ row : JoinedLink, row.link ∈ db.links ∧ row.link.orgId = orgId ∧ joinLink db row.link = some row ∧
    (row.link.sourceNodeId = v ∧ row.link.targetNodeId = w ∨
      row.link.targetNodeId = v ∧ row.link.sourceNodeId = w)

/-- The nodes within the depth, each once with its distance, and the links
between them, each once. -/
structure InducedSubgraph (root : Uuid) (depth : Nat) (graph : CorrelationGraph) : Prop where
  once : (graph.nodes.map (·.node.id)).Nodup
  rows : ∀ n ∈ graph.nodes, n.node ∈ db.nodes ∧ n.node.orgId = orgId
  nodes : ∀ v d, (∃ n ∈ graph.nodes, n.node.id = v ∧ n.distance = d) ↔
    d ≤ depth ∧ AtDistance (Correlated db orgId) (· = root) d v
  linksOnce : (graph.links.map (·.link)).Nodup
  links : ∀ l, l ∈ graph.links.map (·.link) ↔
    l ∈ db.links ∧ l.orgId = orgId ∧ l.sourceNodeId ∈ graph.nodes.map (·.node.id) ∧
      l.targetNodeId ∈ graph.nodes.map (·.node.id)

/-- A link between two nodes that are both at the distance. -/
def LinkedAt (root : Uuid) (d : Nat) : Prop :=
  ∃ l ∈ db.links, l.orgId = orgId ∧ AtDistance (Correlated db orgId) (· = root) d l.sourceNodeId ∧
    AtDistance (Correlated db orgId) (· = root) d l.targetNodeId

end

/-! ## Rows -/

/-- A link as the answers show it. -/
def Stored (db : CorrelationDb) (orgId : Uuid) (l : CorrelationLink) : Prop :=
  ∃ row : JoinedLink, row.link ∈ db.links ∧ row.link.orgId = orgId ∧ joinLink db row.link = some row ∧
    mapLink row = l

section
variable {db : CorrelationDb} {orgId : Uuid}

theorem nodeOf_spec {id : Uuid} {n : CorrelationNode} (h : nodeOf db orgId id = some n) :
    n ∈ db.nodes ∧ n.id = id ∧ n.orgId = orgId := by
  have hkey := List.find?_some h
  simp only [Bool.and_eq_true, beq_iff_eq] at hkey
  exact ⟨List.mem_of_find?_eq_some h, hkey⟩

theorem nodeOf_eq {n : CorrelationNode} (hn : n ∈ db.nodes) : nodeOf db n.orgId n.id = some n := by
  cases hfind : nodeOf db n.orgId n.id with
  | none => exact absurd (List.find?_eq_none.mp hfind n hn) (by simp)
  | some n' =>
    obtain ⟨hn', hid, -⟩ := nodeOf_spec hfind
    rw [Table.eq_of_key db.nodeIds hn' hn hid]

theorem joinLink_some {link : PairLink} {row : JoinedLink} :
    joinLink db link = some row ↔
      row.link = link ∧ nodeOf db link.orgId link.sourceNodeId = some row.source ∧
        nodeOf db link.orgId link.targetNodeId = some row.target := by
  obtain ⟨l, source, target⟩ := row
  simp only [joinLink, bind, Option.bind_eq_some_iff, pure, Option.some.injEq, JoinedLink.mk.injEq]
  constructor
  · rintro ⟨s, hs, t, ht, rfl, rfl, rfl⟩
    exact ⟨rfl, hs, ht⟩
  · rintro ⟨rfl, hs, ht⟩
    exact ⟨source, hs, target, ht, rfl, rfl, rfl⟩

theorem joined_ids {row : JoinedLink} (h : joinLink db row.link = some row) :
    row.source.id = row.link.sourceNodeId ∧ row.target.id = row.link.targetNodeId := by
  obtain ⟨-, hs, ht⟩ := joinLink_some.mp h
  exact ⟨(nodeOf_spec hs).2.1, (nodeOf_spec ht).2.1⟩

theorem mem_loadLevel {frontier : List Uuid} {row : JoinedLink} :
    row ∈ loadLevel db orgId frontier ↔
      row.link ∈ db.links ∧ row.link.orgId = orgId ∧
        (row.link.sourceNodeId ∈ frontier ∨ row.link.targetNodeId ∈ frontier) ∧
          joinLink db row.link = some row := by
  simp only [loadLevel, List.mem_filterMap, (db.arrange_perm _).mem_iff, List.mem_filter,
    Bool.and_eq_true, Bool.or_eq_true, beq_iff_eq, List.contains_iff_mem]
  constructor
  · rintro ⟨link, ⟨hlink, horg, hend⟩, hjoin⟩
    obtain ⟨rfl, -⟩ := joinLink_some.mp hjoin
    exact ⟨hlink, horg, hend, hjoin⟩
  · rintro ⟨hlink, horg, hend, hjoin⟩
    exact ⟨row.link, ⟨hlink, horg, hend⟩, hjoin⟩

theorem Stored.eq_of_id {l l' : CorrelationLink} (h : Stored db orgId l) (h' : Stored db orgId l')
    (hid : l.link.id = l'.link.id) : l = l' := by
  obtain ⟨row, hmem, -, hjoin, rfl⟩ := h
  obtain ⟨row', hmem', -, hjoin', rfl⟩ := h'
  have hlink : row.link = row'.link := Table.eq_of_key db.linkIds hmem hmem' hid
  rw [hlink] at hjoin
  rw [Option.some.inj (hjoin.symm.trans hjoin')]

theorem Stored.eq_of_link {l l' : CorrelationLink} (h : Stored db orgId l) (h' : Stored db orgId l')
    (hlink : l.link = l'.link) : l = l' := h.eq_of_id h' (congrArg PairLink.id hlink)

/-! ## One level -/

/-- The nodes that are new, each where it comes first. -/
def freshNodes : List Uuid → List CorrelationNode → List CorrelationNode
  | _, [] => []
  | seen, n :: ns => if n.id ∈ seen then freshNodes seen ns else n :: freshNodes (seen ++ [n.id]) ns

theorem freshNodes_ids (seen : List Uuid) (ns : List CorrelationNode) :
    (freshNodes seen ns).map (·.id) = unseen seen (ns.map (·.id)) := by
  induction ns generalizing seen with
  | nil => rfl
  | cons n ns ih =>
    rw [freshNodes, List.map_cons, unseen]
    split
    · exact ih seen
    · rw [List.map_cons, ih]

theorem mem_of_freshNodes {seen : List Uuid} {ns : List CorrelationNode} {n : CorrelationNode}
    (h : n ∈ freshNodes seen ns) : n ∈ ns := by
  induction ns generalizing seen with
  | nil => cases h
  | cons m ns ih =>
    rw [freshNodes] at h
    split at h
    · exact List.mem_cons_of_mem _ (ih h)
    · rcases List.mem_cons.mp h with rfl | h
      · exact List.mem_cons_self
      · exact List.mem_cons_of_mem _ (ih h)

theorem hasNode_iff {nodes : List ResolvedNode} {id : Uuid} :
    hasNode nodes id = true ↔ id ∈ nodes.map (·.node.id) := by
  simp [hasNode]

def nodesAfter (distance : Nat) (s : ResolveLevel) (ns : List CorrelationNode) : ResolveLevel :=
  let fresh := freshNodes (s.nodes.map (·.node.id)) ns
  { s with nodes := s.nodes ++ fresh.map (⟨·, distance⟩), next := s.next ++ fresh.map (·.id) }

theorem nodesAfter_cons (distance : Nat) (s : ResolveLevel) (n : CorrelationNode)
    (ns : List CorrelationNode) :
    nodesAfter distance (addNode distance s n) ns = nodesAfter distance s (n :: ns) := by
  by_cases hseen : n.id ∈ s.nodes.map (·.node.id)
  · rw [addNode, if_pos (hasNode_iff.mpr hseen), nodesAfter, nodesAfter, freshNodes, if_pos hseen]
  · rw [addNode, if_neg (fun h => hseen (hasNode_iff.mp h)), nodesAfter, nodesAfter, freshNodes,
      if_neg hseen]
    simp

theorem foldl_visitRow (distance : Nat) {rows : List JoinedLink}
    (hrows : ∀ row ∈ rows, Stored db orgId (mapLink row)) (s : ResolveLevel)
    (hlinks : ∀ l ∈ s.links, Stored db orgId l) :
    rows.foldl (visitRow distance) s =
      { nodesAfter distance s (rows.flatMap fun row => [row.source, row.target]) with
        links := s.links ++ unseen s.links (rows.map mapLink) } := by
  induction rows generalizing s with
  | nil => simp [nodesAfter, freshNodes, unseen]
  | cons row rows ih =>
    have hrow := hrows row List.mem_cons_self
    have hrest : ∀ r ∈ rows, Stored db orgId (mapLink r) := fun r hr => hrows r (List.mem_cons_of_mem _ hr)
    have hid : (s.links.any (·.link.id == row.link.id)) = true ↔ mapLink row ∈ s.links := by
      rw [List.any_eq_true]
      constructor
      · rintro ⟨l, hl, heq⟩
        exact (hlinks l hl).eq_of_id hrow (beq_iff_eq.mp heq) ▸ hl
      · exact fun hl => ⟨_, hl, beq_self_eq_true _⟩
    have hkeep (s' : ResolveLevel) (n : CorrelationNode) : (addNode distance s' n).links = s'.links := by
      unfold addNode
      split <;> rfl
    have hnodes (t : ResolveLevel) (links : List CorrelationLink) (ns : List CorrelationNode) :
        nodesAfter distance { t with links := links } ns =
          { nodesAfter distance t ns with links := links } := rfl
    rw [List.foldl_cons, visitRow, List.flatMap_cons, List.cons_append, List.cons_append, List.nil_append,
      ← nodesAfter_cons, ← nodesAfter_cons, List.map_cons, unseen]
    have hlinks' : (addNode distance (addNode distance s row.source) row.target).links = s.links := by
      rw [hkeep, hkeep]
    by_cases hseen : mapLink row ∈ s.links
    · rw [addLink, hlinks', if_pos (hid.mpr hseen), if_pos hseen, ih hrest _ (hlinks' ▸ hlinks), hlinks']
    · rw [addLink, hlinks', if_neg (fun h => hseen (hid.mp h)), if_neg hseen, ih hrest, hnodes]
      · simp
      · intro l hl
        rcases List.mem_append.mp hl with hl | hl
        · exact hlinks l hl
        · exact List.mem_singleton.mp hl ▸ hrow

/-! ## The search -/

def marks (nodes : List ResolvedNode) : List (Uuid × Nat) := nodes.map fun n => (n.node.id, n.distance)

def ids (nodes : List ResolvedNode) : List Uuid := nodes.map (·.node.id)

theorem marks_fst (nodes : List ResolvedNode) : (marks nodes).map Prod.fst = ids nodes := by
  simp [marks, ids]

end

/-- What has been found when the frontier is at distance `d`. -/
structure ResolveFound (db : CorrelationDb) (orgId root : Uuid) (bound d : Nat) (s : ResolveLevel) : Prop where
  search : Leveled (Correlated db orgId) (· = root) bound (marks s.nodes) (s.next.map (·, d))
  rows : ∀ n ∈ s.nodes, n.node ∈ db.nodes ∧ n.node.orgId = orgId
  once : s.links.Nodup
  stored : ∀ l ∈ s.links, Stored db orgId l
  ends : ∀ l ∈ s.links, l.link.sourceNodeId ∈ ids s.nodes ∧ l.link.targetNodeId ∈ ids s.nodes
  near : ∀ l ∈ s.links, ∃ n ∈ s.nodes, n.distance < bound ∧
    (n.node.id = l.link.sourceNodeId ∨ n.node.id = l.link.targetNodeId)
  complete : ∀ n ∈ s.nodes, n.node.id ∈ s.next ∨ bound ≤ n.distance ∨
    ∀ l, Stored db orgId l → n.node.id = l.link.sourceNodeId ∨ n.node.id = l.link.targetNodeId → l ∈ s.links

section
variable {db : CorrelationDb} {orgId root : Uuid} {bound d : Nat} {s : ResolveLevel}

theorem ResolveFound.start {node : CorrelationNode} (hnode : node ∈ db.nodes) (bound : Nat) :
    ResolveFound db node.orgId node.id bound 0 ⟨[⟨node, 0⟩], [], [node.id]⟩ where
  search := Leveled.begin [node.id] (List.nodup_singleton _) fun _ => List.mem_singleton.symm
  rows n hn := by
    obtain rfl := List.mem_singleton.mp hn
    exact ⟨hnode, rfl⟩
  once := List.nodup_nil
  stored _ hl := by cases hl
  ends _ hl := by cases hl
  near _ hl := by cases hl
  complete n hn := by
    obtain rfl := List.mem_singleton.mp hn
    exact .inl List.mem_cons_self

theorem ResolveFound.queued (h : ResolveFound db orgId root bound d s) {v : Uuid} (hv : v ∈ s.next) :
    ∃ n ∈ s.nodes, n.node.id = v ∧ n.distance = d := by
  have hmark : (v, d) ∈ marks s.nodes := h.search.queued _ (List.mem_map_of_mem hv)
  obtain ⟨n, hn, heq⟩ := List.mem_map.mp hmark
  exact ⟨n, hn, congrArg Prod.fst heq, congrArg Prod.snd heq⟩

/-- The ends of the rows that the query of a level returns. -/
def levelEnds (db : CorrelationDb) (orgId : Uuid) (frontier : List Uuid) : List CorrelationNode :=
  (loadLevel db orgId frontier).flatMap fun row => [row.source, row.target]

variable {frontier : List Uuid}

theorem mem_levelEnds {n : CorrelationNode} : n ∈ levelEnds db orgId frontier ↔
      ∃ row ∈ loadLevel db orgId frontier, n = row.source ∨ n = row.target := by
  simp [levelEnds]

theorem levelEnds_row {n : CorrelationNode} (h : n ∈ levelEnds db orgId frontier) :
    n ∈ db.nodes ∧ n.orgId = orgId := by
  obtain ⟨row, hrow, hn⟩ := mem_levelEnds.mp h
  obtain ⟨-, horg, -, hjoin⟩ := mem_loadLevel.mp hrow
  obtain ⟨-, hs, ht⟩ := joinLink_some.mp hjoin
  rcases hn with rfl | rfl
  · exact ⟨(nodeOf_spec hs).1, (nodeOf_spec hs).2.2.trans horg⟩
  · exact ⟨(nodeOf_spec ht).1, (nodeOf_spec ht).2.2.trans horg⟩

theorem fresh_levelEnds {visited : List Uuid} (hvisited : ∀ v ∈ frontier, v ∈ visited) :
    FreshLevel (Correlated db orgId) frontier visited
      (unseen visited ((levelEnds db orgId frontier).map (·.id))) where
  nodup := unseen_nodup _ _
  new w hw := (mem_unseen.mp hw).2
  next w hw := by
    obtain ⟨hw, hnew⟩ := mem_unseen.mp hw
    obtain ⟨n, hn, rfl⟩ := List.mem_map.mp hw
    obtain ⟨row, hrow, hend⟩ := mem_levelEnds.mp hn
    obtain ⟨hlink, horg, hfrontier, hjoin⟩ := mem_loadLevel.mp hrow
    obtain ⟨hsource, htarget⟩ := joined_ids hjoin
    -- the end that is new is not the one in the frontier
    rcases hend with rfl | rfl
    · have hother := hfrontier.resolve_left fun h => hnew (hvisited _ (hsource ▸ h))
      exact ⟨_, hother, row, hlink, horg, hjoin, .inr ⟨rfl, hsource.symm⟩⟩
    · have hother := hfrontier.resolve_right fun h => hnew (hvisited _ (htarget ▸ h))
      exact ⟨_, hother, row, hlink, horg, hjoin, .inl ⟨rfl, htarget.symm⟩⟩
  all v hv w hw := by
    obtain ⟨row, hlink, horg, hjoin, hends⟩ := hw
    obtain ⟨hsource, htarget⟩ := joined_ids hjoin
    have hfound : w ∈ (levelEnds db orgId frontier).map (·.id) := by
      rcases hends with ⟨rfl, rfl⟩ | ⟨rfl, rfl⟩
      · have hrow : row ∈ loadLevel db orgId frontier := mem_loadLevel.mpr ⟨hlink, horg, .inl hv, hjoin⟩
        exact List.mem_map.mpr ⟨_, mem_levelEnds.mpr ⟨row, hrow, .inr rfl⟩, htarget⟩
      · have hrow : row ∈ loadLevel db orgId frontier := mem_loadLevel.mpr ⟨hlink, horg, .inr hv, hjoin⟩
        exact List.mem_map.mpr ⟨_, mem_levelEnds.mpr ⟨row, hrow, .inl rfl⟩, hsource⟩
    by_cases hold : w ∈ visited
    · exact .inl hold
    · exact .inr (mem_unseen.mpr ⟨hfound, hold⟩)

theorem stored_mapLink {row : JoinedLink} (h : row ∈ loadLevel db orgId frontier) :
    Stored db orgId (mapLink row) := by
  obtain ⟨hlink, horg, -, hjoin⟩ := mem_loadLevel.mp h
  exact ⟨row, hlink, horg, hjoin, rfl⟩

/-- One turn of the loop. -/
def nextLevel (db : CorrelationDb) (orgId : Uuid) (distance : Nat) (s : ResolveLevel) : ResolveLevel :=
  (loadLevel db orgId s.next).foldl (visitRow distance) { s with next := [] }

theorem nextLevel_eq (h : ResolveFound db orgId root bound d s) (distance : Nat) :
    nextLevel db orgId distance s =
      { nodes := s.nodes ++ (freshNodes (ids s.nodes) (levelEnds db orgId s.next)).map (⟨·, distance⟩)
        links := s.links ++ unseen s.links ((loadLevel db orgId s.next).map mapLink)
        next := unseen (ids s.nodes) ((levelEnds db orgId s.next).map (·.id)) } := by
  have hrows : ∀ row ∈ loadLevel db orgId s.next, Stored db orgId (mapLink row) :=
    fun _ hrow => stored_mapLink hrow
  rw [nextLevel, foldl_visitRow distance hrows ⟨s.nodes, s.links, []⟩ h.stored, ← freshNodes_ids]
  rfl

theorem ResolveFound.nextLevel (h : ResolveFound db orgId root bound d s) (hd : d < bound) :
    ResolveFound db orgId root bound (d + 1) (nextLevel db orgId (d + 1) s) := by
  have hfrontier (v : Uuid) (hv : v ∈ s.next) : v ∈ ids s.nodes := by
    obtain ⟨n, hn, rfl, -⟩ := h.queued hv
    exact List.mem_map_of_mem hn
  have hfresh : FreshLevel (Correlated db orgId) s.next (ids s.nodes)
      (unseen (ids s.nodes) ((levelEnds db orgId s.next).map (·.id))) := fresh_levelEnds hfrontier
  rw [nextLevel_eq h]
  generalize hnew : freshNodes (ids s.nodes) (levelEnds db orgId s.next) = new
  have hids : unseen (ids s.nodes) ((levelEnds db orgId s.next).map (·.id)) = new.map (·.id) :=
    hnew ▸ (freshNodes_ids _ _).symm
  rw [hids] at hfresh ⊢
  have hmarks : marks (s.nodes ++ new.map (⟨·, d + 1⟩)) =
      marks s.nodes ++ (new.map (·.id)).map (·, d + 1) := by
    simp [marks]
  have hends (row : JoinedLink) (hrow : row ∈ loadLevel db orgId s.next) (n : CorrelationNode)
      (hn : n = row.source ∨ n = row.target) : n.id ∈ ids (s.nodes ++ new.map (⟨·, d + 1⟩)) := by
    have hmem : n.id ∈ (levelEnds db orgId s.next).map (·.id) :=
      List.mem_map_of_mem (mem_levelEnds.mpr ⟨row, hrow, hn⟩)
    by_cases hold : n.id ∈ ids s.nodes
    · simp only [ids, List.map_append, List.mem_append]
      exact .inl hold
    · have hunseen := mem_unseen.mpr ⟨hmem, hold⟩
      rw [hids] at hunseen
      simp only [ids, List.map_append, List.mem_append, List.map_map]
      exact .inr hunseen
  refine ⟨?_, fun n hn => ?_, ?_, fun l hl => ?_, fun l hl => ?_, fun l hl => ?_, fun n hn => ?_⟩
  · show Leveled _ _ _ (marks (s.nodes ++ new.map (⟨·, d + 1⟩))) ((new.map (·.id)).map (·, d + 1))
    rw [hmarks]
    exact h.search.expandLevel hd ((marks_fst s.nodes).symm ▸ hfresh)
  · rcases List.mem_append.mp hn with hn | hn
    · exact h.rows n hn
    · obtain ⟨m, hm, rfl⟩ := List.mem_map.mp hn
      exact levelEnds_row (mem_of_freshNodes (hnew ▸ hm))
  · rw [List.nodup_append]
    refine ⟨h.once, unseen_nodup _ _, fun a ha b hb hab => ?_⟩
    exact (mem_unseen.mp hb).2 (hab ▸ ha)
  · rcases List.mem_append.mp hl with hl | hl
    · exact h.stored l hl
    · obtain ⟨row, hrow, rfl⟩ := List.mem_map.mp (mem_unseen.mp hl).1
      exact stored_mapLink hrow
  · rcases List.mem_append.mp hl with hl | hl
    · have hold := h.ends l hl
      simp only [ids, List.map_append, List.mem_append]
      exact ⟨.inl hold.1, .inl hold.2⟩
    · obtain ⟨row, hrow, rfl⟩ := List.mem_map.mp (mem_unseen.mp hl).1
      obtain ⟨hsource, htarget⟩ := joined_ids (mem_loadLevel.mp hrow).2.2.2
      have hs := hends row hrow row.source (.inl rfl)
      have ht := hends row hrow row.target (.inr rfl)
      exact ⟨hsource ▸ hs, htarget ▸ ht⟩
  · rcases List.mem_append.mp hl with hl | hl
    · obtain ⟨n, hn, hnear⟩ := h.near l hl
      exact ⟨n, List.mem_append_left _ hn, hnear⟩
    · obtain ⟨row, hrow, rfl⟩ := List.mem_map.mp (mem_unseen.mp hl).1
      rcases (mem_loadLevel.mp hrow).2.2.1 with hv | hv
      · obtain ⟨n, hn, hid, hdist⟩ := h.queued hv
        exact ⟨n, List.mem_append_left _ hn, hdist ▸ hd, .inl hid⟩
      · obtain ⟨n, hn, hid, hdist⟩ := h.queued hv
        exact ⟨n, List.mem_append_left _ hn, hdist ▸ hd, .inr hid⟩
  · rcases List.mem_append.mp hn with hn | hn
    · rcases h.complete n hn with hnext | hbound | hall
      · refine .inr (.inr fun l hl htouch => ?_)
        by_cases hold : l ∈ s.links
        · exact List.mem_append_left _ hold
        · obtain ⟨row, hlink, horg, hjoin, rfl⟩ := hl
          have hrow : row ∈ loadLevel db orgId s.next := by
            refine mem_loadLevel.mpr ⟨hlink, horg, ?_, hjoin⟩
            rcases htouch with heq | heq
            · left
              exact heq ▸ hnext
            · right
              exact heq ▸ hnext
          exact List.mem_append_right _ (mem_unseen.mpr ⟨List.mem_map_of_mem hrow, hold⟩)
      · exact .inr (.inl hbound)
      · exact .inr (.inr fun l hl htouch => List.mem_append_left _ (hall l hl htouch))
    · obtain ⟨m, hm, rfl⟩ := List.mem_map.mp hn
      exact .inl (List.mem_map_of_mem hm)

theorem ResolveFound.levels (h : ResolveFound db orgId root bound d s) {levels : Nat}
    (hlevels : d + levels = bound) :
    ∃ last, ResolveFound db orgId root bound last (resolveLevels db orgId levels (d + 1) s) ∧
      ((resolveLevels db orgId levels (d + 1) s).next = [] ∨ last = bound) := by
  induction levels generalizing d s with
  | zero => exact ⟨d, h, .inr hlevels⟩
  | succ levels ih =>
    rw [resolveLevels]
    split
    · rename_i hnext
      exact ⟨d, h, .inl hnext⟩
    · have hd : d < bound := by omega
      have hrest : d + 1 + levels = bound := by omega
      exact ih (h.nextLevel hd) hrest

/-! ## The answer -/

/-- What is found in the end: every node within the bound, and of the links
those with an end nearer than the bound. -/
structure Resolved (db : CorrelationDb) (orgId root : Uuid) (bound : Nat) (s : ResolveLevel) : Prop where
  search : Leveled (Correlated db orgId) (· = root) bound (marks s.nodes) []
  rows : ∀ n ∈ s.nodes, n.node ∈ db.nodes ∧ n.node.orgId = orgId
  once : s.links.Nodup
  stored : ∀ l ∈ s.links, Stored db orgId l
  ends : ∀ l ∈ s.links, l.link.sourceNodeId ∈ ids s.nodes ∧ l.link.targetNodeId ∈ ids s.nodes
  near : ∀ l ∈ s.links, ∃ n ∈ s.nodes, n.distance < bound ∧
    (n.node.id = l.link.sourceNodeId ∨ n.node.id = l.link.targetNodeId)
  complete : ∀ n ∈ s.nodes, n.distance < bound → ∀ l, Stored db orgId l →
    n.node.id = l.link.sourceNodeId ∨ n.node.id = l.link.targetNodeId → l ∈ s.links

theorem resolveFrom_resolved {node : CorrelationNode} (hnode : node ∈ db.nodes) (depth : Nat) :
    Resolved db node.orgId node.id depth (resolveFrom db node.orgId node depth) := by
  obtain ⟨last, h, hend⟩ := (ResolveFound.start hnode depth).levels (Nat.zero_add depth)
  have hqueue : ∀ e ∈ (resolveFrom db node.orgId node depth).next.map (·, last), depth ≤ e.2 := by
    intro e he
    obtain ⟨v, hv, rfl⟩ := List.mem_map.mp he
    rcases hend with hnil | hlast
    · have hv : v ∈ (resolveLevels db node.orgId depth (0 + 1) ⟨[⟨node, 0⟩], [], [node.id]⟩).next := hv
      rw [hnil] at hv
      cases hv
    · exact hlast.ge
  refine ⟨h.search.finish hqueue, h.rows, h.once, h.stored, h.ends, h.near, fun n hn hnear => ?_⟩
  rcases h.complete n hn with hnext | hbound | hall
  · have hmark : (n.node.id, n.distance) ∈ marks (resolveFrom db node.orgId node depth).nodes :=
      List.mem_map_of_mem hn
    have hlast := h.search.queued _ (List.mem_map_of_mem hnext)
    have heq : n.distance = last := h.search.mem_unique hmark hlast
    exact absurd (hqueue _ (List.mem_map_of_mem hnext)) (by omega)
  · exact absurd hbound (by omega)
  · exact hall

theorem Resolved.mem_ids (h : Resolved db orgId root bound s) {v : Uuid} :
    v ∈ ids s.nodes ↔ ∃ d ≤ bound, AtDistance (Correlated db orgId) (· = root) d v := by
  constructor
  · intro hv
    obtain ⟨n, hn, rfl⟩ := List.mem_map.mp hv
    exact ⟨n.distance, h.search.mem_iff.mp (List.mem_map_of_mem hn)⟩
  · rintro ⟨d, hd⟩
    obtain ⟨n, hn, heq⟩ := List.mem_map.mp (h.search.mem_iff.mpr hd)
    exact List.mem_map.mpr ⟨n, hn, congrArg Prod.fst heq⟩

theorem Resolved.link_stored (h : Resolved db orgId root bound s) {l : PairLink} (hl : l ∈ db.links)
    (horg : l.orgId = orgId) (hsource : l.sourceNodeId ∈ ids s.nodes) (htarget : l.targetNodeId ∈ ids s.nodes) :
    ∃ shown, Stored db orgId shown ∧ shown.link = l := by
  obtain ⟨n, hn, hnid⟩ := List.mem_map.mp hsource
  obtain ⟨m, hm, hmid⟩ := List.mem_map.mp htarget
  have hnode := nodeOf_eq (h.rows n hn).1
  have hmode := nodeOf_eq (h.rows m hm).1
  rw [(h.rows n hn).2, hnid] at hnode
  rw [(h.rows m hm).2, hmid] at hmode
  have hjoin : joinLink db l = some ⟨l, n.node, m.node⟩ :=
    joinLink_some.mpr ⟨rfl, horg ▸ hnode, horg ▸ hmode⟩
  exact ⟨_, ⟨⟨l, n.node, m.node⟩, hl, horg, hjoin, rfl⟩, rfl⟩

/-- The links of the answer are the stored ones between its nodes, unless two
nodes at the bound are linked. -/
theorem Resolved.links_iff (h : Resolved db orgId root bound s) :
    (∀ l, l ∈ s.links.map (·.link) ↔
      l ∈ db.links ∧ l.orgId = orgId ∧ l.sourceNodeId ∈ ids s.nodes ∧ l.targetNodeId ∈ ids s.nodes) ↔
    ¬ LinkedAt db orgId root bound := by
  have hfar {v : Uuid} (hv : v ∈ ids s.nodes) :
      (∃ n ∈ s.nodes, n.node.id = v ∧ n.distance < bound) ∨
        AtDistance (Correlated db orgId) (· = root) bound v := by
    obtain ⟨n, hn, rfl⟩ := List.mem_map.mp hv
    obtain ⟨hle, hdist⟩ := h.search.mem_iff.mp (List.mem_map_of_mem hn)
    rcases Nat.lt_or_eq_of_le hle with hlt | heq
    · exact .inl ⟨n, hn, rfl, hlt⟩
    · exact .inr (heq ▸ hdist)
  constructor
  · rintro hall ⟨l, hl, horg, hsource, htarget⟩
    have hs := h.mem_ids.mpr ⟨bound, Nat.le_refl bound, hsource⟩
    have ht := h.mem_ids.mpr ⟨bound, Nat.le_refl bound, htarget⟩
    obtain ⟨shown, hshown, rfl⟩ := List.mem_map.mp ((hall l).mpr ⟨hl, horg, hs, ht⟩)
    obtain ⟨n, hn, hlt, hend⟩ := h.near shown hshown
    have hdist := (h.search.mem_iff.mp (List.mem_map_of_mem hn)).2
    rcases hend with hend | hend
    · exact absurd ((hend ▸ hdist).unique hsource) (Nat.ne_of_lt hlt)
    · exact absurd ((hend ▸ hdist).unique htarget) (Nat.ne_of_lt hlt)
  · intro hfree l
    constructor
    · intro hl
      obtain ⟨shown, hshown, rfl⟩ := List.mem_map.mp hl
      obtain ⟨row, hlink, horg, -, rfl⟩ := h.stored shown hshown
      exact ⟨hlink, horg, h.ends _ hshown⟩
    · rintro ⟨hl, horg, hsource, htarget⟩
      obtain ⟨shown, hshown, rfl⟩ := h.link_stored hl horg hsource htarget
      rcases hfar hsource with ⟨n, hn, hid, hlt⟩ | hs
      · exact List.mem_map_of_mem (h.complete n hn hlt shown hshown (.inl hid))
      · rcases hfar htarget with ⟨n, hn, hid, hlt⟩ | ht
        · exact List.mem_map_of_mem (h.complete n hn hlt shown hshown (.inr hid))
        · exact absurd ⟨_, hl, horg, hs, ht⟩ hfree

theorem Resolved.graph_links (h : Resolved db orgId root bound s) (collate : String → String → Ordering)
    (node : CorrelationNode) : (correlationGraph collate node bound s).links = s.links := by
  refine List.filter_eq_self.mpr fun l hl => ?_
  rw [Bool.and_eq_true]
  exact ⟨hasNode_iff.mpr (h.ends l hl).1, hasNode_iff.mpr (h.ends l hl).2⟩

theorem Resolved.induced_iff (h : Resolved db orgId root bound s) (collate : String → String → Ordering)
    (node : CorrelationNode) :
    InducedSubgraph db orgId root bound (correlationGraph collate node bound s) ↔
      ¬ LinkedAt db orgId root bound := by
  have hperm : (correlationGraph collate node bound s).nodes.Perm s.nodes := List.perm_insertionSort _ _
  have hids (v : Uuid) : v ∈ ids (correlationGraph collate node bound s).nodes ↔ v ∈ ids s.nodes :=
    (hperm.map _).mem_iff
  rw [← h.links_iff]
  constructor
  · intro hgraph l
    have hlinks := hgraph.links l
    rw [h.graph_links] at hlinks
    rw [hlinks, ← hids, ← hids]
    rfl
  · intro hall
    refine ⟨?_, fun n hn => h.rows n (hperm.mem_iff.mp hn), fun v d => ?_, ?_, fun l => ?_⟩
    · have hkeys := h.search.keys
      rw [marks_fst] at hkeys
      exact (hperm.map _).nodup_iff.mpr hkeys
    · rw [← h.search.mem_iff]
      constructor
      · rintro ⟨n, hn, rfl, rfl⟩
        exact List.mem_map_of_mem (hperm.mem_iff.mp hn)
      · intro hmark
        obtain ⟨n, hn, heq⟩ := List.mem_map.mp hmark
        exact ⟨n, hperm.mem_iff.mpr hn, congrArg Prod.fst heq, congrArg Prod.snd heq⟩
    · rw [h.graph_links]
      exact h.once.map_on fun a ha b hb hab => (h.stored a ha).eq_of_link (h.stored b hb) hab
    · rw [h.graph_links, hall l, ← hids, ← hids]
      rfl

end

/-- For every node of the tenant and every permitted depth there is an answer.
It is the subgraph that the nodes within the depth induce exactly if no two
nodes at the depth itself are linked. -/
theorem resolve_induced_iff (P : Platform) (collate : String → String → Ordering) (db : CorrelationDb)
    {root : CorrelationNode} (hroot : root ∈ db.nodes) {system entityType immutableId : String}
    {entity : CorrelationEntity}
    (hentity : normalizePairEntity P ⟨system, entityType, immutableId, none, none⟩ "identity" = .ok entity)
    (hidentity : entity.identity = root.identity) {depth : Option Int}
    (hdepth : 1 ≤ depth.getD maxCorrelationDepth ∧ depth.getD maxCorrelationDepth ≤ maxCorrelationDepth) :
    ∃ graph, db.resolve P collate root.orgId system entityType immutableId depth = .ok graph ∧
      graph.root = ⟨root, 0⟩ ∧ graph.depth = (depth.getD maxCorrelationDepth).toNat ∧
      (InducedSubgraph db root.orgId root.id graph.depth graph ↔
        ¬ LinkedAt db root.orgId root.id graph.depth) := by
  have hfind : db.nodes.find? (fun n => n.orgId == root.orgId && n.identity == entity.identity) = some root := by
    cases hfind : db.nodes.find? fun n => n.orgId == root.orgId && n.identity == entity.identity with
    | none => exact absurd (List.find?_eq_none.mp hfind root hroot) (by simp [hidentity])
    | some n =>
      have hkey := List.find?_some hfind
      simp only [Bool.and_eq_true, beq_iff_eq] at hkey
      have hkey : n.key = root.key := Prod.ext hkey.1 (hkey.2.trans hidentity)
      rw [Table.eq_of_key db.nodeKeys (List.mem_of_find?_eq_some hfind) hroot hkey]
  have hallowed : ¬ (depth.getD maxCorrelationDepth < 1 ∨
      maxCorrelationDepth < depth.getD maxCorrelationDepth) := by
    omega
  simp only [CorrelationDb.resolve, hentity, if_neg hallowed, hfind]
  exact ⟨_, rfl, rfl, rfl, (resolveFrom_resolved hroot _).induced_iff collate root⟩

def issueNode : CorrelationNode := ⟨11, 1, ⟨"jira", "issue", "10021"⟩, some "ENG-4821", none⟩

def triangle : CorrelationDb where
  nodes := [issueNode, ⟨12, 1, ⟨"servicenow", "change", "c1"⟩, none, none⟩,
    ⟨13, 1, ⟨"servicenow", "incident", "9d38"⟩, none, none⟩]
  nodeIds := by decide
  nodeKeys := by decide
  links := [⟨21, 1, 11, 12, "counterpart", "ada"⟩, ⟨22, 1, 11, 13, "counterpart", "ada"⟩,
    ⟨23, 1, 12, 13, "counterpart", "bob"⟩]
  linkIds := by decide
  arrange rows := rows
  arrange_perm _ := .refl _

theorem resolve_triangle : ∃ graph,
    triangle.resolve .ascii compare 1 "jira" "issue" "10021" (some 1) = .ok graph ∧
      graph.root = ⟨issueNode, 0⟩ ∧ graph.depth = 1 ∧
      (InducedSubgraph triangle 1 11 graph.depth graph ↔ ¬ LinkedAt triangle 1 11 graph.depth) :=
  @resolve_induced_iff .ascii compare triangle issueNode (by decide) "jira" "issue" "10021"
    ⟨⟨"jira", "issue", "10021"⟩, none, none⟩ (by decide) (by decide) (some 1) (by decide)

/-- The two nodes next to the root are both returned, and the link between them
is not. -/
theorem triangle_not_induced : ∃ graph,
    triangle.resolve .ascii compare 1 "jira" "issue" "10021" (some 1) = .ok graph ∧
      ¬ InducedSubgraph triangle 1 11 1 graph := by
  have hrun : (triangle.resolve .ascii compare 1 "jira" "issue" "10021" (some 1)).toOption.map
      (fun graph => (graph.nodes.map (·.node.id), graph.links.map (·.link.id))) =
        some ([11, 13, 12], [21, 22]) := by
    decide
  obtain ⟨graph, hgraph, hids⟩ := Option.map_eq_some_iff.mp hrun
  simp only [Prod.mk.injEq] at hids
  refine ⟨graph, ?_, fun hinduced => ?_⟩
  · cases hresolve : triangle.resolve .ascii compare 1 "jira" "issue" "10021" (some 1) with
    | error e => rw [hresolve] at hgraph; cases hgraph
    | ok g => rw [hresolve] at hgraph; cases hgraph; rfl
  · have hlink : (⟨23, 1, 12, 13, "counterpart", "bob"⟩ : PairLink) ∈ graph.links.map (·.link) := by
      refine (hinduced.links _).mpr ⟨by decide, rfl, ?_, ?_⟩
      · rw [hids.1]
        decide
      · rw [hids.1]
        decide
    obtain ⟨l, hl, heq⟩ := List.mem_map.mp hlink
    have hid : l.link.id ∈ graph.links.map (·.link.id) := List.mem_map_of_mem hl
    rw [heq, hids.2] at hid
    revert hid
    decide

end Cadena.Integrations
