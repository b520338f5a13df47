import Cadena.Base.BreadthFirst
import Cadena.Lineage.LineageExport

/-!
# The lineage of an item

`traverseLineage` follows the links of an item up or down to a depth. Each
type of link says which of its ends is upstream, and links that relate two
items lead both ways. What is above an item has that item below it, at the
same distance.
-/

namespace Cadena.Lineage

open Cadena.Base BreadthFirst

inductive Direction where
  | up | down
  deriving DecidableEq

structure LineageQueryParams where
  workItemId : Uuid
  orgId : Option Uuid
  edgeTypes : List String

/-- `visitedNodeIds` and `visitedEdgeIds` hold the ids of the two lists. -/
structure Traversal where
  orderedNodeIds : List Uuid
  distances : List (Uuid × Nat)
  edges : List WorkItemLink
  nodeQueue : List (Uuid × Nat)

/-! ## The search -/

/-- The links of an item, within a tenant if one is given. -/
def lineageLinks (items : Uuid → Option LineageItem) (orgId : Option Uuid) (rows : List WorkItemLink)
    (currentId : Uuid) : List WorkItemLink :=
  match orgId with
  | some orgId => linksOf items orgId rows currentId
  | none =>
    (rows.filter fun link => link.sourceId = currentId || link.targetId = currentId).insertionSort
      fun a b => linkLe a b

def sourcePointsUpstream : List LinkType :=
  [.childOf, .blockedBy, .causedBy, .fixedBy, .deployedIn, .duplicateOf]

def sourcePointsDownstream : List LinkType := [.parentOf, .blocks, .affects]

def getNextNodeId (link : WorkItemLink) (currentId : Uuid) (direction : Direction) : Option Uuid :=
  if link.linkType = .relatesTo then some (connectedId currentId link)
  else if link.linkType ∈ sourcePointsUpstream then
    if direction = .up ∧ link.sourceId = currentId then some link.targetId
    else if direction = .down ∧ link.targetId = currentId then some link.sourceId
    else none
  else if link.linkType ∈ sourcePointsDownstream then
    if direction = .up ∧ link.targetId = currentId then some link.sourceId
    else if direction = .down ∧ link.sourceId = currentId then some link.targetId
    else none
  else none

/-- Where the filter lets the link lead. -/
def followed (edgeTypes : List String) (direction : Direction) (currentId : Uuid) (link : WorkItemLink) :
    Option Uuid :=
  if edgeTypes ≠ [] ∧ link.linkType.text ∉ edgeTypes then none
  else getNextNodeId link currentId direction

/-- The body of the inner loop. -/
def followLink (edgeTypes : List String) (direction : Direction) (currentId : Uuid) (currentDepth : Nat)
    (t : Traversal) (link : WorkItemLink) : Traversal :=
  match followed edgeTypes direction currentId link with
  | none => t
  | some nextId =>
    let edges := if link.id ∈ t.edges.map (·.id) then t.edges else t.edges ++ [link]
    if nextId ∈ t.orderedNodeIds then { t with edges := edges }
    else
      { orderedNodeIds := t.orderedNodeIds ++ [nextId]
        distances := t.distances ++ [(nextId, currentDepth + 1)]
        edges := edges
        nodeQueue := t.nodeQueue ++ [(nextId, currentDepth + 1)] }

def traverseQueue (items : Uuid → Option LineageItem) (rows : List WorkItemLink)
    (params : LineageQueryParams) (direction : Direction) (maxDepth : Int) :
    Nat → Traversal → Traversal
  | 0, t => t
  | fuel + 1, t =>
    match t.nodeQueue with
    | [] => t
    | (currentId, currentDepth) :: queue =>
      let taken := { t with nodeQueue := queue }
      traverseQueue items rows params direction maxDepth fuel <|
        if maxDepth ≤ currentDepth then taken
        else
          (lineageLinks items params.orgId rows currentId).foldl
            (followLink params.edgeTypes direction currentId currentDepth) taken

/-- Each end of a link is queued once, after the root. -/
def traverseLineage (items : Uuid → Option LineageItem) (rows : List WorkItemLink)
    (params : LineageQueryParams) (direction : Direction) (maxDepth : Int) : Traversal :=
  traverseQueue items rows params direction maxDepth (2 * rows.length + 2)
    ⟨[params.workItemId], [(params.workItemId, 0)], [], [(params.workItemId, 0)]⟩

/-! ## Links and steps -/

section
variable (items : Uuid → Option LineageItem) (rows : List WorkItemLink) (orgId : Option Uuid)
  (edgeTypes : List String) (direction : Direction)

/-- The links that the queries can answer with. -/
def lineageRows : List WorkItemLink :=
  match orgId with
  | some orgId => tenantLinks items orgId rows
  | none => rows

/-- One of these links leads from the one item to the other. -/
def StepsTo (v w : Uuid) : Prop :=
  ∃ link ∈ lineageRows items rows orgId, (link.sourceId = v ∨ link.targetId = v) ∧
    followed edgeTypes direction v link = some w

def Traversed (root : Uuid) (depth : Nat) (link : WorkItemLink) : Prop :=
  link ∈ lineageRows items rows orgId ∧
    ∃ v d, d < depth ∧ AtDistance (StepsTo items rows orgId edgeTypes direction) (· = root) d v ∧
      (link.sourceId = v ∨ link.targetId = v) ∧ (followed edgeTypes direction v link).isSome

end

section
variable {items : Uuid → Option LineageItem} {rows : List WorkItemLink} {orgId : Option Uuid}
  {edgeTypes : List String} {direction : Direction}

variable {link : WorkItemLink} {v w : Uuid}

theorem mem_lineageLinks : link ∈ lineageLinks items orgId rows v ↔
      link ∈ lineageRows items rows orgId ∧ (link.sourceId = v ∨ link.targetId = v) := by
  cases orgId with
  | none => simp [lineageLinks, lineageRows, (List.perm_insertionSort _ _).mem_iff]
  | some orgId => simp [lineageLinks, linksOf, lineageRows, (List.perm_insertionSort _ _).mem_iff]

theorem lineageRows_subset : lineageRows items rows orgId ⊆ rows := by
  cases orgId with
  | none => exact fun _ h => h
  | some orgId => exact fun _ h => (List.mem_filter.mp h).1

theorem getNextNodeId_end
    (h : getNextNodeId link v direction = some w) : w = link.sourceId ∨ w = link.targetId := by
  unfold getNextNodeId connectedId at h
  grind

theorem getNextNodeId_flip : ((link.sourceId = v ∨ link.targetId = v) ∧ getNextNodeId link v .up = some w) ↔
      (link.sourceId = w ∨ link.targetId = w) ∧ getNextNodeId link w .down = some v := by
  unfold getNextNodeId connectedId
  grind

theorem stepsTo_flip :
    StepsTo items rows orgId edgeTypes .up v w ↔ StepsTo items rows orgId edgeTypes .down w v := by
  refine exists_congr fun link => and_congr_right fun _ => ?_
  unfold followed
  split
  · simp
  · exact getNextNodeId_flip

theorem stepsTo_end (h : StepsTo items rows orgId edgeTypes direction v w) :
    w ∈ rows.flatMap fun link => [link.sourceId, link.targetId] := by
  obtain ⟨link, hlink, -, hnext⟩ := h
  refine List.mem_flatMap.mpr ⟨link, lineageRows_subset hlink, ?_⟩
  unfold followed at hnext
  split at hnext
  · cases hnext
  · simpa using getNextNodeId_end hnext

theorem mem_ids_iff {links : List WorkItemLink} (hunique : (rows.map (·.id)).Nodup) (hsub : links ⊆ rows)
    (hlink : link ∈ rows) : link.id ∈ links.map (·.id) ↔ link ∈ links := by
  refine ⟨fun h => ?_, List.mem_map_of_mem⟩
  obtain ⟨link', hmem, hid⟩ := List.mem_map.mp h
  rwa [List.inj_on_of_nodup_map hunique (hsub hmem) hlink hid] at hmem

theorem foldl_followLink (hunique : (rows.map (·.id)).Nodup) {d : Nat}
    {links : List WorkItemLink} (hlinks : links ⊆ rows) {t : Traversal} (hedges : t.edges ⊆ rows) :
    links.foldl (followLink edgeTypes direction v d) t =
      let fresh := unseen t.orderedNodeIds (links.filterMap (followed edgeTypes direction v))
      { orderedNodeIds := t.orderedNodeIds ++ fresh
        distances := t.distances ++ fresh.map (·, d + 1)
        edges := t.edges ++
          unseen t.edges (links.filter fun link => (followed edgeTypes direction v link).isSome)
        nodeQueue := t.nodeQueue ++ fresh.map (·, d + 1) } := by
  induction links generalizing t with
  | nil => simp [unseen]
  | cons link links ih =>
    have hlink : link ∈ rows := hlinks List.mem_cons_self
    have hrest : links ⊆ rows := fun l hl => hlinks (List.mem_cons_of_mem _ hl)
    rw [List.foldl_cons]
    cases hnext : followed edgeTypes direction v link with
    | none =>
      have hstep : followLink edgeTypes direction v d t link = t := by
        rw [followLink, hnext]
      rw [hstep, ih hrest hedges, List.filterMap_cons_none hnext, List.filter_cons_of_neg (by simp [hnext])]
    | some next =>
      have hedges' : (if link ∈ t.edges then t.edges else t.edges ++ [link]) ⊆ rows := by
        split
        · exact hedges
        · intro l hl
          rcases List.mem_append.mp hl with hl | hl
          · exact hedges hl
          · exact List.mem_singleton.mp hl ▸ hlink
      rw [List.filterMap_cons_some hnext, List.filter_cons_of_pos (by simp [hnext])]
      simp only [followLink, hnext, mem_ids_iff hunique hedges hlink]
      by_cases hseen : next ∈ t.orderedNodeIds
      · rw [if_pos hseen, ih hrest hedges']
        by_cases hedge : link ∈ t.edges
        · simp [hseen, hedge, unseen]
        · simp [hseen, hedge, unseen]
      · rw [if_neg hseen, ih hrest hedges']
        by_cases hedge : link ∈ t.edges
        · simp [hseen, hedge, unseen]
        · simp [hseen, hedge, unseen]

/-! ## The whole search -/

/-- What holds whenever an item is taken from the queue. -/
structure LineageFound (items : Uuid → Option LineageItem) (rows : List WorkItemLink)
    (params : LineageQueryParams) (direction : Direction) (depth : Nat) (t : Traversal) : Prop where
  ordered : t.orderedNodeIds = t.distances.map Prod.fst
  leveled : Leveled (StepsTo items rows params.orgId params.edgeTypes direction)
    (· = params.workItemId) depth t.distances t.nodeQueue
  distinct : t.edges.Nodup
  crossed : ∀ link ∈ t.edges, link ∈ lineageRows items rows params.orgId ∧
    ∃ e ∈ t.distances, e.2 < depth ∧ (link.sourceId = e.1 ∨ link.targetId = e.1) ∧
      (followed params.edgeTypes direction e.1 link).isSome
  complete : ∀ e ∈ t.distances, e ∈ t.nodeQueue ∨ depth ≤ e.2 ∨
    ∀ link ∈ lineageLinks items params.orgId rows e.1,
      (followed params.edgeTypes direction e.1 link).isSome → link ∈ t.edges

section
variable {params : LineageQueryParams} {depth : Nat} {t : Traversal}

theorem LineageFound.subset (h : LineageFound items rows params direction depth t) : t.edges ⊆ rows :=
  fun link hlink => lineageRows_subset (h.crossed link hlink).1

theorem LineageFound.start (items : Uuid → Option LineageItem) (rows : List WorkItemLink)
    (params : LineageQueryParams) (direction : Direction) (depth : Nat) :
    LineageFound items rows params direction depth
      ⟨[params.workItemId], [(params.workItemId, 0)], [], [(params.workItemId, 0)]⟩ where
  ordered := rfl
  leveled := .begin [params.workItemId] (List.nodup_singleton _) fun v => by simp
  distinct := List.nodup_nil
  crossed _ hlink := by cases hlink
  complete _ he := .inl he

theorem LineageFound.skip {v : Uuid} {d : Nat} {queue : List (Uuid × Nat)}
    (h : LineageFound items rows params direction depth t) (hqueue : t.nodeQueue = (v, d) :: queue)
    (hd : depth ≤ d) : LineageFound items rows params direction depth { t with nodeQueue := queue } where
  ordered := h.ordered
  leveled := (hqueue ▸ h.leveled).skip hd
  distinct := h.distinct
  crossed := h.crossed
  complete e he := by
    rcases h.complete e he with hmem | hdone
    · rw [hqueue] at hmem
      rcases List.mem_cons.mp hmem with rfl | hmem
      · exact .inr (.inl hd)
      · exact .inl hmem
    · exact .inr hdone

theorem LineageFound.follow (hunique : (rows.map (·.id)).Nodup) {v : Uuid} {d : Nat}
    {queue : List (Uuid × Nat)} (h : LineageFound items rows params direction depth t)
    (hqueue : t.nodeQueue = (v, d) :: queue) (hd : d < depth) :
    LineageFound items rows params direction depth
      ((lineageLinks items params.orgId rows v).foldl (followLink params.edgeTypes direction v d)
        { t with nodeQueue := queue }) := by
  have hlinks : lineageLinks items params.orgId rows v ⊆ rows :=
    fun link hlink => lineageRows_subset (mem_lineageLinks.mp hlink).1
  have hv : (v, d) ∈ t.distances := h.leveled.queued _ (hqueue ▸ List.mem_cons_self)
  have hadj (w : Uuid) : StepsTo items rows params.orgId params.edgeTypes direction v w ↔
      w ∈ (lineageLinks items params.orgId rows v).filterMap (followed params.edgeTypes direction v) := by
    simp [StepsTo, List.mem_filterMap, mem_lineageLinks, and_assoc]
  rw [foldl_followLink hunique hlinks (t := { t with nodeQueue := queue }) h.subset]
  refine ⟨?_, ?_, ?_, fun link hlink => ?_, fun e he => ?_⟩
  · simp [h.ordered, Function.comp_def]
  · rw [h.ordered]
    exact (hqueue ▸ h.leveled).expand hd (fresh_unseen hadj _)
  · refine List.nodup_append.mpr ⟨h.distinct, unseen_nodup _ _, fun a ha b hb hab => ?_⟩
    exact (mem_unseen.mp hb).2 (hab ▸ ha)
  · rcases List.mem_append.mp hlink with hlink | hlink
    · obtain ⟨hrow, e, he, hcross⟩ := h.crossed link hlink
      exact ⟨hrow, e, List.mem_append_left _ he, hcross⟩
    · obtain ⟨hmem, hnext⟩ := List.mem_filter.mp (mem_unseen.mp hlink).1
      obtain ⟨hrow, hend⟩ := mem_lineageLinks.mp hmem
      exact ⟨hrow, (v, d), List.mem_append_left _ hv, hd, hend, hnext⟩
  · rcases List.mem_append.mp he with he | he
    · rcases h.complete e he with hmem | hdepth | hall
      · rw [hqueue] at hmem
        rcases List.mem_cons.mp hmem with rfl | hmem
        · refine .inr (.inr fun link hlink hnext => ?_)
          by_cases hold : link ∈ t.edges
          · exact List.mem_append_left _ hold
          · exact List.mem_append_right _ (mem_unseen.mpr ⟨List.mem_filter.mpr ⟨hlink, hnext⟩, hold⟩)
        · exact .inl (List.mem_append_left _ hmem)
      · exact .inr (.inl hdepth)
      · exact .inr (.inr fun link hlink hnext => List.mem_append_left _ (hall link hlink hnext))
    · exact .inl (List.mem_append_right _ he)

theorem traverseQueue_found (hunique : (rows.map (·.id)).Nodup) {maxDepth : Int} (fuel : Nat)
    (h : LineageFound items rows params direction maxDepth.toNat t)
    (hfuel : 2 * rows.length + 1 + t.nodeQueue.length < fuel + t.distances.length) :
    ∃ t', traverseQueue items rows params direction maxDepth fuel t = t' ∧ t'.nodeQueue = [] ∧
      LineageFound items rows params direction maxDepth.toNat t' := by
  induction fuel generalizing t with
  | zero =>
    have hle := h.leveled.length_le
      (params.workItemId :: rows.flatMap fun link => [link.sourceId, link.targetId])
      (fun v hv => hv ▸ List.mem_cons_self) fun v w hstep => List.mem_cons_of_mem _ (stepsTo_end hstep)
    have hlength : (rows.flatMap fun link => [link.sourceId, link.targetId]).length = 2 * rows.length := by
      simp [List.length_flatMap, Nat.mul_comm]
    rw [List.length_cons, hlength] at hle
    omega
  | succ fuel ih =>
    obtain ⟨ordered, distances, edges, nodeQueue⟩ := t
    cases nodeQueue with
    | nil => exact ⟨_, rfl, rfl, h⟩
    | cons e queue =>
      obtain ⟨v, d⟩ := e
      simp only [traverseQueue]
      split
      · rename_i hdepth
        refine ih (h.skip rfl (Int.toNat_le.mpr hdepth)) ?_
        simp only [List.length_cons] at hfuel ⊢
        omega
      · rename_i hdepth
        have hfound := h.follow hunique (v := v) (d := d) rfl (by omega)
        refine ih hfound ?_
        have hlinks : lineageLinks items params.orgId rows v ⊆ rows :=
          fun link hlink => lineageRows_subset (mem_lineageLinks.mp hlink).1
        rw [foldl_followLink hunique hlinks (t := ⟨ordered, distances, edges, queue⟩) h.subset]
        simp only [List.length_cons, List.length_append, List.length_map] at hfuel ⊢
        omega

theorem traverseLineage_found (items : Uuid → Option LineageItem) (params : LineageQueryParams)
    (direction : Direction) (hunique : (rows.map (·.id)).Nodup) (maxDepth : Int) :
    (traverseLineage items rows params direction maxDepth).nodeQueue = [] ∧
      LineageFound items rows params direction maxDepth.toNat
        (traverseLineage items rows params direction maxDepth) := by
  obtain ⟨t, rfl, hend⟩ := traverseQueue_found hunique (2 * rows.length + 2)
    (LineageFound.start items rows params direction maxDepth.toNat) (by simp)
  exact hend

end

end

/-- **The traversal finds exactly what is reached within the depth, each item
once with its distance, and each link once that is followed on the way; and an
item is above another as far as the other is below it.** -/
theorem traverseLineage_exact (items : Uuid → Option LineageItem) (links : LinkTable)
    (params : LineageQueryParams) (maxDepth : Int) :
    (∀ direction,
      let t := traverseLineage items links.rows params direction maxDepth
      t.orderedNodeIds.Nodup ∧ t.orderedNodeIds = t.distances.map Prod.fst ∧
        (∀ v d, (v, d) ∈ t.distances ↔ d ≤ maxDepth.toNat ∧
          AtDistance (StepsTo items links.rows params.orgId params.edgeTypes direction)
            (· = params.workItemId) d v) ∧
        t.edges.Nodup ∧ ∀ link, link ∈ t.edges ↔
          Traversed items links.rows params.orgId params.edgeTypes direction params.workItemId
            maxDepth.toNat link) ∧
      ∀ x y d,
        (y, d) ∈ (traverseLineage items links.rows { params with workItemId := x } .up maxDepth).distances ↔
          (x, d) ∈ (traverseLineage items links.rows { params with workItemId := y } .down
            maxDepth).distances := by
  constructor
  · intro direction t
    obtain ⟨hqueue, hfound⟩ := traverseLineage_found items params direction links.unique maxDepth
    have hleveled := hqueue ▸ hfound.leveled
    refine ⟨hfound.ordered ▸ hleveled.keys, hfound.ordered, fun v d => hleveled.mem_iff, hfound.distinct,
      fun link => ⟨fun hlink => ?_, ?_⟩⟩
    · obtain ⟨hrow, ⟨v, d⟩, he, hd, hcross⟩ := hfound.crossed link hlink
      exact ⟨hrow, v, d, hd, (hleveled.mem_iff.mp he).2, hcross⟩
    · rintro ⟨hrow, v, d, hd, hdist, hend, hnext⟩
      have he := hleveled.mem_iff.mpr ⟨Nat.le_of_lt hd, hdist⟩
      rcases hfound.complete (v, d) he with hmem | hdepth | hall
      · rw [hqueue] at hmem
        cases hmem
      · exact absurd hdepth (Nat.not_le_of_lt hd)
      · exact hall link (mem_lineageLinks.mpr ⟨hrow, hend⟩) hnext
  · intro x y d
    obtain ⟨hqueue, hup⟩ := traverseLineage_found items { params with workItemId := x } .up
      links.unique maxDepth
    obtain ⟨hqueue', hdown⟩ := traverseLineage_found items { params with workItemId := y } .down
      links.unique maxDepth
    have hleveled := hqueue ▸ hup.leveled
    have hleveled' := hqueue' ▸ hdown.leveled
    rw [hleveled.mem_iff, hleveled'.mem_iff, atDistance_flip]
    refine and_congr_right fun _ => ?_
    have hsteps : (fun a b => StepsTo items links.rows params.orgId params.edgeTypes .up b a) =
        StepsTo items links.rows params.orgId params.edgeTypes .down := by
      funext a b
      exact propext stepsTo_flip
    show AtDistance _ _ d x ↔ AtDistance _ _ d x
    rw [← hsteps]

end Cadena.Lineage
