import Cadena.Base.GuardedInsert
import Cadena.Connectors.ProcessRecord

/-!
# Correlation pairs

`createPair` in one transaction: upsert the source node, upsert the target
node, look for a link, insert one if there is none, commit. An upsert keeps its
row locked until the transaction ends. Any number of calls run at the same
time; what a call has written is seen by the others when it has committed. The
times of the rows are left out.
-/

namespace Cadena.Integrations

open Cadena.Base Cadena.Connectors

/-! ## Requests -/

structure CorrelationEntityInput where
  system : String
  entityType : String
  immutableId : String
  displayKey : Option String
  url : Option String

structure CreateCorrelationDto where
  source : CorrelationEntityInput
  target : CorrelationEntityInput
  relationship : Option String

structure CorrelationEntity where
  identity : SyncIdentity
  displayKey : Option String
  url : Option String
  deriving DecidableEq

/-- `optionalText`, with the text. -/
def pairOptional (value : Option String) (field : String) : Except String (Option String) :=
  match value with
  | none => .ok none
  | some v =>
    if jsLength (trimString v) > 2048 then .error (field ++ " is too long")
    else .ok (orNull (some (trimString v)))

def normalizePairEntity (P : Platform) (input : CorrelationEntityInput) (label : String) :
    Except String CorrelationEntity := do
  let system ← correlationToken P input.system (label ++ ".system")
  let entityType ← correlationToken P input.entityType (label ++ ".entity_type")
  let immutableId ← correlationText input.immutableId (label ++ ".immutable_id")
  let displayKey ← pairOptional input.displayKey (label ++ ".display_key")
  let url ← pairOptional input.url (label ++ ".url")
  return ⟨⟨system, entityType, immutableId⟩, displayKey, url⟩

/-- `/^[a-z][a-z0-9_]{0,63}$/`. -/
def isRelationship (s : String) : Bool :=
  match s.toList with
  | [] => false
  | c :: cs => c.isLower && (cs.all fun c => c.isLower || c.isDigit || c == '_') && cs.length ≤ 63

def normalizeRelationship (P : Platform) (value : Option String) : Except String String := do
  let normalized := P.toLowerCase (← correlationText (orText value "counterpart") "relationship")
  if !isRelationship normalized then
    throw ("relationship must start with a letter and contain only lowercase letters, " ++
      "digits, or underscores")
  return normalized

/-- A request that has passed the checks. -/
structure PairRequest where
  orgId : Uuid
  source : CorrelationEntity
  target : CorrelationEntity
  relationship : String
  actorId : String
  distinct : source.identity ≠ target.identity

def pairRequest (P : Platform) (orgId : Uuid) (dto : CreateCorrelationDto) (actorId : String) :
    Except String PairRequest := do
  let source ← normalizePairEntity P dto.source "source"
  let target ← normalizePairEntity P dto.target "target"
  let relationship ← normalizeRelationship P dto.relationship
  if h : source.identity = target.identity then
    throw "source and target must identify different records"
  else return ⟨orgId, source, target, relationship, actorId, h⟩

/-! ## Rows -/

/-- A row of `integration_correlation_nodes`; tenant and identity are unique
together. -/
structure CorrelationNode where
  id : Uuid
  orgId : Uuid
  identity : SyncIdentity
  displayKey : Option String
  url : Option String
  deriving DecidableEq

abbrev NodeKey := Uuid × SyncIdentity

def CorrelationNode.key (n : CorrelationNode) : NodeKey := (n.orgId, n.identity)

/-- A row of `integration_correlation_links`. -/
structure PairLink where
  id : Uuid
  orgId : Uuid
  sourceNodeId : Uuid
  targetNodeId : Uuid
  relationship : String
  createdBy : String
  deriving DecidableEq

/-- The link with the nodes at its two ends. -/
structure CorrelationPairResult where
  created : Bool
  source : CorrelationNode
  target : CorrelationNode
  link : PairLink
  storedSource : CorrelationNode
  storedTarget : CorrelationNode
  deriving DecidableEq

/-- The row that `nodeUpsertSql` returns. -/
def upsertedNode (nodes : List CorrelationNode) (orgId : Uuid) (entity : CorrelationEntity)
    (newId : Uuid) : CorrelationNode :=
  match nodes.find? (·.key == (orgId, entity.identity)) with
  | some n => { n with displayKey := entity.displayKey.or n.displayKey, url := entity.url.or n.url }
  | none => ⟨newId, orgId, entity.identity, entity.displayKey, entity.url⟩

def linkMatches (orgId sourceId targetId : Uuid) (relationship : String) (link : PairLink) : Bool :=
  link.orgId == orgId && link.relationship == relationship
    && (link.sourceNodeId == sourceId && link.targetNodeId == targetId
      || relationship == "counterpart" && link.sourceNodeId == targetId
        && link.targetNodeId == sourceId)

def findExistingLink (links : List PairLink) (orgId sourceId targetId : Uuid)
    (relationship : String) : Option PairLink :=
  links.find? (linkMatches orgId sourceId targetId relationship)

def pairResult (source target : CorrelationNode) (link : PairLink) (created : Bool) :
    CorrelationPairResult where
  created := created
  source := source
  target := target
  link := link
  storedSource := if link.sourceNodeId = source.id then source else target
  storedTarget := if link.targetNodeId = target.id then target else source

/-! ## The system -/

/-- The next statement of a call, with what it has written so far. -/
inductive PairPhase where
  | idle
  | source (req : PairRequest)
  | target (req : PairRequest) (source : CorrelationNode)
  | find (req : PairRequest) (source target : CorrelationNode)
  | insert (req : PairRequest) (source target : CorrelationNode)
  | commit (req : PairRequest) (source target : CorrelationNode) (link : PairLink) (created : Bool)
  | returned (req : PairRequest) (result : CorrelationPairResult)
  | failed (message : String)

/-- `nodes` and `links` are what has been committed; `drawn` are the ids that
`randomUUID` has returned for nodes. -/
structure PairState where
  nodes : List CorrelationNode
  links : List PairLink
  locks : NodeKey → Option Nat
  calls : Nat → PairPhase
  drawn : List Uuid

/-- `advance` runs the next statement of a call, with a new id for the row that
it may insert. `abort` rolls the transaction back: a deadlock or any error. -/
inductive PairAction where
  | begin (call : Nat) (orgId : Uuid) (dto : CreateCorrelationDto) (actorId : String)
  | advance (call : Nat) (newId : Uuid)
  | abort (call : Nat) (message : String)

def PairState.setCall (s : PairState) (i : Nat) (phase : PairPhase) : PairState :=
  { s with calls := setAt s.calls i phase }

/-- The locks of a transaction that ends. -/
def PairState.release (s : PairState) (i : Nat) : PairState :=
  { s with locks := fun key => if s.locks key = some i then none else s.locks key }

/-- An upsert waits while another transaction has the row, and no id is drawn
twice. -/
def upsertStep (s : PairState) (i : Nat) (orgId : Uuid) (entity : CorrelationEntity) (newId : Uuid)
    (next : CorrelationNode → PairPhase) : Option PairState :=
  if (s.locks (orgId, entity.identity)).isSome ∨ newId ∈ s.drawn then none
  else
    some { s.setCall i (next (upsertedNode s.nodes orgId entity newId)) with
      locks := setAt s.locks (orgId, entity.identity) (some i)
      drawn := newId :: s.drawn }

def storeNode (node : CorrelationNode) (nodes : List CorrelationNode) : List CorrelationNode :=
  Table.upsert (·.id) node (fun _ => node) nodes

/-- The publication of the event after the commit cannot fail the call. -/
def commitPair (s : PairState) (i : Nat) (req : PairRequest) (source target : CorrelationNode)
    (link : PairLink) (created : Bool) : PairState :=
  { (s.release i).setCall i (.returned req (pairResult source target link created)) with
    nodes := storeNode target (storeNode source s.nodes)
    links := if created then s.links ++ [link] else s.links }

def advanceStep (s : PairState) (i : Nat) (newId : Uuid) : Option PairState :=
  match s.calls i with
  | .source req => upsertStep s i req.orgId req.source newId (.target req)
  | .target req source => upsertStep s i req.orgId req.target newId (.find req source)
  | .find req source target =>
    match findExistingLink s.links req.orgId source.id target.id req.relationship with
    | some link => some (s.setCall i (.commit req source target link false))
    | none => some (s.setCall i (.insert req source target))
  | .insert req source target =>
    let link : PairLink := ⟨newId, req.orgId, source.id, target.id, req.relationship, req.actorId⟩
    some (s.setCall i (.commit req source target link true))
  | .commit req source target link created => some (commitPair s i req source target link created)
  | .idle | .returned .. | .failed _ => none

def PairPhase.open : PairPhase → Bool
  | .source _ | .target .. | .find .. | .insert .. | .commit .. => true
  | .idle | .returned .. | .failed _ => false

def pairStep (P : Platform) (s : PairState) : PairAction → Option PairState
  | .begin i orgId dto actorId =>
    match s.calls i with
    | .idle =>
      match pairRequest P orgId dto actorId with
      | .ok req => some (s.setCall i (.source req))
      | .error message => some (s.setCall i (.failed message))
    | _ => none
  | .advance i newId => advanceStep s i newId
  | .abort i message =>
    if (s.calls i).open then some ((s.release i).setCall i (.failed message)) else none

def pairing (P : Platform) : System PairState PairAction := ⟨pairStep P⟩

def isNode (nodes : List CorrelationNode) (id : Uuid) (key : NodeKey) : Bool :=
  nodes.any fun n => n.id == id && n.key == key

/-- A counterpart link between the two identities, in either orientation. -/
def joins (nodes : List CorrelationNode) (orgId : Uuid) (a b : SyncIdentity) (link : PairLink) : Bool :=
  link.orgId == orgId && link.relationship == "counterpart"
    && (isNode nodes link.sourceNodeId (orgId, a) && isNode nodes link.targetNodeId (orgId, b)
      || isNode nodes link.sourceNodeId (orgId, b) && isNode nodes link.targetNodeId (orgId, a))

/-- A request for a counterpart link between the two identities. -/
def PairRequest.isFor (req : PairRequest) (orgId : Uuid) (a b : SyncIdentity) : Bool :=
  req.orgId == orgId && req.relationship == "counterpart"
    && (req.source.identity == a && req.target.identity == b
      || req.source.identity == b && req.target.identity == a)

def PairState.linksOf (s : PairState) (orgId : Uuid) (a b : SyncIdentity) : List PairLink :=
  s.links.filter (joins s.nodes orgId a b)

/-- Call `i` for the pair has returned with the result. -/
def PairState.ReturnedFor (s : PairState) (orgId : Uuid) (a b : SyncIdentity) (i : Nat)
    (result : CorrelationPairResult) : Prop :=
  ∃ req, s.calls i = .returned req result ∧ req.isFor orgId a b = true

/-- There is one row at most; every call that has returned gives it, and one of
them has created it if there was none before. -/
structure OneLink (fresh : Prop) (s : PairState) (orgId : Uuid) (a b : SyncIdentity) : Prop where
  one : (s.linksOf orgId a b).length ≤ 1
  row : ∀ i result, s.ReturnedFor orgId a b i result → s.linksOf orgId a b = [result.link]
  created : fresh → (∃ i result, s.ReturnedFor orgId a b i result) →
    ∃! i, ∃ result, s.ReturnedFor orgId a b i result ∧ result.created = true

/-! ## Nodes -/

def Named (nodes : List CorrelationNode) (id : Uuid) (key : NodeKey) : Prop :=
  ∃ n ∈ nodes, n.id = id ∧ n.key = key

theorem isNode_iff {nodes : List CorrelationNode} {id : Uuid} {key : NodeKey} :
    isNode nodes id key = true ↔ Named nodes id key := by
  simp [isNode, Named]

/-- A node whose id and key belong together in the table, or are both new. -/
def Fits (nodes : List CorrelationNode) (n : CorrelationNode) : Prop :=
  ∀ id key, Named nodes id key → (id = n.id ↔ key = n.key)

/-- Ids and keys belong together one to one. -/
structure Consistent (nodes : List CorrelationNode) : Prop where
  idKey : ∀ id key key', Named nodes id key → Named nodes id key' → key = key'
  keyId : ∀ id id' key, Named nodes id key → Named nodes id' key → id = id'

theorem named_storeNode {nodes : List CorrelationNode} {n : CorrelationNode} (hfits : Fits nodes n)
    {id : Uuid} {key : NodeKey} :
    Named (storeNode n nodes) id key ↔ Named nodes id key ∨ (n.id = id ∧ n.key = key) := by
  unfold storeNode Table.upsert
  split
  · rename_i hany
    obtain ⟨m, hm, hid⟩ := List.any_eq_true.mp hany
    have hid : m.id = n.id := by simpa using hid
    have hkey : m.key = n.key := (hfits m.id m.key ⟨m, hm, rfl, rfl⟩).mp hid
    constructor
    · rintro ⟨q, hq, rfl, rfl⟩
      rcases Table.mem_update.mp hq with ⟨-, -, -, rfl⟩ | ⟨hq, -⟩
      · exact .inr ⟨rfl, rfl⟩
      · exact .inl ⟨q, hq, rfl, rfl⟩
    · rintro (⟨q, hq, rfl, rfl⟩ | ⟨rfl, rfl⟩)
      · by_cases hqid : q.id = n.id
        · have hqkey := (hfits q.id q.key ⟨q, hq, rfl, rfl⟩).mp hqid
          exact ⟨n, Table.mem_update.mpr (.inl ⟨q, hq, by simpa using hqid, rfl⟩), hqid.symm, hqkey.symm⟩
        · exact ⟨q, Table.mem_update_of_not hq (by simpa using hqid), rfl, rfl⟩
      · exact ⟨n, Table.mem_update.mpr (.inl ⟨m, hm, by simpa using hid, rfl⟩), rfl, rfl⟩
  · constructor
    · rintro ⟨q, hq, rfl, rfl⟩
      rcases List.mem_append.mp hq with hq | hq
      · exact .inl ⟨q, hq, rfl, rfl⟩
      · obtain rfl := List.mem_singleton.mp hq
        exact .inr ⟨rfl, rfl⟩
    · rintro (⟨q, hq, rfl, rfl⟩ | ⟨rfl, rfl⟩)
      · exact ⟨q, List.mem_append_left _ hq, rfl, rfl⟩
      · exact ⟨n, List.mem_append_right _ (List.mem_singleton_self n), rfl, rfl⟩

theorem Consistent.store {nodes : List CorrelationNode} {n : CorrelationNode} (h : Consistent nodes)
    (hfits : Fits nodes n) : Consistent (storeNode n nodes) where
  idKey id key key' hkey hkey' := by
    rcases (named_storeNode hfits).mp hkey with hkey | ⟨rfl, rfl⟩ <;>
      rcases (named_storeNode hfits).mp hkey' with hkey' | ⟨hid, rfl⟩
    · exact h.idKey id key key' hkey hkey'
    · exact (hfits id key hkey).mp hid.symm
    · exact ((hfits _ key' hkey').mp rfl).symm
    · rfl
  keyId id id' key hid hid' := by
    rcases (named_storeNode hfits).mp hid with hid | ⟨rfl, rfl⟩ <;>
      rcases (named_storeNode hfits).mp hid' with hid' | ⟨rfl, hkey⟩
    · exact h.keyId id id' key hid hid'
    · exact (hfits id key hid).mpr hkey.symm
    · exact ((hfits id' _ hid').mpr rfl).symm
    · rfl

theorem Fits.store {nodes : List CorrelationNode} {n m : CorrelationNode} (hm : Fits nodes m)
    (hn : Fits nodes n) (htogether : n.id = m.id ↔ n.key = m.key) : Fits (storeNode n nodes) m := by
  intro id key hnamed
  rcases (named_storeNode hn).mp hnamed with hnamed | ⟨rfl, rfl⟩
  · exact hm id key hnamed
  · exact htogether

theorem upsertedNode_cases (nodes : List CorrelationNode) (orgId : Uuid) (entity : CorrelationEntity)
    (newId : Uuid) :
    (upsertedNode nodes orgId entity newId).key = (orgId, entity.identity) ∧
    (Named nodes (upsertedNode nodes orgId entity newId).id (orgId, entity.identity) ∨
      (upsertedNode nodes orgId entity newId).id = newId ∧
        ∀ id, ¬ Named nodes id (orgId, entity.identity)) := by
  unfold upsertedNode
  cases hfind : nodes.find? (·.key == (orgId, entity.identity)) with
  | some n =>
    have hkey : n.key = (orgId, entity.identity) := beq_iff_eq.mp (List.find?_some hfind :)
    exact ⟨hkey, .inl ⟨n, List.mem_of_find?_eq_some hfind, rfl, hkey⟩⟩
  | none =>
    refine ⟨rfl, .inr ⟨rfl, ?_⟩⟩
    rintro id ⟨n, hn, -, hkey⟩
    exact absurd (beq_iff_eq.mpr hkey) (List.find?_eq_none.mp hfind n hn)

/-! ## The invariant -/

/-- What the call has written and not committed. -/
def PairPhase.nodes : PairPhase → List CorrelationNode
  | .target _ src => [src]
  | .find _ src tgt | .insert _ src tgt | .commit _ src tgt .. => [src, tgt]
  | .idle | .source _ | .returned .. | .failed _ => []

def PairRequest.sourceKey (req : PairRequest) : NodeKey := (req.orgId, req.source.identity)

def PairRequest.targetKey (req : PairRequest) : NodeKey := (req.orgId, req.target.identity)

/-- The rows written are those of the request. -/
def PairPhase.Keyed : PairPhase → Prop
  | .target req src => src.key = req.sourceKey
  | .find req src tgt | .insert req src tgt => src.key = req.sourceKey ∧ tgt.key = req.targetKey
  | .commit req src tgt link created =>
    src.key = req.sourceKey ∧ tgt.key = req.targetKey ∧
      (created = true → link.orgId = req.orgId ∧ link.relationship = req.relationship ∧
        link.sourceNodeId = src.id ∧ link.targetNodeId = tgt.id)
  | .idle | .source _ | .returned .. | .failed _ => True

structure PairInv (s : PairState) : Prop where
  consistent : Consistent s.nodes
  endpoints : ∀ link ∈ s.links,
    (∃ key, Named s.nodes link.sourceNodeId key) ∧ ∃ key, Named s.nodes link.targetNodeId key
  drawnNodes : ∀ id key, Named s.nodes id key → id ∈ s.drawn
  drawn : ∀ i, ∀ n ∈ (s.calls i).nodes, n.id ∈ s.drawn
  held : ∀ i, ∀ n ∈ (s.calls i).nodes, s.locks n.key = some i
  fits : ∀ i, ∀ n ∈ (s.calls i).nodes, Fits s.nodes n
  apart : ∀ i j, ∀ n ∈ (s.calls i).nodes, ∀ m ∈ (s.calls j).nodes, m.id = n.id → m.key = n.key
  keyed : ∀ i, (s.calls i).Keyed

section
variable {s : PairState} {i : Nat}

theorem nodes_setAt {phase : PairPhase} (written : List CorrelationNode)
    (hphase : ∀ n ∈ phase.nodes, n ∈ (s.calls i).nodes ∨ n ∈ written) {j : Nat} {n : CorrelationNode}
    (hn : n ∈ (setAt s.calls i phase j).nodes) :
    n ∈ (s.calls j).nodes ∨ (j = i ∧ n ∈ written) := by
  by_cases hj : j = i
  · subst hj
    rw [setAt_same] at hn
    exact (hphase n hn).imp_right fun h => ⟨rfl, h⟩
  · rw [setAt_other _ _ hj] at hn
    exact .inl hn

theorem keyed_setAt (h : PairInv s) {phase : PairPhase} (hkeyed : phase.Keyed) (j : Nat) :
    (setAt s.calls i phase j).Keyed := by
  by_cases hj : j = i
  · subst hj
    rw [setAt_same]
    exact hkeyed
  · rw [setAt_other _ _ hj]
    exact h.keyed j

theorem PairInv.setCall (h : PairInv s) {phase : PairPhase}
    (hnodes : ∀ n ∈ phase.nodes, n ∈ (s.calls i).nodes) (hkeyed : phase.Keyed) :
    PairInv (s.setCall i phase) := by
  have hold : ∀ j, ∀ n ∈ (setAt s.calls i phase j).nodes, n ∈ (s.calls j).nodes := by
    intro j n hn
    exact (nodes_setAt [] (fun n hn => .inl (hnodes n hn)) hn).resolve_right (by simp)
  exact ⟨h.consistent, h.endpoints, h.drawnNodes, fun j n hn => h.drawn j n (hold j n hn),
    fun j n hn => h.held j n (hold j n hn), fun j n hn => h.fits j n (hold j n hn),
    fun j j' n hn m hm => h.apart j j' n (hold j n hn) m (hold j' m hm), keyed_setAt h hkeyed⟩

theorem PairInv.release (h : PairInv s) (hnone : (s.calls i).nodes = []) : PairInv (s.release i) where
  consistent := h.consistent
  endpoints := h.endpoints
  drawnNodes := h.drawnNodes
  drawn := h.drawn
  held j n hn := by
    have hj : j ≠ i := by
      rintro rfl
      have hn : n ∈ (s.calls j).nodes := hn
      rw [hnone] at hn
      exact absurd hn List.not_mem_nil
    have hlock := h.held j n hn
    show (if s.locks n.key = some i then none else s.locks n.key) = some j
    rw [hlock, if_neg (by simpa using hj)]
  fits := h.fits
  apart := h.apart
  keyed := h.keyed

theorem PairInv.upsert (h : PairInv s) {orgId newId : Uuid} {entity : CorrelationEntity}
    {next : CorrelationNode → PairPhase} {t : PairState}
    (hstep : upsertStep s i orgId entity newId next = some t)
    (hnodes : ∀ n, (next n).nodes = (s.calls i).nodes ++ [n])
    (hkeyed : ∀ n, n.key = (orgId, entity.identity) → (next n).Keyed) : PairInv t := by
  unfold upsertStep at hstep
  split at hstep
  · cases hstep
  · rename_i hfree
    obtain rfl := Option.some.inj hstep
    rw [not_or, Bool.not_eq_true, Option.isSome_eq_false_iff, Option.isNone_iff_eq_none] at hfree
    obtain ⟨hkey, hid⟩ := upsertedNode_cases s.nodes orgId entity newId
    generalize upsertedNode s.nodes orgId entity newId = new at hkey hid
    have hwritten : ∀ {j : Nat} {n : CorrelationNode}, n ∈ (setAt s.calls i (next new) j).nodes →
        n ∈ (s.calls j).nodes ∨ (j = i ∧ n ∈ [new]) := by
      intro j n hn
      refine nodes_setAt [new] (fun n hn => ?_) hn
      rw [hnodes] at hn
      exact List.mem_append.mp hn
    have hfits : Fits s.nodes new := by
      intro id key hnamed
      rcases hid with hnew | ⟨hnew, hnone⟩
      · constructor
        · rintro rfl
          rw [hkey, h.consistent.idKey _ _ _ hnamed hnew]
        · rintro rfl
          exact h.consistent.keyId _ _ _ (hkey ▸ hnamed) hnew
      · constructor
        · rintro rfl
          exact absurd (hnew ▸ h.drawnNodes _ _ hnamed) hfree.2
        · rintro rfl
          exact absurd (hkey ▸ hnamed) (hnone id)
    have hnotHeld : ∀ j, ∀ n ∈ (s.calls j).nodes, n.key ≠ (orgId, entity.identity) := by
      intro j n hn heq
      have hlock := h.held j n hn
      rw [heq, hfree.1] at hlock
      cases hlock
    have happart : ∀ j, ∀ m ∈ (s.calls j).nodes, m.id ≠ new.id := by
      intro j m hm heq
      rcases hid with hnew | ⟨hnew, -⟩
      · exact hnotHeld j m hm (((h.fits j m hm) _ _ hnew).mp heq.symm).symm
      · exact hfree.2 (hnew ▸ heq ▸ h.drawn j m hm)
    refine ⟨h.consistent, h.endpoints, fun id key hn => List.mem_cons_of_mem _ (h.drawnNodes id key hn),
      fun j n hn => ?_, fun j n hn => ?_, fun j n hn => ?_, fun j j' n hn m hm hids => ?_,
      keyed_setAt h (hkeyed new hkey)⟩
    · rcases hwritten hn with hn | ⟨-, hn⟩
      · exact List.mem_cons_of_mem _ (h.drawn j n hn)
      · obtain rfl := List.mem_singleton.mp hn
        rcases hid with hnew | ⟨hnew, -⟩
        · exact List.mem_cons_of_mem _ (h.drawnNodes _ _ hnew)
        · exact List.mem_cons.mpr (.inl hnew)
    · show setAt s.locks (orgId, entity.identity) (some i) n.key = some j
      rcases hwritten hn with hold | ⟨hj, hmem⟩
      · rw [setAt_other _ _ (hnotHeld j n hold)]
        exact h.held j n hold
      · rw [List.mem_singleton.mp hmem, hkey, setAt_same, hj]
    · rcases hwritten hn with hn | ⟨-, hn⟩
      · exact h.fits j n hn
      · exact List.mem_singleton.mp hn ▸ hfits
    · rcases hwritten hn with hn | ⟨-, hn⟩ <;> rcases hwritten hm with hm | ⟨-, hm⟩
      · exact h.apart j j' n hn m hm hids
      · exact absurd (List.mem_singleton.mp hm ▸ hids.symm) (happart j n hn)
      · exact absurd (List.mem_singleton.mp hn ▸ hids) (happart j' m hm)
      · rw [List.mem_singleton.mp hn, List.mem_singleton.mp hm]

theorem PairInv.together (h : PairInv s) {j : Nat} (hij : i ≠ j) {n m : CorrelationNode}
    (hn : n ∈ (s.calls i).nodes) (hm : m ∈ (s.calls j).nodes) : n.id = m.id ↔ n.key = m.key := by
  refine ⟨h.apart j i m hm n hn, fun hkey => ?_⟩
  have hlock := h.held i n hn
  rw [hkey, h.held j m hm] at hlock
  exact absurd (Option.some.inj hlock).symm hij

section
variable {req : PairRequest} {src tgt : CorrelationNode} {link : PairLink} {created : Bool}

theorem PairRequest.keys_ne (req : PairRequest) : req.sourceKey ≠ req.targetKey :=
  fun heq => req.distinct (Prod.mk.inj heq).2

theorem PairInv.ends (h : PairInv s) (hsrc : src ∈ (s.calls i).nodes) (htgt : tgt ∈ (s.calls i).nodes)
    (hsrcKey : src.key = req.sourceKey) (htgtKey : tgt.key = req.targetKey) :
    src.id = tgt.id ↔ src.key = tgt.key := by
  refine ⟨h.apart i i tgt htgt src hsrc, fun hkey => ?_⟩
  rw [hsrcKey, htgtKey] at hkey
  exact absurd hkey req.keys_ne

theorem PairInv.committing (h : PairInv s) (hphase : s.calls i = .commit req src tgt link created) :
    src ∈ (s.calls i).nodes ∧ tgt ∈ (s.calls i).nodes ∧ (PairPhase.commit req src tgt link created).Keyed := by
  have hkeyed := h.keyed i
  rw [hphase] at hkeyed ⊢
  exact ⟨by simp [PairPhase.nodes], by simp [PairPhase.nodes], hkeyed⟩

theorem PairInv.stored (h : PairInv s) (hphase : s.calls i = .commit req src tgt link created) :
    Fits s.nodes src ∧ Fits (storeNode src s.nodes) tgt := by
  obtain ⟨hsrc, htgt, hkeyed⟩ := h.committing hphase
  exact ⟨h.fits i src hsrc,
    (h.fits i tgt htgt).store (h.fits i src hsrc) (h.ends hsrc htgt hkeyed.1 hkeyed.2.1)⟩

theorem PairInv.named (h : PairInv s) (hphase : s.calls i = .commit req src tgt link created)
    {id : Uuid} {key : NodeKey} :
    Named (storeNode tgt (storeNode src s.nodes)) id key ↔
      Named s.nodes id key ∨ (src.id = id ∧ src.key = key) ∨ (tgt.id = id ∧ tgt.key = key) := by
  obtain ⟨hsrc, htgt⟩ := h.stored hphase
  rw [named_storeNode htgt, named_storeNode hsrc, or_assoc]

theorem PairInv.commit (h : PairInv s) (hphase : s.calls i = .commit req src tgt link created) :
    PairInv (commitPair s i req src tgt link created) := by
  obtain ⟨hfitsSrc, hfitsTgt⟩ := h.stored hphase
  obtain ⟨hsrc, htgt, hkeyed⟩ := h.committing hphase
  have hold : ∀ {j : Nat} {n : CorrelationNode},
      n ∈ (setAt s.calls i (.returned req (pairResult src tgt link created)) j).nodes →
      j ≠ i ∧ n ∈ (s.calls j).nodes := by
    intro j n hn
    by_cases hj : j = i
    · subst hj
      rw [setAt_same] at hn
      exact absurd hn List.not_mem_nil
    · rw [setAt_other _ _ hj] at hn
      exact ⟨hj, hn⟩
  have hmono : ∀ {id key}, Named s.nodes id key →
      Named (storeNode tgt (storeNode src s.nodes)) id key := fun hn => (h.named hphase).mpr (.inl hn)
  refine ⟨(h.consistent.store hfitsSrc).store hfitsTgt, fun l hl => ?_, fun id key hn => ?_,
    fun j n hn => h.drawn j n (hold hn).2, fun j n hn => ?_, fun j n hn => ?_,
    fun j j' n hn m hm => h.apart j j' n (hold hn).2 m (hold hm).2, keyed_setAt h trivial⟩
  · have hlinks : ∀ l ∈ s.links, (∃ key, Named (storeNode tgt (storeNode src s.nodes)) l.sourceNodeId key) ∧
        ∃ key, Named (storeNode tgt (storeNode src s.nodes)) l.targetNodeId key := fun l hl =>
      ⟨(h.endpoints l hl).1.imp fun _ => hmono, (h.endpoints l hl).2.imp fun _ => hmono⟩
    cases created with
    | false => exact hlinks l hl
    | true =>
      rcases List.mem_append.mp hl with hl | hl
      · exact hlinks l hl
      · obtain rfl := List.mem_singleton.mp hl
        obtain ⟨-, -, hsource, htarget⟩ := hkeyed.2.2 rfl
        exact ⟨⟨src.key, (h.named hphase).mpr (.inr (.inl ⟨hsource.symm, rfl⟩))⟩,
          ⟨tgt.key, (h.named hphase).mpr (.inr (.inr ⟨htarget.symm, rfl⟩))⟩⟩
  · rcases (h.named hphase).mp hn with hn | ⟨rfl, -⟩ | ⟨rfl, -⟩
    · exact h.drawnNodes id key hn
    · exact h.drawn i src hsrc
    · exact h.drawn i tgt htgt
  · obtain ⟨hj, hn⟩ := hold hn
    have hlock := h.held j n hn
    show (if s.locks n.key = some i then none else s.locks n.key) = some j
    rw [hlock, if_neg (by simpa using hj)]
  · obtain ⟨hj, hn⟩ := hold hn
    exact ((h.fits j n hn).store hfitsSrc (h.together hj.symm hsrc hn)).store hfitsTgt
      (h.together hj.symm htgt hn)

end

theorem pairStep_inv {P : Platform} {t : PairState} (h : PairInv s) {action : PairAction}
    (hstep : pairStep P s action = some t) : PairInv t := by
  cases action with
  | begin i orgId dto actorId =>
    simp only [pairStep] at hstep
    split at hstep
    · split at hstep <;> obtain rfl := Option.some.inj hstep
      · exact h.setCall (fun n hn => absurd hn List.not_mem_nil) trivial
      · exact h.setCall (fun n hn => absurd hn List.not_mem_nil) trivial
    · cases hstep
  | advance i newId =>
    simp only [pairStep, advanceStep] at hstep
    have hkeyed := h.keyed i
    cases hphase : s.calls i with
    | source req =>
      rw [hphase] at hstep
      exact h.upsert hstep (fun n => by simp [hphase, PairPhase.nodes]) fun n hn => hn
    | target req src =>
      rw [hphase] at hstep hkeyed
      exact h.upsert hstep (fun n => by simp [hphase, PairPhase.nodes]) fun n hn => ⟨hkeyed, hn⟩
    | find req src tgt =>
      rw [hphase] at hstep hkeyed
      dsimp only at hstep
      split at hstep <;> obtain rfl := Option.some.inj hstep
      · exact h.setCall (by simp [hphase, PairPhase.nodes]) ⟨hkeyed.1, hkeyed.2, by simp⟩
      · exact h.setCall (by simp [hphase, PairPhase.nodes]) hkeyed
    | insert req src tgt =>
      rw [hphase] at hstep hkeyed
      obtain rfl := Option.some.inj hstep
      exact h.setCall (by simp [hphase, PairPhase.nodes])
        ⟨hkeyed.1, hkeyed.2, fun _ => ⟨rfl, rfl, rfl, rfl⟩⟩
    | commit req src tgt link created =>
      rw [hphase] at hstep
      obtain rfl := Option.some.inj hstep
      exact h.commit hphase
    | idle | returned req result | failed message => rw [hphase] at hstep; cases hstep
  | abort i message =>
    simp only [pairStep] at hstep
    split at hstep
    · obtain rfl := Option.some.inj hstep
      have hfailed : PairInv (s.setCall i (.failed message)) :=
        h.setCall (fun n hn => absurd hn List.not_mem_nil) trivial
      exact hfailed.release (by simp [PairState.setCall, PairPhase.nodes])
    · cases hstep

end

/-! ## The pair under its lock -/

section
variable (orgId : Uuid) (a b : SyncIdentity)

/-- Where a call stands with respect to the pair. -/
def PairPhase.stage : PairPhase → GuardStage PairLink
  | .find req _ _ => if req.isFor orgId a b then .inside else .outside
  | .insert req _ _ => if req.isFor orgId a b then .absent else .outside
  | .commit req _ _ link created => if req.isFor orgId a b then .holds link created else .outside
  | .returned req result =>
    if req.isFor orgId a b then .done result.link result.created else .outside
  | .idle | .source _ | .target .. | .failed _ => .outside

def PairState.view (s : PairState) : GuardedInsert Nat PairLink where
  rows := s.linksOf orgId a b
  stage i := (s.calls i).stage orgId a b

variable {orgId : Uuid} {a b : SyncIdentity} {s t : PairState} {i : Nat} {req : PairRequest}
  {src tgt : CorrelationNode}

theorem view_setCall (s : PairState) (i : Nat) (phase : PairPhase) :
    (s.setCall i phase).view orgId a b =
      { s.view orgId a b with
        stage := setAt (s.view orgId a b).stage i (phase.stage orgId a b) } :=
  GuardedInsert.ext rfl (setAt_comp (PairPhase.stage orgId a b) s.calls i phase)

theorem moves_setCall {phase : PairPhase}
    (hstage : phase.stage orgId a b = (s.calls i).stage orgId a b) :
    GuardedInsert.Move (s.view orgId a b) ((s.setCall i phase).view orgId a b) := by
  have hsame : (s.setCall i phase).view orgId a b = s.view orgId a b := by
    rw [view_setCall, hstage]
    exact GuardedInsert.ext rfl (setAt_self (s.view orgId a b).stage i)
  rw [hsame]
  exact .stay

theorem isFor_iff : req.isFor orgId a b = true ↔
    req.relationship = "counterpart" ∧
      (req.sourceKey = (orgId, a) ∧ req.targetKey = (orgId, b) ∨
        req.sourceKey = (orgId, b) ∧ req.targetKey = (orgId, a)) := by
  simp only [PairRequest.isFor, PairRequest.sourceKey, PairRequest.targetKey, Bool.and_eq_true,
    Bool.or_eq_true, beq_iff_eq, Prod.mk.injEq]
  constructor
  · rintro ⟨⟨rfl, hrel⟩, h⟩
    exact ⟨hrel, h.imp (fun h => ⟨⟨rfl, h.1⟩, rfl, h.2⟩) fun h => ⟨⟨rfl, h.1⟩, rfl, h.2⟩⟩
  · rintro ⟨hrel, ⟨⟨rfl, hs⟩, -, ht⟩ | ⟨⟨rfl, hs⟩, -, ht⟩⟩
    · exact ⟨⟨rfl, hrel⟩, .inl ⟨hs, ht⟩⟩
    · exact ⟨⟨rfl, hrel⟩, .inr ⟨hs, ht⟩⟩

theorem PairInv.locked (h : PairInv s) (hguarded : ((s.calls i).stage orgId a b).Guarded) :
    s.locks (orgId, a) = some i := by
  have hkeyed := h.keyed i
  have hlock : ∀ {req : PairRequest} (src tgt : CorrelationNode), req.isFor orgId a b = true →
      src ∈ (s.calls i).nodes → tgt ∈ (s.calls i).nodes → src.key = req.sourceKey →
      tgt.key = req.targetKey → s.locks (orgId, a) = some i := by
    intro req src tgt hfor hsrc htgt hsrcKey htgtKey
    rcases (isFor_iff.mp hfor).2 with ⟨hs, -⟩ | ⟨-, ht⟩
    · rw [← hs, ← hsrcKey]
      exact h.held i src hsrc
    · rw [← ht, ← htgtKey]
      exact h.held i tgt htgt
  cases hphase : s.calls i with
  | find req src tgt | insert req src tgt =>
    rw [hphase] at hguarded hkeyed
    by_cases hfor : req.isFor orgId a b = true
    · exact hlock src tgt hfor (by simp [hphase, PairPhase.nodes])
        (by simp [hphase, PairPhase.nodes]) hkeyed.1 hkeyed.2
    · simp only [PairPhase.stage, if_neg hfor] at hguarded
      exact hguarded.elim
  | commit req src tgt link created =>
    rw [hphase] at hguarded hkeyed
    by_cases hfor : req.isFor orgId a b = true
    · exact hlock src tgt hfor (by simp [hphase, PairPhase.nodes])
        (by simp [hphase, PairPhase.nodes]) hkeyed.1 hkeyed.2.1
    · simp only [PairPhase.stage, if_neg hfor] at hguarded
      exact hguarded.elim
  | returned req result =>
    rw [hphase] at hguarded
    simp only [PairPhase.stage] at hguarded
    split at hguarded <;> exact hguarded.elim
  | idle | source req | target req src | failed message =>
    rw [hphase] at hguarded
    exact hguarded.elim

theorem PairInv.end_iff (h : PairInv s) {n : CorrelationNode} (hfits : Fits s.nodes n) {id : Uuid}
    (hend : ∃ key, Named s.nodes id key) : id = n.id ↔ isNode s.nodes id n.key = true := by
  obtain ⟨key, hnamed⟩ := hend
  rw [isNode_iff, hfits id key hnamed]
  constructor
  · rintro rfl
    exact hnamed
  · exact h.consistent.idKey id key n.key hnamed

theorem PairInv.matches (h : PairInv s) (hfor : req.isFor orgId a b = true)
    (hsrc : src ∈ (s.calls i).nodes) (htgt : tgt ∈ (s.calls i).nodes)
    (hsrcKey : src.key = req.sourceKey) (htgtKey : tgt.key = req.targetKey) {link : PairLink}
    (hlink : link ∈ s.links) :
    linkMatches req.orgId src.id tgt.id req.relationship link = joins s.nodes orgId a b link := by
  obtain ⟨hsource, htarget⟩ := h.endpoints link hlink
  have hends : ∀ {id : Uuid}, (∃ key, Named s.nodes id key) →
      (id = src.id ↔ isNode s.nodes id req.sourceKey = true) ∧
        (id = tgt.id ↔ isNode s.nodes id req.targetKey = true) := fun hend =>
    ⟨hsrcKey ▸ h.end_iff (h.fits i src hsrc) hend, htgtKey ▸ h.end_iff (h.fits i tgt htgt) hend⟩
  obtain ⟨hrel, hkeys⟩ := isFor_iff.mp hfor
  have horg : req.orgId = orgId := by
    rcases hkeys with ⟨hs, -⟩ | ⟨hs, -⟩ <;> exact (Prod.mk.inj hs).1
  rw [Bool.eq_iff_iff]
  simp only [linkMatches, joins, horg, hrel, Bool.and_eq_true, Bool.or_eq_true, beq_iff_eq, true_and,
    hends hsource, hends htarget]
  refine and_congr_right fun _ => ?_
  rcases hkeys with ⟨hs, ht⟩ | ⟨hs, ht⟩
  · rw [hs, ht]
  · rw [hs, ht, or_comm]

theorem find_moves (h : PairInv s) (hphase : s.calls i = .find req src tgt)
    (hfor : req.isFor orgId a b = true) :
    (∀ link, findExistingLink s.links req.orgId src.id tgt.id req.relationship = some link →
      link ∈ s.linksOf orgId a b) ∧
    (findExistingLink s.links req.orgId src.id tgt.id req.relationship = none →
      s.linksOf orgId a b = []) := by
  have hkeyed := h.keyed i
  rw [hphase] at hkeyed
  have hmatches : ∀ link ∈ s.links,
      linkMatches req.orgId src.id tgt.id req.relationship link = joins s.nodes orgId a b link :=
    fun link hlink => h.matches (i := i) hfor (by simp [hphase, PairPhase.nodes])
      (by simp [hphase, PairPhase.nodes]) hkeyed.1 hkeyed.2 hlink
  constructor
  · intro link hfind
    have hmem := List.mem_of_find?_eq_some hfind
    exact List.mem_filter.mpr ⟨hmem, hmatches link hmem ▸ List.find?_some hfind⟩
  · intro hfind
    refine List.filter_eq_nil_iff.mpr fun link hlink => ?_
    rw [← hmatches link hlink]
    exact List.find?_eq_none.mp hfind link hlink

theorem linksOf_commit (h : PairInv s) {link : PairLink} {created : Bool}
    (hphase : s.calls i = .commit req src tgt link created) :
    (commitPair s i req src tgt link created).linksOf orgId a b =
      if created && req.isFor orgId a b then s.linksOf orgId a b ++ [link]
      else s.linksOf orgId a b := by
  obtain ⟨hsrc, htgt, hkeyed⟩ := h.committing hphase
  have hnodes : (commitPair s i req src tgt link created).nodes =
      storeNode tgt (storeNode src s.nodes) := rfl
  -- the ends of a committed link have been committed before
  have hisNode : ∀ {id key}, (∃ k, Named s.nodes id k) →
      isNode (storeNode tgt (storeNode src s.nodes)) id key = isNode s.nodes id key := by
    intro id key hend
    rw [Bool.eq_iff_iff, isNode_iff, isNode_iff, h.named hphase]
    refine ⟨fun hn => ?_, .inl⟩
    rcases hn with hn | ⟨rfl, rfl⟩ | ⟨rfl, rfl⟩
    · exact hn
    · exact isNode_iff.mp ((h.end_iff (h.fits i src hsrc) hend).mp rfl)
    · exact isNode_iff.mp ((h.end_iff (h.fits i tgt htgt) hend).mp rfl)
  have hsame : s.links.filter (joins (storeNode tgt (storeNode src s.nodes)) orgId a b) =
      s.linksOf orgId a b := by
    refine List.filter_congr fun l hl => ?_
    obtain ⟨hsource, htarget⟩ := h.endpoints l hl
    simp only [joins, hisNode hsource, hisNode htarget]
  cases created with
  | false =>
    rw [Bool.false_and]
    exact hsame
  | true =>
    obtain ⟨horg, hrel, hsource, htarget⟩ := hkeyed.2.2 rfl
    have hinv := h.commit hphase
    have hsrcNamed : Named (storeNode tgt (storeNode src s.nodes)) src.id req.sourceKey :=
      (h.named hphase).mpr (.inr (.inl ⟨rfl, hkeyed.1⟩))
    have htgtNamed : Named (storeNode tgt (storeNode src s.nodes)) tgt.id req.targetKey :=
      (h.named hphase).mpr (.inr (.inr ⟨rfl, hkeyed.2.1⟩))
    have hkey : ∀ {id key key'}, Named (storeNode tgt (storeNode src s.nodes)) id key →
        (isNode (storeNode tgt (storeNode src s.nodes)) id key' = true ↔ key = key') := by
      intro id key key' hn
      rw [isNode_iff]
      exact ⟨fun hn' => hinv.consistent.idKey id key key' hn hn', fun heq => heq ▸ hn⟩
    have hjoins : joins (storeNode tgt (storeNode src s.nodes)) orgId a b link =
        req.isFor orgId a b := by
      rw [Bool.eq_iff_iff, isFor_iff]
      simp only [joins, horg, hrel, hsource, htarget, Bool.and_eq_true, Bool.or_eq_true,
        beq_iff_eq, hkey hsrcNamed, hkey htgtNamed, and_assoc]
      refine ⟨fun hall => hall.2, fun hall => ⟨?_, hall⟩⟩
      rcases hall.2 with ⟨hs, -⟩ | ⟨hs, -⟩ <;> exact (Prod.mk.inj hs).1
    show (s.links ++ [link]).filter (joins (storeNode tgt (storeNode src s.nodes)) orgId a b) = _
    rw [List.filter_append, hsame, Bool.true_and]
    by_cases hfor : req.isFor orgId a b = true
    · rw [if_pos hfor, List.filter_cons_of_pos (by rw [hjoins]; exact hfor), List.filter_nil]
    · rw [if_neg hfor, List.filter_cons_of_neg (by rw [hjoins]; exact hfor), List.filter_nil,
        List.append_nil]

theorem upsertStep_ok {newId : Uuid} {entity : CorrelationEntity} {next : CorrelationNode → PairPhase}
    (hstep : upsertStep s i orgId entity newId next = some t) :
    s.locks (orgId, entity.identity) = none ∧
      t.calls = setAt s.calls i (next (upsertedNode s.nodes orgId entity newId)) ∧
      t.nodes = s.nodes ∧ t.links = s.links ∧
      t.locks = setAt s.locks (orgId, entity.identity) (some i) := by
  unfold upsertStep at hstep
  split at hstep
  · cases hstep
  · rename_i hfree
    obtain rfl := Option.some.inj hstep
    rw [not_or, Bool.not_eq_true, Option.isSome_eq_false_iff, Option.isNone_iff_eq_none] at hfree
    exact ⟨hfree.1, rfl, rfl, rfl, rfl⟩

theorem upsert_moves (h : PairInv s) (ht : PairInv t) {org newId : Uuid} {entity : CorrelationEntity}
    {next : CorrelationNode → PairPhase} (hstep : upsertStep s i org entity newId next = some t)
    (hout : (s.calls i).stage orgId a b = .outside)
    (hnext : ∀ n, (next n).stage orgId a b = .outside ∨ (next n).stage orgId a b = .inside) :
    GuardedInsert.Move (s.view orgId a b) (t.view orgId a b) := by
  obtain ⟨hfree, hcalls, hnodes, hlinks, hlocks⟩ := upsertStep_ok hstep
  generalize upsertedNode s.nodes org entity newId = new at hcalls
  have hview : t.view orgId a b = (s.setCall i (next new)).view orgId a b := by
    refine GuardedInsert.ext ?_ ?_
    · show t.links.filter (joins t.nodes orgId a b) = s.links.filter (joins s.nodes orgId a b)
      rw [hnodes, hlinks]
    · funext j
      show (t.calls j).stage orgId a b = (setAt s.calls i (next new) j).stage orgId a b
      rw [hcalls]
  rw [hview]
  rcases hnext new with hstage | hstage
  · exact moves_setCall (hstage.trans hout.symm)
  · rw [view_setCall, hstage]
    refine .enter i hout fun j hj => ?_
    have hmine : t.locks (orgId, a) = some i := ht.locked (by rw [hcalls, setAt_same, hstage]; exact trivial)
    have htheirs := h.locked hj
    have hkey : (orgId, a) ≠ (org, entity.identity) := by
      intro heq
      rw [heq, hfree] at htheirs
      cases htheirs
    rw [hlocks, setAt_other _ _ hkey, htheirs] at hmine
    obtain rfl := Option.some.inj hmine
    rw [show (s.view orgId a b).stage j = .outside from hout] at hj
    exact hj

theorem commit_moves (h : PairInv s) {link : PairLink} {created : Bool}
    (hphase : s.calls i = .commit req src tgt link created) :
    GuardedInsert.Move (s.view orgId a b) ((commitPair s i req src tgt link created).view orgId a b) := by
  have hview : (commitPair s i req src tgt link created).view orgId a b =
      ⟨if created && req.isFor orgId a b then s.linksOf orgId a b ++ [link] else s.linksOf orgId a b,
        setAt (s.view orgId a b).stage i
          (PairPhase.stage orgId a b (.returned req (pairResult src tgt link created)))⟩ :=
    GuardedInsert.ext (linksOf_commit h hphase) (setAt_comp (PairPhase.stage orgId a b) s.calls i _)
  rw [hview]
  by_cases hfor : req.isFor orgId a b = true
  · rw [hfor, Bool.and_true]
    simp only [PairPhase.stage, if_pos hfor]
    exact .commit i link created (by simp [PairState.view, hphase, PairPhase.stage, hfor])
  · rw [Bool.not_eq_true] at hfor
    have hsame : (⟨s.linksOf orgId a b, setAt (s.view orgId a b).stage i .outside⟩ :
        GuardedInsert Nat PairLink) = s.view orgId a b := by
      refine GuardedInsert.ext rfl ?_
      rw [show GuardStage.outside = (s.view orgId a b).stage i by
        simp [PairState.view, hphase, PairPhase.stage, hfor]]
      exact setAt_self _ i
    simp only [PairPhase.stage, hfor, Bool.and_false, Bool.false_eq_true, if_false]
    rw [hsame]
    exact .stay

theorem pairStep_moves {P : Platform} (h : PairInv s) (ht : PairInv t) {action : PairAction}
    (hstep : pairStep P s action = some t) :
    GuardedInsert.Move (s.view orgId a b) (t.view orgId a b) := by
  cases action with
  | begin i org dto actorId =>
    simp only [pairStep] at hstep
    split at hstep
    · rename_i hphase
      split at hstep <;> obtain rfl := Option.some.inj hstep
      · exact moves_setCall (by rw [hphase]; rfl)
      · exact moves_setCall (by rw [hphase]; rfl)
    · cases hstep
  | advance i newId =>
    simp only [pairStep, advanceStep] at hstep
    cases hphase : s.calls i with
    | source req =>
      rw [hphase] at hstep
      exact upsert_moves h ht hstep (by rw [hphase]; rfl) fun n => .inl rfl
    | target req src =>
      rw [hphase] at hstep
      refine upsert_moves h ht hstep (by rw [hphase]; rfl) fun n => ?_
      by_cases hfor : req.isFor orgId a b = true
      · exact .inr (if_pos hfor)
      · exact .inl (if_neg hfor)
    | find req src tgt =>
      rw [hphase] at hstep
      dsimp only at hstep
      by_cases hfor : req.isFor orgId a b = true
      · obtain ⟨hsome, hnone⟩ := find_moves h hphase hfor
        have hin : (s.view orgId a b).stage i = .inside := by
          simp [PairState.view, hphase, PairPhase.stage, hfor]
        split at hstep <;> rename_i hfind <;> obtain rfl := Option.some.inj hstep <;>
          rw [view_setCall] <;> simp only [PairPhase.stage, if_pos hfor]
        · exact .find i _ hin (hsome _ hfind)
        · exact .miss i hin (hnone hfind)
      · split at hstep <;> obtain rfl := Option.some.inj hstep <;>
          exact moves_setCall (by simp [hphase, PairPhase.stage, hfor])
    | insert req src tgt =>
      rw [hphase] at hstep
      obtain rfl := Option.some.inj hstep
      by_cases hfor : req.isFor orgId a b = true
      · rw [view_setCall]
        simp only [PairPhase.stage, if_pos hfor]
        exact .insert i _ (by simp [PairState.view, hphase, PairPhase.stage, hfor])
      · exact moves_setCall (by simp [hphase, PairPhase.stage, hfor])
    | commit req src tgt link created =>
      rw [hphase] at hstep
      obtain rfl := Option.some.inj hstep
      exact commit_moves h hphase
    | idle | returned req result | failed message => rw [hphase] at hstep; cases hstep
  | abort i message =>
    simp only [pairStep] at hstep
    split at hstep
    · rename_i hopen
      obtain rfl := Option.some.inj hstep
      have hview : ((s.release i).setCall i (.failed message)).view orgId a b =
          { s.view orgId a b with stage := setAt (s.view orgId a b).stage i .outside } :=
        view_setCall (s.release i) i (.failed message)
      by_cases hguarded : ((s.view orgId a b).stage i).Guarded
      · rw [hview]
        exact .abort i hguarded
      · have hout : (s.view orgId a b).stage i = .outside := by
          show (s.calls i).stage orgId a b = .outside
          replace hguarded : ¬ ((s.calls i).stage orgId a b).Guarded := hguarded
          revert hguarded hopen
          cases s.calls i <;> simp only [PairPhase.open, PairPhase.stage] <;> try split
          all_goals simp [GuardStage.Guarded]
        rw [hview, ← hout, setAt_self]
        exact .stay
    · cases hstep

end

/-! ## Runs -/

structure StoredPairs where
  nodes : List CorrelationNode
  links : List PairLink
  ids : (nodes.map (·.id)).Nodup
  keys : (nodes.map (·.key)).Nodup
  ends : ∀ link ∈ links, link.sourceNodeId ∈ nodes.map (·.id) ∧ link.targetNodeId ∈ nodes.map (·.id)

def PairState.start (stored : StoredPairs) : PairState :=
  ⟨stored.nodes, stored.links, fun _ => none, fun _ => .idle, stored.nodes.map (·.id)⟩

theorem PairInv.start (stored : StoredPairs) : PairInv (.start stored) where
  consistent :=
    { idKey := by
        rintro id key key' ⟨n, hn, rfl, rfl⟩ ⟨m, hm, hid, rfl⟩
        rw [Table.eq_of_key stored.ids hm hn hid]
      keyId := by
        rintro id id' key ⟨n, hn, rfl, rfl⟩ ⟨m, hm, rfl, hkey⟩
        rw [Table.eq_of_key stored.keys hm hn hkey] }
  endpoints link hlink := by
    obtain ⟨hs, ht⟩ := stored.ends link hlink
    obtain ⟨n, hn, hid⟩ := List.mem_map.mp hs
    obtain ⟨m, hm, hid'⟩ := List.mem_map.mp ht
    exact ⟨⟨n.key, n, hn, hid, rfl⟩, ⟨m.key, m, hm, hid', rfl⟩⟩
  drawnNodes := by
    rintro id key ⟨n, hn, rfl, -⟩
    exact List.mem_map_of_mem hn
  drawn i n hn := absurd hn List.not_mem_nil
  held i n hn := absurd hn List.not_mem_nil
  fits i n hn := absurd hn List.not_mem_nil
  apart i j n hn := absurd hn List.not_mem_nil
  keyed i := trivial

theorem returnedFor_iff {s : PairState} {orgId : Uuid} {a b : SyncIdentity} {i : Nat}
    {link : PairLink} {created : Bool} :
    (s.view orgId a b).stage i = .done link created ↔
      ∃ result, s.ReturnedFor orgId a b i result ∧ result.link = link ∧ result.created = created := by
  show (s.calls i).stage orgId a b = .done link created ↔ _
  unfold PairState.ReturnedFor
  cases hphase : s.calls i with
  | returned req result =>
    by_cases hfor : req.isFor orgId a b = true
    · simp [PairPhase.stage, hfor]
    · simp [PairPhase.stage, hfor]
  | find req src tgt | insert req src tgt | commit req src tgt link created =>
    by_cases hfor : req.isFor orgId a b = true <;> simp [PairPhase.stage, hfor]
  | idle | source req | target req src | failed message => simp [PairPhase.stage]

theorem OneLink.of_sound {fresh : Prop} {s : PairState} {orgId : Uuid} {a b : SyncIdentity}
    (h : (s.view orgId a b).Sound fresh) : OneLink fresh s orgId a b := by
  have hdone : ∀ i result, s.ReturnedFor orgId a b i result →
      (s.view orgId a b).stage i = .done result.link result.created :=
    fun i result hret => returnedFor_iff.mpr ⟨result, hret, rfl, rfl⟩
  refine ⟨?_, fun i result hret => h.done i _ _ (hdone i result hret), ?_⟩
  · cases hlinks : s.linksOf orgId a b with
    | nil => exact Nat.zero_le 1
    | cons link rest =>
      have hone := h.one link (by
        show link ∈ s.linksOf orgId a b
        rw [hlinks]
        exact List.mem_cons_self)
      have hone : s.linksOf orgId a b = [link] := hone
      rw [← hlinks, hone]
      exact Nat.le_refl 1
  · rintro hfresh ⟨i, result, hret⟩
    have hrow : s.linksOf orgId a b = [result.link] := h.done i _ _ (hdone i result hret)
    obtain ⟨j, hj⟩ := h.creator hfresh result.link (by
      show result.link ∈ s.linksOf orgId a b
      rw [hrow]
      exact List.mem_singleton_self _)
    obtain ⟨created, hcreated, -, htrue⟩ := returnedFor_iff.mp hj
    refine ⟨j, ⟨created, hcreated, htrue⟩, ?_⟩
    rintro k ⟨result', hret', htrue'⟩
    have hk := hdone k result' hret'
    rw [htrue'] at hk
    exact h.once k j _ _ hk hj

/-- However many calls run at the same time and however they end, a pair of
identities has one counterpart link at most. -/
theorem one_link (P : Platform) (stored : StoredPairs) (orgId : Uuid) (a b : SyncIdentity)
    (hone : ((PairState.start stored).linksOf orgId a b).length ≤ 1) (actions : List PairAction)
    (t : PairState) (hrun : (pairing P).run (.start stored) actions = some t) :
    OneLink ((PairState.start stored).linksOf orgId a b = []) t orgId a b := by
  have hstep : ∀ {s action t},
      (PairInv s ∧ (s.view orgId a b).Sound ((PairState.start stored).linksOf orgId a b = [])) →
      (pairing P).step s action = some t →
      PairInv t ∧ (t.view orgId a b).Sound ((PairState.start stored).linksOf orgId a b = []) := by
    intro s action t ⟨hinv, hsound⟩ hstep
    have ht := pairStep_inv hinv hstep
    exact ⟨ht, hsound.move (pairStep_moves hinv ht hstep)⟩
  have hstart : ((PairState.start stored).view orgId a b).Sound
      ((PairState.start stored).linksOf orgId a b = []) :=
    GuardedInsert.Sound.start (r := (PairState.start stored).view orgId a b) (fun _ => rfl) hone
  exact .of_sound ((pairing P).run_invariant hstep ⟨.start stored, hstart⟩ hrun).2

def incidentInput : CorrelationEntityInput := ⟨"servicenow", "incident", "9d38", some "INC0010042", none⟩

def issueInput : CorrelationEntityInput := ⟨"jira", "issue", "10021", some "ENG-4821", none⟩

def nothingStored : StoredPairs := ⟨[], [], by decide, by decide, fun _ h => absurd h List.not_mem_nil⟩

/-- Two calls in opposite orientations deadlock, one is rolled back, and a third
one finds the link of the other. -/
def deadlockRun : List PairAction :=
  [.begin 0 1 ⟨incidentInput, issueInput, none⟩ "ada", .begin 1 1 ⟨issueInput, incidentInput, none⟩ "bob",
    .advance 0 101, .advance 1 102, .abort 1 "deadlock detected", .advance 0 103, .advance 0 0,
    .begin 2 1 ⟨issueInput, incidentInput, none⟩ "bob", .advance 0 201, .advance 0 0,
    .advance 2 104, .advance 2 105, .advance 2 0, .advance 2 0]

theorem one_link_deadlock : ∃ t,
    (pairing .ascii).run (.start nothingStored) deadlockRun = some t ∧ t.links.map (·.id) = [201] ∧
    OneLink ((PairState.start nothingStored).linksOf 1 ⟨"servicenow", "incident", "9d38"⟩
      ⟨"jira", "issue", "10021"⟩ = []) t 1 ⟨"servicenow", "incident", "9d38"⟩
      ⟨"jira", "issue", "10021"⟩ := by
  have hrun : ((pairing .ascii).run (.start nothingStored) deadlockRun).map
      (fun t => t.links.map (·.id)) = some [201] := by
    decide
  obtain ⟨t, ht, hlinks⟩ := Option.map_eq_some_iff.mp hrun
  exact ⟨t, ht, hlinks, one_link .ascii nothingStored 1 _ _ (Nat.zero_le 1) _ t ht⟩

end Cadena.Integrations
