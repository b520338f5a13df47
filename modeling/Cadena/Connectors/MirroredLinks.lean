import Cadena.Base.CheckedInsert
import Cadena.Connectors.ProjectionSteps
import Cadena.Integrations.CorrelationPairs
import Cadena.Lineage.LineageExport
import Mathlib.Data.Sym.Sym2

/-!
# Mirrored links

The work items of twins that are linked as counterparts get a `relates_to` link
with origin `correlation`. `linkCounterparts` runs after each projection and
for each new pair: it reads the pairs of a node, looks for the link of each
and inserts it if there is none. Any number of calls run at the same time, a
statement at a time. The events that are published for the links are left out.
-/

namespace Cadena.Connectors.Mirroring

open Cadena.Base Cadena.WorkItems Cadena.Integrations Cadena.Lineage Cadena.Connectors.Projections

inductive LinkOrigin where
  /-- `local`, the default. -/
  | manual
  | correlation
  deriving DecidableEq

/-- A row of `work_item_links`. -/
structure LinkRow where
  link : WorkItemLink
  origin : LinkOrigin

/-- The row has the origin `correlation` and these two ends, either way round. -/
def LinkRow.mirrors (own other : Uuid) (row : LinkRow) : Bool :=
  row.origin == .correlation
    && (row.link.sourceId == own && row.link.targetId == other
      || row.link.sourceId == other && row.link.targetId == own)

/-- What a call handles. -/
inductive Trigger where
  /-- An event of a twin with its snapshot, or a projection of the current row. -/
  | twin (twinId : Uuid) (snapshot : Option Snapshot)
  /-- `CorrelationPairCreated`. -/
  | pair (correlationId : Uuid)

/-- The next statement of a call. -/
inductive MirrorStage where
  /-- `projectTwin` reads the row of the twin. -/
  | reading
  | projecting (state : Snapshot) (nodeId : Option Uuid) (stage : Projection)
  /-- `linkCorrelation` reads the link. -/
  | finding
  /-- `linkCounterparts` reads the pairs. -/
  | linking (nodeId : Option Uuid)
  | checking (pairs : List (Uuid × Uuid))
  | inserting (own other : Uuid) (rest : List (Uuid × Uuid))
  | returned
  | failed

structure MirrorCall where
  trigger : Trigger
  stage : MirrorStage

/-- The tables of a tenant: `pairLinks` are its `integration_correlation_links`. -/
structure MirrorState where
  db : ProjectionDb
  pairLinks : List PairLink
  links : List LinkRow
  calls : Nat → Option MirrorCall

/-- The tenant, and the correlation node of each twin. -/
structure MirrorRun where
  ctx : ProjectionContext
  clock : Clock
  nodeOf : Uuid → Option Uuid

/-- The state to project when no event gives one. -/
def rowSnapshot (now : Millis) (twin : CanonicalTwin) : Snapshot where
  title := twin.title.getD ""
  status := twin.nativeStatus.getD ""
  fields := twin.payload
  sourceUpdatedAt := twin.sourceUpdatedAt.getD now

def readTwin (ctx : ProjectionContext) (db : ProjectionDb) (now : Millis) (twinId : Uuid)
    (snapshot : Option Snapshot) : MirrorStage :=
  match db.twins.find? (·.id == twinId) with
  | none => .returned
  | some twin =>
    let state := snapshot.getD (rowSnapshot now twin)
    match planOf ctx twin state with
    | none => .returned
    | some d => .projecting state twin.correlationNodeId (.planned twin d)

/-- Whether `projectTwin` goes on to link when it is done after this stage: a
held twin and a late event return before that. -/
def linksAfter : Projection → Bool
  | .creating .. | .updating .. | .moving _ | .committing .. => true
  | .started | .planned .. | .returned | .failed => false

/-- A lost race starts again. -/
def afterProjection (state : Snapshot) (nodeId : Option Uuid) (before : Projection) :
    Projection → MirrorStage
  | .started => .reading
  | .returned => if linksAfter before then .linking nodeId else .returned
  | .failed => .failed
  | stage => .projecting state nodeId stage

def findPairLink (links : List PairLink) (correlationId : Uuid) : Option PairLink :=
  links.find? fun l => l.id == correlationId && l.relationship == "counterpart"

/-- The node at the other end. -/
def farNode (nodeId : Uuid) (l : PairLink) : Uuid :=
  if l.sourceNodeId = nodeId then l.targetNodeId else l.sourceNodeId

def itemsAt (db : ProjectionDb) (nodeId : Uuid) : List Uuid :=
  (db.twins.filter (·.correlationNodeId == some nodeId)).flatMap fun twin =>
    (db.items.filter (isItemOf twin.id)).map (·.id)

/-- The join of `linkCounterparts`. -/
def counterpartPairs (db : ProjectionDb) (pairLinks : List PairLink) (nodeId : Uuid) :
    List (Uuid × Uuid) :=
  (pairLinks.filter fun l => l.relationship == "counterpart"
      && (l.sourceNodeId == nodeId || l.targetNodeId == nodeId)).flatMap fun l =>
    (itemsAt db nodeId).flatMap fun own => (itemsAt db (farNode nodeId l)).map fun other => (own, other)

def mirroredRow (id own other : Uuid) (now : Millis) : LinkRow :=
  ⟨⟨id, own, other, .relatesTo, now⟩, .correlation⟩

/-! ## The system -/

inductive MirrorAction where
  | start (call : Nat) (trigger : Trigger)
  /-- `id` is the random id of a row that the statement may insert. -/
  | step (call : Nat) (id : Uuid) (now : Millis)
  /-- The read of the pairs, in any order. -/
  | select (call : Nat) (pairs : List (Uuid × Uuid))
  /-- Ingestion writes the twins. -/
  | ingest (twins : List CanonicalTwin)
  /-- A local work item. -/
  | create (item : WorkItem)
  /-- A link between work items that an operator makes. -/
  | relate (link : WorkItemLink)
  /-- `createPair` commits a link between two nodes. -/
  | pair (link : PairLink)

section
variable (R : MirrorRun)

def MirrorState.setStage (s : MirrorState) (c : Nat) (call : MirrorCall) (stage : MirrorStage) :
    MirrorState :=
  { s with calls := setAt s.calls c (some { call with stage := stage }) }

/-- The event of a link is committed with it. -/
def MirrorState.startStep (s : MirrorState) (c : Nat) (trigger : Trigger) : Option MirrorState :=
  match s.calls c, trigger with
  | none, .twin .. => some { s with calls := setAt s.calls c (some ⟨trigger, .reading⟩) }
  | none, .pair id =>
    if s.pairLinks.any (·.id == id) then
      some { s with calls := setAt s.calls c (some ⟨trigger, .finding⟩) }
    else none
  | some _, _ => none

def projectStep (s : MirrorState) (c : Nat) (call : MirrorCall) (twinId id : Uuid) (state : Snapshot)
    (nodeId : Option Uuid) (stage : Projection) : Option MirrorState :=
  -- randomUUID(): no item has the id
  if s.db.items.any (·.id == id) then none
  else
    let next := advance R.ctx R.clock twinId state id s.db stage
    some { s.setStage c call (afterProjection state nodeId stage next.2) with db := next.1 }

def checkStep (s : MirrorState) (c : Nat) (call : MirrorCall) : List (Uuid × Uuid) → MirrorState
  | [] => s.setStage c call .returned
  | (own, other) :: rest =>
    if s.links.any (LinkRow.mirrors own other) then s.setStage c call (.checking rest)
    else s.setStage c call (.inserting own other rest)

def insertStep (s : MirrorState) (c : Nat) (call : MirrorCall) (id : Uuid) (now : Millis)
    (own other : Uuid) (rest : List (Uuid × Uuid)) : Option MirrorState :=
  if s.links.any (·.link.id == id) then none
  else
    some { s.setStage c call (.checking rest) with
      links := s.links ++ [mirroredRow id own other now] }

def callStatement (s : MirrorState) (c : Nat) (id : Uuid) (now : Millis) : Option MirrorState :=
  match s.calls c with
  | some call@⟨.twin twinId snapshot, .reading⟩ =>
    some (s.setStage c call (readTwin R.ctx s.db now twinId snapshot))
  | some call@⟨.twin twinId _, .projecting state nodeId stage⟩ =>
    projectStep R s c call twinId id state nodeId stage
  | some call@⟨.pair correlationId, .finding⟩ =>
    match findPairLink s.pairLinks correlationId with
    | none => some (s.setStage c call .returned)
    | some l => some (s.setStage c call (.linking (some l.sourceNodeId)))
  | some call@⟨_, .linking none⟩ => some (s.setStage c call .returned)
  | some call@⟨_, .checking pairs⟩ => some (checkStep s c call pairs)
  | some call@⟨_, .inserting own other rest⟩ => insertStep s c call id now own other rest
  | _ => none

def selectStep (s : MirrorState) (c : Nat) (pairs : List (Uuid × Uuid)) : Option MirrorState :=
  match s.calls c with
  | some call@⟨_, .linking (some nodeId)⟩ =>
    if pairs.isPerm (counterpartPairs s.db s.pairLinks nodeId) then
      some (s.setStage c call (.checking pairs))
    else none
  | _ => none

/-- Twins stay, each with the node of its identity. -/
def ingestTwins (s : MirrorState) (twins : List CanonicalTwin) : Option MirrorState :=
  if twins.all (fun t => t.correlationNodeId == R.nodeOf t.id)
      && s.db.twins.all fun t => twins.any (·.id == t.id) then
    some { s with db := { s.db with twins := twins } }
  else none

def createItem (s : MirrorState) (item : WorkItem) : Option MirrorState :=
  (insertLocal s.db.items item).map fun items => { s with db := { s.db with items := items } }

def commitLink (s : MirrorState) (l : PairLink) : Option MirrorState :=
  if s.pairLinks.any (·.id == l.id) then none else some { s with pairLinks := s.pairLinks ++ [l] }

def mirrorStep (s : MirrorState) : MirrorAction → Option MirrorState
  | .start c trigger => s.startStep c trigger
  | .step c id now => callStatement R s c id now
  | .select c pairs => selectStep s c pairs
  | .ingest twins => ingestTwins R s twins
  | .create item => createItem s item
  | .relate link => some { s with links := s.links ++ [⟨link, .manual⟩] }
  | .pair l => commitLink s l

def mirroring : System MirrorState MirrorAction where
  step := mirrorStep R

def MirrorState.start (policies : List SlaPolicy) : MirrorState where
  db := ⟨[], [], policies⟩
  pairLinks := []
  links := []
  calls _ := none

end

/-- The twins of the two items are at the ends of a counterpart link. -/
def MirrorState.Counterparts (s : MirrorState) (x y : Uuid) : Prop :=
  ∃ l ∈ s.pairLinks, l.relationship = "counterpart" ∧
    (x ∈ itemsAt s.db l.sourceNodeId ∧ y ∈ itemsAt s.db l.targetNodeId ∨
      x ∈ itemsAt s.db l.targetNodeId ∧ y ∈ itemsAt s.db l.sourceNodeId)

/-- All calls have come to their end, and every counterpart link has been
handled. -/
structure MirrorState.Finished (s : MirrorState) : Prop where
  calls : ∀ c call, s.calls c = some call → call.stage = .returned ∨ call.stage = .failed
  pairs : ∀ l ∈ s.pairLinks, l.relationship = "counterpart" →
    ∃ c call, s.calls c = some call ∧ call.trigger = .pair l.id

def MirrorState.mirrorsOf (s : MirrorState) (x y : Uuid) : List LinkRow :=
  s.links.filter (LinkRow.mirrors x y)

/-- One row for the items of counterparts, and none for other ids. -/
structure MirrorState.Mirrored (s : MirrorState) : Prop where
  one : ∀ x y, s.Counterparts x y → (s.mirrorsOf x y).length = 1
  none : ∀ x y, ¬ s.Counterparts x y → s.mirrorsOf x y = []

def LinkRow.ends (row : LinkRow) : Sym2 Uuid := s(row.link.sourceId, row.link.targetId)

theorem mirrors_iff {row : LinkRow} {x y : Uuid} :
    row.mirrors x y = true ↔ row.origin = .correlation ∧ row.ends = s(x, y) := by
  simp [LinkRow.mirrors, LinkRow.ends]

/-- The pairs that a call has read and not dealt with. -/
def MirrorStage.pairs : MirrorStage → List (Uuid × Uuid)
  | .checking pairs => pairs
  | .inserting own other rest => (own, other) :: rest
  | _ => []

/-- The pair that a call has checked and is to insert. -/
def MirrorStage.due : MirrorStage → Option (Sym2 Uuid)
  | .inserting own other _ => some s(own, other)
  | _ => none

def MirrorState.due (s : MirrorState) (c : Nat) : Option (Sym2 Uuid) :=
  (s.calls c).bind (·.stage.due)

def MirrorState.ledger (s : MirrorState) : CheckedInsert Nat (Sym2 Uuid) where
  rows := (s.links.filter (·.origin == .correlation)).map LinkRow.ends
  due := s.due

theorem mem_rows {s : MirrorState} {p : Sym2 Uuid} :
    p ∈ s.ledger.rows ↔ ∃ row ∈ s.links, row.origin = .correlation ∧ row.ends = p := by
  simp [MirrorState.ledger, and_assoc]

theorem mirrorsOf_length (s : MirrorState) (x y : Uuid) :
    (s.mirrorsOf x y).length = s.ledger.rows.count s(x, y) := by
  rw [MirrorState.mirrorsOf, ← List.countP_eq_length_filter, MirrorState.ledger, List.count,
    List.countP_map, List.countP_filter]
  refine List.countP_congr fun row _ => ?_
  rw [mirrors_iff]
  simp [and_comm]

theorem due_setAt {s t : MirrorState} {c : Nat} {call : MirrorCall}
    (hcalls : t.calls = setAt s.calls c (some call)) : t.due = setAt s.due c call.stage.due := by
  funext j
  rw [MirrorState.due, hcalls]
  by_cases hj : j = c
  · subst hj
    rw [setAt_same, setAt_same]
    rfl
  · rw [setAt_other _ _ hj, setAt_other _ _ hj]
    rfl

/-- No other call stands between its check and its insert for the pair that a
call is to insert. -/
def InsertsAlone (s : MirrorState) : MirrorAction → Prop
  | .step c _ _ => ∀ p, s.due c = some p → ∀ j, j ≠ c → s.due j ≠ some p
  | _ => True

section
variable {R : MirrorRun} {s t : MirrorState}

/-! ## What a step can do -/

/-- What `advance` makes of a stage: it reads, it inserts the item of the twin,
or it writes to an item. -/
inductive Advanced (db : ProjectionDb) (id : Uuid) (stage : Projection) :
    ProjectionDb → Projection → Prop where
  | began {next : Projection} (hstage : stage = .started) : Advanced db id stage db next
  | read {next : Projection} (hplan : ∀ plan, next.plan = some plan → stage.plan = some plan) :
      Advanced db id stage db next
  | created {twin : CanonicalTwin} {d : Desired} {item : WorkItem}
      (hstage : stage = .creating twin d) (hid : item.id = id)
      (htwin : ∀ y, isItemOf y item = true ↔ twin.id = y) :
      Advanced db id stage { db with items := db.items ++ [item] } .returned
  | wrote {p : WorkItem → Bool} {f : WorkItem → WorkItem} {next : Projection} (hf : KeepsItem f)
      (hplan : next.plan = none) :
      Advanced db id stage { db with items := Table.update p f db.items } next

variable {id other own : Uuid} {c : Nat} {stage : MirrorStage}

theorem Advanced.of_stage {ctx : ProjectionContext} {clock : Clock} {twinId : Uuid}
    {state : Snapshot} {db : ProjectionDb} {stage : Projection} :
    Advanced db id stage (advance ctx clock twinId state id db stage).1
      (advance ctx clock twinId state id db stage).2 := by
  cases stage with
  | started =>
    have hdb : (advance ctx clock twinId state id db .started).1 = db := by
      simp only [advance]
      split
      · rfl
      · split <;> rfl
    rw [hdb]
    exact .began rfl
  | planned twin d =>
    simp only [advance]
    split
    · exact .read fun _ h => h
    · split
      · exact .read fun _ h => (by cases h)
      · exact .read fun _ h => h
  | creating twin d =>
    simp only [advance, createStage]
    split
    · exact .read fun _ h => (by cases h)
    · split
      · exact .read fun _ h => (by cases h)
      · exact .created rfl rfl fun y => isItemOf_projected
  | updating twin d existing =>
    simp only [advance, updateStage]
    split
    · exact .read fun _ h => (by cases h)
    · refine .wrote (updatedItem_keeps _ _ _) ?_
      split <;> rfl
  | moving itemId =>
    simp only [advance, moveStage]
    split
    · exact .read fun _ h => (by cases h)
    · split
      · exact .read fun _ h => (by cases h)
      · exact .read fun _ h => (by cases h)
  | committing itemId change =>
    simp only [advance, commitStage]
    split
    · exact .wrote (apply_keeps _) rfl
    · exact .read fun _ h => (by cases h)
  | returned => exact .read fun _ h => (by cases h)
  | failed => exact .read fun _ h => (by cases h)

/-- A statement of a call that writes nothing. -/
inductive QuietMove (s : MirrorState) (call : MirrorCall) : MirrorStage → Prop where
  | planned {twin : CanonicalTwin} {d : Desired} {state : Snapshot} (hstage : call.stage = .reading)
      (htwin : twin ∈ s.db.twins) :
      QuietMove s call (.projecting state twin.correlationNodeId (.planned twin d))
  | held (hstage : call.stage = .reading) : QuietMove s call .returned
  | found {l : PairLink} {correlationId : Uuid} (htrigger : call.trigger = .pair correlationId)
      (hstage : call.stage = .finding) (hfind : findPairLink s.pairLinks correlationId = some l) :
      QuietMove s call (.linking (some l.sourceNodeId))
  | missing {correlationId : Uuid} (htrigger : call.trigger = .pair correlationId)
      (hstage : call.stage = .finding) (hfind : findPairLink s.pairLinks correlationId = none) :
      QuietMove s call .returned
  | unlinked (hstage : call.stage = .linking none) : QuietMove s call .returned
  | selected {nodeId : Uuid} {pairs : List (Uuid × Uuid)} (hstage : call.stage = .linking (some nodeId))
      (hpairs : pairs.Perm (counterpartPairs s.db s.pairLinks nodeId)) :
      QuietMove s call (.checking pairs)
  | done (hstage : call.stage = .checking []) : QuietMove s call .returned
  | present {own other : Uuid} {rest : List (Uuid × Uuid)}
      (hstage : call.stage = .checking ((own, other) :: rest)) (hrow : s(own, other) ∈ s.ledger.rows) :
      QuietMove s call (.checking rest)
  | absent {own other : Uuid} {rest : List (Uuid × Uuid)}
      (hstage : call.stage = .checking ((own, other) :: rest)) (hrow : s(own, other) ∉ s.ledger.rows) :
      QuietMove s call (.inserting own other rest)

def MirrorAction.call : MirrorAction → Option Nat
  | .start c _ | .step c _ _ | .select c _ => some c
  | .ingest _ | .create _ | .relate _ | .pair _ => none

/-- What one action does. -/
inductive MirrorMove (R : MirrorRun) (s : MirrorState) : MirrorAction → MirrorState → Prop where
  | start {c : Nat} {trigger : Trigger} {stage : MirrorStage} (hfree : s.calls c = none)
      (hstage : stage = .reading ∨ stage = .finding)
      (hpair : ∀ id, trigger = .pair id → stage = .finding ∧ ∃ l ∈ s.pairLinks, l.id = id) :
      MirrorMove R s (.start c trigger) { s with calls := setAt s.calls c (some ⟨trigger, stage⟩) }
  | quiet {a : MirrorAction} {c : Nat} {call : MirrorCall} {stage : MirrorStage} (ha : a.call = some c)
      (hcall : s.calls c = some call) (hmove : QuietMove s call stage) :
      MirrorMove R s a (s.setStage c call stage)
  | project {c : Nat} {id : Uuid} {now : Millis} {call : MirrorCall} {state : Snapshot}
      {nodeId : Option Uuid} {stage next : Projection} {db : ProjectionDb}
      (hcall : s.calls c = some call) (hstage : call.stage = .projecting state nodeId stage)
      (hmove : Advanced s.db id stage db next) :
      MirrorMove R s (.step c id now)
        { s.setStage c call (afterProjection state nodeId stage next) with db := db }
  | insert {c : Nat} {id : Uuid} {now : Millis} {call : MirrorCall} {own other : Uuid}
      {rest : List (Uuid × Uuid)} (hcall : s.calls c = some call)
      (hstage : call.stage = .inserting own other rest) :
      MirrorMove R s (.step c id now)
        { s.setStage c call (.checking rest) with links := s.links ++ [mirroredRow id own other now] }
  | ingest {twins : List CanonicalTwin} (hnodes : ∀ t ∈ twins, t.correlationNodeId = R.nodeOf t.id)
      (hstay : ∀ t ∈ s.db.twins, ∃ t' ∈ twins, t'.id = t.id) :
      MirrorMove R s (.ingest twins) { s with db := { s.db with twins := twins } }
  | create {item : WorkItem} (hlocal : item.source = none) :
      MirrorMove R s (.create item) { s with db := { s.db with items := s.db.items ++ [item] } }
  | relate {link : WorkItemLink} :
      MirrorMove R s (.relate link) { s with links := s.links ++ [⟨link, .manual⟩] }
  | pair {l : PairLink} (hnew : ∀ l' ∈ s.pairLinks, l'.id ≠ l.id) :
      MirrorMove R s (.pair l) { s with pairLinks := s.pairLinks ++ [l] }

theorem mirrored_any : s.links.any (LinkRow.mirrors own other) = true ↔ s(own, other) ∈ s.ledger.rows := by
  rw [List.any_eq_true, mem_rows]
  exact exists_congr fun row => and_congr_right fun _ => mirrors_iff

theorem readTwin_cases {call : MirrorCall} {now : Millis} {twinId : Uuid} {snapshot : Option Snapshot}
    (hstage : call.stage = .reading) :
    QuietMove s call (readTwin R.ctx s.db now twinId snapshot) := by
  rw [readTwin]
  split
  · exact .held hstage
  · rename_i twin hfind
    dsimp only
    split
    · exact .held hstage
    · exact .planned hstage (List.mem_of_find?_eq_some hfind)

theorem MirrorMove.of_statement {now : Millis}
    (h : callStatement R s c id now = some t) : MirrorMove R s (.step c id now) t := by
  rw [callStatement] at h
  split at h
  · rename_i hcall
    obtain rfl := Option.some.inj h
    exact .quiet rfl hcall (readTwin_cases rfl)
  · rename_i twinId _ state nodeId stage hcall
    rw [projectStep] at h
    split at h
    · cases h
    · obtain rfl := Option.some.inj h
      exact .project hcall rfl .of_stage
  · rename_i correlationId hcall
    split at h
    · rename_i hfind
      obtain rfl := Option.some.inj h
      exact .quiet rfl hcall (.missing rfl rfl hfind)
    · rename_i l hfind
      obtain rfl := Option.some.inj h
      exact .quiet rfl hcall (.found rfl rfl hfind)
  · rename_i hcall
    obtain rfl := Option.some.inj h
    exact .quiet rfl hcall (.unlinked rfl)
  · rename_i pairs hcall
    obtain rfl := Option.some.inj h
    cases pairs with
    | nil => exact .quiet rfl hcall (.done rfl)
    | cons pair rest =>
      obtain ⟨own, other⟩ := pair
      simp only [checkStep]
      split
      · rename_i hany
        exact .quiet rfl hcall (.present rfl (mirrored_any.mp hany))
      · rename_i hany
        exact .quiet rfl hcall (.absent rfl fun hrow => hany (mirrored_any.mpr hrow))
  · rename_i own other rest hcall
    rw [insertStep] at h
    split at h
    · cases h
    · obtain rfl := Option.some.inj h
      exact .insert hcall rfl
  · cases h

theorem MirrorMove.of_step {a : MirrorAction} (h : mirrorStep R s a = some t) :
    MirrorMove R s a t := by
  cases a with
  | start c trigger =>
    simp only [mirrorStep, MirrorState.startStep] at h
    split at h
    · rename_i hfree
      obtain rfl := Option.some.inj h
      exact .start hfree (.inl rfl) nofun
    · rename_i id hfree
      split at h
      · rename_i hlink
        obtain rfl := Option.some.inj h
        refine .start hfree (.inr rfl) fun id' heq => ⟨rfl, ?_⟩
        obtain rfl := Trigger.pair.inj heq
        simpa using hlink
      · cases h
    · cases h
  | step c id now => exact .of_statement h
  | select c pairs =>
    simp only [mirrorStep, selectStep] at h
    split at h
    · rename_i hcall
      split at h
      · rename_i hperm
        obtain rfl := Option.some.inj h
        exact .quiet rfl hcall (.selected rfl (List.isPerm_iff.mp hperm))
      · cases h
    · cases h
  | ingest twins =>
    simp only [mirrorStep, ingestTwins] at h
    split at h
    · rename_i hguard
      obtain rfl := Option.some.inj h
      rw [Bool.and_eq_true, List.all_eq_true, List.all_eq_true] at hguard
      refine .ingest (fun twin htwin => by simpa using hguard.1 twin htwin) fun twin htwin => ?_
      simpa using hguard.2 twin htwin
    · cases h
  | create item =>
    obtain ⟨items, hinsert, rfl⟩ := Option.map_eq_some_iff.mp h
    obtain ⟨rfl, hlocal, -⟩ := insertLocal_eq hinsert
    exact .create hlocal
  | relate link =>
    obtain rfl := Option.some.inj h
    exact .relate
  | pair l =>
    simp only [mirrorStep, commitLink] at h
    split at h
    · cases h
    · rename_i hnew
      obtain rfl := Option.some.inj h
      exact .pair (by simpa using hnew)

/-! ## One row for a pair -/

theorem rows_insert {now : Millis} (links : List LinkRow) :
    ((links ++ [mirroredRow id own other now]).filter (·.origin == .correlation)).map LinkRow.ends =
      (links.filter (·.origin == .correlation)).map LinkRow.ends ++ [s(own, other)] := by
  rw [List.filter_append, List.map_append]
  rfl

theorem due_eq {call : MirrorCall} (hcall : s.calls c = some call) : s.due c = call.stage.due := by
  rw [MirrorState.due, hcall]
  rfl

theorem stays_of_due {call : MirrorCall}
    (hcall : s.calls c = some call) (hcalls : t.calls = (s.setStage c call stage).calls)
    (hlinks : t.links = s.links) (hbefore : call.stage.due = none) (hafter : stage.due = none) :
    t.ledger = s.ledger := by
  have hdue : s.due c = none := (due_eq hcall).trans hbefore
  have hsame : t.due = s.due := by
    rw [due_setAt hcalls]
    show setAt s.due c stage.due = s.due
    rw [hafter, ← hdue, setAt_self]
  rw [MirrorState.ledger, MirrorState.ledger, hlinks, hsame]

theorem QuietMove.due {call : MirrorCall} (h : QuietMove s call stage) : call.stage.due = none := by
  cases h with
  | planned hstage _ | held hstage | unlinked hstage | selected hstage _ | done hstage
  | found _ hstage _ | missing _ hstage _ | present hstage _ | absent hstage _ =>
    rw [hstage]
    rfl

theorem QuietMove.ledger {call : MirrorCall} (hcall : s.calls c = some call) (hmove : QuietMove s call stage) :
    s.ledger.Move (s.setStage c call stage).ledger := by
  have hstay (hafter : stage.due = none) : s.ledger.Move (s.setStage c call stage).ledger := by
    rw [stays_of_due hcall rfl rfl hmove.due hafter]
    exact .stay
  have hfree : s.ledger.due c = none := (due_eq hcall).trans hmove.due
  cases hmove with
  | planned | held | unlinked | selected | done | found | missing | present => exact hstay rfl
  | @absent own other rest _ hrow =>
    have hnext : (s.setStage c call (.inserting own other rest)).ledger =
        { s.ledger with due := setAt s.ledger.due c (some s(own, other)) } := by
      rw [MirrorState.ledger, due_setAt rfl]
      rfl
    rw [hnext]
    exact .check c _ hfree hrow

theorem afterProjection_due {state : Snapshot} {nodeId : Option Uuid} {before next : Projection} :
    (afterProjection state nodeId before next).due = none := by
  cases next with
  | returned =>
    simp only [afterProjection]
    split <;> rfl
  | started | planned | creating | updating | moving | committing | failed => rfl

theorem ledger_start {trigger : Trigger} (hfree : s.calls c = none) (hstage : stage = .reading ∨ stage = .finding) :
    ({ s with calls := setAt s.calls c (some ⟨trigger, stage⟩) } : MirrorState).ledger =
      s.ledger := by
  have hdue : s.due c = none := by
    rw [MirrorState.due, hfree]
    rfl
  have hnone : stage.due = none := by rcases hstage with rfl | rfl <;> rfl
  rw [MirrorState.ledger, MirrorState.ledger, due_setAt rfl]
  show CheckedInsert.mk _ (setAt s.due c stage.due) = _
  rw [hnone, ← hdue, setAt_self]

theorem ledger_relate {link : WorkItemLink} :
    ({ s with links := s.links ++ [⟨link, .manual⟩] } : MirrorState).ledger = s.ledger := by
  simp [MirrorState.ledger]
  rfl

theorem ledger_insert {now : Millis} {call : MirrorCall} {rest : List (Uuid × Uuid)} (hcall : s.calls c = some call)
    (hstage : call.stage = .inserting own other rest) :
    s.ledger.Insert c ({ s.setStage c call (.checking rest) with
      links := s.links ++ [mirroredRow id own other now] } : MirrorState).ledger := by
  have hdue : s.ledger.due c = some s(own, other) := by
    show s.due c = _
    rw [due_eq hcall, hstage]
    rfl
  have hnext : ({ s.setStage c call (.checking rest) with
        links := s.links ++ [mirroredRow id own other now] } : MirrorState).ledger =
      ⟨s.ledger.rows ++ [s(own, other)], setAt s.ledger.due c none⟩ := by
    rw [MirrorState.ledger, due_setAt rfl, rows_insert]
    rfl
  rw [hnext]
  exact .insert _ hdue

theorem MirrorMove.ledger {a : MirrorAction} (h : MirrorMove R s a t) :
    s.ledger.Move t.ledger ∨
      ∃ c id now, a = .step c id now ∧ s.ledger.Insert c t.ledger := by
  cases h with
  | start hfree hstage _ =>
    left
    rw [ledger_start hfree hstage]
    exact .stay
  | quiet _ hcall hmove => exact .inl (hmove.ledger hcall)
  | @project c id now call state nodeId stage next db hcall hstage _ =>
    have hsame : ({ s.setStage c call (afterProjection state nodeId stage next) with
        db := db } : MirrorState).ledger = s.ledger :=
      stays_of_due hcall rfl rfl (by rw [hstage]; rfl) afterProjection_due
    left
    rw [hsame]
    exact .stay
  | @insert c id now call own other rest hcall hstage =>
    exact .inr ⟨c, id, now, rfl, ledger_insert hcall hstage⟩
  | ingest | create | pair => exact .inl .stay
  | relate =>
    left
    rw [ledger_relate]
    exact .stay

end

end Cadena.Connectors.Mirroring
