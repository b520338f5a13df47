import Mathlib.Algebra.Order.Ring.Int
import Mathlib.Data.Prod.Lex
import Cadena.Base.Page
import Cadena.Flow.BusinessCalendars
import Cadena.Flow.FlowRisk
import Cadena.Flow.StateHistory
import Cadena.Lineage.LineageExport

/-!
# Scored waits

What a wait report reads, and what it makes of one item: the visits to the
states from the recorded events, cut to the window, measured in business time
and given a reason. A wait is judged at the instant at which the visit began.
-/

namespace Cadena.Flow

open Cadena.Base Cadena.Connectors Cadena.WorkItems Cadena.Lineage Page
open Cadena.Auth (WaitReason waitReasonCategories)

/-- A row of `audit_events`. -/
structure AuditRow where
  id : Uuid
  eventType : String
  workItemId : Uuid
  payload : Json
  timestamp : Millis

/-- A current row of `flow_state_classifications`, as `list` returns it. -/
structure ClassificationRow where
  teamId : Option Uuid
  state : String
  classification : FlowBucket
  defaultReason : Option String
  version : Nat

structure TeamRow where
  id : Uuid
  orgId : Uuid
  name : String

/-- What a report reads of a tenant and of the others. -/
structure FlowDb where
  items : List WorkItem
  itemIds : (items.map (·.id)).Nodup
  audit : List AuditRow
  auditIds : (audit.map (·.id)).Nodup
  links : List WorkItemLink
  linkIds : (links.map (·.id)).Nodup
  classifications : Uuid → List ClassificationRow
  policies : List SlaPolicy
  definitions : List WorkflowRow
  pick : Nat
  teams : List TeamRow

def stringField (fields : Fields) (key : String) : Option String :=
  match lookup fields key with
  | some (.str s) => some s
  | _ => none

/-- `wait_reason` with a category of the vocabulary. -/
def readReason (payload : Fields) : Option WaitReason :=
  match lookup payload "wait_reason" with
  | some (.obj entries) =>
    match stringField entries "category" with
    | some category =>
      if waitReasonCategories.contains category then some ⟨category, stringField entries "note"⟩ else none
    | none => none
  | _ => none

/-- A payload without a text as `to_state` is passed over. -/
def readChange (row : AuditRow) : Option StateChange :=
  match row.payload with
  | .obj payload =>
    (stringField payload "to_state").map fun toState =>
      ⟨row.timestamp, stringField payload "from_state", toState, readReason payload⟩
  | _ => none

/-- `ORDER BY a.timestamp, a.id`. -/
def auditKey (row : AuditRow) : Lex (Millis × Nat) := toLex (row.timestamp, row.id.toNat)

def isStateChangeOf (db : FlowDb) (orgId : Uuid) (itemIds : List Uuid) (row : AuditRow) : Bool :=
  db.items.any (fun w => w.id == row.workItemId && w.orgId == orgId)
    && row.eventType == "WorkItemStateChanged" && itemIds.contains row.workItemId

def loadEvents (db : FlowDb) (orgId : Uuid) (itemIds : List Uuid) (id : Uuid) : List StateChange :=
  ((sortByKey auditKey (db.audit.filter (isStateChangeOf db orgId itemIds))).filter
    (·.workItemId == id)).filterMap readChange

def moveOfEvent (event : StateChange) : Millis × String := (event.time, event.toState)

structure Blocker where
  id : Uuid
  key : String
  teamId : Uuid
  teamName : Option String
  linkedAt : Millis
  closedAt : Option Millis
  deriving DecidableEq

structure BlockingPair where
  blocked : Uuid
  blocker : Uuid
  linkedAt : Millis
  deriving DecidableEq

def teamName (db : FlowDb) (orgId teamId : Uuid) : Option String :=
  (db.teams.find? fun t => t.orgId == orgId && t.id == teamId).map (·.name)

def terminalStates (db : FlowDb) (type : WorkItemType) : List String :=
  ((getWorkflowDefinition db.definitions db.pick type.text none).map (·.definition.terminalStates)).getD []

def linkKey (link : WorkItemLink) : Lex (Millis × Nat) := toLex (link.createdAt, link.id.toNat)

def isBlockingLink (itemIds : List Uuid) (link : WorkItemLink) : Bool :=
  itemIds.contains link.sourceId && (link.linkType == .blockedBy || link.linkType == .causedBy)
    || itemIds.contains link.targetId && link.linkType == .blocks

def blockingPair (link : WorkItemLink) : BlockingPair :=
  if link.linkType = .blocks then ⟨link.targetId, link.sourceId, link.createdAt⟩
  else ⟨link.sourceId, link.targetId, link.createdAt⟩

def blockingPairs (db : FlowDb) (itemIds : List Uuid) : List BlockingPair :=
  (sortByKey linkKey (db.links.filter (isBlockingLink itemIds))).map blockingPair

/-- The last event that entered a terminal state, for an item that is in one. -/
def closedAt (finals : List String) (item : WorkItem) (events : List StateChange) : Option Millis :=
  if finals.contains item.status then
    some ((((events.filter fun e => finals.contains e.toState).getLast?).map (·.time)).getD item.createdAt)
  else none

def blockerOf (db : FlowDb) (orgId : Uuid) (events : Uuid → List StateChange) (item : WorkItem)
    (linkedAt : Millis) : Blocker where
  id := item.id
  key := item.itemKey
  teamId := item.teamId
  teamName := teamName db orgId item.teamId
  linkedAt := linkedAt
  closedAt := closedAt (terminalStates db item.type) item (events item.id)

/-- The blockers of one of the items; a blocker of another tenant is none. -/
def loadBlockers (db : FlowDb) (orgId : Uuid) (itemIds : List Uuid) (id : Uuid) : List Blocker :=
  let pairs := blockingPairs db itemIds
  let blockerItems := db.items.filter fun w => w.orgId == orgId && (pairs.map (·.blocker)).contains w.id
  let events := loadEvents db orgId (blockerItems.map (·.id))
  (pairs.filter (·.blocked == id)).filterMap fun pair =>
    (blockerItems.find? (·.id == pair.blocker)).map fun item => blockerOf db orgId events item pair.linkedAt

structure ResolvedClassification where
  classification : FlowBucket
  defaultReason : Option String
  version : Option Nat

/-- A row of the team, or else one of the tenant; of several rows with one key
the last one counts. -/
def resolveClassification (rows : List ClassificationRow) (teamId : Uuid) (state : String) :
    ResolvedClassification :=
  let row (teamId : Option Uuid) := rows.reverse.find? fun r => r.teamId == teamId && r.state == state
  match (row (some teamId)).or (row none) with
  | some hit => ⟨hit.classification, hit.defaultReason, some hit.version⟩
  | none => ⟨.unclassified, none, none⟩

structure FlowContext where
  resolver : Uuid → String → ResolvedClassification
  calendar : WorkItemType → String → SlaCalendar
  terminal : WorkItemType → List String
  blockers : Uuid → List Blocker
  events : Uuid → List StateChange

def flowContext (db : FlowDb) (orgId : Uuid) (items : List WorkItem) : FlowContext where
  resolver := resolveClassification (db.classifications orgId)
  calendar type state := ((policyFor db.policies orgId type state).map (·.calendar)).getD .always
  terminal := terminalStates db
  blockers := loadBlockers db orgId (items.map (·.id))
  events := loadEvents db orgId (items.map (·.id))

/-! ## `clipIntervals` -/

def clipInterval (windowFrom windowTo : Option Millis) (i : StateInterval) : Option StateInterval :=
  let start := (windowFrom.filter (i.start < ·)).getD i.start
  let clippedEnd := windowTo.filter (· < i.stop)
  let stop := clippedEnd.getD i.stop
  if start < stop then some { i with start := start, stop := stop, isOpen := i.isOpen && clippedEnd.isNone }
  else none

def clipIntervals (intervals : List StateInterval) (windowFrom windowTo : Option Millis) : List StateInterval :=
  intervals.filterMap (clipInterval windowFrom windowTo)

/-! ## `score` -/

inductive ReasonSource where
  | transition | blockingLink | stateDefault | none
  deriving DecidableEq

structure BlockingItem where
  id : Uuid
  key : String
  teamId : Uuid
  teamName : Option String
  deriving DecidableEq

structure WaitAttribution where
  reason : String
  reasonSource : ReasonSource
  note : Option String
  blockingItem : Option BlockingItem
  ambiguousBlockers : Nat
  deriving DecidableEq

structure Scored where
  state : String
  classification : FlowBucket
  classificationVersion : Option Nat
  calendar : SlaCalendar
  startedAt : Millis
  endedAt : Millis
  isOpen : Bool
  ms : Int
  wait : Option WaitAttribution
  deriving DecidableEq

/-- Linked by the time the wait began, and not closed by then. -/
def Blocker.applies (enteredAt : Millis) (b : Blocker) : Bool :=
  b.linkedAt ≤ enteredAt && b.closedAt.all (enteredAt < ·)

def Blocker.item (b : Blocker) : BlockingItem := ⟨b.id, b.key, b.teamId, b.teamName⟩

def attribution (resolved : ResolvedClassification) (blockers : List Blocker) (explicit : Option WaitReason)
    (enteredAt : Millis) : WaitAttribution :=
  let applicable := blockers.filter (·.applies enteredAt)
  let blocker := applicable.head?
  let reasoned : String × ReasonSource :=
    match explicit, blocker, resolved.defaultReason with
    | some reason, _, _ => (reason.category, .transition)
    | none, some _, _ => ("dependency", .blockingLink)
    | none, none, some reason => (reason, .stateDefault)
    | none, none, none => ("unattributed", .none)
  { reason := reasoned.1
    reasonSource := reasoned.2
    note := explicit.bind (·.note)
    blockingItem := blocker.map (·.item)
    ambiguousBlockers := applicable.length - 1 }

/-- The start of the visit that an interval is a piece of. -/
def enteredAt (built : List StateInterval) (interval : StateInterval) : Millis :=
  ((built.find? fun candidate => candidate.state == interval.state
    && decide (candidate.start ≤ interval.start) && decide (interval.stop ≤ candidate.stop)).map
      (·.start)).getD interval.start

def scoreInterval (ctx : FlowContext) (item : WorkItem) (built : List StateInterval) (interval : StateInterval) :
    Scored :=
  let resolved := ctx.resolver item.teamId interval.state
  let calendar := ctx.calendar item.type interval.state
  { state := interval.state
    classification := resolved.classification
    classificationVersion := resolved.version
    calendar := calendar
    startedAt := interval.start
    endedAt := interval.stop
    isOpen := interval.isOpen
    ms := businessMs interval.start interval.stop calendar
    wait :=
      if resolved.classification.waits then
        some (attribution resolved (ctx.blockers item.id) interval.reason (enteredAt built interval))
      else none }

def builtHistory (ctx : FlowContext) (item : WorkItem) (now : Millis) : BuiltHistory :=
  buildIntervals item.createdAt item.status (ctx.events item.id) now (ctx.terminal item.type)

def score (ctx : FlowContext) (item : WorkItem) (windowFrom windowTo : Option Millis) (now : Millis) :
    List Scored × Nat :=
  let built := builtHistory ctx item now
  ((clipIntervals built.intervals windowFrom windowTo).map (scoreInterval ctx item built.intervals),
    built.anomalies)

/-! ## What one item's score depends on -/

section
variable {db : FlowDb} {orgId : Uuid} {itemIds : List Uuid} {id : Uuid}

theorem auditKeys_nodup (db : FlowDb) : (db.audit.map auditKey).Nodup := by
  have h := db.auditIds
  rw [List.Nodup, List.pairwise_map] at h ⊢
  exact h.imp fun hne heq => hne (BitVec.eq_of_toNat_eq (congrArg (fun k => (ofLex k).2) heq))

theorem loadEvents_sorted (db : FlowDb) (orgId id : Uuid) :
    (loadEvents db orgId [id] id).Pairwise fun a b => a.time ≤ b.time := by
  have hnodup : ((db.audit.filter (isStateChangeOf db orgId [id])).map auditKey).Nodup :=
    (auditKeys_nodup db).sublist (List.filter_sublist.map auditKey)
  refine List.pairwise_filterMap.mpr (((sortByKey_sorted hnodup).filter _).imp ?_)
  intro a b hab ea hea eb heb
  have htime (row : AuditRow) (e : StateChange) (he : readChange row = some e) : e.time = row.timestamp := by
    unfold readChange at he
    split at he
    · obtain ⟨-, -, rfl⟩ := Option.map_eq_some_iff.mp he
      rfl
    · cases he
  rw [htime a ea hea, htime b eb heb]
  exact Prod.Lex.monotone_fst_ofLex (le_of_lt hab)

theorem linkKeys_nodup (db : FlowDb) : (db.links.map linkKey).Nodup := by
  have h := db.linkIds
  rw [List.Nodup, List.pairwise_map] at h ⊢
  exact h.imp fun hne heq => hne (BitVec.eq_of_toNat_eq (congrArg (fun k => (ofLex k).2) heq))

theorem loadEvents_eq (h : id ∈ itemIds) : loadEvents db orgId itemIds id = loadEvents db orgId [id] id := by
  unfold loadEvents
  rw [sortByKey_filter (auditKeys_nodup db), sortByKey_filter (auditKeys_nodup db), List.filter_filter,
    List.filter_filter]
  congr 1
  refine List.filter_congr fun row _ => ?_
  by_cases hrow : row.workItemId = id
  · simp [isStateChangeOf, hrow, h]
  · have hother : (row.workItemId == id) = false := beq_eq_false_iff_ne.mpr hrow
    simp [hother]

theorem blockingPairs_eq (h : id ∈ itemIds) :
    (blockingPairs db itemIds).filter (·.blocked == id) = (blockingPairs db [id]).filter (·.blocked == id) := by
  unfold blockingPairs
  rw [sortByKey_filter (linkKeys_nodup db), sortByKey_filter (linkKeys_nodup db), List.filter_map, List.filter_map,
    List.filter_filter, List.filter_filter]
  congr 1
  refine List.filter_congr fun link _ => ?_
  show ((blockingPair link).blocked == id && isBlockingLink itemIds link) =
    ((blockingPair link).blocked == id && isBlockingLink [id] link)
  by_cases hid : (blockingPair link).blocked = id
  · unfold isBlockingLink
    by_cases hblocks : link.linkType = .blocks
    · have htarget : link.targetId = id := by simpa [blockingPair, hblocks] using hid
      simp +decide [hblocks, htarget, h]
    · have hsource : link.sourceId = id := by simpa [blockingPair, hblocks] using hid
      have htype : (link.linkType == .blocks) = false := beq_eq_false_iff_ne.mpr hblocks
      simp [hsource, htype, h]
  · have hother : ((blockingPair link).blocked == id) = false := beq_eq_false_iff_ne.mpr hid
    simp [hother]

/-- The links that make another item a blocker of this one, in the order of
their creation. -/
def linksTo (db : FlowDb) (id : Uuid) : List BlockingPair :=
  (blockingPairs db [id]).filter (·.blocked == id)

def blockersOf (db : FlowDb) (orgId id : Uuid) : List Blocker :=
  (linksTo db id).filterMap fun pair =>
    (db.items.find? fun w => w.id == pair.blocker && w.orgId == orgId).map fun item =>
      blockerOf db orgId (fun b => loadEvents db orgId [b] b) item pair.linkedAt

theorem loadBlockers_eq (h : id ∈ itemIds) : loadBlockers db orgId itemIds id = blockersOf db orgId id := by
  unfold loadBlockers blockersOf linksTo
  dsimp only
  rw [blockingPairs_eq h]
  refine List.filterMap_congr fun pair hpair => ?_
  rw [← blockingPairs_eq h] at hpair
  have hmem : pair.blocker ∈ (blockingPairs db itemIds).map (·.blocker) :=
    List.mem_map_of_mem (List.mem_of_mem_filter hpair)
  have hfind : (db.items.filter fun w => w.orgId == orgId &&
      ((blockingPairs db itemIds).map (·.blocker)).contains w.id).find? (·.id == pair.blocker) =
        db.items.find? fun w => w.id == pair.blocker && w.orgId == orgId := by
    rw [List.find?_filter]
    congr 1
    funext w
    by_cases hw : w.id = pair.blocker
    · rw [Bool.eq_iff_iff]
      simp [hw, hmem]
    · simp [hw]
  cases hitem : db.items.find? fun w => w.id == pair.blocker && w.orgId == orgId with
  | none =>
    rw [hfind, hitem]
    rfl
  | some item =>
    rw [hitem] at hfind
    rw [hfind, Option.map_some, Option.map_some, blockerOf, blockerOf,
      loadEvents_eq (List.mem_map_of_mem (List.mem_of_find?_eq_some hfind))]

theorem score_context {items : List WorkItem} {item : WorkItem} (h : item ∈ items)
    (windowFrom windowTo : Option Millis) (now : Millis) :
    score (flowContext db orgId items) item windowFrom windowTo now =
      score (flowContext db orgId [item]) item windowFrom windowTo now := by
  have hid : item.id ∈ items.map (·.id) := List.mem_map_of_mem h
  have hevents : (flowContext db orgId items).events item.id = (flowContext db orgId [item]).events item.id :=
    loadEvents_eq hid
  have hblockers : (flowContext db orgId items).blockers item.id = (flowContext db orgId [item]).blockers item.id :=
    (loadBlockers_eq hid).trans (loadBlockers_eq List.mem_cons_self).symm
  have hbuilt : builtHistory (flowContext db orgId items) item now =
      builtHistory (flowContext db orgId [item]) item now := by
    unfold builtHistory
    rw [hevents]
    rfl
  unfold score
  rw [hbuilt]
  refine Prod.ext (List.map_congr_left fun interval _ => ?_) rfl
  unfold scoreInterval
  rw [hblockers]
  rfl

end

end Cadena.Flow
