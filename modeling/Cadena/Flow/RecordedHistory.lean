import Cadena.Flow.WaitScore
import Cadena.WorkItems.EditHistory

/-!
# Recorded history

Each state change updates the row of its item and appends an audit row in one
transaction. A report reads the rows back in the order of their times, and at
one time in the order of their random ids, so it replays what was committed
only as long as that is the order of the commits.
-/

namespace Cadena.Flow

open Cadena.Base Cadena.Connectors Cadena.WorkItems Page Timeline
open Cadena.Auth (WaitReason)

/-! ## State changes -/

/-- A call that changes the state of the item it has read, with the random id
of its audit row. -/
inductive ChangeCall where
  | transitionWorkItem (item : WorkItem) (ctx : TransitionContext) (waitReason : Option WaitReason) (now : Millis)
      (auditId : Uuid)
  | applySourceStateChange (item : WorkItem) (toState : String) (time : Millis) (source : Json) (auditId : Uuid)

def ChangeCall.item : ChangeCall → WorkItem
  | .transitionWorkItem item .. => item
  | .applySourceStateChange item .. => item

def ChangeCall.toState : ChangeCall → String
  | .transitionWorkItem _ ctx .. => ctx.toState
  | .applySourceStateChange _ toState .. => toState

def ChangeCall.time : ChangeCall → Millis
  | .transitionWorkItem _ _ _ now _ => now
  | .applySourceStateChange _ _ time .. => time

def ChangeCall.auditId : ChangeCall → Uuid
  | .transitionWorkItem _ _ _ _ auditId => auditId
  | .applySourceStateChange _ _ _ _ auditId => auditId

def waitReasonJson (reason : WaitReason) : Json :=
  .obj [("category", .str reason.category), ("note", (reason.note.map Json.str).getD .null)]

def ChangeCall.extraAudit : ChangeCall → Fields
  | .transitionWorkItem _ _ waitReason .. => (waitReason.map fun reason => ("wait_reason", waitReasonJson reason)).toList
  | .applySourceStateChange _ _ _ source _ => [("source", source)]

def ChangeCall.suppliedFields : ChangeCall → Fields
  | .transitionWorkItem _ ctx .. => ctx.fields
  | .applySourceStateChange .. => []

/-- The custom fields to commit, where the call gets as far as that. -/
def ChangeCall.mergedFields (db : FlowDb) : ChangeCall → Option Fields
  | .transitionWorkItem item ctx .. =>
    (planTransition item (getWorkflowDefinition db.definitions db.pick item.type.text (some item.workflowVersion))
      ctx).toOption
  | .applySourceStateChange item toState .. =>
    if item.source.isNone || item.status == toState then none else some item.customFields

def statusEntry (status : String) (changed : Fields) : Json :=
  .obj (("status", .str status) :: if changed = [] then [] else [("custom_fields", .obj changed)])

def ChangeCall.auditPayload (call : ChangeCall) (merged : Fields) : Fields :=
  let values (fields : Fields) : Fields :=
    call.suppliedFields.map fun field => (field.1, (lookup fields field.1).getD .null)
  [("from_state", .str call.item.status), ("to_state", .str call.toState), ("fields", .obj call.suppliedFields),
    ("before", statusEntry call.item.status (values call.item.customFields)),
    ("after", statusEntry call.toState (values merged))] ++ call.extraAudit

def ChangeCall.auditRow (call : ChangeCall) (merged : Fields) : AuditRow :=
  ⟨call.auditId, "WorkItemStateChanged", call.item.id, .obj (call.auditPayload merged), call.time⟩

/-- `WHERE id = … AND org_id = … AND status = …`. -/
def ChangeCall.isRow (call : ChangeCall) (row : WorkItem) : Bool :=
  row.id == call.item.id && row.orgId == call.item.orgId && row.status == call.item.status

def commitStateChange (db : FlowDb) (call : ChangeCall) (merged : Fields) : Option FlowDb :=
  let change := stateChangeOf db.policies call.item call.toState call.time merged
  if h : db.items.any call.isRow = true ∧ call.auditId ∉ db.audit.map (·.id) then
    some { db with
      items := Table.update call.isRow change.apply db.items
      itemIds := by
        rw [Table.update_column (f := change.apply) (·.id) fun _ => rfl]
        exact db.itemIds
      audit := db.audit ++ [call.auditRow merged]
      auditIds := by
        rw [List.map_append, List.nodup_append]
        refine ⟨db.auditIds, List.nodup_singleton _, fun a ha b hb heq => h.2 ?_⟩
        obtain rfl := List.mem_singleton.mp hb
        rw [heq] at ha
        exact ha }
  else none

/-- The calls on a tenant's items. A call that commits nothing is no step. -/
def stateChanges : System FlowDb ChangeCall where
  step db call := (call.mergedFields db).bind (commitStateChange db call)

def changesOf (db : FlowDb) (item : WorkItem) : List StateChange := loadEvents db item.orgId [item.id] item.id

def replayedState (currentState : String) (events : List StateChange) : String :=
  lastValue (firstState currentState events) (events.map moveOfEvent)

/-- The replay of the recorded events agrees with the row of the item. -/
structure Reproduces (db : FlowDb) (item : WorkItem) : Prop where
  consistent : ∀ items now, item ∈ items → (builtHistory (flowContext db item.orgId items) item now).anomalies = 0
  current : replayedState item.status (sortEvents (changesOf db item)) = item.status
  ongoing : ∀ items now, item ∈ items → item.createdAt < now → (∀ e ∈ changesOf db item, e.time < now) →
    ∀ state, (∃ i ∈ (builtHistory (flowContext db item.orgId items) item now).intervals,
      i.isOpen = true ∧ i.state = state) ↔ state = item.status ∧ state ∉ terminalStates db item.type

def Reproduced (id : Uuid) (db : FlowDb) : Prop := ∀ item ∈ db.items, item.id = id → Reproduces db item

/-- The audit rows that the changes of an item have left. -/
def stateRows (db : FlowDb) (id : Uuid) : List AuditRow :=
  db.audit.filter fun row => row.eventType == "WorkItemStateChanged" && row.workItemId == id

def laterChanges (db : FlowDb) (call : ChangeCall) : List StateChange :=
  ((sortByKey auditKey (stateRows db call.item.id)).filter fun row =>
    toLex (call.time, call.auditId.toNat) < auditKey row).filterMap readChange

/-- A change of the item is not before its creation, and is read after all that
were made before it; or it leaves the state as it is and the next one that is
read leaves that state too. -/
def KeepsOrder (id : Uuid) (db : FlowDb) (call : ChangeCall) : Prop :=
  call.item.id = id → (∀ item ∈ db.items, item.id = id → item.createdAt ≤ call.time) ∧
    (laterChanges db call = [] ∨
      call.toState = call.item.status ∧ ((laterChanges db call).head?).bind (·.fromState) = some call.toState)

instance (id : Uuid) (db : FlowDb) (call : ChangeCall) : Decidable (KeepsOrder id db call) :=
  inferInstanceAs (Decidable (_ → _ ∧ _))

/-! ## Linked events -/

/-- Each event leaves the state that the one before it has entered. -/
def Linked : String → List StateChange → String → Prop
  | state, [], last => state = last
  | state, e :: events, last => e.fromState = some state ∧ Linked e.toState events last

section
variable {events before after : List StateChange} {state last : String}

theorem linked_append : Linked state (before ++ after) last ↔ ∃ mid, Linked state before mid ∧ Linked mid after last := by
  induction before generalizing state with
  | nil => exact ⟨fun h => ⟨state, rfl, h⟩, fun ⟨_, hmid, h⟩ => hmid ▸ h⟩
  | cons e before ih =>
    rw [List.cons_append, Linked, ih]
    constructor
    · rintro ⟨hleft, mid, hbefore, hafter⟩
      exact ⟨mid, ⟨hleft, hbefore⟩, hafter⟩
    · rintro ⟨mid, ⟨hleft, hbefore⟩, hafter⟩
      exact ⟨hleft, mid, hbefore, hafter⟩

theorem Linked.unique {last' : String} (h : Linked state events last) (h' : Linked state events last') : last = last' := by
  induction events generalizing state with
  | nil => exact h.symm.trans h'
  | cons e events ih => exact ih h.2 h'.2

theorem linked_insert {e : StateChange} (hleaves : e.fromState = some last)
    (h : ∃ state, Linked state (before ++ after) last) :
    (∃ state, Linked state (before ++ e :: after) e.toState) ↔
      after = [] ∨ e.toState = last ∧ (after.head?).bind (·.fromState) = some e.toState := by
  obtain ⟨first, hlinked⟩ := h
  obtain ⟨mid, hbefore, hafter⟩ := linked_append.mp hlinked
  cases after with
  | nil =>
    obtain rfl : mid = last := hafter
    exact iff_of_true ⟨first, linked_append.mpr ⟨mid, hbefore, hleaves, rfl⟩⟩ (.inl rfl)
  | cons next after =>
    obtain ⟨hnext, hafter⟩ := hafter
    show _ ↔ _ ∨ e.toState = last ∧ next.fromState = some e.toState
    constructor
    · rintro ⟨state, hinserted⟩
      obtain ⟨-, -, -, hentered, hrest⟩ := linked_append.mp hinserted
      exact .inr ⟨hrest.unique hafter, hentered⟩
    · rintro (hnone | ⟨hstays, hentered⟩)
      · cases hnone
      · have hmid : mid = last := (Option.some.inj (hnext.symm.trans hentered)).trans hstays
        refine ⟨first, linked_append.mpr ⟨mid, hbefore, hmid ▸ hleaves, hentered, ?_⟩⟩
        rw [hstays]
        exact hafter

theorem next_state (terminal : List String) (s : HistoryLoop) (e : StateChange) :
    (s.next terminal e).state = e.toState := by
  unfold HistoryLoop.next
  dsimp only
  split <;> rfl

/-- Nothing is counted exactly where the event leaves the state of the item and
is not before the cursor; then the cursor moves to it. -/
theorem next_consistent (terminal : List String) (s : HistoryLoop) {e : StateChange} (hfrom : e.fromState.isSome) :
    s.anomalies ≤ (s.next terminal e).anomalies ∧
      ((s.next terminal e).anomalies = s.anomalies ↔ e.fromState = some s.state ∧ s.cursor ≤ e.time) ∧
      (s.cursor ≤ e.time → (s.next terminal e).cursor = e.time) := by
  obtain ⟨fromState, hsome⟩ := Option.isSome_iff_exists.mp hfrom
  have hcontradicts : s.contradicts e = true ↔ fromState ≠ s.state := by
    rw [HistoryLoop.contradicts, hsome, Option.any_some, bne_iff_ne]
  rw [hsome, Option.some.injEq]
  unfold HistoryLoop.next
  by_cases hstate : fromState = s.state
  · rw [if_neg (fun h => hcontradicts.mp h hstate)]
    by_cases hpast : e.time < s.cursor
    · rw [if_pos hpast]
      exact ⟨Nat.le_succ _, iff_of_false (Nat.succ_ne_self _) fun h => absurd hpast (not_lt.mpr h.2),
        fun h => absurd hpast (not_lt.mpr h)⟩
    · rw [if_neg hpast]
      exact ⟨Nat.le_refl _, iff_of_true rfl ⟨hstate, not_lt.mp hpast⟩, fun _ => rfl⟩
  · rw [if_pos (hcontradicts.mpr hstate)]
    by_cases hpast : e.time < s.cursor
    · rw [if_pos hpast]
      exact ⟨Nat.le_add_right _ 2, iff_of_false (by dsimp only; omega) fun h => hstate h.1, fun h => absurd hpast (not_lt.mpr h)⟩
    · rw [if_neg hpast]
      exact ⟨Nat.le_succ _, iff_of_false (Nat.succ_ne_self _) fun h => hstate h.1, fun _ => rfl⟩

theorem le_anomalies (terminal : List String) (s : HistoryLoop) (hfrom : ∀ e ∈ events, e.fromState.isSome) :
    s.anomalies ≤ (events.foldl (HistoryLoop.next terminal) s).anomalies := by
  induction events generalizing s with
  | nil => exact Nat.le_refl _
  | cons e events ih =>
    obtain ⟨he, hrest⟩ := List.forall_mem_cons.mp hfrom
    exact Nat.le_trans (next_consistent terminal s he).1 (ih _ hrest)

/-- The loop counts nothing and ends in a state exactly where the events are
linked up to it and none is before the cursor. -/
theorem foldl_consistent (terminal : List String) (s : HistoryLoop) (last : String) (hfrom : ∀ e ∈ events, e.fromState.isSome)
    (hsorted : events.Pairwise fun a b => a.time ≤ b.time) :
    (events.foldl (HistoryLoop.next terminal) s).anomalies = s.anomalies ∧
        lastValue s.state (events.map moveOfEvent) = last ↔
      (∀ e ∈ events, s.cursor ≤ e.time) ∧ Linked s.state events last := by
  induction events generalizing s with
  | nil => exact ⟨fun h => ⟨fun _ he => absurd he List.not_mem_nil, h.2⟩, fun h => ⟨rfl, h.2⟩⟩
  | cons e events ih =>
    obtain ⟨he, hrest⟩ := List.forall_mem_cons.mp hfrom
    obtain ⟨hle, hnext, hcursor⟩ := next_consistent terminal s he
    have hmono := le_anomalies terminal (s.next terminal e) hrest
    have hih := ih (s.next terminal e) hrest hsorted.of_cons
    rw [next_state] at hih
    rw [List.foldl_cons, List.map_cons, lastValue_cons, List.forall_mem_cons, Linked]
    constructor
    · rintro ⟨hcount, hlast⟩
      obtain ⟨hleaves, hpast⟩ := hnext.mp (by omega)
      obtain ⟨-, hlinked⟩ := hih.mp ⟨by omega, hlast⟩
      exact ⟨⟨hpast, fun e' he' => le_trans hpast (List.rel_of_pairwise_cons hsorted he')⟩, hleaves, hlinked⟩
    · rintro ⟨⟨hpast, -⟩, hleaves, hlinked⟩
      have hstep := hnext.mpr ⟨hleaves, hpast⟩
      have hlater (e' : StateChange) (he' : e' ∈ events) : (s.next terminal e).cursor ≤ e'.time := by
        rw [hcursor hpast]
        exact List.rel_of_pairwise_cons hsorted he'
      obtain ⟨hcount, hlast⟩ := hih.mpr ⟨hlater, hlinked⟩
      exact ⟨hcount.trans hstep, hlast⟩

theorem sortEvents_eq (hsorted : events.Pairwise fun a b => a.time ≤ b.time) : sortEvents events = events := by
  have hindexed : events.zipIdx.Pairwise NotAfter := by
    rw [List.pairwise_iff_getElem] at hsorted ⊢
    intro i j hi hj hij
    rw [List.length_zipIdx] at hi hj
    rw [List.getElem_zipIdx, List.getElem_zipIdx]
    rcases lt_or_eq_of_le (hsorted i j hi hj hij) with hlt | heq
    · exact .inl hlt
    · exact .inr ⟨heq, by simpa using Nat.le_of_lt hij⟩
  rw [sortEvents, indexedEvents, hindexed.insertionSort_eq]
  exact List.zipIdx_map_fst 0 events

end

/-! ## The replay of an item -/

/-- The rows of an item tell the state they leave and the one they enter. -/
def Readable (id : Uuid) (db : FlowDb) : Prop :=
  ∀ row ∈ stateRows db id, ∃ fromState toState reason,
    readChange row = some ⟨row.timestamp, some fromState, toState, reason⟩

section
variable {db : FlowDb} {item : WorkItem}

theorem changesOf_eq (hitem : item ∈ db.items) :
    changesOf db item = (sortByKey auditKey (stateRows db item.id)).filterMap readChange := by
  have hrows : db.audit.filter (isStateChangeOf db item.orgId [item.id]) = stateRows db item.id := by
    refine List.filter_congr fun row _ => ?_
    unfold isStateChangeOf
    by_cases hid : row.workItemId = item.id
    · have hany : db.items.any (fun w => w.id == row.workItemId && w.orgId == item.orgId) = true :=
        List.any_eq_true.mpr ⟨item, hitem, by simp [hid]⟩
      rw [hany, hid]
      simp
    · simp [hid]
  have hown : (sortByKey auditKey (stateRows db item.id)).filter (·.workItemId == item.id) =
      sortByKey auditKey (stateRows db item.id) := by
    refine List.filter_eq_self.mpr fun row hrow => ?_
    have hmem := (List.mem_filter.mp ((sortByKey_perm auditKey _).mem_iff.mp hrow)).2
    exact (Bool.and_eq_true _ _ ▸ hmem).2
  rw [changesOf, loadEvents, hrows, hown]

theorem changesOf_from (hitem : item ∈ db.items) (hread : Readable item.id db) :
    ∀ e ∈ changesOf db item, e.fromState.isSome := by
  intro e he
  rw [changesOf_eq hitem] at he
  obtain ⟨row, hrow, hsome⟩ := List.mem_filterMap.mp he
  obtain ⟨fromState, toState, reason, hevent⟩ := hread row ((sortByKey_perm auditKey _).mem_iff.mp hrow)
  obtain rfl := Option.some.inj (hsome.symm.trans hevent)
  rfl

theorem builtHistory_eq {items : List WorkItem} (h : item ∈ items) (now : Millis) :
    builtHistory (flowContext db item.orgId items) item now =
      buildIntervals item.createdAt item.status (changesOf db item) now (terminalStates db item.type) := by
  unfold builtHistory changesOf
  rw [← loadEvents_eq (show item.id ∈ items.map (·.id) from List.mem_map_of_mem h)]
  rfl

theorem linked_firstState {events : List StateChange} {last : String} (hfrom : ∀ e ∈ events, e.fromState.isSome) :
    (∃ state, Linked state events last) ↔ Linked (firstState last events) events last := by
  refine ⟨fun ⟨state, h⟩ => ?_, fun h => ⟨_, h⟩⟩
  cases events with
  | nil => rfl
  | cons e events =>
    have hfirst : firstState last (e :: events) = state := by
      show e.fromState.getD last = state
      rw [h.1, Option.getD_some]
    rw [hfirst]
    exact h

theorem ongoing_state {createdAt now : Millis} {currentState state : String} {events : List StateChange}
    {terminal : List String} (hcreated : createdAt < now) (hlater : ∀ e ∈ sortEvents events, e.time < now)
    (hcurrent : replayedState currentState (sortEvents events) = currentState) :
    (∃ i ∈ (buildIntervals createdAt currentState events now terminal).intervals,
      i.isOpen = true ∧ i.state = state) ↔ state = currentState ∧ state ∉ terminal := by
  have hlast : (lastValue (firstState currentState (sortEvents events), none)
      ((sortEvents events).map entryOf)).1 = currentState := by
    rw [lastValue_map (Prod.fst : StateEntry → String), List.map_map]
    exact hcurrent
  rw [buildIntervals_eq]
  have hongoing : (∃ v ∈ visits now createdAt (firstState currentState (sortEvents events), none)
      ((sortEvents events).map entryOf), v.ongoing = true ∧ v.value.1 = state ∧ state ∉ terminal) ↔ _ :=
    ongoing_iff (p := fun entry : StateEntry => entry.1 = state ∧ state ∉ terminal)
  rw [hlast] at hongoing
  constructor
  · rintro ⟨i, hi, hopen, rfl⟩
    obtain ⟨v, hv, rfl⟩ := List.mem_map.mp hi
    obtain ⟨hv, hkept⟩ := List.mem_filter.mp hv
    have hnot : v.value.1 ∉ terminal := by simpa [kept] using hkept
    obtain ⟨⟨hstate, hterminal⟩, -⟩ := hongoing.mp ⟨v, hv, hopen, rfl, hnot⟩
    exact ⟨hstate.symm, hterminal⟩
  · rintro ⟨rfl, hterminal⟩
    have hchanges : ∀ c ∈ (sortEvents events).map entryOf, c.1 < now := by
      intro c hc
      obtain ⟨e, he, rfl⟩ := List.mem_map.mp hc
      exact hlater e he
    obtain ⟨v, hv, hopen, hstate, -⟩ := hongoing.mpr ⟨⟨rfl, hterminal⟩, hcreated, hchanges⟩
    refine ⟨intervalOf v, List.mem_map_of_mem (List.mem_filter.mpr ⟨hv, ?_⟩), hopen, hstate⟩
    simpa [kept, hstate] using hterminal

/-- The replay agrees exactly where the events are linked up to the current
state and none is before the creation. -/
theorem reproduces_iff (hitem : item ∈ db.items) (hread : Readable item.id db) :
    Reproduces db item ↔ (∀ e ∈ changesOf db item, item.createdAt ≤ e.time) ∧
      ∃ state, Linked state (changesOf db item) item.status := by
  have hfrom := changesOf_from hitem hread
  have hsorted : (changesOf db item).Pairwise fun a b => a.time ≤ b.time := loadEvents_sorted db item.orgId item.id
  have hloop := foldl_consistent (terminalStates db item.type)
    ⟨[], 0, item.createdAt, firstState item.status (changesOf db item), none⟩ item.status hfrom hsorted
  have hanomalies (now : Millis) : (buildIntervals item.createdAt item.status (changesOf db item) now
      (terminalStates db item.type)).anomalies = ((changesOf db item).foldl
        (HistoryLoop.next (terminalStates db item.type))
          ⟨[], 0, item.createdAt, firstState item.status (changesOf db item), none⟩).anomalies := by
    unfold buildIntervals
    rw [sortEvents_eq hsorted]
  rw [linked_firstState hfrom]
  constructor
  · intro h
    have hconsistent := h.consistent [item] 0 (List.mem_singleton_self item)
    have hcurrent := h.current
    rw [builtHistory_eq (List.mem_singleton_self item), hanomalies] at hconsistent
    rw [sortEvents_eq hsorted] at hcurrent
    exact hloop.mp ⟨hconsistent, hcurrent⟩
  · intro h
    obtain ⟨hconsistent, hcurrent⟩ := hloop.mpr h
    refine ⟨fun items now hmem => ?_, ?_, fun items now hmem hcreated hlater state => ?_⟩
    · rw [builtHistory_eq hmem, hanomalies]
      exact hconsistent
    · rw [sortEvents_eq hsorted]
      exact hcurrent
    · rw [builtHistory_eq hmem]
      refine ongoing_state hcreated (fun e he => hlater e ((sortEvents_eq hsorted) ▸ he)) ?_
      rw [sortEvents_eq hsorted]
      exact hcurrent

end

/-! ## One change -/

section
variable {db next : FlowDb} {call : ChangeCall} {id : Uuid}

structure Committed (db : FlowDb) (call : ChangeCall) (merged : Fields) (next : FlowDb) : Prop where
  found : ∃ row ∈ db.items, row.id = call.item.id ∧ row.orgId = call.item.orgId ∧ row.status = call.item.status
  items : next.items = Table.update call.isRow
    (stateChangeOf db.policies call.item call.toState call.time merged).apply db.items
  audit : next.audit = db.audit ++ [call.auditRow merged]

theorem committed_of_step (h : stateChanges.step db call = some next) : ∃ merged, Committed db call merged next := by
  obtain ⟨merged, -, hcommit⟩ := Option.bind_eq_some_iff.mp h
  refine ⟨merged, ?_⟩
  unfold commitStateChange at hcommit
  dsimp only at hcommit
  split at hcommit
  · rename_i hfound
    obtain rfl := Option.some.inj hcommit
    refine ⟨?_, rfl, rfl⟩
    obtain ⟨row, hrow, his⟩ := List.any_eq_true.mp hfound.1
    simp only [ChangeCall.isRow, Bool.and_eq_true, beq_iff_eq] at his
    exact ⟨row, hrow, his.1.1, his.1.2, his.2⟩
  · cases hcommit

theorem readChange_auditRow (call : ChangeCall) (merged : Fields) : ∃ reason,
    readChange (call.auditRow merged) = some ⟨call.time, some call.item.status, call.toState, reason⟩ :=
  ⟨_, rfl⟩

variable {merged : Fields}

theorem Committed.stateRows (h : Committed db call merged next) :
    stateRows next id = if call.item.id = id then stateRows db id ++ [call.auditRow merged] else stateRows db id := by
  unfold Flow.stateRows
  rw [h.audit, List.filter_append]
  by_cases hid : call.item.id = id
  · rw [if_pos hid]
    simp [ChangeCall.auditRow, hid]
  · rw [if_neg hid]
    simp [ChangeCall.auditRow, hid]

theorem Readable.step (hread : Readable id db) (h : stateChanges.step db call = some next) : Readable id next := by
  obtain ⟨merged, hcommitted⟩ := committed_of_step h
  intro row hrow
  rw [hcommitted.stateRows] at hrow
  split at hrow
  · rcases List.mem_append.mp hrow with hrow | hrow
    · exact hread row hrow
    · obtain rfl := List.mem_singleton.mp hrow
      obtain ⟨reason, hevent⟩ := readChange_auditRow call merged
      exact ⟨_, _, reason, hevent⟩
  · exact hread row hrow

theorem Committed.mem_items (h : Committed db call merged next) (hother : call.item.id ≠ id)
    {item : WorkItem} (hid : item.id = id) : item ∈ next.items ↔ item ∈ db.items := by
  have hrow (row : WorkItem) (hrow : call.isRow row = true) : row.id = call.item.id := by
    simp only [ChangeCall.isRow, Bool.and_eq_true, beq_iff_eq] at hrow
    exact hrow.1.1
  rw [h.items, Table.mem_update]
  constructor
  · rintro (⟨row, -, his, rfl⟩ | ⟨hmem, -⟩)
    · exact absurd ((hrow row his).symm.trans hid) hother
    · exact hmem
  · exact fun hmem => .inr ⟨hmem, Bool.eq_false_iff.mpr fun his => hother ((hrow item his).symm.trans hid)⟩

theorem reproduced_other (hread : Readable id db) (h : stateChanges.step db call = some next)
    (hother : call.item.id ≠ id) : Reproduced id next ↔ Reproduced id db := by
  obtain ⟨merged, hcommitted⟩ := committed_of_step h
  have hsame (item : WorkItem) (hitem : item ∈ db.items) (hid : item.id = id) :
      Reproduces next item ↔ Reproduces db item := by
    have hnext := (hcommitted.mem_items hother hid).mpr hitem
    rw [reproduces_iff hnext (hid ▸ hread.step h), reproduces_iff hitem (hid ▸ hread), changesOf_eq hnext,
      changesOf_eq hitem, hcommitted.stateRows, if_neg (hid ▸ hother)]
  constructor
  · exact fun hnext item hitem hid =>
      (hsame item hitem hid).mp (hnext item ((hcommitted.mem_items hother hid).mpr hitem) hid)
  · intro hdb item hnext hid
    have hitem := (hcommitted.mem_items hother hid).mp hnext
    exact (hsame item hitem hid).mpr (hdb item hitem hid)

theorem Committed.changed (h : Committed db call merged next) : ∃ row changed,
    row ∈ db.items ∧ row.id = call.item.id ∧ row.status = call.item.status ∧
      changed.id = call.item.id ∧ changed.createdAt = row.createdAt ∧ changed.status = call.toState ∧
      ∀ item, item ∈ next.items ∧ item.id = call.item.id ↔ item = changed := by
  obtain ⟨row, hrow, hid, horg, hstatus⟩ := h.found
  have his : call.isRow row = true := by simp [ChangeCall.isRow, hid, horg, hstatus]
  set write := (stateChangeOf db.policies call.item call.toState call.time merged).apply
  refine ⟨row, write row, hrow, hid, hstatus, hid, rfl, rfl, fun item => ?_⟩
  rw [h.items, Table.mem_update]
  constructor
  · rintro ⟨⟨q, hq, -, rfl⟩ | ⟨hmem, hnot⟩, hitem⟩
    · rw [Table.eq_of_key db.itemIds hq hrow (hitem.trans hid.symm)]
    · rw [Table.eq_of_key db.itemIds hmem hrow (hitem.trans hid.symm), his] at hnot
      cases hnot
  · rintro rfl
    exact ⟨.inl ⟨row, hrow, his, rfl⟩, hid⟩

theorem Committed.changes (h : Committed db call merged next) {row changed : WorkItem}
    (hrow : row ∈ db.items) (hid : row.id = call.item.id) (hnext : changed ∈ next.items)
    (hchanged : changed.id = call.item.id) : ∃ before reason,
      changesOf db row = before ++ laterChanges db call ∧
      changesOf next changed =
        before ++ ⟨call.time, some call.item.status, call.toState, reason⟩ :: laterChanges db call := by
  have hrows : Flow.stateRows next call.item.id = Flow.stateRows db call.item.id ++ [call.auditRow merged] := by
    rw [h.stateRows, if_pos rfl]
  have hkeys : ((Flow.stateRows db call.item.id ++ [call.auditRow merged]).map auditKey).Nodup := by
    rw [← hrows]
    exact (auditKeys_nodup next).sublist (List.filter_sublist.map auditKey)
  have hold : ((Flow.stateRows db call.item.id).map auditKey).Nodup :=
    (auditKeys_nodup db).sublist (List.filter_sublist.map auditKey)
  have hnew (a : AuditRow) (ha : a ∈ Flow.stateRows db call.item.id) : auditKey a ≠ auditKey (call.auditRow merged) := by
    rw [List.map_append, List.nodup_append] at hkeys
    exact hkeys.2.2 _ (List.mem_map_of_mem ha) _ (List.mem_singleton_self _)
  obtain ⟨reason, hevent⟩ := readChange_auditRow call merged
  refine ⟨((sortByKey auditKey (Flow.stateRows db call.item.id)).filter fun a =>
    auditKey a < auditKey (call.auditRow merged)).filterMap readChange, reason, ?_, ?_⟩
  · rw [changesOf_eq hrow, hid]
    conv_lhs => rw [sortByKey_split hold hnew, List.filterMap_append]
    rfl
  · rw [changesOf_eq hnext, hchanged, hrows, sortByKey_concat hkeys, List.filterMap_append,
      List.filterMap_cons, hevent]
    rfl

theorem reproduced_step (hread : Readable id db) (hdb : Reproduced id db) (h : stateChanges.step db call = some next) :
    Reproduced id next ↔ KeepsOrder id db call := by
  by_cases hown : call.item.id = id
  · subst hown
    obtain ⟨merged, hcommitted⟩ := committed_of_step h
    obtain ⟨row, changed, hrow, hid, hstatus, hchanged, hcreated, hentered, hunique⟩ := hcommitted.changed
    obtain ⟨hnext, -⟩ := (hunique changed).mpr rfl
    obtain ⟨before, reason, hbefore, hafter⟩ := hcommitted.changes hrow hid hnext hchanged
    have hone : Reproduced call.item.id next ↔ Reproduces next changed := by
      constructor
      · exact fun hall => hall changed hnext hchanged
      · intro hthis item hitem hitemId
        rw [(hunique item).mp ⟨hitem, hitemId⟩]
        exact hthis
    obtain ⟨htimes, hlinked⟩ := (reproduces_iff hrow (hid ▸ hread)).mp (hdb row hrow hid)
    rw [hbefore, hstatus] at hlinked
    rw [hbefore] at htimes
    rw [hone, reproduces_iff hnext (hchanged ▸ hread.step h), hafter, hcreated, hentered,
      linked_insert (e := ⟨call.time, some call.item.status, call.toState, reason⟩) rfl hlinked]
    have hcreation : (∀ e ∈ before ++ ⟨call.time, some call.item.status, call.toState, reason⟩ :: laterChanges db call,
        row.createdAt ≤ e.time) ↔ ∀ item ∈ db.items, item.id = call.item.id → item.createdAt ≤ call.time := by
      constructor
      · intro hall item hitem hitemId
        rw [Table.eq_of_key db.itemIds hitem hrow (hitemId.trans hid.symm)]
        exact hall _ (List.mem_append_right _ List.mem_cons_self)
      · intro hall e he
        rcases List.mem_append.mp he with he | he
        · exact htimes e (List.mem_append_left _ he)
        · rcases List.mem_cons.mp he with rfl | he
          · exact hall row hrow hid
          · exact htimes e (List.mem_append_right _ he)
    rw [hcreation]
    exact ⟨fun hboth _ => hboth, fun horder => horder rfl⟩
  · rw [reproduced_other hread h hown]
    exact iff_of_true hdb fun hid => absurd hid hown

theorem reproduced_new (hnew : stateRows db id = []) : Reproduced id db := by
  rintro item hitem rfl
  have hread : Readable item.id db := fun row hrow => by
    rw [hnew] at hrow
    cases hrow
  have hnone : changesOf db item = [] := by
    rw [changesOf_eq hitem, hnew]
    rfl
  rw [reproduces_iff hitem hread, hnone]
  exact ⟨fun e he => absurd he List.not_mem_nil, item.status, rfl⟩

/-- All along a run of state changes the history reproduces the item if and
only if every change keeps the order. -/
theorem history_reproduced_iff (hnew : stateRows db id = []) {calls : List ChangeCall} {last : FlowDb}
    (hrun : stateChanges.run db calls = some last) :
    stateChanges.Throughout (Reproduced id) db calls ↔ stateChanges.Along (KeepsOrder id) db calls :=
  stateChanges.throughout_iff (P := Readable id) (fun hread hstep => hread.step hstep)
    (fun hread hdb hstep => reproduced_step hread hdb hstep)
    (fun row hrow => by rw [hnew] at hrow; cases hrow) (reproduced_new hnew) hrun

end

/-- A story of a source, in its first state. -/
def mirroredStory : WorkItem :=
  { ledgerStory with source := some ⟨7, 8, "jira", none, none⟩ }

def mirroredDb : FlowDb where
  items := [mirroredStory]
  itemIds := by decide
  audit := []
  auditIds := by decide
  links := []
  linkIds := by decide
  classifications _ := []
  policies := []
  definitions := []
  pick := 0
  teams := []

/-- The source reports two states of one instant. -/
def mirroredCalls (first second : Uuid) : List ChangeCall :=
  [.applySourceStateChange mirroredStory "In Progress" 5000 (.str "jira") first,
    .applySourceStateChange { mirroredStory with status := "In Progress" } "Done" 5000 (.str "jira") second]

/-- With ids in the order of the changes they are replayed as they were made. -/
theorem history_reproduced_mirrored :
    ∃ last, stateChanges.run mirroredDb (mirroredCalls 1 2) = some last ∧
      (stateChanges.Throughout (Reproduced 1) mirroredDb (mirroredCalls 1 2) ↔
        stateChanges.Along (KeepsOrder 1) mirroredDb (mirroredCalls 1 2)) ∧
      stateChanges.Along (KeepsOrder 1) mirroredDb (mirroredCalls 1 2) := by
  obtain ⟨last, hrun⟩ : ∃ last, stateChanges.run mirroredDb (mirroredCalls 1 2) = some last :=
    Option.isSome_iff_exists.mp (by decide)
  exact ⟨last, hrun, history_reproduced_iff rfl hrun, by decide⟩

/-- With ids in the other order they are not. -/
theorem replayed_backwards : ¬ ∀ (db : FlowDb) (id : Uuid) (calls : List ChangeCall) (last : FlowDb),
    stateRows db id = [] → (∀ item ∈ db.items, ∀ call ∈ calls, item.createdAt ≤ call.time) →
      calls.Pairwise (fun a b => a.time ≤ b.time) → stateChanges.run db calls = some last → Reproduced id last := by
  intro h
  have hwrong : (stateChanges.run mirroredDb (mirroredCalls 2 1)).any (fun last => last.items.any fun item =>
      item.id == 1 && (builtHistory (flowContext last item.orgId [item]) item 6000).anomalies != 0) = true := by
    decide
  obtain ⟨last, hrun, hlast⟩ := (Option.any_eq_true _ _).mp hwrong
  obtain ⟨item, hitem, hanomaly⟩ := List.any_eq_true.mp hlast
  simp only [Bool.and_eq_true, beq_iff_eq, bne_iff_ne] at hanomaly
  exact hanomaly.2 ((h mirroredDb 1 (mirroredCalls 2 1) last rfl (by decide) (by decide) hrun item hitem
    hanomaly.1).consistent [item] 6000 (List.mem_singleton_self item))

end Cadena.Flow
