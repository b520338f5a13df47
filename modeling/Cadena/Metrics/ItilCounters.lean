import Cadena.Flow.RecordedHistory

/-!
# ITIL counters

`itilCounts` of `metrics.service.ts` for the incidents opened in a window. One
counter reads the state an incident is in, the other the states that recorded
changes have left, and both know two of the three states behind the
resolution. So the counters agree with the recorded history as long as no
incident goes on to the post-incident review.
-/

namespace Cadena.Metrics

open Cadena.Base Cadena.WorkItems Cadena.Flow

/-- The tenant and the window of a request. -/
structure Window where
  orgId : Uuid
  start : Millis
  stop : Millis

/-- A row of `domain_events`. -/
structure EventRow where
  orgId : Uuid
  eventType : String
  occurredAt : Millis

def resolvedStates : List String := ["Resolved", "Closed"]

/-- The incidents of the tenant. -/
def Window.covers (w : Window) (item : WorkItem) : Bool := item.orgId == w.orgId && item.type == .incident

def Window.contains (w : Window) (t : Millis) : Bool := w.start ≤ t && t ≤ w.stop

def Window.opened (w : Window) (item : WorkItem) : Bool := w.covers item && w.contains item.createdAt

structure ItilCounts where
  incidentsOpened : Nat
  incidentsResolved : Nat
  bySeverity : List (String × Nat)
  autoCreated : Nat
  slaBreaches : Nat
  reopened : Nat

/-- `bySeverity[severity] = (bySeverity[severity] || 0) + 1`. -/
def countSeverity : List (String × Nat) → String → List (String × Nat)
  | [], severity => [(severity, 1)]
  | (s, n) :: counts, severity =>
    if s = severity then (s, n + 1) :: counts else (s, n) :: countSeverity counts severity

/-- `payload->>key`. -/
def payloadText (row : AuditRow) (key : String) : Option String :=
  match row.payload with
  | .obj payload => stringField payload key
  | _ => none

/-- A recorded change of an incident out of a resolved state. -/
def isReopening (db : FlowDb) (w : Window) (row : AuditRow) : Bool :=
  db.items.any (fun item => item.id == row.workItemId && w.covers item)
    && row.eventType == "WorkItemStateChanged"
    && (payloadText row "from_state").any resolvedStates.contains
    && w.contains row.timestamp

def itilCounts (db : FlowDb) (events : List EventRow) (w : Window) : ItilCounts :=
  let opened := db.items.filter w.opened
  { incidentsOpened := opened.length
    incidentsResolved := opened.countP fun row => resolvedStates.contains row.status
    bySeverity := (opened.map fun row => (row.severity.map (·.text)).getD "unset").foldl countSeverity []
    autoCreated := opened.countP fun row => row.tags.contains "auto-created"
    slaBreaches := events.countP fun e =>
      e.orgId == w.orgId && e.eventType == "SLABreached" && w.contains e.occurredAt
    reopened := db.audit.countP (isReopening db w) }

def incidentRules : List WorkflowTransitionRule :=
  rulesOf ((builtInWorkflows.lookup "incident").map fun d => ⟨1, d⟩)

/-- The states from the resolution on. -/
def lateStates : List String := ["Resolved", "Post-incident Review", "Closed"]

theorem incidentRules_states : ∀ rule ∈ incidentRules,
    (rule.toState ∈ lateStates ↔ rule.fromState ∈ lateStates ∨ rule.toState = "Resolved") ∧
      (resolvedStates.contains rule.fromState = true ↔ rule.fromState = "Resolved") ∧
      (rule.toState = "Post-incident Review" ↔ rule.fromState = "Resolved") := by decide

/-- The call is about the item it names, and an incident moves by the rules
of the built-in workflow. -/
def FollowsBuiltIn (db : FlowDb) : ChangeCall → Prop
  | .transitionWorkItem item _ _ _ _ =>
    (∀ row ∈ db.items, row.id = item.id → row.type = item.type) ∧
      (item.type = .incident →
        rulesOf (getWorkflowDefinition db.definitions db.pick item.type.text (some item.workflowVersion))
          = incidentRules)
  | .applySourceStateChange item _ _ _ _ => ∀ row ∈ db.items, row.id = item.id → row.type ≠ .incident

instance (db : FlowDb) : ∀ call, Decidable (FollowsBuiltIn db call)
  | .transitionWorkItem _ _ _ _ _ => inferInstanceAs (Decidable (_ ∧ _))
  | .applySourceStateChange _ _ _ _ _ => inferInstanceAs (Decidable (∀ row ∈ db.items, _))

/-- The state changes up to the end of the window, where incidents follow the
built-in workflow. -/
def builtInTransitions (w : Window) : System FlowDb ChangeCall where
  step db call :=
    if FollowsBuiltIn db call ∧ call.time ≤ w.stop then stateChanges.step db call else none

/-- A recorded change has taken the item into the resolved state. -/
def everResolved (db : FlowDb) (item : WorkItem) : Bool :=
  db.audit.any fun row => row.eventType == "WorkItemStateChanged" && row.workItemId == item.id
    && payloadText row "to_state" == some "Resolved"

def everResolvedCount (db : FlowDb) (w : Window) : Nat := (db.items.filter w.opened).countP (everResolved db)

/-- The counters say what the history says. -/
def CountersAgree (events : List EventRow) (w : Window) (db : FlowDb) : Prop :=
  (itilCounts db events w).incidentsResolved = everResolvedCount db w ∧ (itilCounts db events w).reopened = 0

/-- A step by which the counter of resolved incidents does not decrease. -/
def KeepsResolved (events : List EventRow) (w : Window) (db : FlowDb) (call : ChangeCall) : Prop :=
  ∀ next, (builtInTransitions w).step db call = some next →
    (itilCounts db events w).incidentsResolved ≤ (itilCounts next events w).incidentsResolved

/-- An incident goes on from its resolution, and it was opened or goes on
within the window. -/
def GoesOn (w : Window) (db : FlowDb) (call : ChangeCall) : Prop :=
  call.item.status = "Resolved" ∧ ∃ item ∈ db.items, item.id = call.item.id ∧ w.covers item = true ∧
    (w.opened item = true ∨ w.start ≤ call.time)

instance (w : Window) (db : FlowDb) (call : ChangeCall) : Decidable (GoesOn w db call) :=
  inferInstanceAs (Decidable (_ ∧ ∃ item ∈ db.items, _))

/-- The incidents of the tenant are in the first state and no change of them
is recorded. -/
def Untouched (w : Window) (db : FlowDb) : Prop :=
  ∀ item ∈ db.items, w.covers item = true → item.status = "Triaged" ∧
    ∀ row ∈ db.audit, row.eventType = "WorkItemStateChanged" → row.workItemId ≠ item.id

/-! ## One step -/

section
variable {w : Window} {db next : FlowDb} {call : ChangeCall}

variable {changed item row : WorkItem}

theorem planTransition_rule {wf : Option PublishedWorkflow} {ctx : TransitionContext}
    {fields : Fields} (h : planTransition item wf ctx = .ok fields) :
    ∃ rule ∈ rulesOf wf, rule.fromState = item.status ∧ rule.toState = ctx.toState := by
  unfold planTransition at h
  split at h
  · cases h
  · dsimp only at h
    split at h
    · cases h
    · rename_i rule hrule
      have hends := List.find?_some hrule
      simp only [Bool.and_eq_true, beq_iff_eq] at hends
      exact ⟨rule, List.mem_of_find?_eq_some hrule, hends⟩

/-- What a step does: the row it finds, and what is recorded. -/
structure Moved (w : Window) (db : FlowDb) (call : ChangeCall) (next : FlowDb) (row changed : WorkItem) : Prop where
  found : row ∈ db.items
  id : row.id = call.item.id
  status : row.status = call.item.status
  time : call.time ≤ w.stop
  sameId : changed.id = row.id
  sameCovers : w.covers changed = w.covers row
  sameOpened : w.opened changed = w.opened row
  entered : changed.status = call.toState
  columns : ∃ f : WorkItem → WorkItem, next.items = db.items.map f ∧
    ∀ item, (f item).id = item.id ∧ w.opened (f item) = w.opened item
  unique : ∀ item, item ∈ next.items ↔ item = changed ∨ item ∈ db.items ∧ item ≠ row
  audit : ∃ merged, next.audit = db.audit ++ [call.auditRow merged]
  rule : row.type = .incident → ∃ rule ∈ incidentRules,
    rule.fromState = call.item.status ∧ rule.toState = call.toState

theorem moved_of_step (h : (builtInTransitions w).step db call = some next) :
    ∃ row changed, Moved w db call next row changed := by
  simp only [builtInTransitions] at h
  split at h
  · rename_i hruns
    obtain ⟨hfollows, htime⟩ := hruns
    obtain ⟨merged, hplan, -⟩ := Option.bind_eq_some_iff.mp h
    obtain ⟨written, hcommitted⟩ := committed_of_step h
    obtain ⟨row, hrow, hid, horg, hstatus⟩ := hcommitted.found
    have his : call.isRow row = true := by simp [ChangeCall.isRow, hid, horg, hstatus]
    let changed := (stateChangeOf db.policies call.item call.toState call.time written).apply row
    refine ⟨row, changed, hrow, hid, hstatus, htime, rfl, rfl, rfl, rfl, ⟨_, hcommitted.items, fun item => ?_⟩,
      fun item => ?_, ⟨_, hcommitted.audit⟩, fun hincident => ?_⟩
    · by_cases hitem : call.isRow item = true
      · rw [if_pos hitem]
        exact ⟨rfl, rfl⟩
      · rw [if_neg hitem]
        exact ⟨rfl, rfl⟩
    · rw [hcommitted.items, Table.mem_update]
      constructor
      · rintro (⟨q, hq, hqis, rfl⟩ | ⟨hmem, hnot⟩)
        · simp only [ChangeCall.isRow, Bool.and_eq_true, beq_iff_eq] at hqis
          rw [Table.eq_of_key db.itemIds hq hrow (hqis.1.1.trans hid.symm)]
          exact .inl rfl
        · refine .inr ⟨hmem, fun heq => ?_⟩
          rw [heq, his] at hnot
          cases hnot
      · rintro (rfl | ⟨hmem, hne⟩)
        · exact .inl ⟨row, hrow, his, rfl⟩
        · refine .inr ⟨hmem, Bool.eq_false_iff.mpr fun hitem => hne ?_⟩
          simp only [ChangeCall.isRow, Bool.and_eq_true, beq_iff_eq] at hitem
          exact Table.eq_of_key db.itemIds hmem hrow (hitem.1.1.trans hid.symm)
    · cases call with
      | transitionWorkItem item ctx reason now auditId =>
        have htype : row.type = item.type := hfollows.1 row hrow hid
        have hrules := hfollows.2 (htype ▸ hincident)
        simp only [ChangeCall.mergedFields] at hplan
        have hfields : planTransition item (getWorkflowDefinition db.definitions db.pick item.type.text
            (some item.workflowVersion)) ctx = .ok merged := by
          cases hp : planTransition item (getWorkflowDefinition db.definitions db.pick item.type.text
            (some item.workflowVersion)) ctx with
          | error e => rw [hp] at hplan; cases hplan
          | ok fields => rw [hp] at hplan; exact congrArg _ (Option.some.inj hplan)
        obtain ⟨rule, hmem, hfrom, hto⟩ := planTransition_rule hfields
        exact ⟨rule, hrules ▸ hmem, hfrom, hto⟩
      | applySourceStateChange item toState time source auditId =>
        exact absurd hincident (hfollows row hrow hid)
  · cases h

theorem Moved.everResolved_next (h : Moved w db call next row changed) (item : WorkItem) : everResolved next item
      = (everResolved db item || (call.item.id == item.id && call.toState == "Resolved")) := by
  obtain ⟨merged, haudit⟩ := h.audit
  unfold everResolved
  rw [haudit, List.any_append, List.any_cons, List.any_nil, Bool.or_false]
  rfl

theorem Moved.isReopening_next (h : Moved w db call next row changed) (event : AuditRow) :
    isReopening next w event = isReopening db w event := by
  have hitems : next.items.any (fun item => item.id == event.workItemId && w.covers item)
      = db.items.any (fun item => item.id == event.workItemId && w.covers item) := by
    rw [Bool.eq_iff_iff, List.any_eq_true, List.any_eq_true]
    constructor
    · rintro ⟨item, hitem, hcovers⟩
      rcases (h.unique item).mp hitem with rfl | ⟨hmem, -⟩
      · exact ⟨row, h.found, by rwa [h.sameId, h.sameCovers] at hcovers⟩
      · exact ⟨item, hmem, hcovers⟩
    · rintro ⟨item, hitem, hcovers⟩
      by_cases hrow : item = row
      · exact ⟨changed, (h.unique changed).mpr (.inl rfl), by rwa [h.sameId, h.sameCovers, ← hrow]⟩
      · exact ⟨item, (h.unique item).mpr (.inr ⟨hitem, hrow⟩), hcovers⟩
  unfold isReopening
  rw [hitems]

theorem Moved.eq_row (h : Moved w db call next row changed)
    (hitem : item ∈ db.items) (hid : item.id = call.item.id) : item = row :=
  Table.eq_of_key db.itemIds hitem h.found (hid.trans h.id.symm)

theorem covers_incident (h : w.covers item = true) : item.type = .incident := by
  simp only [Window.covers, Bool.and_eq_true, beq_iff_eq] at h
  exact h.2

theorem Moved.recorded (h : Moved w db call next row changed) (merged : Fields) :
    isReopening db w (call.auditRow merged) = true ↔
      w.covers row = true ∧ call.item.status = "Resolved" ∧ w.start ≤ call.time := by
  have hitem : db.items.any (fun item => item.id == call.item.id && w.covers item) = true ↔ w.covers row = true := by
    rw [List.any_eq_true]
    constructor
    · rintro ⟨item, hitem, hcovers⟩
      simp only [Bool.and_eq_true, beq_iff_eq] at hcovers
      rw [← h.eq_row hitem hcovers.1]
      exact hcovers.2
    · exact fun hcovers => ⟨row, h.found, by simp [h.id, hcovers]⟩
  have hfrom : payloadText (call.auditRow merged) "from_state" = some call.item.status := rfl
  unfold isReopening
  rw [hfrom]
  simp only [ChangeCall.auditRow, Bool.and_eq_true, hitem, beq_self_eq_true, and_true, Option.any_some,
    Window.contains, decide_eq_true_eq, h.time, and_assoc]
  refine and_congr_right fun hcovers => and_congr ?_ decide_eq_true_iff
  obtain ⟨rule, hrule, hleft, -⟩ := h.rule (covers_incident hcovers)
  rw [← hleft]
  exact (incidentRules_states rule hrule).2.1

end

/-! ## What the counters count -/

section
variable {w : Window} {db next : FlowDb} {call : ChangeCall} {events : List EventRow}

/-- A state behind the resolution is one that the history has led through it. -/
def LateResolved (w : Window) (db : FlowDb) : Prop :=
  ∀ item ∈ db.items, w.covers item = true → (item.status ∈ lateStates ↔ everResolved db item = true)

theorem LateResolved.step (hlate : LateResolved w db) (h : (builtInTransitions w).step db call = some next) :
    LateResolved w next := by
  obtain ⟨row, changed, hmoved⟩ := moved_of_step h
  intro item hitem hcovers
  rw [hmoved.everResolved_next, Bool.or_eq_true]
  rcases (hmoved.unique item).mp hitem with rfl | ⟨hmem, hne⟩
  · rw [hmoved.sameCovers] at hcovers
    obtain ⟨rule, hrule, hleft, hentered⟩ := hmoved.rule (covers_incident hcovers)
    have hstates := (incidentRules_states rule hrule).1
    rw [hleft, hentered, ← hmoved.status, hlate row hmoved.found hcovers] at hstates
    have hsame : everResolved db item = everResolved db row := by rw [everResolved, hmoved.sameId]; rfl
    rw [hmoved.entered, hstates, hsame]
    simp [hmoved.sameId, hmoved.id]
  · have hother : ¬ call.item.id = item.id := fun hid => hne (hmoved.eq_row hmem hid.symm)
    rw [hlate item hmem hcovers]
    simp [hother]

theorem countP_eq_iff {α : Type} {p q : α → Bool} {l : List α} (h : ∀ x ∈ l, p x = true → q x = true) :
    l.countP p = l.countP q ↔ ∀ x ∈ l, q x = true → p x = true := by
  have hboth : l.countP p = (l.filter q).countP p := by
    rw [List.countP_filter]
    refine List.countP_congr fun x hx => ?_
    rw [Bool.and_eq_true]
    exact ⟨fun hp => ⟨hp, h x hx hp⟩, And.left⟩
  rw [hboth, List.countP_eq_length_filter (p := q), List.countP_eq_length]
  simp only [List.mem_filter, and_imp]

/-- The two counters are right where no incident of the window is in the
review and no change of an incident out of its resolution is recorded. -/
theorem countersAgree_iff (hlate : LateResolved w db) :
    CountersAgree events w db ↔
      (∀ item ∈ db.items, w.opened item = true → item.status ≠ "Post-incident Review") ∧
        ∀ event ∈ db.audit, isReopening db w event = false := by
  have hcovers (item : WorkItem) (h : item ∈ db.items.filter w.opened) : item ∈ db.items ∧ w.covers item = true := by
    rw [List.mem_filter, Window.opened, Bool.and_eq_true] at h
    exact ⟨h.1, h.2.1⟩
  have hresolved : ∀ item ∈ db.items.filter w.opened, resolvedStates.contains item.status = true →
      everResolved db item = true := by
    intro item hitem hstatus
    rw [← hlate item (hcovers item hitem).1 (hcovers item hitem).2]
    simp only [resolvedStates, List.contains_iff_mem, List.mem_cons, List.not_mem_nil, or_false] at hstatus
    rcases hstatus with h | h <;> simp [h, lateStates]
  refine and_congr ?_ ?_
  · simp only [itilCounts, everResolvedCount]
    rw [countP_eq_iff hresolved]
    constructor
    · intro hall item hitem hopened hreview
      have hmem : item ∈ db.items.filter w.opened := List.mem_filter.mpr ⟨hitem, hopened⟩
      have hever := (hlate item hitem (hcovers item hmem).2).mp (by rw [hreview]; decide)
      have := hall item hmem hever
      rw [hreview] at this
      exact absurd this (by decide)
    · intro hall item hitem hever
      have hstatus := (hlate item (hcovers item hitem).1 (hcovers item hitem).2).mpr hever
      have hnot := hall item (hcovers item hitem).1 (List.mem_filter.mp hitem).2
      simp only [lateStates, List.mem_cons, List.not_mem_nil, or_false, hnot, false_or] at hstatus
      rcases hstatus with h | h <;> simp [h, resolvedStates]
  · simp only [itilCounts, List.countP_eq_zero, Bool.not_eq_true]

theorem countersAgree_step (hlate : LateResolved w db) (hagree : CountersAgree events w db)
    (h : (builtInTransitions w).step db call = some next) : CountersAgree events w next ↔ ¬ GoesOn w db call := by
  obtain ⟨row, changed, hmoved⟩ := moved_of_step h
  rw [countersAgree_iff hlate] at hagree
  rw [countersAgree_iff (hlate.step h)]
  have hitems : (∀ item ∈ next.items, w.opened item = true → item.status ≠ "Post-incident Review") ↔
      ¬ (w.opened row = true ∧ call.item.status = "Resolved") := by
    have hreview (hopened : w.opened row = true) :
        call.toState = "Post-incident Review" ↔ call.item.status = "Resolved" := by
      have hcovers : w.covers row = true := by
        rw [Window.opened, Bool.and_eq_true] at hopened
        exact hopened.1
      obtain ⟨rule, hrule, hleft, hentered⟩ := hmoved.rule (covers_incident hcovers)
      rw [← hleft, ← hentered]
      exact (incidentRules_states rule hrule).2.2
    constructor
    · rintro hall ⟨hopened, hstatus⟩
      refine hall changed ((hmoved.unique changed).mpr (.inl rfl)) (hmoved.sameOpened.trans hopened) ?_
      rw [hmoved.entered, hreview hopened]
      exact hstatus
    · intro hnot item hitem hopened hstatus
      rcases (hmoved.unique item).mp hitem with rfl | ⟨hmem, -⟩
      · rw [hmoved.sameOpened] at hopened
        rw [hmoved.entered, hreview hopened] at hstatus
        exact hnot ⟨hopened, hstatus⟩
      · exact hagree.1 item hmem hopened hstatus
  have hevents : (∀ event ∈ next.audit, isReopening next w event = false) ↔
      ¬ (w.covers row = true ∧ call.item.status = "Resolved" ∧ w.start ≤ call.time) := by
    obtain ⟨merged, haudit⟩ := hmoved.audit
    rw [haudit, ← hmoved.recorded merged, Bool.not_eq_true]
    constructor
    · intro hall
      rw [← hmoved.isReopening_next]
      exact hall _ (List.mem_append_right _ (List.mem_singleton_self _))
    · intro hnew event hevent
      rw [hmoved.isReopening_next]
      rcases List.mem_append.mp hevent with hold | hnow
      · exact hagree.2 event hold
      · rw [List.mem_singleton.mp hnow]
        exact hnew
  rw [hitems, hevents, ← not_or, not_iff_not]
  constructor
  · rintro (⟨hopened, hstatus⟩ | ⟨hcovers, hstatus, htime⟩)
    · refine ⟨hstatus, row, hmoved.found, hmoved.id, ?_, .inl hopened⟩
      rw [Window.opened, Bool.and_eq_true] at hopened
      exact hopened.1
    · exact ⟨hstatus, row, hmoved.found, hmoved.id, hcovers, .inr htime⟩
  · rintro ⟨hstatus, item, hitem, hid, hcovers, hwithin⟩
    obtain rfl := hmoved.eq_row hitem hid
    rcases hwithin with hopened | htime
    · exact .inl ⟨hopened, hstatus⟩
    · exact .inr ⟨hcovers, hstatus, htime⟩

theorem everResolvedCount_mono (h : (builtInTransitions w).step db call = some next) :
    everResolvedCount db w ≤ everResolvedCount next w := by
  obtain ⟨row, changed, hmoved⟩ := moved_of_step h
  obtain ⟨f, hitems, hsame⟩ := hmoved.columns
  rw [everResolvedCount, everResolvedCount, List.countP_filter, List.countP_filter, hitems, List.countP_map]
  refine List.countP_mono_left fun item _ hitem => ?_
  rw [Bool.and_eq_true] at hitem
  have hever : everResolved next (f item) = everResolved next item := by
    rw [everResolved, (hsame item).1]
    rfl
  rw [Function.comp_apply, hever, (hsame item).2, hmoved.everResolved_next, hitem.1, hitem.2]
  rfl

/-- **The counters agree with the recorded history.** In a run of state
changes they say what the history says in every state, and the counter of
resolved incidents never decreases, exactly if no incident goes on from its
resolution. -/
theorem itil_counters_iff (events : List EventRow) (w : Window) {db last : FlowDb} {calls : List ChangeCall}
    (hnew : Untouched w db) (hrun : (builtInTransitions w).run db calls = some last) :
    (builtInTransitions w).Throughout (CountersAgree events w) db calls ∧
        (builtInTransitions w).Along (KeepsResolved events w) db calls ↔
      (builtInTransitions w).Along (fun db call => ¬ GoesOn w db call) db calls := by
  have hlate : LateResolved w db := by
    intro item hitem hcovers
    obtain ⟨hstatus, hnone⟩ := hnew item hitem hcovers
    refine iff_of_false (by rw [hstatus]; decide) fun hever => ?_
    obtain ⟨event, hevent, his⟩ := List.any_eq_true.mp hever
    simp only [Bool.and_eq_true, beq_iff_eq] at his
    exact hnone event hevent his.1.1 his.1.2
  have hagree : CountersAgree events w db := by
    rw [countersAgree_iff hlate]
    constructor
    · intro item hitem hopened
      rw [Window.opened, Bool.and_eq_true] at hopened
      rw [(hnew item hitem hopened.1).1]
      decide
    · intro event hevent
      rw [Bool.eq_false_iff]
      intro hreopens
      simp only [isReopening, Bool.and_eq_true, beq_iff_eq, List.any_eq_true] at hreopens
      obtain ⟨item, hitem, hid, hcovers⟩ := hreopens.1.1.1
      exact (hnew item hitem hcovers).2 event hevent hreopens.1.1.2 hid.symm
  have hthroughout := (builtInTransitions w).throughout_iff (P := LateResolved w)
    (fun hs hstep => hs.step hstep) (fun hs hF hstep => countersAgree_step hs hF hstep) hlate hagree hrun
  refine ⟨fun h => hthroughout.mp h.1, fun h => ⟨hthroughout.mpr h, ?_⟩⟩
  -- before and after each step the counter is what the history says
  refine (builtInTransitions w).along_mono (P := fun s => LateResolved w s ∧ CountersAgree events w s)
    (fun hs hC hstep => ⟨hs.1.step hstep, (countersAgree_step hs.1 hs.2 hstep).mpr hC⟩) ?_ ⟨hlate, hagree⟩ h
  intro s call hs hC next hstep
  have hnext : CountersAgree events w next := (countersAgree_step hs.1 hs.2 hstep).mpr hC
  rw [hs.2.1, hnext.1]
  exact everResolvedCount_mono hstep

end

/-! ## One incident -/

def triagedIncident : WorkItem where
  id := 1
  orgId := 1
  itemKey := "INC-1"
  type := .incident
  title := "Checkout fails"
  description := ""
  status := "Triaged"
  workflowVersion := 1
  priority := .p1
  severity := some .sev1
  ownerId := none
  teamId := 3
  enteredStateAt := 0
  createdAt := 0
  agingBucket := .green
  agingScore := 0
  sla := ⟨0, none, false⟩
  customFields := [("mitigation_summary", .str "rolled back")]
  tags := []
  source := none

def incidentDb : FlowDb where
  items := [triagedIncident]
  itemIds := by decide
  audit := []
  auditIds := List.nodup_nil
  links := []
  linkIds := List.nodup_nil
  classifications _ := []
  policies := []
  definitions := []
  pick := 0
  teams := []

/-- The commander takes the incident from one state to the next. -/
def advance (fromState toState : String) (now : Millis) (auditId : Uuid) : ChangeCall :=
  .transitionWorkItem { triagedIncident with status := fromState } ⟨toState, "incident_commander", []⟩ none now auditId

def toResolution : List ChangeCall :=
  [advance "Triaged" "Investigating" 1000 11, advance "Investigating" "Mitigated" 2000 12,
    advance "Mitigated" "Resolved" 3000 13]

def firstHour : Window := ⟨1, 0, 3600000⟩

theorem untouched_incident : Untouched firstHour incidentDb := by
  rintro item hitem -
  obtain rfl := List.mem_singleton.mp hitem
  exact ⟨rfl, by simp [incidentDb]⟩

theorem commander_allowed : ∀ rule ∈ incidentRules, ∀ guard ∈ rule.guard,
    evaluateRoleGuard guard "incident_commander" = .ok () := by
  have hlist : allowedRoles (.text "actor.role in [on_call, incident_commander]")
      = ["on_call", "incident_commander"] := by
    rw [allowedRoles, if_pos ⟨"actor.role ".toList, "on_call, incident_commander]".toList, rfl⟩]
    rfl
  have hname : allowedRoles (.text "incident_commander") = ["incident_commander"] := by
    have hplain : ¬ "in [".toList <:+: "incident_commander".toList := fun h =>
      absurd (h.subset (show '[' ∈ "in [".toList by decide)) (by decide)
    rw [allowedRoles, if_neg hplain, if_neg (by decide)]
  have hguards : ∀ rule ∈ incidentRules, ∀ guard ∈ rule.guard,
      guard = .text "actor.role in [on_call, incident_commander]" ∨ guard = .text "incident_commander" := by decide
  intro rule hrule guard hguard
  rcases hguards rule hrule guard hguard with rfl | rfl
  · rw [evaluateRoleGuard, hlist]
    rfl
  · rw [evaluateRoleGuard, hname]
    rfl

def Planned (call : ChangeCall) : Prop :=
  ∃ fromState toState now auditId, call = advance fromState toState now auditId ∧
    ∃ rule, (incidentRules.find? fun t => t.fromState == fromState && t.toState == toState) = some rule ∧
      rule.requiresFields.filter (isMissing triagedIncident.customFields) = []

theorem Planned.mergedFields {db : FlowDb} {call : ChangeCall} (h : Planned call) (hdefs : db.definitions = []) :
    call.mergedFields db = some triagedIncident.customFields := by
  obtain ⟨fromState, toState, now, auditId, rfl, rule, hrule, hfields⟩ := h
  have hguard (guard : WorkflowGuard) (hset : rule.guard.filter (·.isSet) = some guard) :
      evaluateRoleGuard guard "incident_commander" = .ok () :=
    commander_allowed rule (List.mem_of_find?_eq_some hrule) guard (Option.filter_eq_some_iff.mp hset).1
  have hwf : rulesOf (getWorkflowDefinition db.definitions db.pick WorkItemType.incident.text (some 1)) = incidentRules := by
    rw [hdefs]
    rfl
  simp only [advance, ChangeCall.mergedFields, planTransition]
  rw [if_neg (by decide), show triagedIncident.workflowVersion = 1 from rfl, show triagedIncident.type = .incident from rfl,
    hwf, hrule]
  have hspread : Connectors.spread triagedIncident.customFields [] = triagedIncident.customFields := rfl
  cases hset : rule.guard.filter (·.isSet) with
  | none => simp [hset, hspread, hfields, Except.toOption, pure, Except.pure]
  | some guard => simp [hset, hguard guard hset, hspread, hfields, Except.toOption, pure, Except.pure, bind, Except.bind]

/-- Commits without the checks before them. -/
def commits : System FlowDb ChangeCall := ⟨fun db call => commitStateChange db call triagedIncident.customFields⟩

/-- All items are the incident, in some state. -/
def OnlyIncidents (db : FlowDb) : Prop := db.definitions = [] ∧ ∀ row ∈ db.items, row.type = .incident

theorem OnlyIncidents.commit {db next : FlowDb} {call : ChangeCall} {merged : Fields} (hdb : OnlyIncidents db)
    (h : commitStateChange db call merged = some next) : OnlyIncidents next := by
  unfold commitStateChange at h
  dsimp only at h
  split at h
  · obtain rfl := Option.some.inj h
    refine ⟨hdb.1, fun row hrow => ?_⟩
    rcases Table.mem_update.mp hrow with ⟨q, hq, -, rfl⟩ | ⟨hmem, -⟩
    · exact hdb.2 q hq
    · exact hdb.2 row hmem
  · cases h

theorem run_eq_commits {w : Window} {db : FlowDb} {calls : List ChangeCall} (hdb : OnlyIncidents db)
    (hcalls : ∀ call ∈ calls, Planned call ∧ call.time ≤ w.stop) :
    (builtInTransitions w).run db calls = commits.run db calls := by
  induction calls generalizing db with
  | nil => rfl
  | cons call calls ih =>
    obtain ⟨hplanned, htime⟩ := hcalls call List.mem_cons_self
    have hfollows : FollowsBuiltIn db call := by
      obtain ⟨fromState, toState, now, auditId, rfl, -⟩ := hplanned
      refine ⟨fun row hrow _ => hdb.2 row hrow, fun _ => ?_⟩
      rw [hdb.1]
      rfl
    have hstep : (builtInTransitions w).step db call = commits.step db call := by
      simp only [builtInTransitions, stateChanges, commits, if_pos (And.intro hfollows htime),
        hplanned.mergedFields hdb.1, Option.bind_some]
    rw [System.run, System.run, hstep]
    cases hcommit : commits.step db call with
    | none => rfl
    | some next => exact ih (hdb.commit hcommit) fun c hc => hcalls c (List.mem_cons_of_mem _ hc)

theorem planned_advance {fromState toState : String} {now : Millis} {auditId : Uuid}
    (h : ((incidentRules.find? fun t => t.fromState == fromState && t.toState == toState).any fun rule =>
      (rule.requiresFields.filter (isMissing triagedIncident.customFields)).isEmpty) = true) :
    Planned (advance fromState toState now auditId) := by
  obtain ⟨rule, hrule, hfields⟩ := (Option.any_eq_true _ _).mp h
  exact ⟨_, _, _, _, rfl, rule, hrule, List.isEmpty_iff.mp hfields⟩

theorem toResolution_planned : ∀ call ∈ toResolution, Planned call ∧ call.time ≤ firstHour.stop := by
  simp only [toResolution, List.mem_cons, List.not_mem_nil, or_false, forall_eq_or_imp, forall_eq]
  exact ⟨⟨planned_advance (by decide), by decide⟩, ⟨planned_advance (by decide), by decide⟩,
    planned_advance (by decide), by decide⟩

theorem onlyIncidents_incidentDb : OnlyIncidents incidentDb := ⟨rfl, by decide⟩

/-- Up to the resolution the counters are right. -/
theorem itil_counters_resolved : ∃ last, (builtInTransitions firstHour).run incidentDb toResolution = some last ∧
    (itilCounts last [] firstHour).incidentsResolved = 1 ∧
    (builtInTransitions firstHour).Throughout (CountersAgree [] firstHour) incidentDb toResolution := by
  have hboth : (commits.run incidentDb toResolution).any
      (fun last => (itilCounts last [] firstHour).incidentsResolved == 1) = true := by decide
  rw [← run_eq_commits onlyIncidents_incidentDb toResolution_planned] at hboth
  obtain ⟨last, hrun, hone⟩ := (Option.any_eq_true _ _).mp hboth
  have hnot : (builtInTransitions firstHour).Along (fun db call => ¬ GoesOn firstHour db call) incidentDb
      toResolution := by
    refine (builtInTransitions firstHour).along_mono (P := fun _ => True) (C := fun _ call => call ∈ toResolution)
      (fun _ _ _ => trivial) ?_ trivial ((builtInTransitions firstHour).along_of_mem (fun _ h => h) _)
    rintro db call - hcall ⟨hresolved, -⟩
    have hall : ∀ call ∈ toResolution, call.item.status ≠ "Resolved" := by
      simp only [toResolution, List.mem_cons, List.not_mem_nil, or_false, forall_eq_or_imp, forall_eq]
      decide
    exact hall call hcall hresolved
  exact ⟨last, hrun, beq_iff_eq.mp hone, ((itil_counters_iff [] firstHour untouched_incident hrun).mpr hnot).1⟩

def toReview : List ChangeCall := toResolution ++ [advance "Resolved" "Post-incident Review" 4000 14]

theorem toReview_planned : ∀ call ∈ toReview, Planned call ∧ call.time ≤ firstHour.stop := by
  intro call hcall
  rcases List.mem_append.mp hcall with h | h
  · exact toResolution_planned call h
  · obtain rfl := List.mem_singleton.mp h
    exact ⟨planned_advance (by decide), by decide⟩

/-- The review of a resolved incident is counted as a reopening. -/
theorem resolved_then_reviewed : ¬ ∀ (w : Window) (db last : FlowDb) (calls : List ChangeCall),
    Untouched w db → (builtInTransitions w).run db calls = some last →
      (itilCounts last [] w).incidentsResolved = everResolvedCount last w ∧ (itilCounts last [] w).reopened = 0 := by
  intro h
  have hwrong : (commits.run incidentDb toReview).any
      (fun last => (itilCounts last [] firstHour).reopened == 1) = true := by decide
  rw [← run_eq_commits onlyIncidents_incidentDb toReview_planned] at hwrong
  obtain ⟨last, hrun, hone⟩ := (Option.any_eq_true _ _).mp hwrong
  rw [(h _ _ _ _ untouched_incident hrun).2] at hone
  exact absurd hone (by decide)

end Cadena.Metrics
