import Cadena.Base.Table
import Cadena.Base.Transition
import Cadena.WorkItems.Workflow

/-!
# Workflow versions of items in flight

Publications, creations and transitions, each a statement at a time. An item
keeps the number of the definition that was in force when it was created. A
number stands for one definition as long as no publication takes a number
that is in use (`TakesNewVersion`); the built-in definitions take number 1
without a row.
-/

namespace Cadena.WorkItems

open Cadena.Base Cadena.Connectors

/-- What a request to create an item supplies, with the random id. -/
structure NewWorkItem where
  id : Uuid
  orgId : Uuid
  type : WorkItemType
  title : String
  description : String
  priority : WorkItemPriority
  severity : Option WorkItemSeverity
  ownerId : Option Uuid
  teamId : Uuid
  customFields : Fields
  tags : List String
  now : Millis

def defaultStatus : WorkItemType → String
  | .epic | .story => "Proposed"
  | .incident => "Triaged"
  | .release => "Draft"

def keyPrefix : WorkItemType → String
  | .epic => "EPIC"
  | .story => "STORY"
  | .incident => "INC"
  | .release => "REL"

def createItemKey (type : WorkItemType) (id : Uuid) : String :=
  keyPrefix type ++ "-" ++ String.ofList (((uuidText id).filter (· != '-')).take 8 |>.map Char.toUpper)

/-- The row that `createWorkItem` inserts. -/
def createdItem (dto : NewWorkItem) (activeWorkflow : Option PublishedWorkflow) : WorkItem where
  id := dto.id
  orgId := dto.orgId
  itemKey := createItemKey dto.type dto.id
  type := dto.type
  title := dto.title
  description := dto.description
  status :=
    orText (activeWorkflow.map (·.definition.initialState)) (defaultStatus dto.type)
  workflowVersion := (activeWorkflow.map (·.version)).getD 1
  priority := dto.priority
  severity := dto.severity
  ownerId := dto.ownerId
  teamId := dto.teamId
  enteredStateAt := dto.now
  createdAt := dto.now
  agingBucket := .green
  agingScore := 0
  sla := ⟨0, none, false⟩
  customFields := dto.customFields
  tags := dto.tags
  source := none

/-! ## The system -/

/-- The tables and the requests under way. `startedUnder` is what
`getWorkflowDefinition` returned when an item was created, and `applied` what
it returned to the transitions of items. -/
structure WorkflowState where
  definitions : List WorkflowRow
  items : List WorkItem
  policies : List SlaPolicy
  publishing : List (WorkflowDefinition × Nat)
  creating : List (NewWorkItem × Option PublishedWorkflow)
  moving : List (WorkItem × TransitionContext)
  committing : List (Uuid × StateChange)
  startedUnder : Uuid → Option PublishedWorkflow
  applied : List (Uuid × Option PublishedWorkflow)

/-- The statements of the three requests; `k` is the place of a request among
those that wait for the statement. -/
inductive WorkflowAction where
  | readVersion (d : WorkflowDefinition)
  | insertDefinition (k : Nat) (id : Uuid)
  | readActive (dto : NewWorkItem) (pick : Nat)
  | insertItem (k : Nat)
  | readItem (itemId : Uuid) (ctx : TransitionContext)
  | readDefinition (k pick : Nat) (now : Millis)
  | commit (k : Nat)

def insertDefinitionStep (s : WorkflowState) (k : Nat) (id : Uuid) : Option WorkflowState :=
  (s.publishing[k]?).map fun p =>
    { s with
      definitions := s.definitions ++ [⟨id, p.1.type, p.2, p.1⟩]
      publishing := s.publishing.eraseIdx k }

def insertItemStep (s : WorkflowState) (k : Nat) : Option WorkflowState :=
  match s.creating[k]? with
  | some (dto, active) =>
    -- randomUUID(): no item has the id
    if s.items.any (·.id == dto.id) then none
    else
      some { s with
        items := s.items ++ [createdItem dto active]
        creating := s.creating.eraseIdx k
        startedUnder := setAt s.startedUnder dto.id active }
  | none => none

def readDefinitionStep (s : WorkflowState) (k pick : Nat) (now : Millis) : Option WorkflowState :=
  (s.moving[k]?).map fun m =>
    let wf := getWorkflowDefinition s.definitions pick m.1.type.text (some m.1.workflowVersion)
    { s with
      moving := s.moving.eraseIdx k
      applied := s.applied ++ [(m.1.id, wf)]
      committing :=
        match planTransition m.1 wf m.2 with
        | .ok mergedFields =>
          s.committing ++ [(m.1.id, stateChangeOf s.policies m.1 m.2.toState now mergedFields)]
        | .error _ => s.committing }

def commitStep (s : WorkflowState) (k : Nat) : Option WorkflowState :=
  (s.committing[k]?).map fun c =>
    { s with
      items := Table.update (fun i => i.id == c.1 && i.status == c.2.fromState) c.2.apply s.items
      committing := s.committing.eraseIdx k }

def workflowStep (s : WorkflowState) : WorkflowAction → Option WorkflowState
  | .readVersion d =>
    if validateWorkflowDefinition d = [] then
      some { s with publishing := s.publishing ++ [(d, maxVersion s.definitions d.type + 1)] }
    else none
  | .insertDefinition k id => insertDefinitionStep s k id
  | .readActive dto pick =>
    some { s with
      creating :=
        s.creating ++ [(dto, getWorkflowDefinition s.definitions pick dto.type.text none)] }
  | .insertItem k => insertItemStep s k
  | .readItem itemId ctx =>
    (s.items.find? (·.id == itemId)).map fun item => { s with moving := s.moving ++ [(item, ctx)] }
  | .readDefinition k pick now => readDefinitionStep s k pick now
  | .commit k => commitStep s k

def workflows : System WorkflowState WorkflowAction := ⟨workflowStep⟩

/-- Nothing has been published or created. -/
def WorkflowState.start (policies : List SlaPolicy) : WorkflowState :=
  ⟨[], [], policies, [], [], [], [], fun _ => none, []⟩

/-- Every transition has been judged by the rules that the item started
under. -/
def KeepsWorkflow (s : WorkflowState) : Prop :=
  ∀ entry ∈ s.applied, rulesOf entry.2 = rulesOf (s.startedUnder entry.1)

/-- No row of the type has the number, and no item or creation under way. -/
def VersionUnused (s : WorkflowState) (type : String) (version : Nat) : Prop :=
  (∀ r ∈ s.definitions, r.type = type → r.version ≠ version) ∧
    (∀ i ∈ s.items, i.type.text = type → i.workflowVersion ≠ version) ∧
    ∀ c ∈ s.creating, c.1.type.text = type → ∀ wf ∈ c.2, wf.version ≠ version

/-- A publication inserts a number that is not in use. -/
def TakesNewVersion (s : WorkflowState) : WorkflowAction → Prop
  | .insertDefinition k _ => ∀ p ∈ s.publishing[k]?, VersionUnused s p.1.type p.2
  | _ => True

instance (s : WorkflowState) : Decidable (KeepsWorkflow s) :=
  inferInstanceAs (Decidable (∀ entry ∈ s.applied, _))

instance (s : WorkflowState) (type : String) (version : Nat) :
    Decidable (VersionUnused s type version) :=
  inferInstanceAs (Decidable ((∀ r ∈ s.definitions, _ → _) ∧ (∀ i ∈ s.items, _ → _) ∧
    ∀ c ∈ s.creating, _ → ∀ wf ∈ c.2, _))

instance (s : WorkflowState) : ∀ a, Decidable (TakesNewVersion s a)
  | .insertDefinition k _ => inferInstanceAs (Decidable
      (∀ p ∈ s.publishing[k]?, VersionUnused s p.1.type p.2))
  | .readVersion _ | .readActive .. | .insertItem _ | .readItem .. | .readDefinition .. | .commit _ =>
    isTrue trivial

/-! ## What a lookup finds -/

section
variable {α : Type} {pick : Nat} {rows : List α} {r : α}

theorem limitOne_mem (h : limitOne pick rows = some r) : r ∈ rows := List.mem_of_getElem? h

theorem limitOne_of_mem (n : Nat) (h : r ∈ rows) : ∃ r', limitOne n rows = some r' := by
  refine ⟨_, List.getElem?_eq_getElem (Nat.mod_lt _ ?_)⟩
  exact List.length_pos_of_mem h

theorem limitOne_unique (h : r ∈ rows) (hall : ∀ r' ∈ rows, r' = r) : limitOne pick rows = some r := by
  obtain ⟨r', hr'⟩ := limitOne_of_mem pick h
  rw [hr', hall r' (limitOne_mem hr')]

end

section
variable {rows : List WorkflowRow} {type : String} {wf : PublishedWorkflow}

theorem mem_versionRows {version : Nat} {r : WorkflowRow} :
    r ∈ versionRows rows type version ↔ r ∈ rows ∧ r.type = type ∧ r.version = version := by
  simp [versionRows]

theorem maxVersion_mem {r : WorkflowRow} (hr : r ∈ rows) (htype : r.type = type) :
    ∃ r' ∈ rows, r'.type = type ∧ r'.version = maxVersion rows type := by
  have hmem : r.version ∈ (rows.filter (·.type == type)).map (·.version) :=
    List.mem_map_of_mem (List.mem_filter.mpr ⟨hr, by simpa using htype⟩)
  obtain ⟨m, hm⟩ := Option.isSome_iff_exists.mp (List.isSome_max?_of_mem hmem)
  obtain ⟨r', hr', hversion⟩ := List.mem_map.mp (List.max?_mem hm)
  obtain ⟨hmem', htype'⟩ := List.mem_filter.mp hr'
  exact ⟨r', hmem', by simpa using htype', by rw [maxVersion, hm, hversion]; rfl⟩

structure RowsOk (rows : List WorkflowRow) : Prop where
  unique : ∀ r ∈ rows, ∀ r' ∈ rows, r.type = r'.type → r.version = r'.version → r = r'
  positive : ∀ r ∈ rows, r.version ≠ 0

/-- The version is that of the definition, whatever row comes first. -/
def Stands (rows : List WorkflowRow) (type : String) (wf : PublishedWorkflow) : Prop :=
  wf.version ≠ 0 ∧ ∀ pick, getWorkflowDefinition rows pick type (some wf.version) = some wf

theorem filter_version (h : wf.version ≠ 0) :
    (some wf.version).filter (· != 0) = some wf.version := by
  simp [Option.filter, h]

theorem Stands.of_row (h : RowsOk rows) {r : WorkflowRow} (hr : r ∈ rows) (htype : r.type = type) :
    Stands rows type ⟨r.version, r.definition⟩ := by
  refine ⟨h.positive r hr, fun pick => ?_⟩
  have hrows : limitOne pick (versionRows rows type r.version) = some r := by
    refine limitOne_unique (mem_versionRows.mpr ⟨hr, htype, rfl⟩) fun r' hr' => ?_
    obtain ⟨hmem, htype', hversion⟩ := mem_versionRows.mp hr'
    exact h.unique r' hmem r hr (htype'.trans htype.symm) hversion
  have hasked : (some r.version).filter (· != 0) = some r.version := by
    simp [Option.filter, h.positive r hr]
  simp only [getWorkflowDefinition, hasked, Option.getD_some, hrows]

theorem Stands.of_builtIn (hnone : ∀ r ∈ rows, r.type ≠ type) {d : WorkflowDefinition}
    (hd : builtInWorkflows.lookup type = some d) : Stands rows type ⟨1, d⟩ := by
  refine ⟨Nat.one_ne_zero, fun pick => ?_⟩
  have hrows : versionRows rows type 1 = [] :=
    List.eq_nil_iff_forall_not_mem.mpr fun r hr =>
      hnone r (mem_versionRows.mp hr).1 (mem_versionRows.mp hr).2.1
  have hasked : (some 1).filter (fun v : Nat => v != 0) = some 1 := rfl
  simp only [getWorkflowDefinition, hasked, Option.getD_some, hrows, hd]
  rfl

theorem builtIn_exists (type : WorkItemType) : ∃ d, builtInWorkflows.lookup type.text = some d := by
  cases type <;> exact ⟨_, rfl⟩

theorem active_stands (h : RowsOk rows) (pick : Nat) (type : WorkItemType) :
    ∃ wf, getWorkflowDefinition rows pick type.text none = some wf ∧ Stands rows type.text wf := by
  cases hrow : limitOne pick (versionRows rows type.text (maxVersion rows type.text)) with
  | some r =>
    obtain ⟨hr, htype, -⟩ := mem_versionRows.mp (limitOne_mem hrow)
    refine ⟨⟨r.version, r.definition⟩, ?_, .of_row h hr htype⟩
    simp only [getWorkflowDefinition, Option.filter_none, Option.getD_none, hrow]
  | none =>
    have hnone : ∀ r ∈ rows, r.type ≠ type.text := by
      intro r hr htype
      obtain ⟨r', hr', htype', hversion⟩ := maxVersion_mem hr htype
      obtain ⟨found, hfound⟩ := limitOne_of_mem pick
        (mem_versionRows.mpr ⟨hr', htype', hversion⟩)
      rw [hrow] at hfound
      cases hfound
    obtain ⟨d, hd⟩ := builtIn_exists type
    refine ⟨⟨1, d⟩, ?_, .of_builtIn hnone hd⟩
    simp only [getWorkflowDefinition, Option.filter_none, Option.getD_none, hrow, hd]
    rfl

theorem Stands.insert (h : Stands rows type wf) {row : WorkflowRow}
    (hnew : row.type = type → row.version ≠ wf.version) : Stands (rows ++ [row]) type wf := by
  refine ⟨h.1, fun pick => ?_⟩
  have hrows : versionRows (rows ++ [row]) type wf.version = versionRows rows type wf.version := by
    rw [versionRows, List.filter_append, List.filter_cons_of_neg ?_, List.filter_nil,
      List.append_nil, versionRows]
    simpa using hnew
  have hold := h.2 pick
  simp only [getWorkflowDefinition, filter_version h.1, Option.getD_some, hrows] at hold ⊢
  exact hold

theorem RowsOk.insert (h : RowsOk rows) {row : WorkflowRow} (hpositive : row.version ≠ 0)
    (hnew : ∀ r ∈ rows, r.type = row.type → r.version ≠ row.version) : RowsOk (rows ++ [row]) := by
  refine ⟨fun r hr r' hr' htype hversion => ?_, fun r hr => ?_⟩
  · rw [List.mem_append, List.mem_singleton] at hr hr'
    rcases hr with hr | rfl <;> rcases hr' with hr' | rfl
    · exact h.unique r hr r' hr' htype hversion
    · exact absurd hversion (hnew r hr htype)
    · exact absurd hversion.symm (hnew r' hr' htype.symm)
    · rfl
  · rcases List.mem_append.mp hr with hr | hr
    · exact h.positive r hr
    · exact List.mem_singleton.mp hr ▸ hpositive

end

section
variable {s t : WorkflowState}

/-! ## Steps -/

/-- The version of every item, created or to be created, is that of the
definition it started under. -/
structure VersionInv (s : WorkflowState) : Prop where
  rows : RowsOk s.definitions
  publishing : ∀ p ∈ s.publishing, p.2 ≠ 0
  creating : ∀ c ∈ s.creating, ∃ wf, c.2 = some wf ∧ Stands s.definitions c.1.type.text wf
  items : ∀ i ∈ s.items, ∃ wf, s.startedUnder i.id = some wf ∧ i.workflowVersion = wf.version ∧
    Stands s.definitions i.type.text wf
  moving : ∀ m ∈ s.moving, ∃ i ∈ s.items,
    i.id = m.1.id ∧ i.type = m.1.type ∧ i.workflowVersion = m.1.workflowVersion
  applied : ∀ e ∈ s.applied, e.2 = s.startedUnder e.1 ∧ ∃ i ∈ s.items, i.id = e.1

theorem VersionInv.start (policies : List SlaPolicy) : VersionInv (.start policies) where
  rows := ⟨fun _ hr => absurd hr List.not_mem_nil, fun _ hr => absurd hr List.not_mem_nil⟩
  publishing _ hp := absurd hp List.not_mem_nil
  creating _ hc := absurd hc List.not_mem_nil
  items _ hi := absurd hi List.not_mem_nil
  moving _ hm := absurd hm List.not_mem_nil
  applied _ he := absurd he List.not_mem_nil

theorem VersionInv.insertDefinition (h : VersionInv s) {k : Nat} {id : Uuid}
    (hnew : TakesNewVersion s (.insertDefinition k id)) (hstep : insertDefinitionStep s k id = some t) :
    VersionInv t := by
  obtain ⟨⟨d, version⟩, hp, rfl⟩ := Option.map_eq_some_iff.mp hstep
  obtain ⟨hrows, hitems, hcreating⟩ := hnew _ hp
  refine ⟨h.rows.insert (h.publishing _ (List.mem_of_getElem? hp)) hrows,
    fun p hmem => h.publishing p (List.mem_of_mem_eraseIdx hmem), fun c hc => ?_, fun i hi => ?_,
    h.moving, h.applied⟩
  · obtain ⟨wf, hwf, hstands⟩ := h.creating c hc
    refine ⟨wf, hwf, hstands.insert fun htype heq => ?_⟩
    exact hcreating c hc htype.symm wf hwf heq.symm
  · obtain ⟨wf, hstarted, hversion, hstands⟩ := h.items i hi
    refine ⟨wf, hstarted, hversion, hstands.insert fun htype heq => ?_⟩
    exact hitems i hi htype.symm (hversion.trans heq.symm)

theorem VersionInv.insertItem (h : VersionInv s) {k : Nat} (hstep : insertItemStep s k = some t) :
    VersionInv t := by
  unfold insertItemStep at hstep
  split at hstep
  case h_2 => cases hstep
  rename_i dto active hcreating
  split at hstep
  · cases hstep
  rename_i hfresh
  obtain rfl := Option.some.inj hstep
  obtain ⟨wf, rfl, hstands⟩ := h.creating _ (List.mem_of_getElem? hcreating)
  have hid : ∀ i ∈ s.items, i.id ≠ dto.id := fun i hi heq =>
    hfresh (List.any_eq_true.mpr ⟨i, hi, by simpa using heq⟩)
  refine ⟨h.rows, h.publishing, fun c hc => h.creating c (List.mem_of_mem_eraseIdx hc),
    fun i hi => ?_, fun m hm => ?_, fun e he => ?_⟩
  · rcases List.mem_append.mp hi with hi | hi
    · obtain ⟨wf', hstarted, hrest⟩ := h.items i hi
      exact ⟨wf', (setAt_other _ _ (hid i hi)).trans hstarted, hrest⟩
    · rw [List.mem_singleton.mp hi]
      exact ⟨wf, setAt_same _ _ _, rfl, hstands⟩
  · obtain ⟨i, hi, hsame⟩ := h.moving m hm
    exact ⟨i, List.mem_append_left _ hi, hsame⟩
  · obtain ⟨hwf, i, hi, hiid⟩ := h.applied e he
    have hkept : setAt s.startedUnder dto.id (some wf) e.1 = s.startedUnder e.1 :=
      setAt_other _ _ (hiid ▸ hid i hi)
    exact ⟨hwf.trans hkept.symm, i, List.mem_append_left _ hi, hiid⟩

theorem VersionInv.readItem (h : VersionInv s) {item : WorkItem} (hitem : item ∈ s.items)
    (ctx : TransitionContext) : VersionInv { s with moving := s.moving ++ [(item, ctx)] } := by
  refine ⟨h.rows, h.publishing, h.creating, h.items, fun m hm => ?_, h.applied⟩
  rcases List.mem_append.mp hm with hm | hm
  · exact h.moving m hm
  · rw [List.mem_singleton.mp hm]
    exact ⟨item, hitem, rfl, rfl, rfl⟩

theorem VersionInv.readDefinition (h : VersionInv s) {k pick : Nat} {now : Millis}
    (hstep : readDefinitionStep s k pick now = some t) : VersionInv t := by
  obtain ⟨m, hm, rfl⟩ := Option.map_eq_some_iff.mp hstep
  obtain ⟨i, hi, hid, htype, hversion⟩ := h.moving m (List.mem_of_getElem? hm)
  refine ⟨h.rows, h.publishing, h.creating, h.items,
    fun m' hm' => h.moving m' (List.mem_of_mem_eraseIdx hm'), fun e he => ?_⟩
  rcases List.mem_append.mp he with he | he
  · exact h.applied e he
  · obtain ⟨wf, hstarted, hiversion, -, hfound⟩ := h.items i hi
    rw [List.mem_singleton.mp he, ← hid, ← htype, ← hversion, hiversion]
    exact ⟨(hfound pick).trans hstarted.symm, i, hi, rfl⟩

theorem VersionInv.commit (h : VersionInv s) {k : Nat} (hstep : commitStep s k = some t) :
    VersionInv t := by
  obtain ⟨⟨id, change⟩, -, rfl⟩ := Option.map_eq_some_iff.mp hstep
  -- a state change leaves the id, the type and the version
  have hwas : ∀ i' ∈ Table.update (fun i => i.id == id && i.status == change.fromState) change.apply
      s.items, ∃ i ∈ s.items, i'.id = i.id ∧ i'.type = i.type ∧
        i'.workflowVersion = i.workflowVersion := by
    intro i' hi'
    rcases Table.mem_update.mp hi' with ⟨i, hi, -, rfl⟩ | ⟨hi, -⟩
    · exact ⟨i, hi, rfl, rfl, rfl⟩
    · exact ⟨i', hi, rfl, rfl, rfl⟩
  have hstays : ∀ i ∈ s.items, ∃ i' ∈ Table.update
      (fun i => i.id == id && i.status == change.fromState) change.apply s.items,
        i'.id = i.id ∧ i'.type = i.type ∧ i'.workflowVersion = i.workflowVersion := by
    intro i hi
    cases hp : (i.id == id && i.status == change.fromState) with
    | true => exact ⟨change.apply i, Table.mem_update.mpr (.inl ⟨i, hi, hp, rfl⟩), rfl, rfl, rfl⟩
    | false => exact ⟨i, Table.mem_update_of_not hi hp, rfl, rfl, rfl⟩
  refine ⟨h.rows, h.publishing, h.creating, fun i' hi' => ?_, fun m hm => ?_, fun e he => ?_⟩
  · obtain ⟨i, hi, hid, htype, hversion⟩ := hwas i' hi'
    rw [hid, htype, hversion]
    exact h.items i hi
  · obtain ⟨i, hi, hid, htype, hversion⟩ := h.moving m hm
    obtain ⟨i', hi', hid', htype', hversion'⟩ := hstays i hi
    exact ⟨i', hi', hid'.trans hid, htype'.trans htype, hversion'.trans hversion⟩
  · obtain ⟨hwf, i, hi, hid⟩ := h.applied e he
    obtain ⟨i', hi', hid', -⟩ := hstays i hi
    exact ⟨hwf, i', hi', hid'.trans hid⟩

theorem VersionInv.step (h : VersionInv s) {a : WorkflowAction} (hnew : TakesNewVersion s a)
    (hstep : workflowStep s a = some t) : VersionInv t := by
  cases a with
  | readVersion d =>
    simp only [workflowStep] at hstep
    split at hstep
    · obtain rfl := Option.some.inj hstep
      refine ⟨h.rows, fun p hp => ?_, h.creating, h.items, h.moving, h.applied⟩
      rcases List.mem_append.mp hp with hp | hp
      · exact h.publishing p hp
      · rw [List.mem_singleton.mp hp]
        exact Nat.succ_ne_zero _
    · cases hstep
  | insertDefinition k id => exact h.insertDefinition hnew hstep
  | readActive dto pick =>
    obtain rfl := Option.some.inj hstep
    refine ⟨h.rows, h.publishing, fun c hc => ?_, h.items, h.moving, h.applied⟩
    rcases List.mem_append.mp hc with hc | hc
    · exact h.creating c hc
    · rw [List.mem_singleton.mp hc]
      exact active_stands h.rows pick dto.type
  | insertItem k => exact h.insertItem hstep
  | readItem itemId ctx =>
    obtain ⟨item, hfound, rfl⟩ := Option.map_eq_some_iff.mp hstep
    exact h.readItem (List.mem_of_find?_eq_some hfound) ctx
  | readDefinition k pick now => exact h.readDefinition hstep
  | commit k => exact h.commit hstep

/-- If every publication takes a version that is not in use, the transitions
of an item are judged by the rules it started under. -/
theorem workflow_kept (policies : List SlaPolicy) (acts : List WorkflowAction)
    (hnew : workflows.Along TakesNewVersion (.start policies) acts)
    (hrun : workflows.run (.start policies) acts = some t) : KeepsWorkflow t := by
  have hinv : VersionInv t := workflows.along_invariant (fun h hnew hstep => h.step hnew hstep)
    (.start policies) hnew hrun
  exact fun e he => congrArg rulesOf (hinv.applied e he).1

end

def storyRequest (id : Uuid) : NewWorkItem :=
  ⟨id, 0, .story, "Checkout", "", .p2, none, none, 5, [], [], 0⟩

def shortStory : WorkflowDefinition :=
  ⟨"story", ["Proposed", "Done"], "Proposed", ["Done"], [plainRule "Proposed" "Done"]⟩

def guardedStory : WorkflowDefinition :=
  ⟨"story", ["Proposed", "Done"], "Proposed", ["Done"],
    [⟨"Proposed", "Done", some (.text "owner"), []⟩]⟩

def createStory (id : Uuid) : List WorkflowAction := [.readActive (storyRequest id) 0, .insertItem 0]

def publishStory (d : WorkflowDefinition) : List WorkflowAction := [.readVersion d, .insertDefinition 0 0]

def finishStory (id : Uuid) (pick : Nat) : List WorkflowAction :=
  [.readItem id ⟨"Done", "user", []⟩, .readDefinition 0 pick 60000, .commit 0]

/-- The story starts under the built-in definition; then the first one is
published. -/
def firstPublication : List WorkflowAction := createStory 1 ++ publishStory shortStory ++ finishStory 1 0

/-- Two publications read the same version; the story starts under one of the
rows and is judged by the other. -/
def racedPublications : List WorkflowAction :=
  publishStory shortStory ++
    [.readVersion shortStory, .readVersion guardedStory, .insertDefinition 0 1, .insertDefinition 0 2]
    ++ createStory 1 ++ (finishStory 1 1).take 2

theorem not_kept {acts : List WorkflowAction}
    (h : (workflows.run (.start []) acts).map (fun s => decide (KeepsWorkflow s)) = some false) :
    ¬ ∀ t, workflows.run (.start []) acts = some t → KeepsWorkflow t := by
  intro hall
  obtain ⟨t, hrun, ht⟩ := Option.map_eq_some_iff.mp h
  exact of_decide_eq_false ht (hall t hrun)

theorem workflow_version_reused :
    (¬ ∀ t, workflows.run (.start []) firstPublication = some t → KeepsWorkflow t) ∧
      ¬ ∀ t, workflows.run (.start []) racedPublications = some t → KeepsWorkflow t :=
  ⟨not_kept (by decide), not_kept (by decide)⟩

/-- A story under the first published definition, while the second one is
published. -/
def publishedStory : List WorkflowAction :=
  publishStory shortStory ++ createStory 1 ++ publishStory guardedStory ++ finishStory 1 0

theorem workflow_kept_published :
    ∃ t, workflows.run (.start []) publishedStory = some t ∧
      t.items.map (fun i => (i.workflowVersion, i.status)) = [(1, "Done")] ∧ KeepsWorkflow t := by
  have hdone : (workflows.run (.start []) publishedStory).map (fun s =>
      s.items.map fun i => (i.workflowVersion, i.status)) = some [(1, "Done")] := by
    decide
  obtain ⟨t, hrun, ht⟩ := Option.map_eq_some_iff.mp hdone
  exact ⟨t, hrun, ht, workflow_kept [] publishedStory (by decide) hrun⟩

end Cadena.WorkItems
