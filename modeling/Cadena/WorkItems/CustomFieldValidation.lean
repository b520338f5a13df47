import Cadena.WorkItems.UpdateWorkItem
import Cadena.WorkItems.WorkflowVersions

/-!
# Custom fields and their schema

The three calls that write the custom fields of an item, one after the other.
A creation is validated as it is stored. An update is validated when it names
custom fields; one that does not still stores the defaults of the schema with
the rest. A transition merges its fields into the stored ones and asks no
schema.
-/

namespace Cadena.WorkItems

open Cadena.Base Cadena.Connectors

/-- `validateCustomFields` and the latest schemas of the types; `[]` is
valid. -/
structure FieldSchemas where
  validate : Json → Fields → List String
  latest : WorkItemType → Option CustomFieldSchema

def FieldSchemas.errors (V : FieldSchemas) (type : WorkItemType) (fields : Fields) : List String :=
  match V.latest type with
  | none => []
  | some s => V.validate s.schema fields

structure ItemStore where
  items : List WorkItem
  ids : (items.map (·.id)).Nodup

def ItemStore.empty : ItemStore := ⟨[], List.nodup_nil⟩

def ItemStore.find (s : ItemStore) (id orgId : Uuid) : Option WorkItem :=
  s.items.find? fun i => i.id == id && i.orgId == orgId

def ItemStore.insert (s : ItemStore) (row : WorkItem) (h : s.items.any (·.id == row.id) = false) :
    ItemStore where
  items := s.items ++ [row]
  ids := Table.nodup_insert_unless s.ids h

def ItemStore.update (s : ItemStore) (p : WorkItem → Bool) (f : WorkItem → WorkItem)
    (hid : ∀ r, (f r).id = r.id) : ItemStore where
  items := Table.update p f s.items
  ids := (Table.update_column WorkItem.id hid s.items).symm ▸ s.ids

/-! ## The calls -/

/-- What a call finds besides the item. -/
structure CallContext where
  definitions : List WorkflowRow
  pick : Nat
  policies : List SlaPolicy
  now : Millis

inductive CallError where
  | invalidCustomFields (errors : List String)
  | duplicateId
  | update (e : UpdateError)
  | itemNotFound (id : Uuid)
  | transition (e : TransitionError)
  | changedBeforeCommit
  deriving DecidableEq

structure TransitionResult where
  id : Uuid
  fromState : String
  toState : String
  customFields : Fields
  updatedAt : Millis

inductive CallResult where
  | created (item : WorkItem)
  | updated (item : Option WorkItem)
  | moved (result : TransitionResult)

/-- The row has the fields of the request; the answer has those of the
defaults too. -/
def createWorkItem (V : FieldSchemas) (env : CallContext) (s : ItemStore) (dto : NewWorkItem) :
    ItemStore × Except CallError CallResult :=
  match V.errors dto.type dto.customFields with
  | [] =>
    let row := createdItem dto (getWorkflowDefinition env.definitions env.pick dto.type.text none)
    if h : s.items.any (·.id == row.id) = false then
      (s.insert row h, .ok (.created (mapRowToWorkItem (V.latest dto.type) row)))
    else (s, .error .duplicateId)
  | errors => (s, .error (.invalidCustomFields errors))

def getWorkItemById (V : FieldSchemas) (s : ItemStore) (id orgId : Uuid) : Option WorkItem :=
  (s.find id orgId).map fun row => mapRowToWorkItem (V.latest row.type) row

def updateWorkItem (V : FieldSchemas) (s : ItemStore) (id orgId : Uuid) (dto : UpdateWorkItemDto) :
    ItemStore × Except CallError CallResult :=
  match getWorkItemById V s id orgId with
  | none => (s, .ok (.updated none))
  | some current =>
    match checkUpdate V.validate (V.latest current.type) dto current with
    | .error e => (s, .error (.update e))
    | .ok () =>
      if changesItem dto current then
        let t := s.update (fun i => i.id == id && i.orgId == orgId) (setEditable (dto.next current))
          fun _ => rfl
        (t, .ok (.updated (getWorkItemById V t id orgId)))
      else (s, .ok (.updated (some current)))

/-- The rules that govern an item. -/
def workflowIn (env : CallContext) (item : WorkItem) : Option PublishedWorkflow :=
  getWorkflowDefinition env.definitions env.pick item.type.text (some item.workflowVersion)

def transitionWorkItem (env : CallContext) (s : ItemStore) (id orgId : Uuid) (ctx : TransitionContext) :
    ItemStore × Except CallError CallResult :=
  match s.find id orgId with
  | none => (s, .error (.itemNotFound id))
  | some item =>
    match planTransition item (workflowIn env item) ctx with
    | .error e => (s, .error (.transition e))
    | .ok mergedFields =>
      let change := stateChangeOf env.policies item ctx.toState env.now mergedFields
      let here (i : WorkItem) : Bool := i.id == id && i.orgId == orgId && i.status == change.fromState
      if s.items.any here then
        (s.update here change.apply fun _ => rfl,
          .ok (.moved ⟨id, item.status, ctx.toState, mergedFields, env.now⟩))
      else (s, .error .changedBeforeCommit)

inductive ItemCall where
  | create (env : CallContext) (dto : NewWorkItem)
  | update (id orgId : Uuid) (dto : UpdateWorkItemDto)
  | transition (env : CallContext) (id orgId : Uuid) (ctx : TransitionContext)

def callItem (V : FieldSchemas) (s : ItemStore) : ItemCall → ItemStore × Except CallError CallResult
  | .create env dto => createWorkItem V env s dto
  | .update id orgId dto => updateWorkItem V s id orgId dto
  | .transition env id orgId ctx => transitionWorkItem env s id orgId ctx

/-- A call is always answered, be it with an error. -/
def itemCalls (V : FieldSchemas) : System ItemStore ItemCall := ⟨fun s call => some (callItem V s call).1⟩

/-- The fields of a locally owned item satisfy the schema of its type. -/
def Conforms (V : FieldSchemas) (item : WorkItem) : Prop :=
  item.source = none → V.errors item.type item.customFields = []

def AllConform (V : FieldSchemas) (s : ItemStore) : Prop := ∀ item ∈ s.items, Conforms V item

/-- An update that names no custom fields finds fields that satisfy the schema
together with the defaults, if it changes anything; the fields of a transition
satisfy it when they are laid over the stored ones, if it is allowed. -/
def MeetsSchema (V : FieldSchemas) (s : ItemStore) : ItemCall → Prop
  | .create .. => True
  | .update id orgId dto =>
    dto.customFields = none → ∀ current ∈ getWorkItemById V s id orgId, current.source = none →
      checkUpdate V.validate (V.latest current.type) dto current = .ok () → changesItem dto current = true →
        V.errors current.type current.customFields = []
  | .transition env id orgId ctx =>
    ∀ item ∈ s.find id orgId, (∃ fields, planTransition item (workflowIn env item) ctx = .ok fields) →
      V.errors item.type (spread item.customFields ctx.fields) = []

/-! ## One call -/

section
variable {V : FieldSchemas} {s : ItemStore}

theorem find_spec {id orgId : Uuid} {row : WorkItem} (h : s.find id orgId = some row) :
    row ∈ s.items ∧ row.id = id ∧ row.orgId = orgId := by
  have hkey := List.find?_some h
  simp only [Bool.and_eq_true, beq_iff_eq] at hkey
  exact ⟨List.mem_of_find?_eq_some h, hkey⟩

theorem and_of_beq {α β : Type} [BEq α] [LawfulBEq α] [BEq β] [LawfulBEq β] {a a' : α} {b b' : β}
    (h : (a == a' && b == b') = true) : a = a' ∧ b = b' := by
  simpa using h

theorem allConform_update (h : AllConform V s) {row : WorkItem} (hrow : row ∈ s.items)
    {p : WorkItem → Bool} (hp : p row = true) (hkey : ∀ r, p r = true → r.id = row.id)
    {f : WorkItem → WorkItem} (hid : ∀ r, (f r).id = r.id) :
    AllConform V (s.update p f hid) ↔ Conforms V (f row) := by
  constructor
  · exact fun hall => hall _ (Table.mem_update.mpr (.inl ⟨row, hrow, hp, rfl⟩))
  · intro hconforms item hitem
    rcases Table.mem_update.mp hitem with ⟨r, hr, hpr, rfl⟩ | ⟨hold, -⟩
    · rw [Table.eq_of_key s.ids hr hrow (hkey r hpr)]
      exact hconforms
    · exact h item hold

theorem createWorkItem_conforms (h : AllConform V s) (env : CallContext) (dto : NewWorkItem) :
    AllConform V (createWorkItem V env s dto).1 := by
  unfold createWorkItem
  split
  · rename_i hvalid
    dsimp only
    split
    · intro item hitem
      rcases List.mem_append.mp hitem with hold | hnew
      · exact h item hold
      · rw [List.mem_singleton.mp hnew]
        exact fun _ => hvalid
    · exact h
  · exact h

theorem checkUpdate_fields {dto : UpdateWorkItemDto} {current : WorkItem}
    (h : checkUpdate V.validate (V.latest current.type) dto current = .ok ())
    (hfields : dto.customFields.isSome = true) : V.errors current.type (dto.next current).customFields = [] := by
  unfold FieldSchemas.errors
  cases hlatest : V.latest current.type with
  | none => rfl
  | some schema =>
    by_contra hinvalid
    simp only [checkUpdate, hlatest, hfields, if_true, if_pos hinvalid] at h
    repeat' split at h
    all_goals cases h

theorem planTransition_ok {item : WorkItem} {wf : Option PublishedWorkflow} {ctx : TransitionContext}
    {fields : Fields} (h : planTransition item wf ctx = .ok fields) :
    item.source = none ∧ fields = spread item.customFields ctx.fields := by
  unfold planTransition at h
  split at h
  · cases h
  · rename_i hsource
    refine ⟨Option.not_isSome_iff_eq_none.mp hsource, ?_⟩
    dsimp only at h
    split at h
    · cases h
    · rename_i rule _
      simp only [bind, Except.bind, pure, Except.pure] at h
      repeat' split at h
      all_goals cases h
      all_goals rfl

theorem updateWorkItem_conforms (h : AllConform V s) (id orgId : Uuid) (dto : UpdateWorkItemDto) :
    AllConform V (updateWorkItem V s id orgId dto).1 ↔ MeetsSchema V s (.update id orgId dto) := by
  rw [updateWorkItem, MeetsSchema, getWorkItemById]
  cases hfind : s.find id orgId with
  | none => simp [h]
  | some row =>
    obtain ⟨hrow, rfl, rfl⟩ := find_spec hfind
    simp only [Option.map_some, Option.mem_some_iff, forall_eq']
    generalize hcurrent : mapRowToWorkItem (V.latest row.type) row = current
    have htype : current.type = row.type := hcurrent ▸ rfl
    have hsource : current.source = row.source := hcurrent ▸ rfl
    cases hcheck : checkUpdate V.validate (V.latest current.type) dto current with
    | error e => simp [h]
    | ok u =>
      cases hchanges : changesItem dto current with
      | false => simp [h]
      | true =>
        have hrows : AllConform V (s.update (fun i => i.id == row.id && i.orgId == row.orgId)
            (setEditable (dto.next current)) fun _ => rfl) ↔
              (row.source = none → V.errors row.type (dto.next current).customFields = []) :=
          allConform_update h hrow (by simp) (fun r hr => (and_of_beq hr).1) _
        rw [if_pos rfl, hrows, ← htype, ← hsource]
        cases hfields : dto.customFields with
        | none =>
          have hnext : (dto.next current).customFields = current.customFields := by
            simp [UpdateWorkItemDto.next, hfields]
          rw [hnext]
          exact ⟨fun hvalid _ howned _ _ => hvalid howned, fun hvalid howned => hvalid rfl howned rfl rfl⟩
        | some fields =>
          have hvalid := checkUpdate_fields hcheck (hfields ▸ rfl)
          simp [hvalid]

theorem transitionWorkItem_conforms (h : AllConform V s) (env : CallContext) (id orgId : Uuid)
    (ctx : TransitionContext) :
    AllConform V (transitionWorkItem env s id orgId ctx).1 ↔ MeetsSchema V s (.transition env id orgId ctx) := by
  rw [transitionWorkItem, MeetsSchema]
  cases hfind : s.find id orgId with
  | none => simp [h]
  | some item =>
    obtain ⟨hitem, rfl, rfl⟩ := find_spec hfind
    simp only [Option.mem_some_iff, forall_eq']
    cases hplan : planTransition item (workflowIn env item) ctx with
    | error e => simp [h]
    | ok fields =>
      obtain ⟨hsource, rfl⟩ := planTransition_ok hplan
      have hhere : s.items.any (fun i => i.id == item.id && i.orgId == item.orgId && i.status == item.status)
          = true := List.any_eq_true.mpr ⟨item, hitem, by simp⟩
      have hrows : AllConform V (s.update
          (fun i => i.id == item.id && i.orgId == item.orgId && i.status == item.status)
          (stateChangeOf env.policies item ctx.toState env.now (spread item.customFields ctx.fields)).apply
          fun _ => rfl) ↔
            (item.source = none → V.errors item.type (spread item.customFields ctx.fields) = []) :=
        allConform_update h hitem (by simp) (fun r hr => (and_of_beq (Bool.and_elim_left hr)).1) _
      have hok : ∃ fields, Except.ok (ε := TransitionError) (spread item.customFields ctx.fields) = .ok fields :=
        ⟨_, rfl⟩
      dsimp only
      split
      · exact hrows.trans ⟨fun hvalid _ => hvalid hsource, fun hvalid _ => hvalid hok⟩
      · exact absurd hhere ‹_›

theorem callItem_conforms (h : AllConform V s) (call : ItemCall) :
    AllConform V (callItem V s call).1 ↔ MeetsSchema V s call := by
  cases call with
  | create env dto => exact iff_of_true (createWorkItem_conforms h env dto) trivial
  | update id orgId dto => exact updateWorkItem_conforms h id orgId dto
  | transition env id orgId ctx => exact transitionWorkItem_conforms h env id orgId ctx

theorem callItem_refused {call : ItemCall} {t : ItemStore} {e : CallError}
    (h : callItem V s call = (t, .error e)) : t = s := by
  cases call with
  | create env dto =>
    simp only [callItem, createWorkItem] at h
    repeat' split at h
    all_goals cases h
    all_goals rfl
  | update id orgId dto =>
    simp only [callItem, updateWorkItem] at h
    repeat' split at h
    all_goals cases h
    all_goals rfl
  | transition env id orgId ctx =>
    simp only [callItem, transitionWorkItem] at h
    repeat' split at h
    all_goals cases h
    all_goals rfl

end

theorem itemCalls_run (V : FieldSchemas) (s : ItemStore) (calls : List ItemCall) :
    ∃ t, (itemCalls V).run s calls = some t := by
  induction calls generalizing s with
  | nil => exact ⟨s, rfl⟩
  | cons call calls ih =>
    obtain ⟨t, ht⟩ := ih (callItem V s call).1
    exact ⟨t, (itemCalls V).run_cons.mpr ⟨_, rfl, ht⟩⟩

/-- The stored fields satisfy the schemas after every call exactly if every
call meets them, and what a refused call finds stays. -/
theorem custom_fields_conform (V : FieldSchemas) {s : ItemStore} (h : AllConform V s) (calls : List ItemCall) :
    ((itemCalls V).Throughout (AllConform V) s calls ↔ (itemCalls V).Along (MeetsSchema V) s calls) ∧
      ∀ u call t e, callItem V u call = (t, .error e) → t = u := by
  refine ⟨?_, fun u call t e => callItem_refused⟩
  obtain ⟨t, ht⟩ := itemCalls_run V s calls
  have hstep : ∀ {s call t}, True → AllConform V s → (itemCalls V).step s call = some t →
      (AllConform V t ↔ MeetsSchema V s call) := by
    intro s call t _ hs hstep
    obtain rfl := Option.some.inj hstep
    exact callItem_conforms hs call
  exact (itemCalls V).throughout_iff (fun _ _ => trivial) hstep trivial h ht

/-- Stories have points, which are no text. -/
def pointsSchema : FieldSchemas where
  validate _ fields :=
    match lookup fields "points" with
    | some (.str _) => ["/points must be number"]
    | _ => []
  latest
    | .story => some ⟨.null, [("sprint", .str "Unassigned")]⟩
    | _ => none

def exportRequest : NewWorkItem :=
  ⟨1, 1, .story, "Ledger export", "", .p2, none, none, 1, [("points", .null)], [], 0⟩

def emptyContext : CallContext := ⟨[], 0, [], 60000⟩

def plannedWith (fields : Fields) : ItemCall :=
  .transition emptyContext 1 1 ⟨"Planned", "member", fields⟩

/-- The transition stores what an update would be refused for. -/
theorem text_points_stored : ¬ ∀ (V : FieldSchemas) (calls : List ItemCall),
    (itemCalls V).Throughout (AllConform V) .empty calls := by
  intro h
  have hthroughout := h pointsSchema [.create emptyContext exportRequest, plannedWith [("points", .str "three")]]
  obtain ⟨t, ht, hfields⟩ : ∃ t, (itemCalls pointsSchema).run .empty
      [.create emptyContext exportRequest, plannedWith [("points", .str "three")]] = some t ∧
        t.items.map (fun item => (item.source.isSome, pointsSchema.errors item.type item.customFields)) =
          [(false, ["/points must be number"])] := ⟨_, rfl, by decide⟩
  have hall := (itemCalls pointsSchema).throughout_end hthroughout ht
  obtain ⟨item, hitems, hitem⟩ := List.map_eq_singleton_iff.mp hfields
  obtain ⟨hlocal, herrors⟩ := Prod.mk.inj hitem
  have hsource : item.source = none := Option.isNone_iff_eq_none.mp (Option.isSome_eq_false_iff.mp hlocal)
  have hvalid := hall item (hitems ▸ List.mem_singleton_self item) hsource
  rw [herrors] at hvalid
  cases hvalid

theorem planned_with_points : ((itemCalls pointsSchema).Throughout (AllConform pointsSchema) .empty
      [.create emptyContext exportRequest, plannedWith [("points", .null)]] ↔
    (itemCalls pointsSchema).Along (MeetsSchema pointsSchema) .empty
      [.create emptyContext exportRequest, plannedWith [("points", .null)]]) ∧
    ∀ u call t e, callItem pointsSchema u call = (t, .error e) → t = u :=
  custom_fields_conform pointsSchema (fun _ h => absurd h List.not_mem_nil) _

end Cadena.WorkItems
