import Cadena.Base.ChangeLog
import Cadena.Connectors.PickedFields
import Cadena.WorkItems.UpdateWorkItem
import Cadena.WorkItems.Workflow

/-!
# Edits and transitions of one item

Requests that read the item in one step and commit in a later one. A PATCH
sets every editable column and a transition all the custom fields, from what
they have read. As long as a commit meets the values that were read
(`MeetsRead`), each column has the value last supplied for it and the
recorded events explain the row.
-/

namespace Cadena.WorkItems

open Cadena.Base Cadena.Connectors

/-- A column that requests supply, or a key of the custom fields. -/
inductive Column where
  | plain (f : PlainField)
  | status
  | customField (key : String)

def WorkItem.content (item : WorkItem) : Column → Option Text
  | .plain f => some (render (item.plain f))
  | .status => some (render (.str item.status))
  | .customField key => (lookup item.customFields key).map render

/-- The other columns; those of the clock follow the transitions. -/
def WorkItem.elsewhere (item : WorkItem) : WorkItem :=
  { item with
    title := ""
    description := ""
    status := ""
    priority := .p0
    severity := none
    ownerId := none
    enteredStateAt := 0
    sla := ⟨0, none, false⟩
    customFields := []
    tags := [] }

inductive EditRequest where
  | update (dto : UpdateWorkItemDto)
  | transition (ctx : TransitionContext)

def EditRequest.supplied : EditRequest → Column → Option Text
  | .update dto, .plain f => (dto.plain f).map render
  | .update _, .status => none
  | .update dto, .customField key =>
    (dto.customFields.bind fun fs => lookup (spread [] fs) key).map render
  | .transition _, .plain _ => none
  | .transition ctx, .status => some (render (.str ctx.toState))
  | .transition ctx, .customField key => (lookup (spread [] ctx.fields) key).map render

/-- `WorkItemFieldsChanged`, and `WorkItemStateChanged` with the custom fields
of its `before` and `after`. -/
inductive EditEvent where
  | fieldsChanged (before after : ChangedFields)
  | stateChanged (fromState toState : String) (before after : Fields)

def fieldsChangedEvent (dto : UpdateWorkItemDto) (current : WorkItem) : EditEvent :=
  .fieldsChanged (changedFields dto current current) (changedFields dto current (dto.next current))

/-- The supplied keys, with `value ?? null` before. -/
def stateChangedEvent (ctx : TransitionContext) (item : WorkItem) : EditEvent :=
  let mergedFields := spread item.customFields ctx.fields
  let supplied := spread [] ctx.fields
  .stateChanged item.status ctx.toState
    (supplied.map fun e => (e.1, (lookup item.customFields e.1).getD .null))
    (supplied.map fun e => (e.1, (lookup mergedFields e.1).getD .null))

/-- The content has the values that the event gives as those before; an absent
key is `null` for a transition. -/
def EditEvent.fits : EditEvent → (Column → Option Text) → Prop
  | .fieldsChanged before _, content =>
    (∀ f, ∀ v ∈ before.plain f, content (.plain f) = some (render v)) ∧
      ∀ fields ∈ before.customFields, ∀ key,
        content (.customField key) = (lookup fields key).map render
  | .stateChanged fromState _ before _, content =>
    content .status = some (render (.str fromState)) ∧
      ∀ e ∈ before, (content (.customField e.1)).getD (render .null) = render e.2

/-- The values after are put in place: the whole custom fields of an edit, the
supplied keys of a transition. -/
def EditEvent.apply : EditEvent → (Column → Option Text) → Column → Option Text
  | .fieldsChanged _ after, content, .plain f =>
    ((after.plain f).map render).or (content (.plain f))
  | .fieldsChanged _ _, content, .status => content .status
  | .fieldsChanged _ after, content, .customField key =>
    match after.customFields with
    | some fields => (lookup fields key).map render
    | none => content (.customField key)
  | .stateChanged .., content, .plain f => content (.plain f)
  | .stateChanged _ toState _ _, _, .status => some (render (.str toState))
  | .stateChanged _ _ _ after, content, .customField key =>
    ((lookup after key).map render).or (content (.customField key))

/-! ## The system -/

/-- A request that has passed its checks, with the item it has read. -/
inductive PendingEdit where
  | update (dto : UpdateWorkItemDto) (current : WorkItem)
  | transition (ctx : TransitionContext) (item : WorkItem)

/-- `committed` are the requests in the order of their commits. -/
structure EditState where
  item : WorkItem
  requests : Nat → Option PendingEdit
  committed : List EditRequest
  events : List EditEvent

inductive EditAction where
  | readUpdate (request : Nat) (schema latest : Option CustomFieldSchema) (dto : UpdateWorkItemDto)
  | readTransition (request : Nat) (wf : Option PublishedWorkflow) (ctx : TransitionContext)
  | commit (request : Nat) (policies : List SlaPolicy) (now : Millis)

/-- A request that is refused, or that changes nothing, ends with its read. -/
def readUpdateStep (validate : Json → Fields → List String) (s : EditState) (r : Nat)
    (schema latest : Option CustomFieldSchema) (dto : UpdateWorkItemDto) : Option EditState :=
  match s.requests r with
  | some _ => none
  | none =>
    let current := mapRowToWorkItem schema s.item
    match checkUpdate validate latest dto current with
    | .error _ => some s
    | .ok () =>
      if changesItem dto current then
        some { s with requests := setAt s.requests r (some (.update dto current)) }
      else some s

def readTransitionStep (s : EditState) (r : Nat) (wf : Option PublishedWorkflow)
    (ctx : TransitionContext) : Option EditState :=
  match s.requests r with
  | some _ => none
  | none =>
    match planTransition s.item wf ctx with
    | .error _ => some s
    | .ok _ => some { s with requests := setAt s.requests r (some (.transition ctx s.item)) }

def commitEditStep (s : EditState) (r : Nat) (policies : List SlaPolicy) (now : Millis) :
    Option EditState :=
  match s.requests r with
  | none => none
  | some (.update dto current) =>
    some
      { item := setEditable (dto.next current) s.item
        requests := setAt s.requests r none
        committed := s.committed ++ [.update dto]
        events := s.events ++ [fieldsChangedEvent dto current] }
  | some (.transition ctx item) =>
    match (moveOf policies item ctx.toState now ctx.fields).commit s.item with
    | none => some { s with requests := setAt s.requests r none }
    | some row =>
      some
        { item := row
          requests := setAt s.requests r none
          committed := s.committed ++ [.transition ctx]
          events := s.events ++ [stateChangedEvent ctx item] }

def editStep (validate : Json → Fields → List String) (s : EditState) :
    EditAction → Option EditState
  | .readUpdate r schema latest dto => readUpdateStep validate s r schema latest dto
  | .readTransition r wf ctx => readTransitionStep s r wf ctx
  | .commit r policies now => commitEditStep s r policies now

def editSystem (validate : Json → Fields → List String) : System EditState EditAction :=
  ⟨editStep validate⟩

def EditState.start (item : WorkItem) : EditState := ⟨item, fun _ => none, [], []⟩

/-- Every column has the value last supplied for it, else its first one, and
the events lead from the first content to the present one. -/
structure EditsKept (item : WorkItem) (s : EditState) : Prop where
  last : s.item.content = lastSupplied EditRequest.supplied item.content s.committed
  elsewhere : s.item.elsewhere = item.elsewhere
  explained : Explains EditEvent.fits EditEvent.apply item.content s.events s.item.content

/-- The objects have the same values. -/
def SameFields (a b : Fields) : Prop :=
  ∀ key ∈ (a ++ b).map (·.1), (lookup a key).map render = (lookup b key).map render

instance (a b : Fields) : Decidable (SameFields a b) :=
  inferInstanceAs (Decidable (∀ key ∈ (a ++ b).map (·.1),
    (lookup a key).map render = (lookup b key).map render))

/-- The row has the values that the request has read, where its commit sets
them: an edit the editable fields, a transition the custom fields. -/
def PendingEdit.isCurrent (row : WorkItem) : PendingEdit → Prop
  | .update _ current =>
    (∀ f ∈ PlainField.all, render (row.plain f) = render (current.plain f)) ∧
      SameFields row.customFields current.customFields
  | .transition _ item => row.status = item.status → SameFields row.customFields item.customFields

instance (row : WorkItem) : ∀ request : PendingEdit, Decidable (request.isCurrent row)
  | .update _ current => inferInstanceAs (Decidable ((∀ f ∈ PlainField.all,
      render (row.plain f) = render (current.plain f)) ∧
        SameFields row.customFields current.customFields))
  | .transition _ item => inferInstanceAs (Decidable (row.status = item.status →
      SameFields row.customFields item.customFields))

def MeetsRead (s : EditState) : EditAction → Prop
  | .commit r _ _ => ∀ request ∈ s.requests r, request.isCurrent s.item
  | _ => True

instance (s : EditState) : ∀ a, Decidable (MeetsRead s a)
  | .commit r _ _ => inferInstanceAs (Decidable (∀ request ∈ s.requests r, request.isCurrent s.item))
  | .readUpdate .. | .readTransition .. => isTrue trivial

/-! ## One commit -/

theorem SameFields.lookup_eq {a b : Fields} (h : SameFields a b) (key : String) :
    (lookup a key).map render = (lookup b key).map render := by
  by_cases hkey : key ∈ (a ++ b).map (·.1)
  · exact h key hkey
  · rw [List.map_append, List.mem_append, not_or] at hkey
    rw [Option.not_isSome_iff_eq_none.mp (mt lookup_isSome.mp hkey.1),
      Option.not_isSome_iff_eq_none.mp (mt lookup_isSome.mp hkey.2)]

theorem lookup_map_keys (g : String → Json) (fields : Fields) (key : String) :
    lookup (fields.map fun e => (e.1, g e.1)) key = (lookup fields key).map fun _ => g key := by
  induction fields with
  | nil => rfl
  | cons e fields ih =>
    simp only [lookup, List.map_cons, List.find?_cons] at ih ⊢
    by_cases h : e.1 = key
    · simp [h]
    · simpa [h] using ih

/-- What a commit does to the content: the values that the request supplies. -/
def overlay (request : EditRequest) (content : Column → Option Text) (c : Column) : Option Text :=
  (request.supplied c).or (content c)

section
variable {row current : WorkItem} {dto : UpdateWorkItemDto}

theorem update_content (h : (PendingEdit.update dto current).isCurrent row) :
    (setEditable (dto.next current) row).content = overlay (.update dto) row.content := by
  funext c
  cases c with
  | plain f =>
    have hread := h.1 f f.mem_all
    show some (render ((setEditable (dto.next current) row).plain f)) =
      ((dto.plain f).map render).or (some (render (row.plain f)))
    rw [setEditable_plain, next_plain, hread]
    cases dto.plain f <;> rfl
  | status => rfl
  | customField key =>
    show (lookup (dto.next current).customFields key).map render = _
    rw [next_customFields, Option.map_or, ← h.2.lookup_eq key]
    rfl

theorem update_fits (h : (PendingEdit.update dto current).isCurrent row) :
    (fieldsChangedEvent dto current).fits row.content := by
  constructor
  · intro f v hv
    obtain ⟨-, hread⟩ := Option.ite_none_right_eq_some.mp hv
    obtain rfl := Option.some.inj hread
    exact congrArg some (h.1 f f.mem_all)
  · intro fields hfields key
    obtain ⟨-, hread⟩ := Option.ite_none_right_eq_some.mp hfields
    obtain rfl := Option.some.inj hread
    exact h.2.lookup_eq key

theorem update_explained (h : (PendingEdit.update dto current).isCurrent row) :
    (fieldsChangedEvent dto current).apply row.content =
      (setEditable (dto.next current) row).content := by
  funext c
  cases c with
  | plain f =>
    have hread := h.1 f f.mem_all
    show ((if changesPlain dto current f then some ((dto.next current).plain f) else none).map
      render).or (some (render (row.plain f))) = some (render ((setEditable _ row).plain f))
    rw [setEditable_plain]
    cases hchange : changesPlain dto current f with
    | true => rfl
    | false => exact congrArg some (hread.trans (plain_of_not_changed hchange).symm)
  | status => rfl
  | customField key =>
    show (match (if changesCustomFields dto current then some (dto.next current).customFields
      else none) with
        | some fields => (lookup fields key).map render
        | none => (lookup row.customFields key).map render) =
      (lookup (dto.next current).customFields key).map render
    cases hchange : changesCustomFields dto current with
    | true => rfl
    | false => exact (h.2.lookup_eq key).trans (customFields_of_not_changed hchange key).symm

end

section
variable {row item : WorkItem} {ctx : TransitionContext} {policies : List SlaPolicy} {now : Millis}

theorem transition_content (h : SameFields row.customFields item.customFields) :
    ((moveOf policies item ctx.toState now ctx.fields).apply row).content =
      overlay (.transition ctx) row.content := by
  funext c
  cases c with
  | plain f => cases f <;> rfl
  | status => rfl
  | customField key =>
    show (lookup (spread item.customFields ctx.fields) key).map render = _
    rw [lookup_spread, Option.map_or, ← h.lookup_eq key]
    rfl

theorem transition_fits (hstatus : row.status = item.status)
    (h : SameFields row.customFields item.customFields) :
    (stateChangedEvent ctx item).fits row.content := by
  refine ⟨by rw [← hstatus]; rfl, fun e he => ?_⟩
  obtain ⟨d, -, rfl⟩ := List.mem_map.mp he
  show ((lookup row.customFields d.1).map render).getD (render .null) = _
  rw [h.lookup_eq, Option.getD_map]

theorem transition_explained (h : SameFields row.customFields item.customFields) :
    (stateChangedEvent ctx item).apply row.content =
      ((moveOf policies item ctx.toState now ctx.fields).apply row).content := by
  rw [transition_content h]
  funext c
  cases c with
  | plain f => rfl
  | status => rfl
  | customField key =>
    show ((lookup ((spread [] ctx.fields).map fun e => (e.1,
      (lookup (spread item.customFields ctx.fields) e.1).getD .null)) key).map render).or
        ((lookup row.customFields key).map render) =
      ((lookup (spread [] ctx.fields) key).map render).or ((lookup row.customFields key).map render)
    rw [lookup_map_keys (fun k => (lookup (spread item.customFields ctx.fields) k).getD .null),
      lookup_spread item.customFields]
    cases lookup (spread [] ctx.fields) key <;> rfl

end

/-! ## Runs -/

section
variable {item : WorkItem} {s t : EditState}

/-- A commit that does to the content what the request supplies, and whose
event says so, keeps the history. -/
theorem EditsKept.commit (h : EditsKept item s) {request : EditRequest} {event : EditEvent}
    {row : WorkItem} {requests : Nat → Option PendingEdit}
    (hcontent : row.content = overlay request s.item.content)
    (helsewhere : row.elsewhere = s.item.elsewhere) (hfits : event.fits s.item.content)
    (hexplained : event.apply s.item.content = row.content) :
    EditsKept item ⟨row, requests, s.committed ++ [request], s.events ++ [event]⟩ where
  last := by
    funext c
    rw [lastSupplied_snoc, ← h.last]
    exact congrFun hcontent c
  elsewhere := helsewhere.trans h.elsewhere
  explained := by
    have hall := h.explained.snoc hfits
    rwa [hexplained] at hall

theorem EditsKept.commitStep (h : EditsKept item s) {r : Nat} {policies : List SlaPolicy}
    {now : Millis} (hmeets : MeetsRead s (.commit r policies now))
    (hstep : commitEditStep s r policies now = some t) : EditsKept item t := by
  unfold commitEditStep at hstep
  split at hstep
  · cases hstep
  · rename_i dto current hrequest
    obtain rfl := Option.some.inj hstep
    have hcurrent := hmeets _ hrequest
    exact h.commit (update_content hcurrent) rfl (update_fits hcurrent) (update_explained hcurrent)
  · rename_i ctx read hrequest
    split at hstep
    · obtain rfl := Option.some.inj hstep
      exact ⟨h.last, h.elsewhere, h.explained⟩
    · rename_i row hrow
      obtain rfl := Option.some.inj hstep
      obtain ⟨hstatus, happlied⟩ := Option.ite_none_right_eq_some.mp hrow
      obtain rfl := Option.some.inj happlied
      have hsame := hmeets _ hrequest hstatus
      exact h.commit (transition_content hsame) rfl (transition_fits hstatus hsame)
        (transition_explained hsame)

theorem EditsKept.step {validate : Json → Fields → List String} (h : EditsKept item s)
    {a : EditAction} (hmeets : MeetsRead s a) (hstep : editStep validate s a = some t) :
    EditsKept item t := by
  cases a with
  | readUpdate r schema latest dto =>
    simp only [editStep, readUpdateStep] at hstep
    split at hstep
    · cases hstep
    · split at hstep
      · exact Option.some.inj hstep ▸ h
      · split at hstep
        all_goals
          obtain rfl := Option.some.inj hstep
          exact ⟨h.last, h.elsewhere, h.explained⟩
  | readTransition r wf ctx =>
    simp only [editStep, readTransitionStep] at hstep
    split at hstep
    · cases hstep
    · split at hstep
      all_goals
        obtain rfl := Option.some.inj hstep
        exact ⟨h.last, h.elsewhere, h.explained⟩
  | commit r policies now => exact h.commitStep hmeets hstep

theorem EditsKept.start (item : WorkItem) : EditsKept item (.start item) := ⟨rfl, rfl, rfl⟩

end

/-- As long as every commit meets the values that its request has read, no
edit is lost and the events tell what happened. -/
theorem edits_kept (validate : Json → Fields → List String) (item : WorkItem)
    (acts : List EditAction) (t : EditState)
    (hmeets : (editSystem validate).Along MeetsRead (.start item) acts)
    (hrun : (editSystem validate).run (.start item) acts = some t) : EditsKept item t :=
  (editSystem validate).along_invariant (fun h hmeets hstep => h.step hmeets hstep)
    (.start item) hmeets hrun

/-! ## Two edits at a time -/

def ledgerStory : WorkItem where
  id := 1
  orgId := 1
  itemKey := "STORY-1"
  type := .story
  title := "Ledger export"
  description := ""
  status := "Proposed"
  workflowVersion := 1
  priority := .p2
  severity := none
  ownerId := none
  teamId := 1
  enteredStateAt := 0
  createdAt := 0
  agingBucket := .green
  agingScore := 0
  sla := ⟨0, none, false⟩
  customFields := [("area", .str "ledger")]
  tags := []
  source := none

def retitle (title : String) : UpdateWorkItemDto := ⟨some title, none, none, none, none, none, none, []⟩

def raise (priority : WorkItemPriority) : UpdateWorkItemDto :=
  ⟨none, none, some priority, none, none, none, none, []⟩

def crossingEdits : List EditAction :=
  [.readUpdate 0 none none (retitle "Ledger import"), .readUpdate 1 none none (raise .p0),
    .commit 0 [] 60000, .commit 1 [] 120000]

/-- The second edit, which names the priority only, takes the new title back. -/
theorem crossing_edits : ¬ ∀ (validate : Json → Fields → List String) (item : WorkItem)
    (acts : List EditAction) (t : EditState), item.source = none →
      (editSystem validate).run (.start item) acts = some t → (∀ r, t.requests r = none) →
        EditsKept item t := by
  intro h
  obtain ⟨t, ht, hrequests, htitle, hsupplied⟩ : ∃ t,
      (editSystem fun _ _ => []).run (.start ledgerStory) crossingEdits = some t ∧
        (∀ r, t.requests r = none) ∧
        t.item.content (.plain .title) = some (render (.str "Ledger export")) ∧
        lastSupplied EditRequest.supplied ledgerStory.content t.committed (.plain .title) =
          some (render (.str "Ledger import")) := by
    refine ⟨_, rfl, fun r => ?_, by decide, by decide⟩
    by_cases h1 : r = 1 <;> by_cases h0 : r = 0 <;> simp [setAt, EditState.start, h1, h0]
  have hlast := congrFun (h _ ledgerStory crossingEdits t rfl ht hrequests).last (.plain .title)
  rw [htitle, hsupplied] at hlast
  exact absurd hlast (by decide)

def sequentialEdits : List EditAction :=
  [.readUpdate 0 none none (retitle "Ledger import"), .commit 0 [] 60000,
    .readTransition 1 ((builtInWorkflows.lookup "story").map fun d => ⟨1, d⟩)
      ⟨"Planned", "member", [("area", .str "finance")]⟩, .commit 1 [] 120000,
    .readUpdate 2 none none (raise .p0), .commit 2 [] 180000]

/-- One request after the other. -/
theorem edits_kept_sequential : ∃ t,
    (editSystem fun _ _ => []).run (.start ledgerStory) sequentialEdits = some t ∧
      t.committed.length = 3 ∧ EditsKept ledgerStory t := by
  obtain ⟨t, ht, hlength⟩ : ∃ t,
      (editSystem fun _ _ => []).run (.start ledgerStory) sequentialEdits = some t ∧
        t.committed.length = 3 := ⟨_, rfl, rfl⟩
  exact ⟨t, ht, hlength, edits_kept _ ledgerStory sequentialEdits t (by decide) ht⟩

end Cadena.WorkItems
