import Cadena.Monitoring.Mitigation

/-!
# Confirmation stays with people

Walks of any number of resolved alerts over one incident, beside the
transitions that people make on it. A walk never asks for a state of resolution
or closure, but it looks at the incident's state once, at its start. Automation
leaves such a state exactly where a person has moved the incident there
meanwhile and the workflow lets the step be made from it (`LeavesConfirmed`).
-/

namespace Cadena.Monitoring

open Cadena.Base Cadena.Connectors Cadena.WorkItems

/-- `moves` are the transitions that automation has made. -/
structure ConfirmationState where
  item : WorkItem
  walks : Nat → Option AutomationWalk
  moves : List (String × String)

/-- `read` begins the walk of a delivery, `attempt` is one `attemptTransition`,
and `person` a transition that a person makes. -/
inductive ConfirmationAction where
  | read (delivery pick : Nat) (role summary : String)
  | attempt (delivery pick : Nat) (policies : List SlaPolicy) (now : Millis)
  | person (pick : Nat) (policies : List SlaPolicy) (now : Millis) (ctx : TransitionContext)

section
variable (rows : List WorkflowRow)

/-- The definition that governs the incident. -/
def workflowOf (item : WorkItem) (pick : Nat) : Option PublishedWorkflow :=
  getWorkflowDefinition rows pick item.type.text (some item.workflowVersion)

def attemptStep (s : ConfirmationState) (d pick : Nat) (policies : List SlaPolicy) (now : Millis)
    (walk : AutomationWalk) : ConfirmationState :=
  let turn := walkStep walk s.item (workflowOf rows s.item pick) policies now
  ⟨turn.item, setAt s.walks d (some turn.walk), s.moves ++ turn.made.toList⟩

def confirmationStep (s : ConfirmationState) : ConfirmationAction → Option ConfirmationState
  | .read d pick role summary =>
    let walk := beginWalk s.item (workflowOf rows s.item pick) role summary
    some { s with walks := setAt s.walks d (some walk) }
  | .attempt d pick policies now => (s.walks d).map (attemptStep rows s d pick policies now)
  | .person pick policies now ctx =>
    match attemptTransition s.item (workflowOf rows s.item pick) policies now ctx with
    | .ok moved => some { s with item := moved }
    | .error _ => none

def confirmation : System ConfirmationState ConfirmationAction := ⟨confirmationStep rows⟩

/-- No transition of automation leaves or enters a state of resolution or
closure. -/
def ConfirmedByPeople (s : ConfirmationState) : Prop :=
  ∀ m ∈ s.moves, automationForbiddenStates.contains m.1 = false ∧
    automationForbiddenStates.contains m.2 = false

/-- At an attempt the incident is in no such state, or the workflow refuses the
step from there. -/
def LeavesConfirmed (s : ConfirmationState) : ConfirmationAction → Prop
  | .attempt d pick _ _ => ∀ walk ∈ s.walks d, ∀ ctx ∈ walk.request,
      automationForbiddenStates.contains s.item.status = false ∨
        (planTransition s.item (workflowOf rows s.item pick) ctx).isOk = false
  | _ => True

instance (s : ConfirmationState) : ∀ a, Decidable (LeavesConfirmed rows s a)
  | .attempt d pick _ _ => inferInstanceAs (Decidable (∀ walk ∈ s.walks d, ∀ ctx ∈ walk.request,
      automationForbiddenStates.contains s.item.status = false ∨
        (planTransition s.item (workflowOf rows s.item pick) ctx).isOk = false))
  | .read .. | .person .. => isTrue trivial

/-- No walk has a step of resolution or closure before it. -/
def WalksSafe (s : ConfirmationState) : Prop :=
  ∀ d, ∀ walk ∈ s.walks d, ∀ x ∈ walk.path, automationForbiddenStates.contains x = false

variable {rows : List WorkflowRow} {s t : ConfirmationState}

theorem WalksSafe.setWalk (h : WalksSafe s) {d : Nat} {walk : AutomationWalk}
    (hwalk : ∀ x ∈ walk.path, automationForbiddenStates.contains x = false) {e : Nat}
    {other : AutomationWalk} (hother : setAt s.walks d (some walk) e = some other) :
    ∀ x ∈ other.path, automationForbiddenStates.contains x = false := by
  by_cases he : e = d
  · subst he
    rw [setAt_same] at hother
    exact Option.some.inj hother ▸ hwalk
  · rw [setAt_other _ _ he] at hother
    exact h e other hother

theorem WalksSafe.step (h : WalksSafe s) {a : ConfirmationAction}
    (hstep : confirmationStep rows s a = some t) : WalksSafe t := by
  cases a with
  | read d pick role summary =>
    obtain rfl := Option.some.inj hstep
    exact fun e other hother => h.setWalk (beginWalk_safe s.item _ role summary) hother
  | attempt d pick policies now =>
    obtain ⟨walk, hwalk, rfl⟩ := Option.map_eq_some_iff.mp hstep
    exact fun e other hother =>
      h.setWalk (fun x hx => h d walk hwalk x (walkStep_path x hx)) hother
  | person pick policies now ctx =>
    simp only [confirmationStep] at hstep
    split at hstep
    · obtain rfl := Option.some.inj hstep
      exact h
    · cases hstep

theorem confirmed_step (h : WalksSafe s) {a : ConfirmationAction}
    (hstep : confirmationStep rows s a = some t) :
    ConfirmedByPeople t ↔ ConfirmedByPeople s ∧ LeavesConfirmed rows s a := by
  cases a with
  | read d pick role summary =>
    obtain rfl := Option.some.inj hstep
    exact (and_iff_left trivial).symm
  | attempt d pick policies now =>
    obtain ⟨walk, hwalk, rfl⟩ := Option.map_eq_some_iff.mp hstep
    have hmade : (∀ m ∈ (walkStep walk s.item (workflowOf rows s.item pick) policies now).made,
        automationForbiddenStates.contains m.1 = false ∧
          automationForbiddenStates.contains m.2 = false) ↔
        ∀ ctx ∈ walk.request, automationForbiddenStates.contains s.item.status = false ∨
          (planTransition s.item (workflowOf rows s.item pick) ctx).isOk = false := by
      constructor
      · intro hsafe ctx hctx
        cases hok : (planTransition s.item (workflowOf rows s.item pick) ctx).isOk with
        | false => exact .inr rfl
        | true => exact .inl (hsafe _ (walkStep_made.mpr ⟨ctx, hctx, hok, rfl⟩)).1
      · intro hleaves m hm
        obtain ⟨ctx, hctx, hok, rfl⟩ := walkStep_made.mp hm
        refine ⟨(hleaves ctx hctx).resolve_right ?_, h d walk hwalk _ (request_step hctx)⟩
        rw [hok]
        exact Bool.noConfusion
    have hcond : LeavesConfirmed rows s (.attempt d pick policies now) ↔
        ∀ ctx ∈ walk.request, automationForbiddenStates.contains s.item.status = false ∨
          (planTransition s.item (workflowOf rows s.item pick) ctx).isOk = false := by
      refine ⟨fun hall => hall walk hwalk, fun hall walk' hwalk' => ?_⟩
      obtain rfl := Option.some.inj (hwalk.symm.trans hwalk')
      exact hall
    rw [hcond, ← hmade]
    unfold ConfirmedByPeople attemptStep
    rw [List.forall_mem_append]
    refine and_congr_right fun _ => forall_congr' fun m => ?_
    rw [Option.mem_toList, Option.mem_def]
  | person pick policies now ctx =>
    simp only [confirmationStep] at hstep
    split at hstep
    · obtain rfl := Option.some.inj hstep
      exact (and_iff_left trivial).symm
    · cases hstep

/-- What automation has done to the incident in any run. -/
theorem confirmed_by_people_iff (rows : List WorkflowRow) (item : WorkItem)
    (actions : List ConfirmationAction) (t : ConfirmationState)
    (hrun : (confirmation rows).run ⟨item, fun _ => none, []⟩ actions = some t) :
    ConfirmedByPeople t ↔
      (confirmation rows).Along (LeavesConfirmed rows) ⟨item, fun _ => none, []⟩ actions := by
  have hall := (confirmation rows).along_iff (P := WalksSafe) (F := ConfirmedByPeople)
    (D := fun _ _ => True) (fun h _ hstep => h.step hstep) (fun h _ hstep => confirmed_step h hstep)
    (fun d walk hwalk => by cases hwalk) (System.along_of_forall _ (fun _ _ => trivial) _ _) hrun
  rw [hall]
  exact and_iff_right fun m hm => absurd hm List.not_mem_nil

end

/-! ## A workflow that reopens -/

def reopeningWorkflow : WorkflowDefinition where
  type := "incident"
  states := ["Triaged", "Investigating", "Mitigated", "Resolved", "Closed"]
  initialState := "Triaged"
  terminalStates := ["Closed"]
  transitions :=
    [plainRule "Triaged" "Investigating", plainRule "Investigating" "Mitigated",
      plainRule "Triaged" "Resolved", plainRule "Mitigated" "Resolved",
      plainRule "Resolved" "Investigating", plainRule "Resolved" "Closed"]

def reopeningRows : List WorkflowRow := [⟨1, "incident", 2, reopeningWorkflow⟩]

def triagedIncident : WorkItem where
  id := 10
  orgId := 1
  itemKey := "INC-0000000A"
  type := .incident
  title := "Checkout latency"
  description := ""
  status := "Triaged"
  workflowVersion := 2
  priority := .p1
  severity := some .sev2
  ownerId := none
  teamId := 3
  enteredStateAt := 0
  createdAt := 0
  agingBucket := .green
  agingScore := 0
  sla := ⟨0, none, false⟩
  customFields := []
  tags := []
  source := none

/-- A person resolves the incident after its state has been read, and automation
takes it back into investigation. -/
theorem taken_back : validateWorkflowDefinition reopeningWorkflow = [] ∧ ∃ t,
    (confirmation reopeningRows).run ⟨triagedIncident, fun _ => none, []⟩
      [.read 0 0 "on_call" "resolved", .person 0 [] 1 ⟨"Resolved", "incident_commander", []⟩,
        .attempt 0 0 [] 2] = some t ∧
    t.moves = [("Resolved", "Investigating")] ∧ ¬ ConfirmedByPeople t := by
  refine ⟨by decide, ?_⟩
  have hrun : ((confirmation reopeningRows).run ⟨triagedIncident, fun _ => none, []⟩
      [.read 0 0 "on_call" "resolved", .person 0 [] 1 ⟨"Resolved", "incident_commander", []⟩,
        .attempt 0 0 [] 2]).map (·.moves) = some [("Resolved", "Investigating")] := by
    decide
  obtain ⟨t, ht, hmoves⟩ := Option.map_eq_some_iff.mp hrun
  refine ⟨t, ht, hmoves, fun h => ?_⟩
  have hleft := (h ("Resolved", "Investigating") (by rw [hmoves]; exact List.mem_singleton_self _)).1
  exact absurd hleft (by decide)

/-- Nobody interferes, and the walk goes to its end. -/
theorem confirmed_undisturbed : ∃ t,
    (confirmation reopeningRows).run ⟨triagedIncident, fun _ => none, []⟩
      [.read 0 0 "on_call" "resolved", .attempt 0 0 [] 1, .attempt 0 0 [] 2] = some t ∧
    t.moves = [("Triaged", "Investigating"), ("Investigating", "Mitigated")] ∧
    ConfirmedByPeople t := by
  have hrun : ((confirmation reopeningRows).run ⟨triagedIncident, fun _ => none, []⟩
      [.read 0 0 "on_call" "resolved", .attempt 0 0 [] 1, .attempt 0 0 [] 2]).map (·.moves) =
        some [("Triaged", "Investigating"), ("Investigating", "Mitigated")] := by
    decide
  obtain ⟨t, ht, hmoves⟩ := Option.map_eq_some_iff.mp hrun
  exact ⟨t, ht, hmoves, (confirmed_by_people_iff reopeningRows triagedIncident _ t ht).mpr
    (by decide)⟩

end Cadena.Monitoring
