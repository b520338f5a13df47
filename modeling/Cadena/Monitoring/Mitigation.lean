import Cadena.Base.Transition
import Cadena.WorkItems.Workflow

/-!
# Proposed mitigations

When an alert resolves, the monitoring integration walks its incident to
`Mitigated`: it reads the incident, searches the workflow for a path that avoids
the states of resolution and closure, and has the workflow engine make one
transition after the other. The engine reads the incident again for each of
them, and people make transitions in between.
-/

namespace Cadena.Monitoring

open Cadena.Base Cadena.Connectors Cadena.WorkItems

def proposedState : String := "Mitigated"

def automationForbiddenStates : List String := ["Resolved", "Closed", "Post-incident Review"]

def maxAutomationPathLength : Nat := 3

/-! ## The path -/

/-- The transitions of a state, tried one after the other: the path if one of
them is to the target, otherwise what has been seen and what is queued. -/
def expandState (targetState state : String) (path : List String) :
    List WorkflowTransitionRule → List String × List (String × List String) →
    List String ⊕ (List String × List (String × List String))
  | [], acc => .inr acc
  | tr :: rest, (visited, queue) =>
    if tr.fromState ≠ state
        ∨ (tr.toState ≠ targetState ∧ automationForbiddenStates.contains tr.toState = true)
        ∨ visited.contains tr.toState = true then
      expandState targetState state path rest (visited, queue)
    else if tr.toState = targetState then .inl (path ++ [tr.toState])
    else
      expandState targetState state path rest
        (visited ++ [tr.toState], queue ++ [(tr.toState, path ++ [tr.toState])])

def searchPath (transitions : List WorkflowTransitionRule) (targetState : String) :
    Nat → List String → List (String × List String) → Option (List String)
  | 0, _, _ => none
  | _ + 1, _, [] => none
  | fuel + 1, visited, (state, path) :: queue =>
    if maxAutomationPathLength ≤ path.length then searchPath transitions targetState fuel visited queue
    else
      match expandState targetState state path transitions (visited, queue) with
      | .inl found => some found
      | .inr (visited', queue') => searchPath transitions targetState fuel visited' queue'

/-- Each state is queued once, after the state of the start. -/
def findAutomationPath (transitions : List WorkflowTransitionRule) (fromState targetState : String) :
    Option (List String) :=
  searchPath transitions targetState (transitions.length + 2) [fromState] [(fromState, [])]

/-- The target, or a state that automation may pass through. -/
def SafeStep (targetState state : String) : Prop :=
  state = targetState ∨ automationForbiddenStates.contains state = false

/-- The paths of a step of the search. -/
def SafeOutcome (targetState : String) : List String ⊕ (List String × List (String × List String)) → Prop
  | .inl found => ∀ x ∈ found, SafeStep targetState x
  | .inr acc => ∀ q ∈ acc.2, ∀ x ∈ q.2, SafeStep targetState x

section
variable {targetState : String} {path : List String}

theorem safe_append (hpath : ∀ x ∈ path, SafeStep targetState x) {next : String}
    (hnext : SafeStep targetState next) : ∀ x ∈ path ++ [next], SafeStep targetState x := by
  intro x hx
  rcases List.mem_append.mp hx with hx | hx
  · exact hpath x hx
  · exact List.mem_singleton.mp hx ▸ hnext

theorem expandState_safe (state : String) (hpath : ∀ x ∈ path, SafeStep targetState x)
    (transitions : List WorkflowTransitionRule) (visited : List String)
    (queue : List (String × List String)) (hqueue : ∀ q ∈ queue, ∀ x ∈ q.2, SafeStep targetState x) :
    SafeOutcome targetState (expandState targetState state path transitions (visited, queue)) := by
  induction transitions generalizing visited queue with
  | nil => exact hqueue
  | cons tr rest ih =>
    simp only [expandState]
    split
    · exact ih visited queue hqueue
    · rename_i hskip
      rw [not_or, not_or, not_and] at hskip
      split
      · rename_i htarget
        exact safe_append hpath (.inl htarget)
      · rename_i htarget
        have hsafe : SafeStep targetState tr.toState :=
          .inr (Bool.eq_false_iff.mpr (hskip.2.1 htarget))
        refine ih _ _ fun q hq => ?_
        rcases List.mem_append.mp hq with hq | hq
        · exact hqueue q hq
        · exact List.mem_singleton.mp hq ▸ safe_append hpath hsafe

theorem searchPath_safe (transitions : List WorkflowTransitionRule) {fuel : Nat}
    {visited : List String} {queue : List (String × List String)}
    (hqueue : ∀ q ∈ queue, ∀ x ∈ q.2, SafeStep targetState x)
    (hfound : searchPath transitions targetState fuel visited queue = some path) :
    ∀ x ∈ path, SafeStep targetState x := by
  induction fuel generalizing visited queue with
  | zero => cases hfound
  | succ fuel ih =>
    cases queue with
    | nil => cases hfound
    | cons q queue =>
      obtain ⟨state, prefixPath⟩ := q
      have hrest := fun q hq => hqueue q (List.mem_cons_of_mem (state, prefixPath) hq)
      simp only [searchPath] at hfound
      split at hfound
      · exact ih hrest hfound
      · have hexpand := expandState_safe state (hqueue (state, prefixPath) List.mem_cons_self)
          transitions visited queue hrest
        cases hresult : expandState targetState state prefixPath transitions (visited, queue) with
        | inl found =>
          rw [hresult] at hfound hexpand
          exact Option.some.inj hfound ▸ hexpand
        | inr acc =>
          rw [hresult] at hfound hexpand
          exact ih hexpand hfound

theorem findAutomationPath_safe {transitions : List WorkflowTransitionRule} {fromState : String}
    (hfound : findAutomationPath transitions fromState proposedState = some path) :
    ∀ x ∈ path, automationForbiddenStates.contains x = false := by
  intro x hx
  have hstart : ∀ q ∈ [(fromState, ([] : List String))], ∀ x ∈ q.2, SafeStep proposedState x := by
    intro q hq x hx
    rw [List.mem_singleton.mp hq] at hx
    exact absurd hx List.not_mem_nil
  rcases searchPath_safe transitions hstart hfound x hx with rfl | hsafe
  · decide
  · exact hsafe

end

/-! ## The walk -/

/-- An `IntegrationTransitionResult`; without a reason it has been applied. -/
structure TransitionResult where
  fromState : String
  toState : String
  reason : Option String
  deriving DecidableEq

def supplyableFields : List String :=
  ["mitigation_summary", "resolution_summary", "monitoring_resolution_note"]

/-- `name` is `monitor_name || title`. -/
def mitigationSummary (provider name : String) (resolvedAt : Millis) : String :=
  "Auto-proposed by " ++ provider ++ " monitoring: alert '" ++ name ++ "' reported resolved at " ++
    toISOString resolvedAt ++ ". Awaiting human confirmation before Resolved."

/-- A walk under way: `rules` as read at its start, `current` the state that it
takes the incident to be in, `path` the steps still to make. -/
structure AutomationWalk where
  rules : List WorkflowTransitionRule
  role : String
  summary : String
  current : String
  path : List String
  results : List TransitionResult

def noPathReason (item : WorkItem) : String :=
  "No automation-safe path from " ++ quoted item.status ++ " to " ++ quoted proposedState ++
    " exists in workflow " ++ quoted item.type.text ++ " v" ++ toString item.workflowVersion ++
    " within " ++ toString maxAutomationPathLength ++ " transitions"

/-- The walk from the incident as it has been read. -/
def beginWalk (item : WorkItem) (wf : Option PublishedWorkflow) (role summary : String) :
    AutomationWalk :=
  let walk : AutomationWalk := ⟨rulesOf wf, role, summary, item.status, [], []⟩
  let skip (reason : String) : AutomationWalk :=
    { walk with results := [⟨item.status, proposedState, some reason⟩] }
  if item.status = proposedState then skip ("Incident is already in " ++ proposedState)
  else if automationForbiddenStates.contains item.status then
    skip ("Incident is already in " ++ quoted item.status ++
      "; monitoring automation does not reopen resolved work")
  else
    match findAutomationPath (rulesOf wf) item.status proposedState with
    | none => skip (noPathReason item)
    | some path => { walk with path := path }

def AutomationWalk.required (walk : AutomationWalk) (step : String) : List String :=
  ((walk.rules.find? fun r => r.fromState == walk.current && r.toState == step).map
    (·.requiresFields)).getD []

def AutomationWalk.unsupported (walk : AutomationWalk) (step : String) : List String :=
  (walk.required step).filter (!supplyableFields.contains ·)

def AutomationWalk.context (walk : AutomationWalk) (step : String) : TransitionContext where
  toState := step
  actorRole := walk.role
  fields := (walk.required step).foldl (fun acc f => setKey acc f (.str walk.summary)) []

/-- The transition that the walk asks for next, unless it has to give up. -/
def AutomationWalk.request (walk : AutomationWalk) : Option TransitionContext :=
  walk.path.head?.bind fun step =>
    if walk.unsupported step = [] then some (walk.context step) else none

/-- `attemptTransition`: the incident is read again and moved. -/
def attemptTransition (item : WorkItem) (wf : Option PublishedWorkflow) (policies : List SlaPolicy)
    (now : Millis) (ctx : TransitionContext) : Except TransitionError WorkItem :=
  (planTransition item wf ctx).map fun merged =>
    (stateChangeOf policies item ctx.toState now merged).apply item

/-- What a turn of the loop leaves, and the transition made in it. -/
structure WalkTurn where
  walk : AutomationWalk
  item : WorkItem
  made : Option (String × String)

def walkStep (walk : AutomationWalk) (item : WorkItem) (wf : Option PublishedWorkflow)
    (policies : List SlaPolicy) (now : Millis) : WalkTurn :=
  match walk.path with
  | [] => ⟨walk, item, none⟩
  | step :: rest =>
    let stopped (reason : String) : WalkTurn :=
      ⟨{ walk with path := [], results := walk.results ++ [⟨walk.current, step, some reason⟩] },
        item, none⟩
    if walk.unsupported step ≠ [] then
      stopped ("Transition requires field(s) the monitoring integration cannot supply: " ++
        String.intercalate ", " (walk.unsupported step))
    else
      match attemptTransition item wf policies now (walk.context step) with
      | .error e => stopped e.message
      | .ok moved =>
        ⟨{ walk with
          current := step
          path := rest
          results := walk.results ++ [⟨item.status, step, none⟩] }, moved, some (item.status, step)⟩

section
variable {walk : AutomationWalk} {item : WorkItem} {wf : Option PublishedWorkflow}
  {policies : List SlaPolicy} {now : Millis}

theorem walkStep_path : ∀ x ∈ (walkStep walk item wf policies now).walk.path, x ∈ walk.path := by
  unfold walkStep
  cases hpath : walk.path with
  | nil =>
    intro x hx
    rwa [hpath] at hx
  | cons step rest =>
    dsimp only
    split
    · exact fun x hx => absurd hx List.not_mem_nil
    · split
      · exact fun x hx => absurd hx List.not_mem_nil
      · exact fun x hx => List.mem_cons_of_mem step hx

theorem walkStep_made {m : String × String} : (walkStep walk item wf policies now).made = some m ↔
    ∃ ctx, walk.request = some ctx ∧ (planTransition item wf ctx).isOk = true ∧
      m = (item.status, ctx.toState) := by
  unfold walkStep AutomationWalk.request
  cases hpath : walk.path with
  | nil => simp
  | cons step rest =>
    by_cases hsupported : walk.unsupported step = []
    · cases hplan : planTransition item wf (walk.context step) with
      | error e =>
        simp [hsupported, attemptTransition, hplan, Except.map, Except.isOk, Except.toBool]
      | ok merged =>
        simp only [hsupported, ne_eq, not_true_eq_false, if_false, attemptTransition, hplan,
          Except.map, List.head?_cons, Option.bind_some, if_true]
        constructor
        · intro hm
          exact ⟨walk.context step, rfl, by rw [hplan]; rfl, (Option.some.inj hm).symm⟩
        · rintro ⟨ctx, hctx, -, rfl⟩
          obtain rfl := Option.some.inj hctx
          rfl
    · simp [hsupported]

theorem request_step {ctx : TransitionContext} (h : walk.request = some ctx) :
    ctx.toState ∈ walk.path := by
  unfold AutomationWalk.request at h
  obtain ⟨step, hstep, hctx⟩ := Option.bind_eq_some_iff.mp h
  split at hctx
  · obtain rfl := Option.some.inj hctx
    exact List.mem_of_mem_head? hstep
  · cases hctx

end

theorem beginWalk_safe (item : WorkItem) (wf : Option PublishedWorkflow) (role summary : String) :
    ∀ x ∈ (beginWalk item wf role summary).path, automationForbiddenStates.contains x = false := by
  unfold beginWalk
  dsimp only
  split
  · exact fun x hx => absurd hx List.not_mem_nil
  · split
    · exact fun x hx => absurd hx List.not_mem_nil
    · cases hfound : findAutomationPath (rulesOf wf) item.status proposedState with
      | none => exact fun x hx => absurd hx List.not_mem_nil
      | some path => exact findAutomationPath_safe hfound

end Cadena.Monitoring
