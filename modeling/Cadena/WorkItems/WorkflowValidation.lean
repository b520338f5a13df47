import Cadena.Base.BreadthFirst
import Cadena.WorkItems.Workflow

/-!
# Validated workflows

`validateWorkflowDefinition` finds no error exactly in the definitions whose
states are declared, reached from the initial state, and lead to a terminal
state. So whatever an item does in such a workflow, it can still be closed.
-/

namespace Cadena.WorkItems

open Cadena.Base BreadthFirst

section
variable (d : WorkflowDefinition)

def WorkflowDefinition.Leads (a b : String) : Prop :=
  ∃ tr ∈ d.transitions, tr.fromState = a ∧ tr.toState = b

/-- A run of transitions leads there. -/
def WorkflowDefinition.Reaches : String → String → Prop := Relation.ReflTransGen d.Leads

def WorkflowDefinition.CanClose (s : String) : Prop := ∃ t ∈ d.terminalStates, d.Reaches s t

def WorkflowDefinition.EndsDeclared : Prop :=
  ∀ tr ∈ d.transitions, tr.fromState ∈ d.states ∧ tr.toState ∈ d.states

structure WorkflowDefinition.WellFormed : Prop where
  initial : d.initialState ∈ d.states
  terminal : d.terminalStates ≠ []
  declared : ∀ t ∈ d.terminalStates, t ∈ d.states
  ends : d.EndsDeclared
  reached : ∀ s ∈ d.states, d.Reaches d.initialState s
  closes : ∀ s ∈ d.states, s ∉ d.terminalStates → d.CanClose s

/-- What a search from a state can come to: the state, and the targets. -/
def WorkflowDefinition.universe (root : String) : List String :=
  root :: d.transitions.map (·.toState)

end

section
variable {d : WorkflowDefinition} {root : String} {visited queue : List String}

/-! ## The searches -/

theorem foldl_enqueue (ws visited queue : List String) :
    ws.foldl enqueue (visited, queue) =
      (visited ++ unseen visited ws, queue ++ unseen visited ws) := by
  induction ws generalizing visited queue with
  | nil => simp [unseen]
  | cons w ws ih =>
    rw [List.foldl_cons, enqueue, unseen]
    by_cases hw : w ∈ visited
    · rw [if_pos (List.contains_iff_mem.mpr hw), if_pos hw, ih]
    · rw [if_neg (fun h => hw (List.contains_iff_mem.mp h)), if_neg hw, ih]
      simp only [List.append_assoc, List.singleton_append]

variable {v w : String}

theorem mem_next (hends : d.EndsDeclared) : d.Leads v w ↔ w ∈ d.next v := by
  rw [WorkflowDefinition.next]
  split
  · simp [WorkflowDefinition.Leads, and_assoc]
  · rename_i hundeclared
    constructor
    · rintro ⟨tr, htr, rfl, -⟩
      exact absurd (List.contains_iff_mem.mpr (hends tr htr).1) hundeclared
    · intro h
      cases h

theorem universe_closed (h : d.Leads v w) : w ∈ d.universe root := by
  obtain ⟨tr, htr, -, rfl⟩ := h
  exact List.mem_cons_of_mem _ (List.mem_map_of_mem htr)

theorem visited_length (h : Explored d.Leads root visited queue) :
    visited.length ≤ d.transitions.length + 1 := by
  have hsub : visited ⊆ d.universe root := by
    intro v hv
    rcases Relation.ReflTransGen.cases_tail (h.reached v hv) with heq | ⟨_, -, hlead⟩
    · exact heq ▸ List.mem_cons_self
    · exact universe_closed hlead
  have hle := List.Nodup.length_le_of_subset h.nodup hsub
  simpa [WorkflowDefinition.universe] using hle

theorem explored_next (hends : d.EndsDeclared) (h : Explored d.Leads root visited (v :: queue)) :
    Explored d.Leads root (visited ++ unseen visited (d.next v))
      (queue ++ unseen visited (d.next v)) :=
  h.expand (fresh_unseen (fun _ => mem_next hends) visited)

theorem mem_reachableStates (hends : d.EndsDeclared) {fuel : Nat} (h : Explored d.Leads root visited queue)
    (hfuel : d.transitions.length + 1 + queue.length < fuel + visited.length) :
    w ∈ reachableStates d fuel visited queue ↔ d.Reaches root w := by
  induction fuel generalizing visited queue with
  | zero =>
    have hle := visited_length h
    omega
  | succ fuel ih =>
    cases queue with
    | nil => exact h.mem_iff
    | cons v queue =>
      rw [reachableStates, foldl_enqueue]
      refine ih (explored_next hends h) ?_
      simp only [List.length_append, List.length_cons] at hfuel ⊢
      omega

theorem canReachTerminal_iff (hends : d.EndsDeclared) {fuel : Nat}
    (h : Explored d.Leads root visited queue)
    (hopen : ∀ v ∈ visited, v ∈ d.terminalStates → v ∈ queue)
    (hfuel : d.transitions.length + 1 + queue.length < fuel + visited.length) :
    canReachTerminal d fuel visited queue = true ↔ d.CanClose root := by
  induction fuel generalizing visited queue with
  | zero =>
    have hle := visited_length h
    omega
  | succ fuel ih =>
    cases queue with
    | nil =>
      constructor
      · intro hfalse
        cases hfalse
      · rintro ⟨t, ht, hreach⟩
        exact absurd (hopen t (h.mem_iff.mpr hreach) ht) List.not_mem_nil
    | cons v queue =>
      rw [canReachTerminal]
      split
      · rename_i hterm
        refine ⟨fun _ => ?_, fun _ => rfl⟩
        exact ⟨v, List.contains_iff_mem.mp hterm, h.reached v (h.queued v List.mem_cons_self)⟩
      · rename_i hterm
        rw [foldl_enqueue]
        refine ih (explored_next hends h) (fun x hx hxt => ?_) ?_
        · rcases List.mem_append.mp hx with hx | hx
          · rcases List.mem_cons.mp (hopen x hx hxt) with rfl | hqueue
            · exact absurd (List.contains_iff_mem.mpr hxt) hterm
            · exact List.mem_append_left _ hqueue
          · exact List.mem_append_right _ hx
        · simp only [List.length_append, List.length_cons] at hfuel ⊢
          omega

theorem start_fuel : d.transitions.length + 1 + [root].length < d.fuel + [root].length := by
  simp [WorkflowDefinition.fuel]

theorem reachable_iff (hends : d.EndsDeclared) :
    w ∈ reachableStates d d.fuel [d.initialState] [d.initialState] ↔ d.Reaches d.initialState w :=
  mem_reachableStates hends (.start _ _) start_fuel

theorem canClose_iff (hends : d.EndsDeclared) {s : String} :
    canReachTerminal d d.fuel [s] [s] = true ↔ d.CanClose s :=
  canReachTerminal_iff hends (.start _ _) (fun _ hv _ => hv) start_fuel

/-! ## The errors -/

theorem declarationErrors_nil (hnames : ∀ s ∈ d.states, s ≠ "") :
    declarationErrors d = [] ↔
      d.initialState ∈ d.states ∧ d.terminalStates ≠ [] ∧ ∀ t ∈ d.terminalStates, t ∈ d.states := by
  rw [declarationErrors, List.append_eq_nil_iff, List.append_eq_nil_iff, and_assoc]
  have hstates : (if d.states = [] then ["workflow must define at least one state in states array"]
      else []) = [] ↔ d.states ≠ [] := by
    split <;> simp_all
  have hinitial : (if d.initialState = "" then ["missing initial_state"]
      else if d.states.contains d.initialState then []
      else ["initial_state " ++ quoted d.initialState ++ " is not declared in states list"]) = [] ↔
      d.initialState ∈ d.states := by
    split
    · rename_i hempty
      rw [hempty]
      exact ⟨fun h => (by cases h), fun hmem => absurd rfl (hnames "" hmem)⟩
    · split
      · rename_i hmem
        exact ⟨fun _ => List.contains_iff_mem.mp hmem, fun _ => rfl⟩
      · rename_i hmem
        exact ⟨fun h => (by cases h), fun h => absurd (List.contains_iff_mem.mpr h) hmem⟩
  have hterminal : (if d.terminalStates = [] then ["missing terminal state"]
      else (d.terminalStates.filter (!d.states.contains ·)).map fun term =>
        "terminal state " ++ quoted term ++ " is not declared in states list") = [] ↔
      d.terminalStates ≠ [] ∧ ∀ t ∈ d.terminalStates, t ∈ d.states := by
    split
    · rename_i hempty
      simp [hempty]
    · rename_i hsome
      simp [hsome]
  rw [hstates, hinitial, hterminal]
  constructor
  · exact And.right
  · exact fun h => ⟨List.ne_nil_of_mem h.1, h⟩

theorem transitionErrors_nil : transitionErrors d = [] ↔ d.EndsDeclared := by
  rw [transitionErrors, List.flatMap_eq_nil_iff]
  refine forall₂_congr fun tr _ => ?_
  by_cases hfrom : tr.fromState ∈ d.states <;> by_cases hto : tr.toState ∈ d.states <;>
    simp [hfrom, hto]

theorem reachabilityErrors_nil (hends : d.EndsDeclared) :
    reachabilityErrors d = [] ↔
      (∀ s ∈ d.states, d.Reaches d.initialState s) ∧
        ∀ s ∈ d.states, s ∉ d.terminalStates → d.CanClose s := by
  rw [reachabilityErrors, List.append_eq_nil_iff]
  refine and_congr ?_ ?_
  · rw [ite_eq_left_iff]
    simp only [reduceCtorEq, imp_false, not_not, List.filter_eq_nil_iff, Bool.not_eq_true',
      Bool.not_eq_false, List.contains_iff_mem, reachable_iff hends]
  · rw [List.map_eq_nil_iff, List.filter_eq_nil_iff]
    refine forall₂_congr fun s _ => ?_
    rw [← canClose_iff hends]
    simp

theorem validate_nil : validateWorkflowDefinition d = [] ↔
    declarationErrors d = [] ∧ transitionErrors d = [] ∧ reachabilityErrors d = [] := by
  rw [validateWorkflowDefinition]
  split
  · rename_i hnone
    rw [hnone, List.append_eq_nil_iff]
    exact ⟨fun h => ⟨rfl, h⟩, And.right⟩
  · rename_i hsome
    exact ⟨fun h => absurd h hsome, fun h => absurd h.1 hsome⟩

theorem WorkflowDefinition.WellFormed.declared_of_reaches (h : d.WellFormed) {a b : String}
    (ha : a ∈ d.states) (hreach : d.Reaches a b) : b ∈ d.states := by
  induction hreach with
  | refl => exact ha
  | tail _ hlead _ =>
    obtain ⟨tr, htr, -, rfl⟩ := hlead
    exact (h.ends tr htr).2

theorem WorkflowDefinition.WellFormed.canClose (h : d.WellFormed) {s : String}
    (hreach : d.Reaches d.initialState s) : d.CanClose s := by
  have hs : s ∈ d.states := h.declared_of_reaches h.initial hreach
  by_cases hterm : s ∈ d.terminalStates
  · exact ⟨s, hterm, .refl⟩
  · exact h.closes s hs hterm

/-- A definition is valid exactly if it is well formed; and in a valid one each
state that a run of its transitions reaches can be closed. -/
theorem validate_exact (d : WorkflowDefinition) (hnames : ∀ s ∈ d.states, s ≠ "") :
    (validateWorkflowDefinition d = [] ↔ d.WellFormed) ∧
      (validateWorkflowDefinition d = [] → ∀ s, d.Reaches d.initialState s → d.CanClose s) := by
  have hexact : validateWorkflowDefinition d = [] ↔ d.WellFormed := by
    rw [validate_nil, declarationErrors_nil hnames, transitionErrors_nil]
    constructor
    · rintro ⟨⟨hinitial, hterminal, hdeclared⟩, hends, herrors⟩
      obtain ⟨hreached, hcloses⟩ := (reachabilityErrors_nil hends).mp herrors
      exact ⟨hinitial, hterminal, hdeclared, hends, hreached, hcloses⟩
    · intro h
      exact ⟨⟨h.initial, h.terminal, h.declared⟩, h.ends,
        (reachabilityErrors_nil h.ends).mpr ⟨h.reached, h.closes⟩⟩
  exact ⟨hexact, fun hvalid s hreach => (hexact.mp hvalid).canClose hreach⟩

/-- A release workflow: what is ready can still be closed. -/
theorem validate_exact_release :
    let release : WorkflowDefinition :=
      ⟨"release", ["Draft", "Ready", "Deployed", "Closed"], "Draft", ["Closed"],
        [plainRule "Draft" "Ready", plainRule "Ready" "Deployed", plainRule "Deployed" "Closed"]⟩
    release.WellFormed ∧ release.CanClose "Ready" := by
  intro release
  have hvalid : validateWorkflowDefinition release = [] := by decide
  obtain ⟨hexact, hruns⟩ := validate_exact release (by decide)
  exact ⟨hexact.mp hvalid, hruns hvalid "Ready" (.single ⟨plainRule "Draft" "Ready", by decide, rfl, rfl⟩)⟩

end

end Cadena.WorkItems
