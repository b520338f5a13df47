import Cadena.Monitoring.Mitigation
import Mathlib.Data.List.Perm.Subperm

/-!
# Which path the search finds

The search for an automation path works off its queue level by level. What it
skips as visited leads to the target no sooner than what it has queued before,
so that it finds the first of the shortest routes, in the order of the rules
(`findAutomationPath_eq`). From a state on its path the search finds the rest
of the path.
-/

namespace Cadena.Monitoring

open Cadena.Base Cadena.Connectors Cadena.WorkItems

section
variable (transitions : List WorkflowTransitionRule) (target : String)

/-- The rule leads to the target or to a state that automation may pass. -/
def passable (tr : WorkflowTransitionRule) : Bool :=
  tr.toState == target || !automationForbiddenStates.contains tr.toState

/-- The states to which automation may go from a state, in the order of the
rules. -/
def automationSteps (state : String) : List String :=
  (transitions.filter fun tr => tr.fromState == state && passable target tr).map (·.toState)

/-- The first route to the target with `n` states before it. -/
def route : Nat → String → Option (List String)
  | 0, state => if (automationSteps transitions target state).contains target then some [target] else none
  | n + 1, state =>
    (automationSteps transitions target state).findSome? fun next => (route n next).map (next :: ·)

/-- What is queued of `states` when they are met in turn. -/
def unseen : List String → List String → List String
  | _, [] => []
  | visited, x :: xs =>
    if visited.contains x then unseen visited xs else x :: unseen (visited ++ [x]) xs

/-- What the entries of one level leave as visited and queue for the next. -/
def nextLevel : List String → List (String × List String) → List String × List (String × List String)
  | visited, [] => (visited, [])
  | visited, (state, path) :: es =>
    let new := unseen visited (automationSteps transitions target state)
    let rest := nextLevel (visited ++ new) es
    (rest.1, (new.map fun next => (next, path ++ [next])) ++ rest.2)

/-- The route of the first entry that has one of the length. -/
def bestRoute (n : Nat) (es : List (String × List String)) : Option (List String) :=
  es.findSome? fun e => (route transitions target n e.1).map (e.2 ++ ·)

variable {transitions} {target}

/-! ## One level -/

variable {visited : List String} {es : List (String × List String)}

theorem unseen_mem {xs : List String} {x : String} (h : x ∈ unseen visited xs) : x ∈ xs := by
  induction xs generalizing visited with
  | nil => exact absurd h List.not_mem_nil
  | cons y xs ih =>
    simp only [unseen] at h
    split at h
    · exact List.mem_cons_of_mem y (ih h)
    · rcases List.mem_cons.mp h with rfl | h
      · exact List.mem_cons_self
      · exact List.mem_cons_of_mem y (ih h)

theorem unseen_nodup (h : visited.Nodup) (xs : List String) : (visited ++ unseen visited xs).Nodup := by
  induction xs generalizing visited with
  | nil => simpa [unseen] using h
  | cons x xs ih =>
    simp only [unseen]
    split
    · exact ih h
    · rename_i hnew
      have hx : (visited ++ [x]).Nodup := by
        rw [List.nodup_append_comm]
        exact List.nodup_cons.mpr ⟨by simpa using hnew, h⟩
      rw [List.append_cons]
      exact ih hx

/-- A search is not misled by skipping what it would not take anyway. -/
theorem unseen_findSome {β : Type} {f : String → Option β}
    (hvisited : ∀ v ∈ visited, f v = none) (xs : List String) :
    (unseen visited xs).findSome? f = xs.findSome? f := by
  induction xs generalizing visited with
  | nil => rfl
  | cons x xs ih =>
    simp only [unseen]
    split
    · rename_i hseen
      rw [ih hvisited, List.findSome?_cons, hvisited x (by simpa using hseen)]
    · rw [List.findSome?_cons, List.findSome?_cons]
      cases hx : f x with
      | some b => rfl
      | none =>
        refine ih fun v hv => ?_
        rcases List.mem_append.mp hv with hv | hv
        · exact hvisited v hv
        · rw [List.mem_singleton.mp hv]
          exact hx

theorem automationSteps_cons (tr : WorkflowTransitionRule) (state : String) :
    automationSteps (tr :: transitions) target state =
      (if tr.fromState = state ∧ passable target tr = true then [tr.toState] else []) ++
        automationSteps transitions target state := by
  unfold automationSteps
  by_cases h : tr.fromState = state ∧ passable target tr = true
  · rw [if_pos h, List.filter_cons_of_pos (by simp [h])]
    rfl
  · rw [if_neg h, List.filter_cons_of_neg (by simpa using h)]
    rfl

theorem skipped_iff (tr : WorkflowTransitionRule) (state : String) (visited : List String) :
    (tr.fromState ≠ state
      ∨ (tr.toState ≠ target ∧ automationForbiddenStates.contains tr.toState = true)
      ∨ visited.contains tr.toState = true) ↔
      ¬(tr.fromState = state ∧ passable target tr = true) ∨ visited.contains tr.toState = true := by
  unfold passable
  rw [not_and_or, Bool.or_eq_true, beq_iff_eq, Bool.not_eq_true', not_or, Bool.not_eq_false, or_assoc]

theorem expandState_eq (state : String) (path visited : List String)
    (queue : List (String × List String)) (htarget : target ∉ visited) :
    expandState target state path transitions (visited, queue) =
      if (automationSteps transitions target state).contains target then .inl (path ++ [target])
      else
        let new := unseen visited (automationSteps transitions target state)
        .inr (visited ++ new, queue ++ new.map fun next => (next, path ++ [next])) := by
  induction transitions generalizing visited queue with
  | nil => simp [expandState, automationSteps, unseen]
  | cons tr rest ih =>
    simp only [expandState, skipped_iff, automationSteps_cons]
    by_cases hrule : tr.fromState = state ∧ passable target tr = true
    · by_cases hseen : visited.contains tr.toState = true
      · have hne : tr.toState ≠ target := by
          rintro rfl
          exact htarget (by simpa using hseen)
        rw [if_pos (.inr hseen), if_pos hrule, ih visited queue htarget]
        simp only [List.singleton_append, unseen, hseen, if_true, List.contains_cons,
          beq_eq_false_iff_ne.mpr (Ne.symm hne), Bool.false_or]
      · rw [if_neg (by rw [not_or, not_not]; exact ⟨hrule, hseen⟩), if_pos hrule]
        by_cases hto : tr.toState = target
        · simp [hto]
        · rw [if_neg hto, ih (visited ++ [tr.toState]) _ ?_]
          · simp only [List.singleton_append, unseen, hseen, Bool.false_eq_true, if_false,
              List.contains_cons, beq_eq_false_iff_ne.mpr (Ne.symm hto), Bool.false_or,
              List.map_cons, List.append_assoc]
          · simpa using ⟨htarget, Ne.symm hto⟩
    · rw [if_pos (.inl hrule), if_neg hrule, List.nil_append]
      exact ih visited queue htarget

theorem bestRoute_cons (n : Nat) (e : String × List String) (es : List (String × List String)) :
    bestRoute transitions target n (e :: es) =
      ((route transitions target n e.1).map (e.2 ++ ·)).or (bestRoute transitions target n es) := by
  rw [bestRoute, List.findSome?_cons]
  cases (route transitions target n e.1).map (e.2 ++ ·) <;> rfl

theorem not_target_of_route {state : String} (h : route transitions target 0 state = none) :
    target ∉ automationSteps transitions target state := by
  intro hmem
  rw [route, if_pos (by simpa using hmem)] at h
  cases h

theorem searchPath_level (es acc : List (String × List String)) (fuel : Nat) (visited : List String)
    (hlen : ∀ e ∈ es, e.2.length < maxAutomationPathLength) (htarget : target ∉ visited) :
    searchPath transitions target (es.length + fuel) visited (es ++ acc) =
      (bestRoute transitions target 0 es).or
        (searchPath transitions target fuel (nextLevel transitions target visited es).1
          (acc ++ (nextLevel transitions target visited es).2)) := by
  induction es generalizing acc visited with
  | nil => simp [nextLevel, bestRoute]
  | cons e es ih =>
    obtain ⟨state, path⟩ := e
    have hshort := hlen (state, path) List.mem_cons_self
    rw [bestRoute_cons, List.length_cons, Nat.add_right_comm, List.cons_append]
    simp only [searchPath, if_neg (Nat.not_le.mpr hshort), expandState_eq state path visited _ htarget,
      route]
    by_cases hfound : (automationSteps transitions target state).contains target = true
    · simp only [if_pos hfound]
      rfl
    · simp only [if_neg hfound]
      have hnew : target ∉ visited ++ unseen visited (automationSteps transitions target state) := by
        rw [List.mem_append, not_or]
        exact ⟨htarget, fun hmem => hfound (by simpa using unseen_mem hmem)⟩
      have hrest := ih (acc ++ (unseen visited (automationSteps transitions target state)).map
        fun next => (next, path ++ [next])) _ (fun e he => hlen e (List.mem_cons_of_mem _ he)) hnew
      simp only [Option.map_none, Option.none_or, nextLevel, List.append_assoc] at hrest ⊢
      exact hrest

theorem searchPath_long (es : List (String × List String)) (fuel : Nat) (visited : List String)
    (hlen : ∀ e ∈ es, maxAutomationPathLength ≤ e.2.length) :
    searchPath transitions target fuel visited es = none := by
  induction es generalizing fuel with
  | nil => cases fuel <;> rfl
  | cons e es ih =>
    cases fuel with
    | zero => rfl
    | succ fuel =>
      simp only [searchPath, if_pos (hlen e List.mem_cons_self)]
      exact ih fuel fun e he => hlen e (List.mem_cons_of_mem _ he)

/-! ## The next level -/

theorem nextLevel_visited (visited : List String) (es : List (String × List String)) :
    (nextLevel transitions target visited es).1 =
      visited ++ (nextLevel transitions target visited es).2.map Prod.fst := by
  induction es generalizing visited with
  | nil => simp [nextLevel]
  | cons e es ih =>
    simp only [nextLevel]
    rw [ih]
    simp [Function.comp_def]

theorem nextLevel_nodup (h : visited.Nodup) (es : List (String × List String)) :
    (nextLevel transitions target visited es).1.Nodup := by
  induction es generalizing visited with
  | nil => exact h
  | cons e es ih => exact ih (unseen_nodup h _)

theorem nextLevel_mem {e : String × List String} (h : e ∈ (nextLevel transitions target visited es).2) :
    ∃ e' ∈ es, e.1 ∈ automationSteps transitions target e'.1 ∧ e.2.length = e'.2.length + 1 := by
  induction es generalizing visited with
  | nil => exact absurd h List.not_mem_nil
  | cons e' es ih =>
    rcases List.mem_append.mp h with h | h
    · obtain ⟨next, hnext, rfl⟩ := List.mem_map.mp h
      exact ⟨e', List.mem_cons_self, unseen_mem hnext, by simp⟩
    · obtain ⟨e'', he'', hstep, hlen⟩ := ih h
      exact ⟨e'', List.mem_cons_of_mem e' he'', hstep, hlen⟩

theorem automationSteps_mem {state next : String}
    (h : next ∈ automationSteps transitions target state) : next ∈ transitions.map (·.toState) := by
  obtain ⟨tr, htr, rfl⟩ := List.mem_map.mp h
  exact List.mem_map_of_mem (List.mem_filter.mp htr).1

theorem bestRoute_nextLevel (hvisited : ∀ v ∈ visited, route transitions target 0 v = none)
    (es : List (String × List String)) :
    bestRoute transitions target 0 (nextLevel transitions target visited es).2 =
      bestRoute transitions target 1 es := by
  induction es generalizing visited with
  | nil => rfl
  | cons e es ih =>
    obtain ⟨state, path⟩ := e
    have hsteps : (unseen visited (automationSteps transitions target state)).findSome?
        (fun next => (route transitions target 0 next).map ((path ++ [next]) ++ ·)) =
        (route transitions target 1 state).map (path ++ ·) := by
      rw [unseen_findSome fun v hv => by rw [hvisited v hv]; rfl, route, List.map_findSome?]
      congr 1
      funext next
      simp [Function.comp_def]
    have hsplit : bestRoute transitions target 0
        (nextLevel transitions target visited ((state, path) :: es)).2 =
        ((route transitions target 1 state).map (path ++ ·)).or (bestRoute transitions target 0
          (nextLevel transitions target
            (visited ++ unseen visited (automationSteps transitions target state)) es).2) := by
      rw [← hsteps, bestRoute, nextLevel, List.findSome?_append, List.findSome?_map]
      rfl
    rw [hsplit, bestRoute_cons]
    cases hroute : route transitions target 1 state with
    | some found => rfl
    | none =>
      -- none of the new states has a direct step either
      rw [ih fun v hv => ?_]
      rcases List.mem_append.mp hv with hv | hv
      · exact hvisited v hv
      · rw [route] at hroute
        have hnext := List.findSome?_eq_none_iff.mp hroute v (unseen_mem hv)
        exact Option.map_eq_none_iff.mp hnext

theorem bestRoute_none {n : Nat} :
    bestRoute transitions target n es = none ↔ ∀ e ∈ es, route transitions target n e.1 = none := by
  rw [bestRoute, List.findSome?_eq_none_iff]
  exact forall₂_congr fun e _ => Option.map_eq_none_iff

theorem nextLevel_target (htarget : target ∉ visited) (hnone : bestRoute transitions target 0 es = none) :
    target ∉ (nextLevel transitions target visited es).1 := by
  rw [nextLevel_visited, List.mem_append, not_or]
  refine ⟨htarget, fun hmem => ?_⟩
  obtain ⟨e, he, hfst⟩ := List.mem_map.mp hmem
  obtain ⟨e', he', hstep, -⟩ := nextLevel_mem he
  exact not_target_of_route (bestRoute_none.mp hnone e' he') (hfst ▸ hstep)

theorem nextLevel_routes (hvisited : ∀ v ∈ visited, route transitions target 0 v = none)
    (hnone : bestRoute transitions target 0 (nextLevel transitions target visited es).2 = none) :
    ∀ v ∈ (nextLevel transitions target visited es).1, route transitions target 0 v = none := by
  intro v hv
  rw [nextLevel_visited] at hv
  rcases List.mem_append.mp hv with hv | hv
  · exact hvisited v hv
  · obtain ⟨e, he, rfl⟩ := List.mem_map.mp hv
    exact bestRoute_none.mp hnone e he

theorem bestRoute_start {start : String} {n : Nat} (hnone : route transitions target n start = none) :
    bestRoute transitions target n (nextLevel transitions target [start] [(start, [])]).2 =
      route transitions target (n + 1) start := by
  simp only [nextLevel, List.append_nil, List.nil_append, bestRoute, List.findSome?_map, route]
  exact unseen_findSome (by simpa using hnone) _

theorem levels_length {start : String} (hes : es = (nextLevel transitions target [start] [(start, [])]).2) :
    es.length + (nextLevel transitions target
      (nextLevel transitions target [start] [(start, [])]).1 es).2.length ≤ transitions.length := by
  have hnodup := @nextLevel_nodup transitions target _
    (@nextLevel_nodup transitions target _ (List.nodup_singleton start) [(start, [])]) es
  rw [nextLevel_visited, nextLevel_visited, ← hes, List.append_assoc, List.singleton_append,
    List.nodup_cons] at hnodup
  have hsub : es.map Prod.fst ++ (nextLevel transitions target
      (nextLevel transitions target [start] [(start, [])]).1 es).2.map Prod.fst ⊆
      transitions.map (·.toState) := by
    intro x hx
    rcases List.mem_append.mp hx with hx | hx
    · obtain ⟨e, he, rfl⟩ := List.mem_map.mp hx
      obtain ⟨e', -, hstep, -⟩ := nextLevel_mem (hes ▸ he)
      exact automationSteps_mem hstep
    · obtain ⟨e, he, rfl⟩ := List.mem_map.mp hx
      obtain ⟨e', -, hstep, -⟩ := nextLevel_mem he
      exact automationSteps_mem hstep
  have hperm := List.subperm_of_subset ?_ hsub
  · have hlen := hperm.length_le
    rwa [List.length_append, List.length_map, List.length_map, List.length_map] at hlen
  · rw [nextLevel_visited, ← hes]
    exact hnodup.2

theorem findAutomationPath_eq {start : String} (hstart : start ≠ target) :
    findAutomationPath transitions start target =
      ((route transitions target 0 start).or (route transitions target 1 start)).or
        (route transitions target 2 start) := by
  have htarget : target ∉ [start] := by simpa using Ne.symm hstart
  have hlevel0 := @searchPath_level transitions target [(start, [])] []
    (transitions.length + 1) [start] (by simp [maxAutomationPathLength]) htarget
  rw [List.append_nil, List.length_singleton, List.nil_append, Nat.add_comm 1] at hlevel0
  rw [findAutomationPath, hlevel0, bestRoute_cons]
  cases hroute0 : route transitions target 0 start with
  | some found => rfl
  | none =>
    have hlength := @levels_length transitions target _ start rfl
    have hfirst := @bestRoute_start transitions target start 0 hroute0
    have hshort : ∀ e ∈ (nextLevel transitions target [start] [(start, [])]).2, e.2.length = 1 := by
      intro e he
      obtain ⟨e', he', -, hlen⟩ := nextLevel_mem he
      rw [hlen, List.mem_singleton.mp he']
      rfl
    have hsecond := @bestRoute_start transitions target start 1
    have hvisited : ∀ v ∈ [start], route transitions target 0 v = none := by simpa using hroute0
    have hnone : bestRoute transitions target 0 [(start, [])] = none := by
      rw [bestRoute_cons, hroute0]
      rfl
    have htarget1 := nextLevel_target htarget hnone
    have hroutes1 := @nextLevel_routes transitions target [start] [(start, [])] hvisited
    generalize nextLevel transitions target [start] [(start, [])] = level1 at *
    obtain ⟨visited1, es1⟩ := level1
    obtain ⟨spare, hspare⟩ := Nat.exists_eq_add_of_le hlength
    replace hspare : transitions.length =
        es1.length + (nextLevel transitions target visited1 es1).2.length + spare := hspare
    have hfuel : transitions.length + 1 =
        es1.length + ((nextLevel transitions target visited1 es1).2.length + (spare + 1)) := by
      omega
    have hlevel1 := @searchPath_level transitions target es1 []
      ((nextLevel transitions target visited1 es1).2.length + (spare + 1)) visited1
      (fun e he => by rw [hshort e he]; decide) htarget1
    rw [List.append_nil, List.nil_append, ← hfuel, hfirst] at hlevel1
    show (Option.none.or (bestRoute transitions target 0 [])).or
      (searchPath transitions target (transitions.length + 1) visited1 es1) = _
    rw [hlevel1]
    cases hroute1 : route transitions target 1 start with
    | some found => rfl
    | none =>
      have hbest1 : bestRoute transitions target 0 es1 = none := hfirst.trans hroute1
      have hlong : ∀ e ∈ (nextLevel transitions target visited1 es1).2, e.2.length = 2 := by
        intro e he
        obtain ⟨e', he', -, hlen⟩ := nextLevel_mem he
        rw [hlen, hshort e' he']
      have hlevel2 := @searchPath_level transitions target
        (nextLevel transitions target visited1 es1).2 [] (spare + 1)
        (nextLevel transitions target visited1 es1).1
        (fun e he => by rw [hlong e he]; decide) (nextLevel_target htarget1 hbest1)
      rw [List.append_nil, bestRoute_nextLevel (hroutes1 hbest1), hsecond hroute1,
        List.nil_append, searchPath_long _ (spare + 1), Option.or_none] at hlevel2
      · rw [hlevel2]
        rfl
      · intro e he
        obtain ⟨e', he', -, hlen⟩ := nextLevel_mem he
        rw [hlen, hlong e' he']
        decide

theorem findAutomationPath_rest {start next : String} {rest : List String} (hstart : start ≠ target)
    (hfound : findAutomationPath transitions start target = some (next :: rest)) :
    (rest = [] ∧ next = target) ∨
      (next ≠ target ∧ findAutomationPath transitions next target = some rest) := by
  rw [findAutomationPath_eq hstart] at hfound
  cases hroute0 : route transitions target 0 start with
  | some found =>
    rw [hroute0] at hfound
    rw [route] at hroute0
    split at hroute0
    · cases hroute0
      cases hfound
      exact .inl ⟨rfl, rfl⟩
    · cases hroute0
  | none =>
    rw [hroute0, Option.none_or] at hfound
    have hstep : ∀ {n}, route transitions target (n + 1) start = some (next :: rest) →
        next ∈ automationSteps transitions target start ∧
          route transitions target n next = some rest := by
      intro n hroute
      obtain ⟨next', hmem, hmap⟩ := List.exists_of_findSome?_eq_some hroute
      obtain ⟨rest', hrest, heq⟩ := Option.map_eq_some_iff.mp hmap
      cases heq
      exact ⟨hmem, hrest⟩
    have hne : ∀ {state}, state ∈ automationSteps transitions target start → state ≠ target := by
      rintro state hmem rfl
      exact not_target_of_route hroute0 hmem
    cases hroute1 : route transitions target 1 start with
    | some found =>
      rw [hroute1] at hfound
      obtain rfl := Option.some.inj hfound
      obtain ⟨hmem, hrest⟩ := hstep hroute1
      refine .inr ⟨hne hmem, ?_⟩
      rw [findAutomationPath_eq (hne hmem), hrest]
      rfl
    | none =>
      rw [hroute1, Option.none_or] at hfound
      obtain ⟨hmem, hrest⟩ := hstep hfound
      have hshorter : route transitions target 0 next = none :=
        Option.map_eq_none_iff.mp (List.findSome?_eq_none_iff.mp hroute1 next hmem)
      refine .inr ⟨hne hmem, ?_⟩
      rw [findAutomationPath_eq (hne hmem), hshorter, hrest]
      rfl

end

/-! ## Which paths there are -/

/-- A path over transitions of the list, through no state that automation
must not enter. -/
structure LeadsTo (transitions : List WorkflowTransitionRule) (target start : String)
    (path : List String) : Prop where
  steps : (start :: path).IsChain fun a b => ∃ tr ∈ transitions, tr.fromState = a ∧ tr.toState = b
  ends : path.getLast? = some target
  allowed : ∀ s ∈ path.dropLast, s ∉ automationForbiddenStates

section
variable {transitions : List WorkflowTransitionRule} {target start : String} {path : List String}

theorem mem_automationSteps {state next : String} :
    next ∈ automationSteps transitions target state ↔
      (∃ tr ∈ transitions, tr.fromState = state ∧ tr.toState = next) ∧
        (next = target ∨ next ∉ automationForbiddenStates) := by
  simp only [automationSteps, passable, List.mem_map, List.mem_filter, Bool.and_eq_true, beq_iff_eq,
    Bool.or_eq_true, Bool.not_eq_true', List.contains_eq_mem, decide_eq_false_iff_not]
  constructor
  · rintro ⟨tr, ⟨htr, hfrom, hpass⟩, rfl⟩
    exact ⟨⟨tr, htr, hfrom, rfl⟩, hpass⟩
  · rintro ⟨⟨tr, htr, hfrom, rfl⟩, hpass⟩
    exact ⟨tr, ⟨htr, hfrom, hpass⟩, rfl⟩

theorem leadsTo_singleton {next : String} :
    LeadsTo transitions target start [next] ↔
      (∃ tr ∈ transitions, tr.fromState = start ∧ tr.toState = next) ∧ next = target := by
  constructor
  · intro h
    have hstep := (List.isChain_cons_cons.mp h.steps).1
    exact ⟨hstep, by simpa using h.ends⟩
  · rintro ⟨hstep, rfl⟩
    exact ⟨List.isChain_cons_cons.mpr ⟨hstep, .singleton _⟩, rfl, by simp⟩

theorem leadsTo_cons {next second : String} {rest : List String} :
    LeadsTo transitions target start (next :: second :: rest) ↔
      (∃ tr ∈ transitions, tr.fromState = start ∧ tr.toState = next) ∧
        next ∉ automationForbiddenStates ∧ LeadsTo transitions target next (second :: rest) := by
  constructor
  · intro h
    obtain ⟨hstep, hsteps⟩ := List.isChain_cons_cons.mp h.steps
    refine ⟨hstep, h.allowed next (by simp), hsteps, by simpa using h.ends, fun s hs => ?_⟩
    exact h.allowed s (by simp [hs])
  · rintro ⟨hstep, hnext, hsteps, hends, hallowed⟩
    refine ⟨List.isChain_cons_cons.mpr ⟨hstep, hsteps⟩, by simpa using hends, fun s hs => ?_⟩
    rcases List.mem_cons.mp (by simpa using hs) with rfl | hs
    · exact hnext
    · exact hallowed s hs

theorem leadsTo_of_route {n : Nat} (hshorter : ∀ m < n, route transitions target m start = none)
    (hroute : route transitions target n start = some path) :
    LeadsTo transitions target start path ∧ path.length = n + 1 := by
  induction n generalizing start path with
  | zero =>
    rw [route] at hroute
    split at hroute
    · rename_i hmem
      obtain rfl := Option.some.inj hroute
      obtain ⟨hstep, -⟩ := mem_automationSteps.mp (List.contains_iff_mem.mp hmem)
      exact ⟨leadsTo_singleton.mpr ⟨hstep, rfl⟩, rfl⟩
    · cases hroute
  | succ n ih =>
    obtain ⟨next, hmem, hmap⟩ := List.exists_of_findSome?_eq_some hroute
    obtain ⟨rest, hrest, rfl⟩ := Option.map_eq_some_iff.mp hmap
    obtain ⟨hstep, hpass⟩ := mem_automationSteps.mp hmem
    have hnone : ∀ m < n, route transitions target m next = none := fun m hm =>
      Option.map_eq_none_iff.mp
        (List.findSome?_eq_none_iff.mp (hshorter (m + 1) (Nat.succ_lt_succ hm)) next hmem)
    obtain ⟨hpath, hlen⟩ := ih hnone hrest
    -- the target itself would have been a shorter route
    have hne : next ≠ target := by
      rintro rfl
      exact not_target_of_route (hshorter 0 (Nat.succ_pos n)) hmem
    cases rest with
    | nil => cases hlen
    | cons second rest =>
      exact ⟨leadsTo_cons.mpr ⟨hstep, hpass.resolve_left hne, hpath⟩, by simpa using hlen⟩

theorem route_of_leadsTo (h : LeadsTo transitions target start path) {n : Nat}
    (hlen : path.length = n + 1) : (route transitions target n start).isSome := by
  induction n generalizing start path with
  | zero =>
    obtain ⟨next, rfl⟩ := List.length_eq_one_iff.mp hlen
    obtain ⟨hstep, rfl⟩ := leadsTo_singleton.mp h
    have hmem := mem_automationSteps.mpr ⟨hstep, .inl rfl⟩
    rw [route, if_pos (List.contains_iff_mem.mpr hmem)]
    rfl
  | succ n ih =>
    match path, hlen with
    | next :: second :: rest, hlen =>
      obtain ⟨hstep, hnext, hrest⟩ := leadsTo_cons.mp h
      have hmem : next ∈ automationSteps transitions target start :=
        mem_automationSteps.mpr ⟨hstep, .inr hnext⟩
      obtain ⟨found, hfound⟩ := Option.isSome_iff_exists.mp (ih hrest (Nat.succ.inj hlen))
      rw [route, List.findSome?_isSome_iff]
      exact ⟨next, hmem, by rw [hfound]; rfl⟩

theorem findAutomationPath_none (hstart : start ≠ target) :
    findAutomationPath transitions start target = none ↔
      ∀ n < maxAutomationPathLength, route transitions target n start = none := by
  rw [findAutomationPath_eq hstart, Option.or_eq_none_iff, Option.or_eq_none_iff, and_assoc]
  constructor
  · rintro ⟨h0, h1, h2⟩ n hn
    match n, hn with
    | 0, _ => exact h0
    | 1, _ => exact h1
    | 2, _ => exact h2
  · exact fun h => ⟨h 0 (by decide), h 1 (by decide), h 2 (by decide)⟩

theorem findAutomationPath_some (hstart : start ≠ target)
    (hfound : findAutomationPath transitions start target = some path) :
    ∃ n < maxAutomationPathLength, route transitions target n start = some path ∧
      ∀ m < n, route transitions target m start = none := by
  rw [findAutomationPath_eq hstart] at hfound
  cases h0 : route transitions target 0 start with
  | some found =>
    rw [h0] at hfound
    exact ⟨0, by decide, h0.trans hfound, fun m hm => absurd hm (Nat.not_lt_zero m)⟩
  | none =>
    cases h1 : route transitions target 1 start with
    | some found =>
      rw [h0, h1] at hfound
      refine ⟨1, by decide, h1.trans hfound, fun m hm => ?_⟩
      obtain rfl : m = 0 := by omega
      exact h0
    | none =>
      rw [h0, h1] at hfound
      refine ⟨2, by decide, hfound, fun m hm => ?_⟩
      match m, hm with
      | 0, _ => exact h0
      | 1, _ => exact h1

/-- **The search finds a shortest path of at most three transitions that avoids
the forbidden states, and nothing only if there is none.** -/
theorem findAutomationPath_exact (transitions : List WorkflowTransitionRule)
    {fromState targetState : String} (hne : fromState ≠ targetState) :
    (∀ path, findAutomationPath transitions fromState targetState = some path →
      LeadsTo transitions targetState fromState path ∧ path.length ≤ maxAutomationPathLength ∧
        ∀ other, LeadsTo transitions targetState fromState other → path.length ≤ other.length) ∧
      (findAutomationPath transitions fromState targetState = none ↔
        ∀ path, LeadsTo transitions targetState fromState path →
          maxAutomationPathLength < path.length) := by
  have hpositive {path : List String} (h : LeadsTo transitions targetState fromState path) :
      path.length = path.length - 1 + 1 := by
    cases path with
    | nil => cases h.ends
    | cons next rest => rfl
  constructor
  · intro path hfound
    obtain ⟨n, hn, hroute, hshorter⟩ := findAutomationPath_some hne hfound
    obtain ⟨hpath, hlen⟩ := leadsTo_of_route hshorter hroute
    refine ⟨hpath, by omega, fun other hother => ?_⟩
    by_contra hless
    have hroute' := route_of_leadsTo hother (hpositive hother)
    have hnone := hshorter (other.length - 1) (by have := hpositive hother; omega)
    rw [hnone] at hroute'
    cases hroute'
  · rw [findAutomationPath_none hne]
    constructor
    · intro hnone path hpath
      by_contra hshort
      have hroute := route_of_leadsTo hpath (hpositive hpath)
      rw [hnone (path.length - 1) (by have := hpositive hpath; omega)] at hroute
      cases hroute
    · intro hlong n hn
      -- the shortest route would be a path
      induction n using Nat.strongRecOn with
      | _ n ih =>
        cases hroute : route transitions targetState n fromState with
        | none => rfl
        | some path =>
          obtain ⟨hpath, hlen⟩ := leadsTo_of_route (fun m hm => ih m hm (by omega)) hroute
          have := hlong path hpath
          omega

/-- The incident workflow leads to mitigation in two steps. -/
theorem findAutomationPath_exact_incident :
    ∃ path, findAutomationPath (rulesOf ((builtInWorkflows.lookup "incident").map fun d => ⟨1, d⟩))
        "Triaged" "Mitigated" = some path ∧ path.length = 2 ∧
      ∀ other, LeadsTo (rulesOf ((builtInWorkflows.lookup "incident").map fun d => ⟨1, d⟩))
        "Mitigated" "Triaged" other → 2 ≤ other.length := by
  have hfound : findAutomationPath
      (rulesOf ((builtInWorkflows.lookup "incident").map fun d => ⟨1, d⟩)) "Triaged" "Mitigated" =
      some ["Investigating", "Mitigated"] := by decide
  exact ⟨_, hfound, rfl, ((findAutomationPath_exact _ (by decide)).1 _ hfound).2.2⟩

end

end Cadena.Monitoring
