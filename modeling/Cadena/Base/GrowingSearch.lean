import Mathlib.Data.List.Nodup
import Mathlib.Logic.Relation

/-!
# Searching a graph that grows

A search asks for the edges of one node after the other while edges are added
to the graph. What it has found is the component of its root, as it was at some
moment, exactly if no edge that it misses was added before one that it finds.
-/

namespace Cadena.Base.GrowingSearch

variable {ν ε : Type}

/-- An edge is added to the graph, or the search asks for the edges of a node. -/
inductive Event (ν ε : Type) where
  | added (e : ε)
  | asked (v : ν)

def Event.edge? : Event ν ε → Option ε
  | .added e => some e
  | .asked _ => none

def edgesAfter (start : List ε) (events : List (Event ν ε)) : List ε := start ++ events.filterMap Event.edge?

@[simp] theorem edgesAfter_nil (start : List ε) : edgesAfter start ([] : List (Event ν ε)) = start :=
  List.append_nil _

theorem edgesAfter_append (start : List ε) (before after : List (Event ν ε)) :
    edgesAfter start (before ++ after) = edgesAfter start before ++ after.filterMap Event.edge? := by
  simp [edgesAfter]

theorem mem_added {events : List (Event ν ε)} {e : ε} : e ∈ events.filterMap Event.edge? ↔ .added e ∈ events := by
  rw [List.mem_filterMap]
  constructor
  · rintro ⟨event, hmem, hedge⟩
    cases event with
    | added e' => exact Option.some.inj hedge ▸ hmem
    | asked v => cases hedge
  · exact fun h => ⟨_, h, rfl⟩

section
variable (ends : ε → ν × ν)

def Touches (e : ε) (v : ν) : Prop := (ends e).1 = v ∨ (ends e).2 = v

def Adjacent (G : List ε) (v w : ν) : Prop := ∃ e ∈ G, Touches ends e v ∧ Touches ends e w

def Component (G : List ε) (root : ν) : ν → Prop := Relation.ReflTransGen (Adjacent ends G) root

/-- The nodes are those of the component of the root, and the edges those of the
graph inside it. -/
structure IsComponent (G : List ε) (root : ν) (nodes : List ν) (edges : List ε) : Prop where
  nodes_iff : ∀ v, v ∈ nodes ↔ Component ends G root v
  edges_iff : ∀ e, e ∈ edges ↔ e ∈ G ∧ ∀ v, Touches ends e v → Component ends G root v

end

section
variable {ends : ε → ν × ν} {G : List ε} {root : ν} {nodes : List ν} {edges : List ε}

theorem component_mono {H : List ε} (h : ∀ e ∈ G, e ∈ H) {v : ν} (hv : Component ends G root v) :
    Component ends H root v := by
  refine Relation.ReflTransGen.mono (fun a b hab => ?_) _ _ hv
  obtain ⟨e, he, htouch⟩ := hab
  exact ⟨e, h e he, htouch⟩

/-- Nodes that the edges connect to the root, with the ends of the edges among
them, are the component if the edges are all those of the graph at the nodes. -/
theorem isComponent_iff (hroot : root ∈ nodes) (hconnected : ∀ v ∈ nodes, Component ends edges root v)
    (hends : ∀ e ∈ edges, ∀ v, Touches ends e v → v ∈ nodes) :
    IsComponent ends G root nodes edges ↔
      (∀ e ∈ edges, e ∈ G) ∧ ∀ e ∈ G, ∀ v ∈ nodes, Touches ends e v → e ∈ edges := by
  constructor
  · intro h
    refine ⟨fun e he => ((h.edges_iff e).mp he).1, fun e he v hv htouch => ?_⟩
    refine (h.edges_iff e).mpr ⟨he, fun w hw => ?_⟩
    exact ((h.nodes_iff v).mp hv).tail ⟨e, he, htouch, hw⟩
  · rintro ⟨hsub, hall⟩
    have hnodes : ∀ v, v ∈ nodes ↔ Component ends G root v := by
      refine fun v => ⟨fun hv => component_mono hsub (hconnected v hv), fun hv => ?_⟩
      induction hv with
      | refl => exact hroot
      | tail _ hadj ih =>
        obtain ⟨e, he, hfirst, hsecond⟩ := hadj
        exact hends e (hall e he _ ih hfirst) _ hsecond
    refine ⟨hnodes, fun e => ⟨fun he => ⟨hsub e he, fun v hv => (hnodes v).mp (hends e he v hv)⟩, ?_⟩⟩
    rintro ⟨he, hinside⟩
    exact hall e he _ ((hnodes _).mpr (hinside _ (.inl rfl))) (.inl rfl)

end

/-! ## What a search has seen -/

section
variable (ends : ε → ν × ν)

/-- The edge was there when one of its ends was asked for. -/
def Seen (start : List ε) (events : List (Event ν ε)) (e : ε) : Prop :=
  ∃ before v after, events = before ++ .asked v :: after ∧ e ∈ edgesAfter start before ∧ Touches ends e v

/-- A search from the root in progress: what it has visited, what of it is still
to be asked for, and what it has found. -/
structure Explored (root : ν) (start : List ε) (events : List (Event ν ε)) (visited queue : List ν)
    (found : List ε) : Prop where
  root_visited : root ∈ visited
  queued : ∀ v ∈ queue, v ∈ visited
  asked : ∀ v, .asked v ∈ events → v ∈ visited
  pending : ∀ v ∈ visited, v ∈ queue ∨ .asked v ∈ events
  seen : ∀ e, e ∈ found ↔ Seen ends start events e
  connected : ∀ v ∈ visited, Component ends found root v
  closed : ∀ e ∈ found, ∀ v, Touches ends e v → v ∈ visited

end

section
variable {ends : ε → ν × ν} {root : ν} {start : List ε} {events : List (Event ν ε)} {visited queue : List ν}
  {found : List ε}

theorem seen_added {e' e : ε} : Seen ends start (events ++ [.added e']) e ↔ Seen ends start events e := by
  constructor
  · rintro ⟨before, v, after, hsplit, hmem, htouch⟩
    rcases List.eq_nil_or_concat after with rfl | ⟨after, last, rfl⟩
    · have hlast := congrArg List.getLast? hsplit
      simp at hlast
    · rw [List.concat_eq_append, ← List.cons_append, ← List.append_assoc] at hsplit
      exact ⟨before, v, after, (List.append_inj' hsplit rfl).1, hmem, htouch⟩
  · rintro ⟨before, v, after, rfl, hmem, htouch⟩
    exact ⟨before, v, after ++ [.added e'], by simp, hmem, htouch⟩

theorem seen_asked {v : ν} {e : ε} :
    Seen ends start (events ++ [.asked v]) e ↔
      Seen ends start events e ∨ e ∈ edgesAfter start events ∧ Touches ends e v := by
  constructor
  · rintro ⟨before, w, after, hsplit, hmem, htouch⟩
    rcases List.eq_nil_or_concat after with rfl | ⟨after, last, rfl⟩
    · obtain ⟨rfl, hlast⟩ := List.append_inj' hsplit rfl
      cases hlast
      exact .inr ⟨hmem, htouch⟩
    · rw [List.concat_eq_append, ← List.cons_append, ← List.append_assoc] at hsplit
      exact .inl ⟨before, w, after, (List.append_inj' hsplit rfl).1, hmem, htouch⟩
  · rintro (⟨before, w, after, rfl, hmem, htouch⟩ | ⟨hmem, htouch⟩)
    · exact ⟨before, w, after ++ [.asked v], by simp, hmem, htouch⟩
    · exact ⟨events, v, [], rfl, hmem, htouch⟩

theorem Explored.begin (root : ν) (start : List ε) : Explored ends root start [] [root] [root] [] where
  root_visited := List.mem_singleton_self root
  queued _ hv := hv
  asked _ hv := by cases hv
  pending _ hv := .inl hv
  seen e := by
    refine ⟨nofun, ?_⟩
    rintro ⟨before, v, after, hsplit, -⟩
    cases before <;> cases hsplit
  connected v hv := by
    rw [List.mem_singleton.mp hv]
    exact .refl
  closed _ he := by cases he

theorem Explored.added (h : Explored ends root start events visited queue found) (e : ε) :
    Explored ends root start (events ++ [.added e]) visited queue found where
  root_visited := h.root_visited
  queued := h.queued
  asked v hv := h.asked v (by simpa using hv)
  pending v hv := (h.pending v hv).imp id (List.mem_append_left _)
  seen e' := (h.seen e').trans seen_added.symm
  connected := h.connected
  closed := h.closed

theorem Explored.ask {v : ν} {visited' queue' : List ν} {found' : List ε}
    (h : Explored ends root start events visited queue found) (hv : v ∈ queue)
    (hfound : ∀ e, e ∈ found' ↔ e ∈ found ∨ e ∈ edgesAfter start events ∧ Touches ends e v)
    (hvisited : ∀ w, w ∈ visited' ↔
      w ∈ visited ∨ ∃ e ∈ edgesAfter start events, Touches ends e v ∧ Touches ends e w)
    (hkept : ∀ w ∈ queue, w = v ∨ w ∈ queue') (hnew : ∀ w ∈ visited', w ∈ visited ∨ w ∈ queue')
    (hqueue : ∀ w ∈ queue', w ∈ visited') :
    Explored ends root start (events ++ [.asked v]) visited' queue' found' where
  root_visited := (hvisited root).mpr (.inl h.root_visited)
  queued := hqueue
  asked w hw := by
    rcases List.mem_append.mp hw with hw | hw
    · exact (hvisited w).mpr (.inl (h.asked w hw))
    · have hsame : w = v := by injection List.mem_singleton.mp hw
      rw [hsame]
      exact (hvisited v).mpr (.inl (h.queued v hv))
  pending w hw := by
    rcases hnew w hw with hold | hold
    · rcases h.pending w hold with hwait | hasked
      · rcases hkept w hwait with hsame | hstill
        · rw [hsame]
          exact .inr (List.mem_append_right _ (List.mem_singleton_self _))
        · exact .inl hstill
      · exact .inr (List.mem_append_left _ hasked)
    · exact .inl hold
  seen e := by rw [hfound, h.seen, seen_asked]
  connected w hw := by
    have hold : ∀ u, u ∈ visited → Component ends found' root u := fun u hu =>
      component_mono (fun e he => (hfound e).mpr (.inl he)) (h.connected u hu)
    rcases (hvisited w).mp hw with hbefore | ⟨e, he, hfrom, hto⟩
    · exact hold w hbefore
    · exact (hold v (h.queued v hv)).tail ⟨e, (hfound e).mpr (.inr ⟨he, hfrom⟩), hfrom, hto⟩
  closed e he w hw := by
    rw [hvisited]
    rcases (hfound e).mp he with hbefore | ⟨hmem, htouch⟩
    · exact .inl (h.closed e hbefore w hw)
    · exact .inr ⟨e, hmem, htouch, hw⟩

end

/-! ## The order of additions and questions -/

section
variable [DecidableEq ν] (ends : ε → ν × ν)

def asks (events : List (Event ν ε)) (e : ε) : Bool :=
  events.any fun
    | .added _ => false
    | .asked v => (ends e).1 = v || (ends e).2 = v

/-- An edge that is added after a question about one of its ends, and never
asked for again. -/
def missed (before after : List (Event ν ε)) (e : ε) : Bool := asks ends before e && !asks ends after e

/-- Some edge is added and found. -/
def addsFound : List (Event ν ε) → Bool
  | [] => false
  | .added e :: events => asks ends events e || addsFound events
  | .asked _ :: events => addsFound events

/-- After `before`, the latest event first: no edge that is missed is added
before one that is found. -/
def inOrder (before : List (Event ν ε)) : List (Event ν ε) → Bool
  | [] => true
  | .added e :: events =>
    !(missed ends before events e && addsFound ends events) && inOrder (.added e :: before) events
  | .asked v :: events => inOrder (.asked v :: before) events

def missesNone (before : List (Event ν ε)) : List (Event ν ε) → List (Event ν ε) → Bool
  | [], _ => true
  | .added e :: first, rest =>
    !missed ends before (first ++ rest) e && missesNone (.added e :: before) first rest
  | .asked v :: first, rest => missesNone (.asked v :: before) first rest

end

section
variable [DecidableEq ν] {ends : ε → ν × ν} {before events : List (Event ν ε)}

theorem inOrder_of_not_addsFound (h : addsFound ends events = false) : inOrder ends before events = true := by
  induction events generalizing before with
  | nil => rfl
  | cons event events ih =>
    cases event with
    | added e =>
      obtain ⟨-, hrest⟩ := Bool.or_eq_false_iff.mp h
      simp [inOrder, hrest, ih hrest]
    | asked v => exact ih h

/-- The events are in order exactly if, at some moment between two of them, no
edge has been missed and none is still to be added that will be found. -/
theorem inOrder_iff :
    inOrder ends before events = true ↔
      ∃ first rest, events = first ++ rest ∧ missesNone ends before first rest = true ∧
        addsFound ends rest = false := by
  induction events generalizing before with
  | nil => exact ⟨fun _ => ⟨[], [], rfl, rfl, rfl⟩, fun _ => rfl⟩
  | cons event events ih =>
    cases event with
    | asked v =>
      show inOrder ends (.asked v :: before) events = true ↔ _
      rw [ih]
      constructor
      · rintro ⟨first, rest, rfl, hmisses, hfound⟩
        exact ⟨.asked v :: first, rest, rfl, hmisses, hfound⟩
      · rintro ⟨first, rest, hsplit, hmisses, hfound⟩
        cases first with
        | nil =>
          cases hsplit
          exact ⟨[], events, rfl, rfl, hfound⟩
        | cons event first =>
          cases hsplit
          exact ⟨first, rest, rfl, hmisses, hfound⟩
    | added e =>
      show (!(missed ends before events e && addsFound ends events) &&
        inOrder ends (.added e :: before) events) = true ↔ _
      simp only [Bool.and_eq_true, Bool.not_eq_true', Bool.and_eq_false_iff]
      constructor
      · rintro ⟨hmissed | hfound, horder⟩
        · obtain ⟨first, rest, rfl, hmisses, hfound⟩ := ih.mp horder
          exact ⟨.added e :: first, rest, rfl, by simp [missesNone, hmissed, hmisses], hfound⟩
        · cases hasks : asks ends events e with
          | false => exact ⟨[], .added e :: events, rfl, rfl, by simp [addsFound, hasks, hfound]⟩
          | true =>
            obtain ⟨first, rest, rfl, hmisses, hrest⟩ := ih.mp horder
            exact ⟨.added e :: first, rest, rfl, by simp [missesNone, missed, hasks, hmisses], hrest⟩
      · rintro ⟨first, rest, hsplit, hmisses, hfound⟩
        cases first with
        | nil =>
          obtain rfl : _ = rest := hsplit
          obtain ⟨-, hrest⟩ := Bool.or_eq_false_iff.mp hfound
          exact ⟨.inr hrest, inOrder_of_not_addsFound hrest⟩
        | cons event first =>
          cases hsplit
          simp only [missesNone, Bool.and_eq_true, Bool.not_eq_true'] at hmisses
          exact ⟨.inl hmisses.1, ih.mpr ⟨first, rest, rfl, hmisses.2, hfound⟩⟩

theorem asks_iff {e : ε} : asks ends events e = true ↔ ∃ v, .asked v ∈ events ∧ Touches ends e v := by
  simp only [asks, List.any_eq_true]
  constructor
  · rintro ⟨event, hmem, hevent⟩
    cases event with
    | added e' => cases hevent
    | asked v => exact ⟨v, hmem, by simpa [Touches] using hevent⟩
  · rintro ⟨v, hmem, htouch⟩
    exact ⟨.asked v, hmem, by simpa [Touches] using htouch⟩

theorem addsFound_iff :
    addsFound ends events = true ↔ ∃ a e c, events = a ++ .added e :: c ∧ asks ends c e = true := by
  induction events with
  | nil =>
    refine ⟨nofun, ?_⟩
    rintro ⟨a, e, c, hsplit, -⟩
    cases a <;> cases hsplit
  | cons event events ih =>
    have hlater : (∃ a e c, events = a ++ .added e :: c ∧ asks ends c e = true) →
        ∃ a e c, event :: events = a ++ .added e :: c ∧ asks ends c e = true := by
      rintro ⟨a, e, c, rfl, hasks⟩
      exact ⟨event :: a, e, c, rfl, hasks⟩
    cases event with
    | added e =>
      simp only [addsFound, Bool.or_eq_true, ih]
      constructor
      · rintro (hasks | hrest)
        · exact ⟨[], e, events, rfl, hasks⟩
        · exact hlater hrest
      · rintro ⟨a, e', c, hsplit, hasks⟩
        cases a with
        | nil =>
          cases hsplit
          exact .inl hasks
        | cons event a =>
          cases hsplit
          exact .inr ⟨a, e', c, rfl, hasks⟩
    | asked v =>
      simp only [addsFound, ih]
      refine ⟨hlater, ?_⟩
      rintro ⟨a, e', c, hsplit, hasks⟩
      cases a with
      | nil => cases hsplit
      | cons event a =>
        cases hsplit
        exact ⟨a, e', c, rfl, hasks⟩

theorem missesNone_iff {first rest : List (Event ν ε)} :
    missesNone ends before first rest = true ↔
      ∀ a e c, first = a ++ .added e :: c → missed ends (a.reverse ++ before) (c ++ rest) e = false := by
  induction first generalizing before with
  | nil =>
    refine ⟨fun _ a e c hsplit => ?_, fun _ => rfl⟩
    cases a <;> cases hsplit
  | cons event first ih =>
    have hcons : ∀ (a : List (Event ν ε)), (event :: a).reverse ++ before = a.reverse ++ event :: before := by
      intro a
      rw [List.reverse_cons, List.append_assoc, List.singleton_append]
    cases event with
    | added e =>
      simp only [missesNone, Bool.and_eq_true, Bool.not_eq_true', ih]
      constructor
      · rintro ⟨hmissed, hrest⟩ a e' c hsplit
        cases a with
        | nil =>
          cases hsplit
          exact hmissed
        | cons event a =>
          cases hsplit
          rw [hcons]
          exact hrest a e' c rfl
      · intro h
        refine ⟨h [] e first rfl, fun a e' c hsplit => ?_⟩
        rw [← hcons]
        exact h (.added e :: a) e' c (by rw [hsplit, List.cons_append])
    | asked v =>
      simp only [missesNone, ih]
      constructor
      · intro h a e' c hsplit
        cases a with
        | nil => cases hsplit
        | cons event a =>
          cases hsplit
          rw [hcons]
          exact h a e' c rfl
      · intro h a e' c hsplit
        rw [← hcons]
        exact h (.asked v :: a) e' c (by rw [hsplit, List.cons_append])

end

/-! ## What a finished search has found -/

section
variable [DecidableEq ν] {ends : ε → ν × ν} {root : ν} {start : List ε} {events : List (Event ν ε)}
  {visited : List ν} {found : List ε}

theorem seen_iff_asks {a c : List (Event ν ε)} {e : ε} (hnodup : (edgesAfter start (a ++ .added e :: c)).Nodup) :
    Seen ends start (a ++ .added e :: c) e ↔ asks ends c e = true := by
  rw [asks_iff]
  constructor
  · rintro ⟨before, v, after, hsplit, hmem, htouch⟩
    rcases List.append_eq_append_iff.mp hsplit with ⟨x, rfl, hx⟩ | ⟨x, rfl, hx⟩
    · cases x with
      | nil => cases hx
      | cons event x =>
        cases hx
        exact ⟨v, List.mem_append_right _ List.mem_cons_self, htouch⟩
    · -- the edge was there before, and is added again
      rw [List.append_assoc, edgesAfter_append] at hnodup
      refine absurd rfl ((List.nodup_append.mp hnodup).2.2 e hmem e ?_)
      rw [mem_added]
      simp
  · rintro ⟨v, hmem, htouch⟩
    obtain ⟨c₁, c₂, rfl⟩ := List.append_of_mem hmem
    refine ⟨a ++ .added e :: c₁, v, c₂, by simp, ?_, htouch⟩
    rw [edgesAfter_append]
    exact List.mem_append_right _ (mem_added.mpr List.mem_cons_self)

theorem edges_found_iff {first rest : List (Event ν ε)}
    (h : ∀ e, e ∈ found ↔ Seen ends start (first ++ rest) e)
    (hnodup : (edgesAfter start (first ++ rest)).Nodup) :
    (∀ e ∈ found, e ∈ edgesAfter start first) ↔ addsFound ends rest = false := by
  constructor
  · intro hsub
    refine Bool.eq_false_iff.mpr fun hadds => ?_
    obtain ⟨a, e, c, rfl, hasks⟩ := addsFound_iff.mp hadds
    have hsplit : first ++ (a ++ .added e :: c) = (first ++ a) ++ .added e :: c := (List.append_assoc ..).symm
    have hseen : e ∈ found := (h e).mpr (hsplit ▸ (seen_iff_asks (hsplit ▸ hnodup)).mpr hasks)
    rw [edgesAfter_append] at hnodup
    exact (List.nodup_append.mp hnodup).2.2 e (hsub e hseen) e (mem_added.mpr (by simp)) rfl
  · intro hadds e he
    have hseen := (h e).mp he
    have hlater : e ∉ rest.filterMap Event.edge? := by
      intro hmem
      obtain ⟨a, c, rfl⟩ := List.append_of_mem (mem_added.mp hmem)
      have hsplit : first ++ (a ++ .added e :: c) = (first ++ a) ++ .added e :: c := (List.append_assoc ..).symm
      rw [hsplit] at hseen hnodup
      have hfound := addsFound_iff.mpr ⟨a, e, c, rfl, (seen_iff_asks hnodup).mp hseen⟩
      rw [hadds] at hfound
      cases hfound
    obtain ⟨before, v, after, hsplit, hmem, -⟩ := hseen
    have hall : e ∈ edgesAfter start (first ++ rest) := by
      rw [hsplit, edgesAfter_append]
      exact List.mem_append_left _ hmem
    rw [edgesAfter_append] at hall
    exact (List.mem_append.mp hall).resolve_right hlater

theorem edges_complete_iff {first rest : List (Event ν ε)}
    (h : ∀ e, e ∈ found ↔ Seen ends start (first ++ rest) e)
    (hvisited : ∀ v, v ∈ visited ↔ .asked v ∈ first ++ rest)
    (hnodup : (edgesAfter start (first ++ rest)).Nodup) :
    (∀ e ∈ edgesAfter start first, ∀ v ∈ visited, Touches ends e v → e ∈ found) ↔
      missesNone ends [] first rest = true := by
  have hadded : ∀ {a c : List (Event ν ε)} {e : ε}, first = a ++ .added e :: c →
      (e ∈ found ↔ asks ends (c ++ rest) e = true) := by
    rintro a c e rfl
    have hsplit : (a ++ .added e :: c) ++ rest = a ++ .added e :: (c ++ rest) := by simp
    rw [h, hsplit]
    exact seen_iff_asks (hsplit ▸ hnodup)
  rw [missesNone_iff]
  constructor
  · rintro hcomplete a e c rfl
    refine Bool.eq_false_iff.mpr fun hmissed => ?_
    simp only [missed, List.append_nil, Bool.and_eq_true, Bool.not_eq_true'] at hmissed
    obtain ⟨v, hmem, htouch⟩ := asks_iff.mp hmissed.1
    have hv : v ∈ visited := (hvisited v).mpr (by simp [List.mem_reverse.mp hmem])
    have he : e ∈ edgesAfter start (a ++ .added e :: c) :=
      List.mem_append_right _ (mem_added.mpr (by simp))
    have hasks := (hadded rfl).mp (hcomplete e he v hv htouch)
    rw [hmissed.2] at hasks
    cases hasks
  · intro hmisses e he v hv htouch
    have hasked := (hvisited v).mp hv
    rcases List.mem_append.mp he with hstart | hlater
    · obtain ⟨before, after, hsplit⟩ := List.append_of_mem hasked
      exact (h e).mpr ⟨before, v, after, hsplit, List.mem_append_left _ hstart, htouch⟩
    · obtain ⟨a, c, hfirst⟩ := List.append_of_mem (mem_added.mp hlater)
      rw [hadded hfirst]
      have hmissed := hmisses a e c hfirst
      simp only [missed, List.append_nil, Bool.and_eq_false_iff, Bool.not_eq_false'] at hmissed
      refine hmissed.elim (fun hbefore => ?_) id
      rw [hfirst, List.append_assoc, List.mem_append] at hasked
      rcases hasked with hasked | hasked
      · have hasks : asks ends a.reverse e = true := asks_iff.mpr ⟨v, List.mem_reverse.mpr hasked, htouch⟩
        rw [hbefore] at hasks
        cases hasks
      · rw [asks_iff]
        refine ⟨v, ?_, htouch⟩
        simpa using hasked

/-- **The finished search has found the component of its root at some moment**
exactly if the events are in order. -/
theorem existed_iff (h : Explored ends root start events visited [] found)
    (hnodup : (edgesAfter start events).Nodup) :
    (∃ first rest, events = first ++ rest ∧ IsComponent ends (edgesAfter start first) root visited found) ↔
      inOrder ends [] events = true := by
  have hvisited : ∀ v, v ∈ visited ↔ .asked v ∈ events := fun v =>
    ⟨fun hv => (h.pending v hv).resolve_left List.not_mem_nil, h.asked v⟩
  rw [inOrder_iff]
  refine exists_congr fun first => exists_congr fun rest => and_congr_right fun hsplit => ?_
  subst hsplit
  rw [isComponent_iff h.root_visited h.connected h.closed, edges_found_iff h.seen hnodup,
    edges_complete_iff h.seen hvisited hnodup]
  exact And.comm

end

end Cadena.Base.GrowingSearch
