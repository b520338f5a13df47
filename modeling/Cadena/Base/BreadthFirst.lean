import Mathlib.Data.List.Nodup
import Mathlib.Logic.Relation
import Mathlib.Data.Nat.Find

/-!
# Breadth-first search

A search keeps what it has found and a queue of what it has still to expand.
`Explored` is the invariant of a search without a bound, which finds what can
be reached; `Leveled` that of a search that marks everything it finds with a
distance and expands up to a bound, which finds what is that near.
-/

namespace Cadena.Base.BreadthFirst

variable {ν : Type}

/-! ## Reaching -/

section
variable (adj : ν → ν → Prop)

/-- A search from the root without a bound. -/
structure Explored (root : ν) (visited queue : List ν) : Prop where
  nodup : visited.Nodup
  rooted : root ∈ visited
  queued : ∀ v ∈ queue, v ∈ visited
  reached : ∀ v ∈ visited, Relation.ReflTransGen adj root v
  closed : ∀ v ∈ visited, v ∈ queue ∨ ∀ w, adj v w → w ∈ visited

/-- What is found from `v`, and was not there before. -/
structure Fresh (v : ν) (visited fresh : List ν) : Prop where
  nodup : fresh.Nodup
  new : ∀ w ∈ fresh, w ∉ visited
  next : ∀ w ∈ fresh, adj v w
  all : ∀ w, adj v w → w ∈ visited ∨ w ∈ fresh

end

section
variable {adj : ν → ν → Prop} {root v : ν} {visited queue fresh : List ν}

theorem Explored.start (adj : ν → ν → Prop) (root : ν) : Explored adj root [root] [root] where
  nodup := List.nodup_singleton root
  rooted := List.mem_singleton_self root
  queued _ hv := hv
  reached _ hv := List.mem_singleton.mp hv ▸ .refl
  closed _ hv := .inl hv

theorem Fresh.nodup_append (h : Fresh adj v visited fresh) (hvisited : visited.Nodup) :
    (visited ++ fresh).Nodup := by
  rw [List.nodup_append]
  refine ⟨hvisited, h.nodup, fun a ha b hb hab => ?_⟩
  subst hab
  exact h.new a hb ha

theorem Explored.expand (h : Explored adj root visited (v :: queue))
    (hfresh : Fresh adj v visited fresh) :
    Explored adj root (visited ++ fresh) (queue ++ fresh) where
  nodup := hfresh.nodup_append h.nodup
  rooted := List.mem_append_left _ h.rooted
  queued w hw := by
    rcases List.mem_append.mp hw with hw | hw
    · exact List.mem_append_left _ (h.queued w (List.mem_cons_of_mem _ hw))
    · exact List.mem_append_right _ hw
  reached w hw := by
    rcases List.mem_append.mp hw with hw | hw
    · exact h.reached w hw
    · exact (h.reached v (h.queued v List.mem_cons_self)).tail (hfresh.next w hw)
  closed w hw := by
    rcases List.mem_append.mp hw with hw | hw
    · rcases h.closed w hw with hqueue | hall
      · rcases List.mem_cons.mp hqueue with rfl | hqueue
        · right
          exact fun x hx => List.mem_append.mpr (hfresh.all x hx)
        · exact .inl (List.mem_append_left _ hqueue)
      · exact .inr fun x hx => List.mem_append_left _ (hall x hx)
    · exact .inl (List.mem_append_right _ hw)

/-- A search that has nothing left to expand has found what can be reached. -/
theorem Explored.mem_iff (h : Explored adj root visited []) {w : ν} :
    w ∈ visited ↔ Relation.ReflTransGen adj root w := by
  refine ⟨h.reached w, fun hreach => ?_⟩
  induction hreach with
  | refl => exact h.rooted
  | tail _ hadj ih =>
    rcases h.closed _ ih with hqueue | hall
    · cases hqueue
    · exact hall _ hadj

end

section
variable [DecidableEq ν]

/-- The nodes of a list that have not been visited, each where it comes
first. -/
def unseen : List ν → List ν → List ν
  | _, [] => []
  | visited, w :: ws =>
    if w ∈ visited then unseen visited ws else w :: unseen (visited ++ [w]) ws

theorem mem_unseen {visited ws : List ν} {w : ν} :
    w ∈ unseen visited ws ↔ w ∈ ws ∧ w ∉ visited := by
  induction ws generalizing visited with
  | nil => simp [unseen]
  | cons x ws ih =>
    rw [unseen]
    split
    · rename_i hx
      rw [ih, List.mem_cons]
      exact ⟨fun h => ⟨.inr h.1, h.2⟩,
        fun h => ⟨h.1.resolve_left fun heq => h.2 (heq ▸ hx), h.2⟩⟩
    · rename_i hx
      rw [List.mem_cons, List.mem_cons, ih, List.mem_append, List.mem_singleton, not_or]
      constructor
      · rintro (rfl | ⟨hw, hnew, -⟩)
        · exact ⟨.inl rfl, hx⟩
        · exact ⟨.inr hw, hnew⟩
      · rintro ⟨hw, hnew⟩
        by_cases heq : w = x
        · exact .inl heq
        · exact .inr ⟨hw.resolve_left heq, hnew, heq⟩

theorem unseen_nodup (visited ws : List ν) : (unseen visited ws).Nodup := by
  induction ws generalizing visited with
  | nil => exact List.nodup_nil
  | cons x ws ih =>
    rw [unseen]
    split
    · exact ih visited
    · refine List.nodup_cons.mpr ⟨fun hx => ?_, ih _⟩
      exact (mem_unseen.mp hx).2 (List.mem_append_right _ (List.mem_singleton_self x))

theorem fresh_unseen {adj : ν → ν → Prop} {v : ν} {ws : List ν} (hadj : ∀ w, adj v w ↔ w ∈ ws)
    (visited : List ν) : Fresh adj v visited (unseen visited ws) where
  nodup := unseen_nodup visited ws
  new w hw := (mem_unseen.mp hw).2
  next w hw := (hadj w).mpr (mem_unseen.mp hw).1
  all w hw := by
    by_cases hold : w ∈ visited
    · exact .inl hold
    · exact .inr (mem_unseen.mpr ⟨(hadj w).mp hw, hold⟩)

end

/-! ## Distances -/

section
variable (adj : ν → ν → Prop) (start : ν → Prop)

/-- What is found from a whole frontier, and was not there before. -/
structure FreshLevel (frontier visited fresh : List ν) : Prop where
  nodup : fresh.Nodup
  new : ∀ w ∈ fresh, w ∉ visited
  next : ∀ w ∈ fresh, ∃ v ∈ frontier, adj v w
  all : ∀ v ∈ frontier, ∀ w, adj v w → w ∈ visited ∨ w ∈ fresh

inductive Walk : Nat → ν → Prop where
  | start {v : ν} (h : start v) : Walk 0 v
  | step {n : Nat} {v w : ν} (h : Walk n v) (hadj : adj v w) : Walk (n + 1) w

/-- A walk of so many steps, and none of fewer. -/
def AtDistance (n : Nat) (v : ν) : Prop := Walk adj start n v ∧ ∀ m, Walk adj start m v → n ≤ m

/-- A search that marks what it finds with its distance. -/
structure Leveled (bound : Nat) (found queue : List (ν × Nat)) : Prop where
  keys : (found.map Prod.fst).Nodup
  queued : ∀ e ∈ queue, e ∈ found
  walk : ∀ e ∈ found, Walk adj start e.2 e.1
  bounded : ∀ e ∈ found, e.2 ≤ bound
  starts : ∀ v, start v → (v, 0) ∈ found
  sorted : queue.Pairwise fun a b => a.2 ≤ b.2
  near : ∀ e ∈ found, ∀ q ∈ queue, e.2 ≤ q.2 + 1
  closed : ∀ e ∈ found, e ∈ queue ∨ bound ≤ e.2 ∨
    ∀ w, adj e.1 w → ∃ d, (w, d) ∈ found ∧ d ≤ e.2 + 1

end

section
variable {adj : ν → ν → Prop} {start : ν → Prop} {bound : Nat} {found queue : List (ν × Nat)}
  {v w : ν} {d n : Nat}

theorem AtDistance.unique {m : Nat} (h : AtDistance adj start n v) (h' : AtDistance adj start m v) :
    n = m := Nat.le_antisymm (h.2 m h'.1) (h'.2 n h.1)

theorem Walk.cons {x z : ν} (hadj : adj x z) (h : Walk adj (· = z) n v) :
    Walk adj (· = x) (n + 1) v := by
  induction h with
  | start hv => exact .step (.start rfl) (hv ▸ hadj)
  | step _ hstep ih => exact .step ih hstep

theorem Walk.flip {x : ν} (h : Walk adj (· = x) n v) :
    Walk (fun a b => adj b a) (· = v) n x := by
  induction h with
  | start hv => exact .start hv.symm
  | step _ hstep ih => exact ih.cons hstep

theorem atDistance_flip {x : ν} :
    AtDistance adj (· = x) n v ↔ AtDistance (fun a b => adj b a) (· = v) n x :=
  ⟨fun h => ⟨h.1.flip, fun m hm => h.2 m hm.flip⟩, fun h => ⟨h.1.flip, fun m hm => h.2 m hm.flip⟩⟩

theorem Leveled.begin (roots : List ν) (hroots : roots.Nodup) (hstart : ∀ v, start v ↔ v ∈ roots) :
    Leveled adj start bound (roots.map (·, 0)) (roots.map (·, 0)) where
  keys := by
    rw [List.map_map]
    exact (List.map_id roots).symm ▸ hroots
  queued _ he := he
  walk e he := by
    obtain ⟨v, hv, rfl⟩ := List.mem_map.mp he
    exact .start ((hstart v).mpr hv)
  bounded e he := by
    obtain ⟨v, -, rfl⟩ := List.mem_map.mp he
    exact Nat.zero_le bound
  starts v hv := List.mem_map_of_mem ((hstart v).mp hv)
  sorted := by
    refine List.pairwise_map.mpr (List.pairwise_of_forall fun _ _ => ?_)
    exact Nat.le_refl 0
  near e he q _ := by
    obtain ⟨v, -, rfl⟩ := List.mem_map.mp he
    exact Nat.zero_le _
  closed _ he := .inl he

theorem Leveled.skip (h : Leveled adj start bound found ((v, d) :: queue)) (hd : bound ≤ d) :
    Leveled adj start bound found queue where
  keys := h.keys
  queued e he := h.queued e (List.mem_cons_of_mem _ he)
  walk := h.walk
  bounded := h.bounded
  starts := h.starts
  sorted := h.sorted.of_cons
  near e he q hq := h.near e he q (List.mem_cons_of_mem _ hq)
  closed e he := by
    rcases h.closed e he with hqueue | hdone
    · rcases List.mem_cons.mp hqueue with rfl | hqueue
      · exact .inr (.inl hd)
      · exact .inl hqueue
    · exact .inr hdone

theorem Leveled.expand {fresh : List ν} (h : Leveled adj start bound found ((v, d) :: queue))
    (hd : d < bound) (hfresh : Fresh adj v (found.map Prod.fst) fresh) :
    Leveled adj start bound (found ++ fresh.map (·, d + 1)) (queue ++ fresh.map (·, d + 1)) := by
  have hv : (v, d) ∈ found := h.queued _ List.mem_cons_self
  have hafter (q : ν × Nat) (hq : q ∈ queue) : d ≤ q.2 := List.rel_of_pairwise_cons h.sorted hq
  have hnear (e : ν × Nat) (he : e ∈ found) : e.2 ≤ d + 1 := h.near e he (v, d) List.mem_cons_self
  have hmark {e : ν × Nat} (he : e ∈ fresh.map (·, d + 1)) : e.1 ∈ fresh ∧ e.2 = d + 1 := by
    obtain ⟨w, hw, rfl⟩ := List.mem_map.mp he
    exact ⟨hw, rfl⟩
  refine ⟨?_, fun e he => ?_, fun e he => ?_, fun e he => ?_, fun w hw => ?_, ?_, fun e he q hq => ?_,
    fun e he => ?_⟩
  · have hkeys : (fresh.map (·, d + 1)).map Prod.fst = fresh := by
      rw [List.map_map]
      exact List.map_id fresh
    rw [List.map_append, hkeys]
    exact hfresh.nodup_append h.keys
  · rcases List.mem_append.mp he with he | he
    · exact List.mem_append_left _ (h.queued e (List.mem_cons_of_mem _ he))
    · exact List.mem_append_right _ he
  · rcases List.mem_append.mp he with he | he
    · exact h.walk e he
    · obtain ⟨hnew, hdist⟩ := hmark he
      exact hdist ▸ .step (h.walk _ hv) (hfresh.next _ hnew)
  · rcases List.mem_append.mp he with he | he
    · exact h.bounded e he
    · exact (hmark he).2 ▸ hd
  · exact List.mem_append_left _ (h.starts w hw)
  · refine List.pairwise_append.mpr ⟨h.sorted.of_cons, ?_, fun a ha b hb => ?_⟩
    · refine List.pairwise_map.mpr (List.pairwise_of_forall fun _ _ => ?_)
      exact Nat.le_refl (d + 1)
    · rw [(hmark hb).2]
      exact hnear a (h.queued a (List.mem_cons_of_mem _ ha))
  · have hq : d ≤ q.2 := by
      rcases List.mem_append.mp hq with hq | hq
      · exact hafter q hq
      · exact (hmark hq).2 ▸ Nat.le_succ d
    rcases List.mem_append.mp he with he | he
    · exact Nat.le_trans (hnear e he) (Nat.succ_le_succ hq)
    · exact (hmark he).2 ▸ Nat.succ_le_succ hq
  · rcases List.mem_append.mp he with he | he
    · rcases h.closed e he with hqueue | hbound | hall
      · rcases List.mem_cons.mp hqueue with rfl | hqueue
        · refine .inr (.inr fun w hw => ?_)
          rcases hfresh.all w hw with hold | hnew
          · obtain ⟨e, he, rfl⟩ := List.mem_map.mp hold
            exact ⟨e.2, List.mem_append_left _ he, hnear e he⟩
          · exact ⟨d + 1, List.mem_append_right _ (List.mem_map_of_mem hnew), Nat.le_refl _⟩
        · exact .inl (List.mem_append_left _ hqueue)
      · exact .inr (.inl hbound)
      · refine .inr (.inr fun w hw => ?_)
        obtain ⟨d', hmem, hle⟩ := hall w hw
        exact ⟨d', List.mem_append_left _ hmem, hle⟩
    · exact .inl (List.mem_append_right _ he)

theorem Leveled.expandLevel {frontier fresh : List ν}
    (h : Leveled adj start bound found (frontier.map (·, d))) (hd : d < bound)
    (hfresh : FreshLevel adj frontier (found.map Prod.fst) fresh) :
    Leveled adj start bound (found ++ fresh.map (·, d + 1)) (fresh.map (·, d + 1)) := by
  have hmark {e : ν × Nat} (he : e ∈ fresh.map (·, d + 1)) : e.1 ∈ fresh ∧ e.2 = d + 1 := by
    obtain ⟨w, hw, rfl⟩ := List.mem_map.mp he
    exact ⟨hw, rfl⟩
  have hnear (e : ν × Nat) (he : e ∈ found) (v : ν) (hv : v ∈ frontier) : e.2 ≤ d + 1 :=
    h.near e he (v, d) (List.mem_map_of_mem hv)
  refine ⟨?_, fun e he => List.mem_append_right _ he, fun e he => ?_, fun e he => ?_,
    fun w hw => List.mem_append_left _ (h.starts w hw), ?_, fun e he q hq => ?_, fun e he => ?_⟩
  · have hkeys : (fresh.map (·, d + 1)).map Prod.fst = fresh := by
      rw [List.map_map]
      exact List.map_id fresh
    rw [List.map_append, hkeys, List.nodup_append]
    exact ⟨h.keys, hfresh.nodup, fun a ha b hb hab => hfresh.new b hb (hab ▸ ha)⟩
  · rcases List.mem_append.mp he with he | he
    · exact h.walk e he
    · obtain ⟨hnew, hdist⟩ := hmark he
      obtain ⟨v, hv, hadj⟩ := hfresh.next _ hnew
      have hvw := h.walk (v, d) (h.queued _ (List.mem_map_of_mem hv))
      exact hdist ▸ .step hvw hadj
  · rcases List.mem_append.mp he with he | he
    · exact h.bounded e he
    · exact (hmark he).2 ▸ hd
  · refine List.pairwise_map.mpr (List.pairwise_of_forall fun _ _ => ?_)
    exact Nat.le_refl (d + 1)
  · obtain ⟨hnew, hq⟩ := hmark hq
    rw [hq]
    rcases List.mem_append.mp he with he | he
    · obtain ⟨v, hv, -⟩ := hfresh.next _ hnew
      exact Nat.le_succ_of_le (hnear e he v hv)
    · exact (hmark he).2 ▸ Nat.le_succ _
  · rcases List.mem_append.mp he with he | he
    · rcases h.closed e he with hqueue | hbound | hall
      · obtain ⟨v, hv, rfl⟩ := List.mem_map.mp hqueue
        refine .inr (.inr fun w hw => ?_)
        rcases hfresh.all v hv w hw with hold | hnew
        · obtain ⟨e, he, rfl⟩ := List.mem_map.mp hold
          exact ⟨e.2, List.mem_append_left _ he, hnear e he v hv⟩
        · exact ⟨d + 1, List.mem_append_right _ (List.mem_map_of_mem hnew), Nat.le_refl _⟩
      · exact .inr (.inl hbound)
      · refine .inr (.inr fun w hw => ?_)
        obtain ⟨d', hmem, hle⟩ := hall w hw
        exact ⟨d', List.mem_append_left _ hmem, hle⟩
    · exact .inl he

theorem Leveled.finish (h : Leveled adj start bound found queue) (hqueue : ∀ e ∈ queue, bound ≤ e.2) :
    Leveled adj start bound found [] where
  keys := h.keys
  queued _ he := by cases he
  walk := h.walk
  bounded := h.bounded
  starts := h.starts
  sorted := List.Pairwise.nil
  near _ _ _ hq := by cases hq
  closed e he := by
    rcases h.closed e he with hmem | hdone
    · exact .inr (.inl (hqueue e hmem))
    · exact .inr hdone

theorem Leveled.length_le (h : Leveled adj start bound found queue) (all : List ν)
    (hstart : ∀ v, start v → v ∈ all) (hadj : ∀ v w, adj v w → w ∈ all) :
    found.length ≤ all.length := by
  have hsub : found.map Prod.fst ⊆ all := by
    intro v hv
    obtain ⟨⟨w, d⟩, he, rfl⟩ := List.mem_map.mp hv
    have hwalk : Walk adj start d w := h.walk _ he
    cases hwalk with
    | start hw => exact hstart w hw
    | step _ hstep => exact hadj _ w hstep
  have hle := List.Nodup.length_le_of_subset h.keys hsub
  rwa [List.length_map] at hle

theorem Leveled.found_of_walk (h : Leveled adj start bound found []) (hwalk : Walk adj start n v)
    (hn : n ≤ bound) : ∃ d, (v, d) ∈ found ∧ d ≤ n := by
  induction hwalk with
  | start hv => exact ⟨0, h.starts _ hv, Nat.le_refl 0⟩
  | @step n v w _ hadj ih =>
    obtain ⟨d, hmem, hle⟩ := ih (Nat.le_of_succ_le hn)
    rcases h.closed (v, d) hmem with hqueue | hbound | hall
    · cases hqueue
    · exact absurd (Nat.le_trans hbound hle) (Nat.not_le_of_lt hn)
    · obtain ⟨d', hmem', hle'⟩ := hall w hadj
      exact ⟨d', hmem', Nat.le_trans hle' (Nat.succ_le_succ hle)⟩

theorem Leveled.mem_unique {d' : Nat} (h : Leveled adj start bound found queue)
    (hd : (v, d) ∈ found) (hd' : (v, d') ∈ found) : d = d' := by
  have heq := List.inj_on_of_nodup_map h.keys hd hd' rfl
  exact congrArg Prod.snd heq

theorem Leveled.mem_iff (h : Leveled adj start bound found []) :
    (v, n) ∈ found ↔ n ≤ bound ∧ AtDistance adj start n v := by
  constructor
  · intro hmem
    refine ⟨h.bounded _ hmem, h.walk _ hmem, fun m hm => ?_⟩
    rcases Nat.le_total m bound with hle | hge
    · obtain ⟨d, hd, hdm⟩ := h.found_of_walk hm hle
      exact h.mem_unique hmem hd ▸ hdm
    · exact Nat.le_trans (h.bounded _ hmem) hge
  · rintro ⟨hn, hwalk, hmin⟩
    obtain ⟨d, hd, hle⟩ := h.found_of_walk hwalk hn
    rwa [Nat.le_antisymm (hmin d (h.walk _ hd)) hle]

end

end Cadena.Base.BreadthFirst
