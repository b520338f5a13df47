import Mathlib.Data.Fintype.Card
import Mathlib.Data.List.Chain

/-!
# A walk that measures depth

References are followed depth first, and an object is entered when it is first
met. The walk measures how far it has gone and notes the level at which it has
entered every object. A chain of references is measured in full when each of its
references leads one level down. Nothing here depends on the program.
-/

namespace Cadena.Base.DepthWalk

variable {ι : Type} [DecidableEq ι] (refs : ι → List (Option ι))

/-- The depth below a reference, and the objects entered with their levels, the
last one first. -/
def visit : Nat → Nat → Option ι → List (ι × Nat) → Nat × List (ι × Nat)
  | 0, _, _, seen => (0, seen)
  | _ + 1, _, none, seen => (0, seen)
  | fuel + 1, level, some i, seen =>
    if i ∈ seen.map (·.1) then (0, seen)
    else
      let loop := (refs i).foldl (fun s child =>
        ((max s.1 (visit fuel (level + 1) child s.2).1), (visit fuel (level + 1) child s.2).2)) (0, (i, level) :: seen)
      (loop.1 + 1, loop.2)

/-- The level of an object after the walk; 0 stands for none. -/
def levelIn (seen : List (ι × Nat)) (i : ι) : Nat := (seen.reverse.lookup i).getD 0

omit [DecidableEq ι] in
theorem foldl_keeps {β σ : Type} {P : σ → Prop} {f : σ → β → σ} {l : List β} {s : σ} (hs : P s)
    (h : ∀ s, P s → ∀ b ∈ l, P (f s b)) : P (l.foldl f s) := by
  induction l generalizing s with
  | nil => exact hs
  | cons b l ih => exact ih (h s hs b List.mem_cons_self) fun s hs c hc => h s hs c (List.mem_cons_of_mem _ hc)

/-- The objects entered by a call are new, and their levels are within the depth
that it measures. -/
structure Entered (level : Nat) (seen : List (ι × Nat)) (r : Nat × List (ι × Nat)) : Prop where
  grows : ∃ new, r.2 = new ++ seen
  nodup : (seen.map (·.1)).Nodup → (r.2.map (·.1)).Nodup
  within : ∀ e ∈ r.2, e ∈ seen ∨ level ≤ e.2 ∧ e.2 < level + r.1

theorem visit_entered (fuel level : Nat) (c : Option ι) (seen : List (ι × Nat)) :
    Entered level seen (visit refs fuel level c seen) := by
  have hstay : Entered level seen (0, seen) := ⟨⟨[], rfl⟩, id, fun e he => .inl he⟩
  induction fuel generalizing level c seen with
  | zero => exact hstay
  | succ fuel ih =>
    cases c with
    | none => exact hstay
    | some i =>
      rw [visit]
      split
      · exact hstay
      · rename_i hnew
        have hloop := foldl_keeps (P := Entered (level + 1) ((i, level) :: seen)) (l := refs i)
          (f := fun s child => ((max s.1 (visit refs fuel (level + 1) child s.2).1),
            (visit refs fuel (level + 1) child s.2).2)) (s := (0, (i, level) :: seen))
          ⟨⟨[], rfl⟩, id, fun e he => .inl he⟩ fun s hs child _ => by
            have hcall := ih (level + 1) child s.2 ⟨⟨[], rfl⟩, id, fun e he => .inl he⟩
            obtain ⟨new, hs2⟩ := hs.grows
            obtain ⟨new', hcall2⟩ := hcall.grows
            refine ⟨⟨new' ++ new, by rw [hcall2, hs2, List.append_assoc]⟩, fun h => hcall.nodup (hs.nodup h), ?_⟩
            intro e he
            rcases hcall.within e he with he | ⟨hlow, hhigh⟩
            · refine (hs.within e he).imp id fun ⟨hlow, hhigh⟩ => ⟨hlow, ?_⟩
              exact hhigh.trans_le (Nat.add_le_add_left (le_max_left _ _) _)
            · exact .inr ⟨hlow, hhigh.trans_le (Nat.add_le_add_left (le_max_right _ _) _)⟩
        obtain ⟨new, hgrows⟩ := hloop.grows
        refine ⟨⟨new ++ [(i, level)], by rw [hgrows, List.append_assoc]; rfl⟩, fun h => hloop.nodup ?_, fun e he => ?_⟩
        · exact List.nodup_cons.mpr ⟨hnew, h⟩
        · rcases hloop.within e he with he | ⟨hlow, hhigh⟩
          · rcases List.mem_cons.mp he with rfl | he
            · exact .inr ⟨Nat.le_refl _, Nat.lt_add_of_pos_right (Nat.succ_pos _)⟩
            · exact .inl he
          · exact .inr ⟨Nat.le_of_succ_le hlow, by dsimp only; omega⟩

variable {refs}

theorem visit_fuel [Fintype ι] (fuel level : Nat) (c : Option ι) (seen : List (ι × Nat))
    (hnodup : (seen.map (·.1)).Nodup) (hfuel : Fintype.card ι < fuel + seen.length) :
    visit refs (fuel + 1) level c seen = visit refs fuel level c seen := by
  induction fuel generalizing level c seen with
  | zero =>
    have hle := hnodup.length_le_card
    rw [List.length_map] at hle
    omega
  | succ fuel ih =>
    cases c with
    | none => rfl
    | some i =>
      rw [visit, visit]
      split
      · rfl
      · rename_i hnew
        suffices hsame : ∀ (l : List (Option ι)) (s : Nat × List (ι × Nat)), (s.2.map (·.1)).Nodup →
            Fintype.card ι < fuel + s.2.length →
            l.foldl (fun s child => ((max s.1 (visit refs (fuel + 1) (level + 1) child s.2).1),
              (visit refs (fuel + 1) (level + 1) child s.2).2)) s =
            l.foldl (fun s child => ((max s.1 (visit refs fuel (level + 1) child s.2).1),
              (visit refs fuel (level + 1) child s.2).2)) s by
          rw [hsame (refs i) (0, (i, level) :: seen) (List.nodup_cons.mpr ⟨hnew, hnodup⟩)
            (by rw [List.length_cons]; omega)]
        intro l
        induction l with
        | nil => exact fun _ _ _ => rfl
        | cons child l ihl =>
          intro s hs hlength
          rw [List.foldl_cons, List.foldl_cons, ih (level + 1) child s.2 hs hlength]
          obtain ⟨⟨new, hgrows⟩, hkeeps, -⟩ := visit_entered refs fuel (level + 1) child s.2
          exact ihl _ (hkeeps hs) (by rw [hgrows, List.length_append]; omega)

/-- **A chain that goes down level by level is no longer than the depth measured.** -/
theorem length_le_depth {fuel : Nat} {i : ι} {l : List ι}
    (h : (i :: l).IsChain fun j k => levelIn (visit refs (fuel + 1) 1 (some i) []).2 k =
      levelIn (visit refs (fuel + 1) 1 (some i) []).2 j + 1) :
    (i :: l).length ≤ (visit refs (fuel + 1) 1 (some i) []).1 := by
  have hentered := visit_entered refs (fuel + 1) 1 (some i) []
  have hstart : levelIn (visit refs (fuel + 1) 1 (some i) []).2 i = 1 := by
    have hloop := foldl_keeps (P := fun s : Nat × List (ι × Nat) => ∃ new, s.2 = new ++ [(i, 1)]) (l := refs i)
      (f := fun s child => ((max s.1 (visit refs fuel (1 + 1) child s.2).1), (visit refs fuel (1 + 1) child s.2).2))
      (s := (0, [(i, 1)])) ⟨[], rfl⟩ fun s ⟨new, hs⟩ child _ => by
        obtain ⟨new', hnew⟩ := (visit_entered refs fuel (1 + 1) child s.2).grows
        exact ⟨new' ++ new, by rw [hnew, hs, List.append_assoc]⟩
    obtain ⟨new, hnew⟩ := hloop
    rw [visit, List.map_nil, if_neg List.not_mem_nil]
    dsimp only
    rw [levelIn, hnew, List.reverse_append, List.reverse_singleton, List.singleton_append, List.lookup_cons_self]
    rfl
  have hlevel : ∀ j, levelIn (visit refs (fuel + 1) 1 (some i) []).2 j ≤ (visit refs (fuel + 1) 1 (some i) []).1 := by
    intro j
    rw [levelIn]
    cases hj : List.lookup j (visit refs (fuel + 1) 1 (some i) []).2.reverse with
    | none => exact Nat.zero_le _
    | some k =>
      obtain ⟨l₁, l₂, hsplit, -⟩ := List.lookup_eq_some_iff.mp hj
      have hmem : (j, k) ∈ (visit refs (fuel + 1) 1 (some i) []).2 := by
        rw [← List.mem_reverse, hsplit]
        exact List.mem_append_right _ List.mem_cons_self
      rcases hentered.within _ hmem with hin | ⟨-, hk⟩
      · cases hin
      · exact Nat.le_of_lt_succ (by simpa [Nat.add_comm] using hk)
  generalize (visit refs (fuel + 1) 1 (some i) []).1 = depth at hlevel ⊢
  generalize (visit refs (fuel + 1) 1 (some i) []).2 = seen at h hstart hlevel
  -- the last object of the chain is at the level of the chain's length
  have hlast : ∀ (l : List ι) (j : ι), (j :: l).IsChain (fun j k => levelIn seen k = levelIn seen j + 1) →
      ∃ k, levelIn seen k = levelIn seen j + l.length := by
    intro l
    induction l with
    | nil => exact fun j _ => ⟨j, rfl⟩
    | cons k l ih =>
      intro j hchain
      obtain ⟨hjk, hrest⟩ := List.isChain_cons_cons.mp hchain
      obtain ⟨m, hm⟩ := ih k hrest
      exact ⟨m, by rw [hm, hjk, List.length_cons]; omega⟩
  obtain ⟨k, hk⟩ := hlast l i h
  rw [List.length_cons, Nat.add_comm, ← hstart, ← hk]
  exact hlevel k

/-- Chains of bounded length meet no object twice: the part between two meetings
can be gone through again and again. -/
theorem nodup_of_bounded {β : Type} {R : β → β → Prop} {P : List β → Prop} {bound : Nat}
    (hP : ∀ l l' : List β, l.head? = l'.head? → P l → P l') {l : List β} (hl : P l) (hchain : l.IsChain R)
    (h : ∀ l, P l → l.IsChain R → l.length ≤ bound) : l.Nodup := by
  by_contra hdup
  obtain ⟨i, a, b, c, rfl⟩ : ∃ i a b c, l = a ++ i :: (b ++ i :: c) := by
    clear hl hchain
    induction l with
    | nil => exact absurd List.nodup_nil hdup
    | cons x l ih =>
      by_cases hx : x ∈ l
      · obtain ⟨b, c, rfl⟩ := List.append_of_mem hx
        exact ⟨x, [], b, c, rfl⟩
      · obtain ⟨i, a, b, c, rfl⟩ := ih fun hl => hdup (List.nodup_cons.mpr ⟨hx, hl⟩)
        exact ⟨i, x :: a, b, c, rfl⟩
  have hgo : ∀ (n : Nat) (b : List β), (a ++ i :: (b ++ i :: c)).IsChain R →
      bound < n + (a ++ i :: (b ++ i :: c)).length → P (a ++ i :: (b ++ i :: c)) → False := by
    intro n
    induction n with
    | zero => exact fun b hb hlong hp => absurd (h _ hp hb) (by omega)
    | succ n ih =>
      intro b hb hlong hp
      obtain ⟨hleft, hright⟩ := List.isChain_split.mp hb
      obtain ⟨hround, -⟩ := List.isChain_cons_split.mp hright
      refine ih (b ++ i :: b) ?_ ?_ (hP _ _ (by cases a <;> rfl) hp)
      · rw [List.append_assoc, List.cons_append, List.isChain_split]
        exact ⟨hleft, List.isChain_cons_split.mpr ⟨hround, hright⟩⟩
      · simp only [List.length_append, List.length_cons] at hlong ⊢
        omega
  exact hgo (bound + 1) b hchain (by omega) hl

end Cadena.Base.DepthWalk
