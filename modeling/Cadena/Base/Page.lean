import Mathlib.Data.List.Nodup
import Mathlib.Data.List.Sort

/-!
# Pages of a sorted query

A query answered in the order of a key, cut into pages by offset and limit.
Where keys are distinct, a row is on a page exactly when its position, the
number of rows with a smaller key, lies in the page's window. Nothing here
depends on the program.
-/

namespace Cadena.Base.Page

variable {α κ : Type} [LinearOrder κ] (key : α → κ)

/-- The rows in the order of their keys. -/
def sortByKey (l : List α) : List α := l.insertionSort fun a b => key a ≤ key b

/-- `ORDER BY key OFFSET … LIMIT …`. -/
def page (offset limit : Nat) (l : List α) : List α :=
  ((sortByKey key l).drop offset).take limit

/-- How many rows come before. -/
def position (l : List α) (a : α) : Nat := l.countP fun b => key b < key a

theorem sortByKey_perm (l : List α) : (sortByKey key l).Perm l := List.perm_insertionSort _ l

variable {key}

theorem position_cons (b : α) (l : List α) (a : α) :
    position key (b :: l) a = position key l a + if key b < key a then 1 else 0 := by
  rw [position, List.countP_cons]
  simp only [decide_eq_true_eq]
  rfl

variable {l : List α}

theorem position_perm {m : List α} (h : l.Perm m) (a : α) : position key l a = position key m a := h.countP_eq _

theorem sortByKey_sorted (h : (l.map key).Nodup) : (sortByKey key l).Pairwise fun a b => key a < key b := by
  have htotal : Std.Total fun a b : α => key a ≤ key b := ⟨fun a b => le_total _ _⟩
  have htrans : IsTrans α fun a b : α => key a ≤ key b := ⟨fun _ _ _ => le_trans⟩
  have hle : (sortByKey key l).Pairwise fun a b => key a ≤ key b :=
    List.pairwise_insertionSort _ l
  have hnodup : ((sortByKey key l).map key).Nodup :=
    (((sortByKey_perm key l).map key).nodup_iff).mpr h
  rw [List.Nodup, List.pairwise_map] at hnodup
  exact hle.imp₂ (fun _ _ => lt_of_le_of_ne) hnodup

theorem sortByKey_head {a : α} (h : (sortByKey key l).head? = some a) : a ∈ l ∧ ∀ b ∈ l, key a ≤ key b := by
  have htotal : Std.Total fun a b : α => key a ≤ key b := ⟨fun a b => le_total _ _⟩
  have htrans : IsTrans α fun a b : α => key a ≤ key b := ⟨fun _ _ _ => le_trans⟩
  have hsorted : (sortByKey key l).Pairwise fun a b => key a ≤ key b := List.pairwise_insertionSort _ l
  have hperm := sortByKey_perm key l
  cases hl : sortByKey key l with
  | nil => simp [hl] at h
  | cons b rest =>
    rw [hl] at h hsorted hperm
    obtain rfl : b = a := by simpa using h
    refine ⟨hperm.mem_iff.mp List.mem_cons_self, fun c hc => ?_⟩
    rcases List.mem_cons.mp (hperm.mem_iff.mpr hc) with rfl | hc
    · exact le_refl _
    · exact (List.pairwise_cons.mp hsorted).1 c hc

theorem sortByKey_head_isSome : (sortByKey key l).head?.isSome ↔ l ≠ [] := by
  rw [List.isSome_head?, ne_eq, ne_eq, ← List.length_eq_zero_iff, (sortByKey_perm key l).length_eq,
    List.length_eq_zero_iff]

/-- Leaving out rows does not change the order of the others. -/
theorem sortByKey_filter (h : (l.map key).Nodup) (p : α → Bool) :
    sortByKey key (l.filter p) = (sortByKey key l).filter p := by
  have hkept : ((l.filter p).map key).Nodup := h.sublist (List.filter_sublist.map _)
  have hperm : (sortByKey key (l.filter p)).Perm ((sortByKey key l).filter p) :=
    (sortByKey_perm key _).trans ((sortByKey_perm key l).symm.filter p)
  exact hperm.eq_of_pairwise (fun a b _ _ hab hba => absurd (hab.trans hba) (lt_irrefl _))
    (sortByKey_sorted hkept) ((sortByKey_sorted h).filter _)

theorem sortByKey_split (h : (l.map key).Nodup) {k : κ} (hk : ∀ a ∈ l, key a ≠ k) :
    sortByKey key l = (sortByKey key l).filter (fun a => key a < k) ++ (sortByKey key l).filter (fun a => k < key a) := by
  have hsorted := sortByKey_sorted h
  have hrest : (sortByKey key l).filter (fun a => !decide (key a < k)) =
      (sortByKey key l).filter fun a => decide (k < key a) := by
    refine List.filter_congr fun a ha => ?_
    have hne := hk a ((sortByKey_perm key l).mem_iff.mp ha)
    by_cases hlt : key a < k
    · simp [hlt, le_of_lt hlt]
    · simp [hlt, lt_of_le_of_ne (not_lt.mp hlt) hne.symm]
  have hperm := List.filter_append_perm (fun a => decide (key a < k)) (sortByKey key l)
  rw [hrest] at hperm
  refine (hperm.eq_of_pairwise (fun a b _ _ hab hba => absurd (hab.trans hba) (lt_irrefl _)) ?_ hsorted).symm
  refine List.pairwise_append.mpr ⟨hsorted.filter _, hsorted.filter _, fun a ha b hb => ?_⟩
  have hbefore : key a < k := by simpa using (List.mem_filter.mp ha).2
  have hafter : k < key b := by simpa using (List.mem_filter.mp hb).2
  exact hbefore.trans hafter

theorem sortByKey_concat {x : α} (h : ((l ++ [x]).map key).Nodup) :
    sortByKey key (l ++ [x]) = (sortByKey key l).filter (fun a => key a < key x) ++
      x :: (sortByKey key l).filter (fun a => key x < key a) := by
  have hl : (l.map key).Nodup := h.sublist ((List.sublist_append_left l [x]).map key)
  have hk (a : α) (ha : a ∈ l) : key a ≠ key x := by
    rw [List.map_append, List.nodup_append] at h
    exact h.2.2 _ (List.mem_map_of_mem ha) _ (List.mem_singleton_self _)
  have hsorted := sortByKey_sorted hl
  have hperm : (sortByKey key (l ++ [x])).Perm ((sortByKey key l).filter (fun a => decide (key a < key x)) ++
      x :: (sortByKey key l).filter fun a => decide (key x < key a)) := by
    refine (sortByKey_perm key _).trans ((List.perm_append_singleton x l).trans ?_)
    refine ((sortByKey_perm key l).symm.cons x).trans ?_
    conv_lhs => rw [sortByKey_split hl hk]
    exact List.perm_middle.symm
  refine hperm.eq_of_pairwise (fun a b _ _ hab hba => absurd (hab.trans hba) (lt_irrefl _)) (sortByKey_sorted h) ?_
  refine List.pairwise_append.mpr ⟨hsorted.filter _, List.pairwise_cons.mpr ⟨fun b hb => ?_, hsorted.filter _⟩,
    fun a ha b hb => ?_⟩
  · simpa using (List.mem_filter.mp hb).2
  · have hbefore : key a < key x := by simpa using (List.mem_filter.mp ha).2
    rcases List.mem_cons.mp hb with rfl | hb
    · exact hbefore
    · exact hbefore.trans (by simpa using (List.mem_filter.mp hb).2)

section Sorted

variable {l : List α} (h : l.Pairwise fun a b => key a < key b)
include h

theorem mem_drop_iff (n : Nat) (a : α) : a ∈ l.drop n ↔ a ∈ l ∧ n ≤ position key l a := by
  induction l generalizing n with
  | nil => simp
  | cons b l ih =>
    obtain ⟨hb, hl⟩ := List.pairwise_cons.mp h
    cases n with
    | zero => simp
    | succ n =>
      rw [List.drop_succ_cons, ih hl, position_cons]
      constructor
      · rintro ⟨ha, hn⟩
        refine ⟨List.mem_cons_of_mem _ ha, ?_⟩
        rw [if_pos (hb a ha)]
        omega
      · rintro ⟨ha, hn⟩
        rcases List.mem_cons.mp ha with rfl | ha
        · -- the first row has nothing before it
          rw [if_neg (lt_irrefl _)] at hn
          have hzero : position key l a = 0 := by
            rw [position, List.countP_eq_zero]
            intro x hx
            simpa using (hb x hx).le
          omega
        · rw [if_pos (hb a ha)] at hn
          exact ⟨ha, by omega⟩

theorem mem_take_iff (n : Nat) (a : α) : a ∈ l.take n ↔ a ∈ l ∧ position key l a < n := by
  induction l generalizing n with
  | nil => simp
  | cons b l ih =>
    obtain ⟨hb, hl⟩ := List.pairwise_cons.mp h
    cases n with
    | zero => simp
    | succ n =>
      rw [List.take_succ_cons, List.mem_cons, List.mem_cons, ih hl, position_cons]
      constructor
      · rintro (rfl | ⟨ha, hn⟩)
        · have hzero : position key l a = 0 := by
            rw [position, List.countP_eq_zero]
            intro x hx
            simpa using (hb x hx).le
          rw [if_neg (lt_irrefl _), hzero]
          exact ⟨.inl rfl, by omega⟩
        · rw [if_pos (hb a ha)]
          exact ⟨.inr ha, by omega⟩
      · rintro ⟨rfl | ha, hn⟩
        · exact .inl rfl
        · rw [if_pos (hb a ha)] at hn
          exact .inr ⟨ha, by omega⟩

theorem position_drop (n : Nat) {a : α} (ha : a ∈ l.drop n) :
    position key (l.drop n) a + n = position key l a := by
  induction l generalizing n with
  | nil => simp at ha
  | cons b l ih =>
    obtain ⟨hb, hl⟩ := List.pairwise_cons.mp h
    cases n with
    | zero => rfl
    | succ n =>
      rw [List.drop_succ_cons] at ha ⊢
      have hrest := ih hl n ha
      rw [position_cons, if_pos (hb a (List.mem_of_mem_drop ha))]
      omega

end Sorted

/-- **A row is on the page whose window has its position.** -/
theorem mem_page_iff (h : (l.map key).Nodup) (offset limit : Nat) (a : α) : a ∈ page key offset limit l ↔
      a ∈ l ∧ offset ≤ position key l a ∧ position key l a < offset + limit := by
  have hsorted := sortByKey_sorted h
  have hdrop := mem_drop_iff hsorted offset a
  rw [(sortByKey_perm key l).mem_iff, position_perm (sortByKey_perm key l)] at hdrop
  rw [page, mem_take_iff (hsorted.sublist (List.drop_sublist _ _)), hdrop]
  constructor
  · rintro ⟨⟨ha, hlo⟩, hhi⟩
    have hpos := position_drop hsorted offset (hdrop.mpr ⟨ha, hlo⟩)
    rw [position_perm (sortByKey_perm key l)] at hpos
    exact ⟨ha, hlo, by omega⟩
  · rintro ⟨ha, hlo, hhi⟩
    have hpos := position_drop hsorted offset (hdrop.mpr ⟨ha, hlo⟩)
    rw [position_perm (sortByKey_perm key l)] at hpos
    exact ⟨⟨ha, hlo⟩, by omega⟩

theorem length_page (offset limit : Nat) (l : List α) :
    (page key offset limit l).length = min limit (l.length - offset) := by
  rw [page, List.length_take, List.length_drop, (sortByKey_perm key l).length_eq]

theorem position_lt {a b : α} (ha : a ∈ l) (h : key a < key b) : position key l a < position key l b := by
  induction l with
  | nil => cases ha
  | cons c l ih =>
    have hmono : position key l a ≤ position key l b := by
      refine List.countP_mono_left fun x _ hx => ?_
      simp only [decide_eq_true_eq] at hx ⊢
      exact hx.trans h
    rw [position_cons, position_cons]
    rcases List.mem_cons.mp ha with rfl | ha
    · rw [if_neg (lt_irrefl _), if_pos h]
      omega
    · have hlt := ih ha
      by_cases hc : key c < key a
      · rw [if_pos hc, if_pos (hc.trans h)]
        omega
      · rw [if_neg hc]
        omega

theorem length_before (h : (l.map key).Nodup) {n : Nat} (hn : n ≤ l.length) :
    (l.filter fun a => position key l a < n).length = n := by
  have hsorted := sortByKey_sorted h
  have hfilter : ((sortByKey key l).filter fun a => position key l a < n).Perm
      ((sortByKey key l).take n) := by
    have hnodup : (sortByKey key l).Nodup :=
      hsorted.imp fun hlt heq => absurd hlt (by rw [heq]; exact lt_irrefl _)
    rw [List.perm_ext_iff_of_nodup (hnodup.filter _) (hnodup.sublist (List.take_sublist _ _))]
    intro a
    rw [mem_take_iff hsorted, List.mem_filter, decide_eq_true_eq,
      position_perm (sortByKey_perm key l)]
  have hperm := ((sortByKey_perm key l).filter fun a => position key l a < n).length_eq
  rw [← hperm, hfilter.length_eq, List.length_take, (sortByKey_perm key l).length_eq]
  omega

end Cadena.Base.Page
