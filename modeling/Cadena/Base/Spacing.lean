import Mathlib.Algebra.Order.Group.Basic
import Mathlib.Data.List.Basic
import Mathlib.Tactic.Abel

/-!
# Points kept apart

Points that are pairwise at least a distance apart are few in a short interval:
a half-open interval of `m` distances holds at most `m` of them. Nothing here
depends on the program.
-/

namespace Cadena.Base

variable {κ : Type} [AddCommGroup κ] [LinearOrder κ] [IsOrderedAddMonoid κ]

/-- One of the points comes at least a distance after the other. -/
def Apart (d a b : κ) : Prop := a + d ≤ b ∨ b + d ≤ a

omit [IsOrderedAddMonoid κ] in
theorem Apart.symm {d a b : κ} (h : Apart d a b) : Apart d b a := Or.symm h

/-- Half-open. -/
def inInterval (start length x : κ) : Bool := decide (start ≤ x ∧ x < start + length)

theorem not_apart {d a x y : κ} (hx : inInterval a d x = true) (hy : inInterval a d y = true) :
    ¬ Apart d x y := by
  simp only [inInterval, decide_eq_true_eq] at hx hy
  rintro (h | h)
  · exact absurd (h.trans_lt hy.2) (not_lt.mpr (add_le_add_left hx.1 d))
  · exact absurd (h.trans_lt hx.2) (not_lt.mpr (add_le_add_left hy.1 d))

theorem countP_le_add {α : Type} {p q r : α → Bool}
    (h : ∀ x, p x = true → q x = true ∨ r x = true) (l : List α) :
    l.countP p ≤ l.countP q + l.countP r := by
  induction l with
  | nil => simp
  | cons x l ih =>
    rw [List.countP_cons, List.countP_cons, List.countP_cons]
    by_cases hx : p x = true
    · rw [if_pos hx]
      rcases h x hx with hq | hr
      · rw [if_pos hq]
        omega
      · rw [if_pos hr]
        omega
    · rw [if_neg hx]
      omega

theorem length_le_one {d a : κ} {points : List κ} (h : points.Pairwise (Apart d))
    (hin : ∀ x ∈ points, inInterval a d x = true) : points.length ≤ 1 := by
  cases points with
  | nil => simp
  | cons x points =>
    cases points with
    | nil => simp
    | cons y points =>
      have hxy : Apart d x y := (List.pairwise_cons.mp h).1 y List.mem_cons_self
      exact absurd hxy (not_apart (hin x (by simp)) (hin y (by simp)))

/-- **An interval of `m` distances holds at most `m` points.** -/
theorem countP_inInterval_le {d : κ} {points : List κ} (h : points.Pairwise (Apart d)) (m : Nat)
    (a : κ) : points.countP (inInterval a (m • d)) ≤ m := by
  induction m generalizing a with
  | zero =>
    rw [Nat.le_zero, List.countP_eq_zero]
    intro x _ hx
    simp only [inInterval, zero_nsmul, add_zero, decide_eq_true_eq] at hx
    exact absurd (hx.1.trans_lt hx.2) (lt_irrefl a)
  | succ m ih =>
    -- the first distance, and the others
    have hsplit : points.countP (inInterval a ((m + 1) • d)) ≤
        points.countP (inInterval a d) + points.countP (inInterval (a + d) (m • d)) := by
      have hor : ∀ x, inInterval a ((m + 1) • d) x = true →
          inInterval a d x = true ∨ inInterval (a + d) (m • d) x = true := by
        intro x hx
        simp only [inInterval, decide_eq_true_eq] at hx ⊢
        by_cases hfirst : x < a + d
        · exact .inl ⟨hx.1, hfirst⟩
        · refine .inr ⟨not_lt.mp hfirst, ?_⟩
          have hend : a + d + m • d = a + (m + 1) • d := by
            rw [succ_nsmul']
            abel
          rw [hend]
          exact hx.2
      exact countP_le_add hor points
    have hone : points.countP (inInterval a d) ≤ 1 := by
      rw [List.countP_eq_length_filter]
      exact length_le_one (h.sublist List.filter_sublist) fun x hx => (List.mem_filter.mp hx).2
    have hrest := ih (a + d)
    omega

end Cadena.Base
