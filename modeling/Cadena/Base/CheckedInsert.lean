import Cadena.Base.Transition
import Mathlib.Data.List.Nodup

/-!
# A row inserted after a check

Workers look for a row of a key and, when there is none, insert one with a
later statement; nothing holds the others back in between and no constraint
stands behind the rows. The rows stay without a double as long as every insert
is `Alone`, and a row inserted otherwise ends in a double.
-/

namespace Cadena.Base

/-- The keys of the rows, and the key that each worker has not found and is to
insert. -/
@[ext] structure CheckedInsert (ι κ : Type) where
  rows : List κ
  due : ι → Option κ

namespace CheckedInsert

variable {ι κ : Type} [DecidableEq ι]

/-- A statement that inserts nothing. -/
inductive Move (r : CheckedInsert ι κ) : CheckedInsert ι κ → Prop where
  | stay : Move r r
  | check (i : ι) (k : κ) (hfree : r.due i = none) (hnone : k ∉ r.rows) :
      Move r { r with due := setAt r.due i (some k) }

/-- Worker `i` inserts. -/
inductive Insert (r : CheckedInsert ι κ) (i : ι) : CheckedInsert ι κ → Prop where
  | insert (k : κ) (hdue : r.due i = some k) : Insert r i ⟨r.rows ++ [k], setAt r.due i none⟩

/-- No other worker is to insert what worker `i` is to insert. -/
def Alone (r : CheckedInsert ι κ) (i : ι) : Prop :=
  ∀ k, r.due i = some k → ∀ j, j ≠ i → r.due j ≠ some k

/-- No row is double, and none is there that somebody is to insert. -/
structure Single (r : CheckedInsert ι κ) : Prop where
  nodup : r.rows.Nodup
  absent : ∀ i k, r.due i = some k → k ∉ r.rows

variable {r r' : CheckedInsert ι κ}

theorem due_setAt {i j : ι} {d : Option κ} {k : κ} (h : setAt r.due i d j = some k) :
    j = i ∧ d = some k ∨ j ≠ i ∧ r.due j = some k := by
  by_cases hj : j = i
  · subst hj
    rw [setAt_same] at h
    exact .inl ⟨rfl, h⟩
  · rw [setAt_other _ _ hj] at h
    exact .inr ⟨hj, h⟩

theorem Single.move (h : Single r) (hmove : Move r r') : Single r' := by
  cases hmove with
  | stay => exact h
  | check i k _ hnone =>
    refine ⟨h.nodup, fun j l hdue => ?_⟩
    rcases due_setAt hdue with ⟨-, hkl⟩ | ⟨-, hold⟩
    · exact Option.some.inj hkl ▸ hnone
    · exact h.absent j l hold

theorem Single.insert {i : ι} (h : Single r) (halone : r.Alone i) (hinsert : Insert r i r') :
    Single r' := by
  obtain ⟨k, hdue⟩ := hinsert
  refine ⟨?_, fun j l hdue' => ?_⟩
  · rw [List.nodup_append]
    refine ⟨h.nodup, List.nodup_singleton k, fun a ha b hb hab => ?_⟩
    rw [List.mem_singleton] at hb
    subst hb hab
    exact h.absent i _ hdue ha
  · rcases due_setAt hdue' with ⟨-, hnone⟩ | ⟨hj, hold⟩
    · cases hnone
    · have hne : l ≠ k := fun heq => halone k hdue j hj (heq ▸ hold)
      simp [h.absent j l hold, hne]

variable [DecidableEq κ]

/-- A row is double, or will be when everybody has inserted. -/
def Doubling (r : CheckedInsert ι κ) : Prop :=
  ∃ k, 2 ≤ r.rows.count k ∨ k ∈ r.rows ∧ ∃ i, r.due i = some k

theorem Doubling.move (h : Doubling r) (hmove : Move r r') : Doubling r' := by
  cases hmove with
  | stay => exact h
  | check i l hfree _ =>
    obtain ⟨k, htwo | ⟨hmem, j, hj⟩⟩ := h
    · exact ⟨k, .inl htwo⟩
    · have hji : j ≠ i := by
        rintro rfl
        rw [hfree] at hj
        cases hj
      exact ⟨k, .inr ⟨hmem, j, (setAt_other _ _ hji).trans hj⟩⟩

theorem Doubling.insert {i : ι} (h : Doubling r) (hinsert : Insert r i r') : Doubling r' := by
  obtain ⟨l, hdue⟩ := hinsert
  obtain ⟨k, htwo | ⟨hmem, j, hj⟩⟩ := h
  · refine ⟨k, .inl ?_⟩
    rw [List.count_append]
    exact Nat.le_add_right_of_le htwo
  · by_cases hji : j = i
    · subst hji
      obtain rfl := Option.some.inj (hj.symm.trans hdue)
      have hone : 1 ≤ r.rows.count k := List.one_le_count_iff.mpr hmem
      refine ⟨k, .inl ?_⟩
      rw [List.count_append, List.count_singleton_self]
      omega
    · exact ⟨k, .inr ⟨List.mem_append_left _ hmem, j, (setAt_other _ _ hji).trans hj⟩⟩

omit [DecidableEq κ] in
theorem Insert.twice {i : ι} (hinsert : Insert r i r') (halone : ¬ r.Alone i) :
    ∃ k ∈ r'.rows, ∃ j, r'.due j = some k := by
  obtain ⟨k, hdue⟩ := hinsert
  rw [Alone] at halone
  push Not at halone
  obtain ⟨l, hl, j, hji, hj⟩ := halone
  obtain rfl := Option.some.inj (hdue.symm.trans hl)
  exact ⟨k, List.mem_append_right _ (List.mem_singleton_self k), j, (setAt_other _ _ hji).trans hj⟩

theorem Doubling.of_insert {i : ι} (hinsert : Insert r i r') (halone : ¬ r.Alone i) :
    Doubling r' := by
  obtain ⟨k, hmem, hdue⟩ := hinsert.twice halone
  exact ⟨k, .inr ⟨hmem, hdue⟩⟩

omit [DecidableEq ι] in
theorem Doubling.not_nodup (h : Doubling r) (hidle : ∀ i, r.due i = none) : ¬ r.rows.Nodup := by
  obtain ⟨k, htwo | ⟨-, i, hi⟩⟩ := h
  · intro hnodup
    have hone := List.nodup_iff_count_le_one.mp hnodup k
    omega
  · rw [hidle i] at hi
    cases hi

end CheckedInsert

end Cadena.Base
