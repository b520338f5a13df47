import Mathlib.Data.List.Basic
import Mathlib.Order.Lattice

/-!
# Resuming a sorted list at a stamp

A list sorted by a stamp is read in pieces. Where a reader stands is written
down as the last stamp read and how many elements of that stamp were read, and
that is enough to go on: what is left from there is exactly what was not read
(`restOf_after`), and the next position follows from the piece read and the
position alone (`advance_after`). Nothing here depends on the program.
-/

namespace Cadena.Base.Keyset

variable {α κ : Type} [LinearOrder κ]

structure Position (κ : Type) where
  stamp : κ
  consumed : Nat
  deriving DecidableEq

variable (stamp : α → κ)

/-- How many elements have the stamp. -/
def countAt (k : κ) (l : List α) : Nat := l.countP fun a => stamp a = k

/-- Where a reader of `l` stands; at the start there is no position. -/
def after (l : List α) : Option (Position κ) :=
  l.getLast?.map fun a => ⟨stamp a, countAt stamp (stamp a) l⟩

/-- What is left of `l` from a position. -/
def restOf (l : List α) : Option (Position κ) → List α
  | none => l
  | some p => (l.filter fun a => p.stamp ≤ stamp a).drop p.consumed

/-- What the position adds to the count of a piece's last stamp: its own
count, if the whole piece has the stamp it resumed from. -/
def carried (p : Option (Position κ)) (piece : List α) (last : κ) : Nat :=
  match p with
  | none => 0
  | some p => if countAt stamp last piece = piece.length ∧ p.stamp = last then p.consumed else 0

def advance (p : Option (Position κ)) (piece : List α) : Option (Position κ) :=
  piece.getLast?.map fun a =>
    ⟨stamp a, countAt stamp (stamp a) piece + carried stamp p piece (stamp a)⟩

/-! ## Sorted lists -/

def Sorted (l : List α) : Prop := l.Pairwise fun a b => stamp a ≤ stamp b

variable {stamp}

theorem countAt_append (k : κ) (l m : List α) :
    countAt stamp k (l ++ m) = countAt stamp k l + countAt stamp k m := List.countP_append

variable {l m : List α}

theorem countAt_eq_length {k : κ} : countAt stamp k l = l.length ↔ ∀ a ∈ l, stamp a = k := by
  simp [countAt, List.countP_eq_length]

theorem countAt_eq_zero {k : κ} : countAt stamp k l = 0 ↔ ∀ a ∈ l, stamp a ≠ k := by
  simp [countAt, List.countP_eq_zero]

theorem Sorted.le_last (h : Sorted stamp l) {last : α}
    (hlast : l.getLast? = some last) : ∀ a ∈ l, stamp a ≤ stamp last := by
  intro a ha
  obtain ⟨init, rfl⟩ := List.getLast?_eq_some_iff.mp hlast
  rcases List.mem_append.mp ha with hinit | hend
  · exact (List.pairwise_append.mp h).2.2 a hinit last (by simp)
  · rw [List.mem_singleton.mp hend]

theorem Sorted.left (h : Sorted stamp (l ++ m)) : Sorted stamp l :=
  (List.pairwise_append.mp h).1

theorem Sorted.right (h : Sorted stamp (l ++ m)) : Sorted stamp m :=
  (List.pairwise_append.mp h).2.1

theorem length_filter_last (h : Sorted stamp l) {last : α} (hlast : l.getLast? = some last) :
    (l.filter fun a => stamp last ≤ stamp a).length = countAt stamp (stamp last) l := by
  rw [← List.countP_eq_length_filter, countAt]
  refine List.countP_congr fun a ha => ?_
  have hle := h.le_last hlast a ha
  simp only [decide_eq_true_eq]
  exact ⟨fun hge => le_antisymm hle hge, fun heq => heq.ge⟩

/-- **From where a reader stands, what is left is what was not read.** -/
theorem restOf_after (h : Sorted stamp (l ++ m)) : restOf stamp (l ++ m) (after stamp l) = m := by
  cases hlast : l.getLast? with
  | none =>
    rw [List.getLast?_eq_none_iff] at hlast
    subst hlast
    rfl
  | some last =>
    have hrest : (m.filter fun a => stamp last ≤ stamp a) = m := by
      rw [List.filter_eq_self]
      intro a ha
      have hle := (List.pairwise_append.mp h).2.2 last (List.mem_of_getLast? hlast) a ha
      simpa using hle
    rw [after, hlast]
    show ((l ++ m).filter fun a => stamp last ≤ stamp a).drop (countAt stamp (stamp last) l) = m
    rw [List.filter_append, hrest, ← length_filter_last h.left hlast, List.drop_left]

theorem carried_after {piece : List α} (h : Sorted stamp (l ++ piece)) {last : α}
    (hlast : piece.getLast? = some last) :
    carried stamp (after stamp l) piece (stamp last) = countAt stamp (stamp last) l := by
  cases hprev : l.getLast? with
  | none =>
    rw [List.getLast?_eq_none_iff] at hprev
    subst hprev
    rfl
  | some prev =>
    have hbetween : ∀ a ∈ piece, stamp prev ≤ stamp a := fun a ha =>
      (List.pairwise_append.mp h).2.2 prev (List.mem_of_getLast? hprev) a ha
    rw [after, hprev]
    show (if countAt stamp (stamp last) piece = piece.length ∧ stamp prev = stamp last
      then countAt stamp (stamp prev) l else 0) = _
    by_cases hsame : stamp prev = stamp last
    · -- the piece lies between two equal stamps
      have hall : countAt stamp (stamp last) piece = piece.length := by
        rw [countAt_eq_length]
        intro a ha
        exact le_antisymm (h.right.le_last hlast a ha) (hsame ▸ hbetween a ha)
      rw [if_pos ⟨hall, hsame⟩, hsame]
    · rw [if_neg fun hboth => hsame hboth.2, eq_comm, countAt_eq_zero]
      intro a ha heq
      have hle := h.left.le_last hprev a ha
      have hge := hbetween last (List.mem_of_getLast? hlast)
      exact hsame (le_antisymm hge (heq ▸ hle))

/-- **The next position follows from the position and the piece read.** -/
theorem advance_after {piece : List α} (h : Sorted stamp (l ++ piece)) (hne : piece ≠ []) :
    advance stamp (after stamp l) piece = after stamp (l ++ piece) := by
  cases hlast : piece.getLast? with
  | none => exact absurd (List.getLast?_eq_none_iff.mp hlast) hne
  | some last =>
    have hall : (l ++ piece).getLast? = some last := by
      rw [List.getLast?_append, hlast, Option.some_or]
    rw [advance, hlast, Option.map_some, carried_after h hlast, after, hall, Option.map_some,
      countAt_append, Nat.add_comm]

end Cadena.Base.Keyset
