import Mathlib.Data.List.Forall2
import Mathlib.Data.List.TakeWhile

/-!
# The first match in a text

A pattern that can match at a position is a function `m` of the rest of
the text. `firstMatch m` is what a search for it finds: the match at the
first position that has one. Where the elements that a match may read are
known (`ReadsOnly`), a search does not see across any other element.

`matchAt` is the pattern that is a fixed sequence of classes of elements.
-/

namespace Cadena.Base

variable {α β : Type*}

def firstMatch (m : List α → Option β) : List α → Option β
  | [] => m []
  | c :: t => (m (c :: t)).or (firstMatch m t)

/-- A match reads elements with `p` only: another one ends the text for it. -/
def ReadsOnly (p : α → Bool) (m : List α → Option β) : Prop :=
  ∀ t, m t = m (t.takeWhile p)

variable {p : α → Bool} {m : List α → Option β}

theorem firstMatch_cons (c : α) (t : List α) :
    firstMatch m (c :: t) = (m (c :: t)).or (firstMatch m t) := rfl

theorem firstMatch_of_match {t : List α} {b : β} (h : m t = some b) : firstMatch m t = some b := by
  cases t with
  | nil => exact h
  | cons c t => rw [firstMatch_cons, h, Option.some_or]

theorem ReadsOnly.stop (hm : ReadsOnly p m) {c : α} (hc : p c = false) (t : List α) :
    m (c :: t) = m [] := by
  rw [hm (c :: t), List.takeWhile_cons_of_neg (by simp [hc])]

theorem ReadsOnly.append (hm : ReadsOnly p m) {c : α} (hc : p c = false) (l t : List α) :
    m (l ++ c :: t) = m l := by
  have hcut : (c :: t).takeWhile p = [] := List.takeWhile_cons_of_neg (by simp [hc])
  rw [hm (l ++ c :: t), hm l, List.takeWhile_append, hcut, List.append_nil]
  split
  · rw [List.takeWhile_eq_self_iff.mpr]
    rename_i hlen
    exact fun x hx => List.mem_takeWhile_imp
      ((List.takeWhile_prefix p).sublist.eq_of_length hlen ▸ hx)
  · rfl

theorem firstMatch_append (hm : ReadsOnly p m) (hnil : m [] = none) {c : α} (hc : p c = false)
    (l t : List α) : firstMatch m (l ++ c :: t) = (firstMatch m l).or (firstMatch m t) := by
  induction l with
  | nil =>
    rw [List.nil_append, firstMatch_cons, hm.stop hc, firstMatch, hnil]
  | cons a l ih =>
    have hhere : m (a :: l ++ c :: t) = m (a :: l) := hm.append hc (a :: l) t
    calc firstMatch m (a :: l ++ c :: t)
        = (m (a :: l ++ c :: t)).or (firstMatch m (l ++ c :: t)) := rfl
      _ = ((m (a :: l)).or (firstMatch m l)).or (firstMatch m t) := by
          rw [hhere, ih, Option.or_assoc]

theorem ReadsOnly.map {γ : Type*} (hm : ReadsOnly p m) (f : β → γ) :
    ReadsOnly p fun t => (m t).map f :=
  fun t => congrArg (Option.map f) (hm t)

/-- One element of each class, one after the other: the elements read. -/
def matchAt : List (α → Bool) → List α → Option (List α)
  | [], _ => some []
  | _ :: _, [] => none
  | q :: qs, c :: t => if q c then (matchAt qs t).map (c :: ·) else none

theorem matchAt_readsOnly {qs : List (α → Bool)} (h : ∀ q ∈ qs, ∀ c, q c = true → p c = true) :
    ReadsOnly p (matchAt qs) := by
  intro t
  induction qs generalizing t with
  | nil => rfl
  | cons q qs ih =>
    cases t with
    | nil => rfl
    | cons c t =>
      have ih := ih (fun r hr => h r (List.mem_cons_of_mem _ hr)) t
      by_cases hq : q c = true
      · rw [List.takeWhile_cons_of_pos (h q List.mem_cons_self c hq), matchAt, matchAt,
          if_pos hq, if_pos hq, ih]
      · rw [matchAt, if_neg hq]
        by_cases hp : p c = true
        · rw [List.takeWhile_cons_of_pos hp, matchAt, if_neg hq]
        · rw [List.takeWhile_cons_of_neg hp, matchAt]

/-- Elements of the classes are read, whatever follows them. -/
theorem matchAt_append {qs : List (α → Bool)} {w : List α}
    (h : List.Forall₂ (fun q c => q c = true) qs w) (t : List α) :
    matchAt qs (w ++ t) = some w := by
  induction h with
  | nil => cases t <;> rfl
  | cons hq _ ih => rw [List.cons_append, matchAt, if_pos hq, ih, Option.map_some]

theorem forall₂_replicate {q : α → Bool} {w : List α} (h : ∀ c ∈ w, q c = true) :
    List.Forall₂ (fun r c => r c = true) (List.replicate w.length q) w := by
  induction w with
  | nil => exact .nil
  | cons c w ih =>
    exact .cons (h c List.mem_cons_self) (ih fun d hd => h d (List.mem_cons_of_mem c hd))

end Cadena.Base
