import Cadena.Base.Split
import Mathlib.Algebra.BigOperators.Group.List.Basic
import Mathlib.Algebra.Order.Ring.Int

/-!
# Nested sequences

Sequences of tokens that open and close levels. `weight` is what a token
adds to the depth; `Nested` says that a sequence leads from one depth to
another and never goes below zero. A sequence is split at the separators
that stand at depth zero (`splitTop`); one with none there is `Quiet`.
-/

namespace Cadena.Base

section Nesting

variable {τ : Type*} (weight : τ → Int)

/-- The sequence leads from depth `d` to depth `e`, never below zero. -/
def Nested (d e : Int) : List τ → Prop
  | [] => d = e
  | t :: ts => 0 ≤ d + weight t ∧ Nested (d + weight t) e ts

/-- No separator stands at depth zero. -/
def Quiet (sep : τ → Bool) (d : Int) : List τ → Prop
  | [] => True
  | t :: ts => ¬ (d = 0 ∧ sep t = true) ∧ Quiet sep (d + weight t) ts

instance decidableNested (d e : Int) : (ts : List τ) → Decidable (Nested weight d e ts)
  | [] => inferInstanceAs (Decidable (d = e))
  | t :: ts => @instDecidableAnd _ _ _ (decidableNested (d + weight t) e ts)

instance decidableQuiet (sep : τ → Bool) (d : Int) :
    (ts : List τ) → Decidable (Quiet weight sep d ts)
  | [] => isTrue trivial
  | t :: ts => @instDecidableAnd _ _ _ (decidableQuiet sep (d + weight t) ts)

/-- The pieces between the separators at depth zero. -/
def splitTop (sep : τ → Bool) (d : Int) : List τ → List (List τ)
  | [] => [[]]
  | t :: ts =>
    if d = 0 ∧ sep t = true then [] :: splitTop sep (d + weight t) ts
    else consHead t (splitTop sep (d + weight t) ts)

variable {d e : Int} {a b ts : List τ} {sep : τ → Bool}

theorem nested_nil : Nested weight d e ([] : List τ) ↔ d = e := Iff.rfl

theorem nested_cons {t : τ} :
    Nested weight d e (t :: ts) ↔ 0 ≤ d + weight t ∧ Nested weight (d + weight t) e ts := Iff.rfl

theorem quiet_nil : Quiet weight sep d ([] : List τ) ↔ True := Iff.rfl

theorem quiet_cons {t : τ} : Quiet weight sep d (t :: ts) ↔
      ¬ (d = 0 ∧ sep t = true) ∧ Quiet weight sep (d + weight t) ts := Iff.rfl

theorem splitTop_cons (sep : τ → Bool) (d : Int) (t : τ) (ts : List τ) :
    splitTop weight sep d (t :: ts) =
      if d = 0 ∧ sep t = true then [] :: splitTop weight sep (d + weight t) ts
      else consHead t (splitTop weight sep (d + weight t) ts) := rfl

/-- What a sequence adds to the depth. -/
def rise (ts : List τ) : Int := (ts.map weight).sum

@[simp] theorem rise_nil : rise weight [] = 0 := rfl

@[simp] theorem rise_cons (t : τ) (ts : List τ) :
    rise weight (t :: ts) = weight t + rise weight ts := by
  simp [rise]

@[simp] theorem rise_append (a b : List τ) :
    rise weight (a ++ b) = rise weight a + rise weight b := by
  simp [rise]

variable {weight}

theorem Nested.rise_eq (h : Nested weight d e ts) : d + rise weight ts = e := by
  induction ts generalizing d with
  | nil => simpa [nested_nil] using h
  | cons t ts ih =>
    have := ih h.2
    rw [rise_cons]
    omega

theorem nested_append : Nested weight d e (a ++ b) ↔
      Nested weight d (d + rise weight a) a ∧ Nested weight (d + rise weight a) e b := by
  induction a generalizing d with
  | nil => simp [nested_nil]
  | cons t a ih =>
    rw [List.cons_append, nested_cons, nested_cons, ih, rise_cons, and_assoc, add_assoc]

/-- A sequence without levels stays where it is. -/
theorem nested_of_flat (h : ∀ t ∈ ts, weight t = 0) (hd : 0 ≤ d) : Nested weight d d ts := by
  induction ts with
  | nil => rfl
  | cons t ts ih =>
    have ht : d + weight t = d := by rw [h t List.mem_cons_self, add_zero]
    rw [nested_cons, ht]
    exact ⟨hd, ih fun u hu => h u (List.mem_cons_of_mem _ hu)⟩

/-- One level further in, the same sequence has nothing at depth zero. -/
theorem Nested.inner (h : Nested weight d e ts) (hd : 0 ≤ d) :
    Nested weight (d + 1) (e + 1) ts ∧ ∀ sep, Quiet weight sep (d + 1) ts := by
  induction ts generalizing d with
  | nil => exact ⟨by rw [nested_nil] at h ⊢; omega, fun _ => trivial⟩
  | cons t ts ih =>
    obtain ⟨hle, hrest⟩ := h
    obtain ⟨hn, hq⟩ := ih hrest hle
    have hshift : d + weight t + 1 = d + 1 + weight t := by omega
    rw [hshift] at hn hq
    exact ⟨⟨by omega, hn⟩, fun sep => ⟨fun h => by omega, hq sep⟩⟩

/-! ## Separators -/

theorem quiet_append : Quiet weight sep d (a ++ b) ↔
      Quiet weight sep d a ∧ Quiet weight sep (d + rise weight a) b := by
  induction a generalizing d with
  | nil => simp [quiet_nil]
  | cons t a ih =>
    rw [List.cons_append, quiet_cons, quiet_cons, ih, rise_cons, and_assoc, add_assoc]

theorem quiet_of_forall (h : ∀ t ∈ ts, sep t = false) (d : Int) : Quiet weight sep d ts := by
  induction ts generalizing d with
  | nil => trivial
  | cons t ts ih =>
    have ht : ¬ (d = 0 ∧ sep t = true) := by simp [h t List.mem_cons_self]
    exact ⟨ht, ih (fun u hu => h u (List.mem_cons_of_mem _ hu)) _⟩

theorem splitTop_ne_nil (sep : τ → Bool) (d : Int) (ts : List τ) :
    splitTop weight sep d ts ≠ [] := by
  cases ts with
  | nil => exact List.cons_ne_nil _ _
  | cons t ts =>
    rw [splitTop_cons]
    split
    · exact List.cons_ne_nil _ _
    · exact consHead_ne_nil _ _

theorem splitTop_of_quiet (h : Quiet weight sep d ts) : splitTop weight sep d ts = [ts] := by
  induction ts generalizing d with
  | nil => rfl
  | cons t ts ih => rw [splitTop_cons, if_neg h.1, ih h.2, consHead]

theorem two_le_length_splitTop (h : ¬ Quiet weight sep d ts) : 2 ≤ (splitTop weight sep d ts).length := by
  induction ts generalizing d with
  | nil => exact absurd trivial h
  | cons t ts ih =>
    have hne : splitTop weight sep (d + weight t) ts ≠ [] := splitTop_ne_nil sep _ ts
    have hpos := List.length_pos_iff.mpr hne
    rw [splitTop_cons]
    by_cases hsep : d = 0 ∧ sep t = true
    · rw [if_pos hsep, List.length_cons]
      omega
    · rw [if_neg hsep]
      have hrest := ih fun hq => h ⟨hsep, hq⟩
      cases hs : splitTop weight sep (d + weight t) ts with
      | nil => exact absurd hs (splitTop_ne_nil _ _ _)
      | cons w ws =>
        rw [hs] at hrest
        simpa [consHead] using hrest

theorem splitTop_eq_singleton : splitTop weight sep d ts = [ts] ↔ Quiet weight sep d ts := by
  refine ⟨fun h => ?_, splitTop_of_quiet⟩
  by_contra hq
  have := two_le_length_splitTop hq
  rw [h] at this
  simp at this

theorem prefix_of_splitTop {w : List τ} {ws : List (List τ)}
    (h : splitTop weight sep d ts = w :: ws) : w <+: ts := by
  induction ts generalizing d w ws with
  | nil =>
    obtain ⟨rfl, -⟩ := List.cons.inj h
    exact List.prefix_rfl
  | cons t ts ih =>
    rw [splitTop_cons] at h
    split at h
    case isTrue =>
      obtain ⟨rfl, -⟩ := List.cons.inj h
      exact List.nil_prefix
    case isFalse =>
      cases hs : splitTop weight sep (d + weight t) ts with
      | nil => exact absurd hs (splitTop_ne_nil _ _ _)
      | cons v vs =>
        rw [hs] at h
        obtain ⟨rfl, -⟩ := List.cons.inj h
        exact List.cons_prefix_cons.mpr ⟨rfl, ih hs⟩

theorem infix_of_mem_splitTop {piece : List τ} (hp : piece ∈ splitTop weight sep d ts) : piece <:+: ts := by
  induction ts generalizing d piece with
  | nil =>
    obtain rfl := List.mem_singleton.mp hp
    exact List.infix_rfl
  | cons t ts ih =>
    rw [splitTop_cons] at hp
    split at hp
    case isTrue =>
      rcases List.mem_cons.mp hp with rfl | hp
      · exact List.nil_infix
      · exact (ih hp).trans (List.suffix_cons t ts).isInfix
    case isFalse =>
      cases hs : splitTop weight sep (d + weight t) ts with
      | nil => exact absurd hs (splitTop_ne_nil _ _ _)
      | cons w ws =>
        rw [hs] at hp
        rcases List.mem_cons.mp hp with rfl | hp
        · exact (List.cons_prefix_cons.mpr ⟨rfl, prefix_of_splitTop hs⟩).isInfix
        · have hmem : piece ∈ splitTop weight sep (d + weight t) ts := by
            rw [hs]
            exact List.mem_cons_of_mem _ hp
          exact (ih hmem).trans (List.suffix_cons t ts).isInfix

theorem splitTop_append {t : τ} (hd : d + rise weight a = 0) (ht : sep t = true) :
    splitTop weight sep d (a ++ t :: b)
      = splitTop weight sep d a ++ splitTop weight sep (weight t) b := by
  induction a generalizing d with
  | nil =>
    have hd' : d = 0 := by simpa using hd
    show (if _ then _ else _) = _
    rw [if_pos ⟨hd', ht⟩, hd', zero_add]
    rfl
  | cons u a ih =>
    have hrest := ih (d := d + weight u) (by rw [rise_cons] at hd; omega)
    rw [List.cons_append, splitTop_cons, splitTop_cons, hrest]
    by_cases hsep : d = 0 ∧ sep u = true
    · rw [if_pos hsep, if_pos hsep, List.cons_append]
    · rw [if_neg hsep, if_neg hsep]
      cases hs : splitTop weight sep (d + weight u) a with
      | nil => exact absurd hs (splitTop_ne_nil _ _ _)
      | cons w ws => rfl

end Nesting

end Cadena.Base
