import Mathlib.Order.Basic

/-!
# Latches

Parties look at a level at times of their own and act on what they saw later.
One that saw the level crossed fires if the latch is open, and shuts it; one
that did not opens the latch again. Where the level stays crossed, the latch
fires once, provided that nobody opens it after a party that looked later has
fired.
-/

namespace Cadena.Base

/-- `fired` are the times at which those who fired had looked. -/
@[ext] structure Latch (τ : Type) where
  shut : Bool
  fired : List τ

namespace Latch

variable {τ : Type}

def start : Latch τ := ⟨false, []⟩

structure Sound (crossed : τ → Prop) (r : Latch τ) : Prop where
  once : r.fired.length ≤ 1
  shut : r.shut = true ↔ r.fired ≠ []
  crossed : ∀ t ∈ r.fired, crossed t

variable {crossed : τ → Prop} {r r' : Latch τ}

theorem Sound.start : Sound crossed (start : Latch τ) :=
  ⟨by simp [Latch.start], by simp [Latch.start], nofun⟩

theorem Sound.fire (h : Sound crossed r) {t : τ} (hcrossed : crossed t) (hopen : r.shut = false) :
    Sound crossed ⟨true, r.fired ++ [t]⟩ := by
  have hnone : r.fired = [] := by
    by_contra hsome
    rw [h.shut.mpr hsome] at hopen
    cases hopen
  rw [hnone]
  exact ⟨Nat.le_refl 1, by simp, by simpa using hcrossed⟩

variable [LE τ]

inductive Move (crossed : τ → Prop) (r : Latch τ) : Latch τ → Prop where
  | stay : Move crossed r r
  | fire (t : τ) (hcrossed : crossed t) (hopen : r.shut = false) :
      Move crossed r ⟨true, r.fired ++ [t]⟩
  | reopen (t : τ) (hcalm : ¬ crossed t) (hlatest : ∀ u ∈ r.fired, u ≤ t) :
      Move crossed r ⟨false, r.fired⟩

theorem Sound.none_fired (h : Sound crossed r) (hup : ∀ t u, t ≤ u → crossed t → crossed u) {t : τ}
    (hcalm : ¬ crossed t) (hlatest : ∀ u ∈ r.fired, u ≤ t) : r.fired = [] := by
  refine List.eq_nil_iff_forall_not_mem.mpr fun u hu => hcalm ?_
  exact hup u t (hlatest u hu) (h.crossed u hu)

theorem Sound.move (h : Sound crossed r) (hup : ∀ t u, t ≤ u → crossed t → crossed u)
    (hmove : Move crossed r r') : Sound crossed r' := by
  cases hmove with
  | stay => exact h
  | fire t hcrossed hopen => exact h.fire hcrossed hopen
  | reopen t hcalm hlatest =>
    rw [h.none_fired hup hcalm hlatest]
    exact ⟨Nat.zero_le 1, by simp, nofun⟩

end Latch

end Cadena.Base
