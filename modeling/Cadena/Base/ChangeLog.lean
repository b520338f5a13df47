import Mathlib.Data.List.Basic

/-!
# The last word on every column

Requests that supply values for some columns, a record with the values last
supplied, and a log whose entries say what was there before and what is
there after.
-/

namespace Cadena.Base

section
variable {κ α ρ : Type*}

/-- The value of the last request that supplies one, else the first value. -/
def lastSupplied (supplied : ρ → κ → Option α) (orig : κ → Option α) (requests : List ρ) (k : κ) :
    Option α :=
  (requests.filterMap fun r => supplied r k).getLast?.or (orig k)

@[simp] theorem lastSupplied_nil (supplied : ρ → κ → Option α) (orig : κ → Option α) (k : κ) :
    lastSupplied supplied orig [] k = orig k := rfl

theorem lastSupplied_snoc (supplied : ρ → κ → Option α) (orig : κ → Option α) (requests : List ρ)
    (r : ρ) (k : κ) :
    lastSupplied supplied orig (requests ++ [r]) k =
      (supplied r k).or (lastSupplied supplied orig requests k) := by
  unfold lastSupplied
  cases h : supplied r k with
  | none => simp [List.filterMap_append, h]
  | some v => simp [List.filterMap_append, h]

end

section
variable {σ ε : Type*} (fits : ε → σ → Prop) (apply : ε → σ → σ)

/-- The entries fit one after the other, and lead from one state to the
other. -/
def Explains : σ → List ε → σ → Prop
  | s, [], t => s = t
  | s, e :: es, t => fits e s ∧ Explains (apply e s) es t

variable {fits apply}

theorem Explains.snoc {s t : σ} {es : List ε} (h : Explains fits apply s es t) {e : ε}
    (hfits : fits e t) : Explains fits apply s (es ++ [e]) (apply e t) := by
  induction es generalizing s with
  | nil =>
    obtain rfl : s = t := h
    exact ⟨hfits, rfl⟩
  | cons d es ih => exact ⟨h.1, ih h.2⟩

end

end Cadena.Base
