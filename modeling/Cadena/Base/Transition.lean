import Mathlib.Data.List.Basic

/-!
# Systems of atomic steps

A system is a partial step function: `none` means that the action cannot
be taken in the state. A run is a list of actions taken one after the
other. The rules below carry a fact about one step over to whole runs,
so a model proves its invariants once, step by step.
-/

namespace Cadena.Base

/-- The states and actions of a system, and what an action does. -/
structure System (σ α : Type) where
  step : σ → α → Option σ

namespace System

variable {σ α : Type} (M : System σ α)

/-- The state after the actions, or `none` when one of them is refused. -/
def run : σ → List α → Option σ
  | s, [] => some s
  | s, a :: as =>
    match M.step s a with
    | none => none
    | some t => run t as

/-- The states some run from `init` reaches. -/
def Reachable (init s : σ) : Prop := ∃ as, M.run init as = some s

variable {as : List α} {s t : σ} {F P : σ → Prop} {C D : σ → α → Prop}

@[simp] theorem run_nil (s : σ) : M.run s [] = some s := rfl

theorem run_cons {a : α} : M.run s (a :: as) = some t ↔ ∃ u, M.step s a = some u ∧ M.run u as = some t := by
  cases h : M.step s a with
  | none => simp [run, h]
  | some u => simp [run, h]

theorem run_append {bs : List α} :
    M.run s (as ++ bs) = some t ↔ ∃ u, M.run s as = some u ∧ M.run u bs = some t := by
  induction as generalizing s with
  | nil => simp
  | cons a as ih =>
    rw [List.cons_append, run_cons]
    constructor
    · rintro ⟨v, hv, hrest⟩
      obtain ⟨u, hu, ht⟩ := ih.mp hrest
      exact ⟨u, M.run_cons.mpr ⟨v, hv, hu⟩, ht⟩
    · rintro ⟨u, hu, ht⟩
      obtain ⟨v, hv, hrest⟩ := M.run_cons.mp hu
      exact ⟨v, hv, ih.mpr ⟨u, hrest, ht⟩⟩

theorem run_invariant (hstep : ∀ {s a t}, P s → M.step s a = some t → P t)
    (hs : P s) (hrun : M.run s as = some t) : P t := by
  induction as generalizing s with
  | nil => exact Option.some.inj hrun ▸ hs
  | cons a as ih =>
    obtain ⟨u, hu, hrest⟩ := M.run_cons.mp hrun
    exact ih (hstep hs hu) hrest

/-- A reflexive and transitive relation that every step respects, from
states with the invariant, relates the two ends of a run. -/
theorem run_relation {R : σ → σ → Prop} (hinv : ∀ {s a t}, P s → M.step s a = some t → P t)
    (hrefl : ∀ s, R s s) (htrans : ∀ {s t u}, R s t → R t u → R s u)
    (hstep : ∀ {s a t}, P s → M.step s a = some t → R s t)
    (hs : P s) (hrun : M.run s as = some t) : R s t := by
  induction as generalizing s with
  | nil => exact Option.some.inj hrun ▸ hrefl s
  | cons a as ih =>
    obtain ⟨u, hu, hrest⟩ := M.run_cons.mp hrun
    exact htrans (hstep hs hu) (ih (hinv hs hu) hrest)

theorem reachable_invariant {init : σ} (hinit : P init) (hstep : ∀ {s a t}, P s → M.step s a = some t → P t)
    (h : M.Reachable init s) : P s := by
  obtain ⟨as, hrun⟩ := h
  exact M.run_invariant hstep hinit hrun

/-- Every step of the run meets a condition on the state before it. -/
def Along (C : σ → α → Prop) : σ → List α → Prop
  | _, [] => True
  | s, a :: as => C s a ∧ ∀ t, M.step s a = some t → Along C t as

theorem along_cons {a : α} (hstep : M.step s a = some t) (hC : C s a) (hrest : M.Along C t as) :
    M.Along C s (a :: as) := by
  refine ⟨hC, fun u hu => ?_⟩
  rw [hstep] at hu
  exact Option.some.inj hu ▸ hrest

/-- A test made before every step of the run. -/
def checks (c : σ → α → Bool) : σ → List α → Bool
  | _, [] => true
  | s, a :: as => c s a && match M.step s a with
      | some t => checks c t as
      | none => true

theorem along_of_checks {c : σ → α → Bool} (h : ∀ s a, c s a = true → C s a)
    (hc : M.checks c s as = true) : M.Along C s as := by
  induction as generalizing s with
  | nil => trivial
  | cons a as ih =>
    simp only [checks, Bool.and_eq_true] at hc
    refine ⟨h s a hc.1, fun t ht => ih ?_⟩
    simpa only [ht] using hc.2

theorem along_suffix {bs : List α} (h : M.Along C s (as ++ bs)) (hrun : M.run s as = some t) : M.Along C t bs := by
  induction as generalizing s with
  | nil => exact Option.some.inj hrun ▸ h
  | cons a as ih =>
    obtain ⟨u, hu, hrest⟩ := M.run_cons.mp hrun
    exact ih (h.2 u hu) hrest

/-- A predicate that every step under the condition preserves holds at the
end of a run whose steps all meet it. -/
theorem along_invariant (hstep : ∀ {s a t}, P s → C s a → M.step s a = some t → P t)
    (hs : P s) (hall : M.Along C s as) (hrun : M.run s as = some t) :
    P t := by
  induction as generalizing s with
  | nil => exact Option.some.inj hrun ▸ hs
  | cons a as ih =>
    obtain ⟨u, hu, hrest⟩ := M.run_cons.mp hrun
    exact ih (hstep hs hall.1 hu) (hall.2 u hu) hrest

theorem along_or_first (hrun : M.run s as = some t) :
    M.Along C s as ∨ ∃ before a after u v, as = before ++ a :: after ∧
      M.run s before = some u ∧ M.Along C s before ∧ ¬ C u a ∧
      M.step u a = some v ∧ M.run v after = some t := by
  induction as generalizing s with
  | nil => exact .inl trivial
  | cons a as ih =>
    obtain ⟨u, hu, hrest⟩ := M.run_cons.mp hrun
    by_cases hC : C s a
    · rcases ih hrest with hall | ⟨before, b, after, v, w, rfl, hv, hall, hnot, hw, ht⟩
      · exact .inl (M.along_cons hu hC hall)
      · exact .inr ⟨a :: before, b, after, v, w, rfl, M.run_cons.mpr ⟨u, hu, hv⟩,
          M.along_cons hu hC hall, hnot, hw, ht⟩
    · exact .inr ⟨[], a, as, s, u, rfl, rfl, trivial, hC, hu, hrest⟩

/-- A condition that says nothing is met by every run. -/
theorem along_of_forall (h : ∀ s a, C s a) (s : σ) (as : List α) : M.Along C s as := by
  induction as generalizing s with
  | nil => trivial
  | cons a as ih => exact ⟨h s a, fun t _ => ih t⟩

/-- One condition leads to another by what it preserves. -/
theorem along_mono (hinv : ∀ {s a t}, P s → C s a → M.step s a = some t → P t)
    (h : ∀ {s a}, P s → C s a → D s a) (hs : P s) (hall : M.Along C s as) :
    M.Along D s as := by
  induction as generalizing s with
  | nil => trivial
  | cons a as ih =>
    exact ⟨h hs hall.1, fun t ht => ih (hinv hs hall.1 ht) (hall.2 t ht)⟩

theorem along_of_mem {C : α → Prop} (h : ∀ a ∈ as, C a) (s : σ) : M.Along (fun _ a => C a) s as := by
  induction as generalizing s with
  | nil => trivial
  | cons a as ih =>
    exact ⟨h a List.mem_cons_self, fun t _ => ih (fun b hb => h b (List.mem_cons_of_mem _ hb)) t⟩

/-- What each step keeps exactly under a condition has been kept by a run
exactly if all its steps meet the condition. -/
theorem along_iff (hinv : ∀ {s a t}, P s → D s a → M.step s a = some t → P t)
    (hstep : ∀ {s a t}, P s → D s a → M.step s a = some t → (F t ↔ F s ∧ C s a))
    (hs : P s) (hall : M.Along D s as) (hrun : M.run s as = some t) :
    F t ↔ F s ∧ M.Along C s as := by
  induction as generalizing s with
  | nil =>
    obtain rfl := Option.some.inj hrun
    exact ⟨fun h => ⟨h, trivial⟩, And.left⟩
  | cons a as ih =>
    obtain ⟨u, hu, hrest⟩ := M.run_cons.mp hrun
    rw [ih (hinv hs hall.1 hu) (hall.2 u hu) hrest, hstep hs hall.1 hu, and_assoc]
    refine and_congr_right fun _ => ⟨fun h => M.along_cons hu h.1 h.2, fun h => ⟨h.1, h.2 u hu⟩⟩

theorem along_congr (hinv : ∀ {s a t}, P s → C s a → M.step s a = some t → P t)
    (h : ∀ {s a t}, P s → M.step s a = some t → (D s a ↔ C s a))
    (hs : P s) (hrun : M.run s as = some t) :
    M.Along D s as ↔ M.Along C s as := by
  induction as generalizing s with
  | nil => exact Iff.rfl
  | cons a as ih =>
    obtain ⟨u, hu, hrest⟩ := M.run_cons.mp hrun
    constructor
    · intro hD
      have hC : C s a := (h hs hu).mp hD.1
      exact M.along_cons hu hC ((ih (hinv hs hC hu) hrest).mp (hD.2 u hu))
    · intro hC
      exact M.along_cons hu ((h hs hu).mpr hC.1) ((ih (hinv hs hC.1 hu) hrest).mpr (hC.2 u hu))

/-- A predicate holds in every state of the run. -/
def Throughout (F : σ → Prop) : σ → List α → Prop
  | s, [] => F s
  | s, a :: as => F s ∧ ∀ t, M.step s a = some t → Throughout F t as

theorem throughout_start (h : M.Throughout F s as) : F s := by
  cases as with
  | nil => exact h
  | cons a as => exact h.1

theorem throughout_end (h : M.Throughout F s as) (hrun : M.run s as = some t) : F t := by
  induction as generalizing s with
  | nil => exact Option.some.inj hrun ▸ h
  | cons a as ih =>
    obtain ⟨u, hu, hrest⟩ := M.run_cons.mp hrun
    exact ih (h.2 u hu) hrest

/-- What holds in every state tells something about every step. -/
theorem along_of_throughout (h : ∀ {s a}, F s → C s a) (hall : M.Throughout F s as) : M.Along C s as := by
  induction as generalizing s with
  | nil => trivial
  | cons a as ih => exact ⟨h hall.1, fun t ht => ih (hall.2 t ht)⟩

theorem throughout_of_along (hinv : ∀ {s a t}, P s → C s a → M.step s a = some t → P t) (h : ∀ {s}, P s → F s)
    (hs : P s) (hall : M.Along C s as) : M.Throughout F s as := by
  induction as generalizing s with
  | nil => exact h hs
  | cons a as ih => exact ⟨h hs, fun t ht => ih (hinv hs hall.1 ht) (hall.2 t ht)⟩

/-- A predicate that each step under a condition keeps exactly where it meets
another one holds in every state of a run exactly where all steps meet it. -/
theorem throughout_iff (hinv : ∀ {s a t}, P s → M.step s a = some t → P t)
    (hstep : ∀ {s a t}, P s → F s → M.step s a = some t → (F t ↔ C s a))
    (hs : P s) (hF : F s) (hrun : M.run s as = some t) :
    M.Throughout F s as ↔ M.Along C s as := by
  induction as generalizing s with
  | nil => exact ⟨fun _ => trivial, fun _ => hF⟩
  | cons a as ih =>
    obtain ⟨u, hu, hrest⟩ := M.run_cons.mp hrun
    constructor
    · intro h
      have hFu : F u := M.throughout_start (h.2 u hu)
      exact M.along_cons hu ((hstep hs hF hu).mp hFu) ((ih (hinv hs hu) hFu hrest).mp (h.2 u hu))
    · intro h
      have hFu : F u := (hstep hs hF hu).mpr h.1
      refine ⟨hF, fun v hv => ?_⟩
      obtain rfl := Option.some.inj (hu.symm.trans hv)
      exact (ih (hinv hs hu) hFu hrest).mpr (h.2 u hu)

/-- What can be decided at each step can be decided along a run. -/
instance decidableAlong {C : σ → α → Prop} [∀ s a, Decidable (C s a)] :
    ∀ (s : σ) (as : List α), Decidable (M.Along C s as)
  | _, [] => isTrue trivial
  | s, a :: as =>
    match h : M.step s a with
    | none => decidable_of_iff (C s a) ⟨fun hC => ⟨hC, fun t ht => by rw [h] at ht; cases ht⟩,
        fun hall => hall.1⟩
    | some u =>
      haveI : Decidable (M.Along C u as) := decidableAlong u as
      decidable_of_iff (C s a ∧ M.Along C u as)
        ⟨fun hall => M.along_cons h hall.1 hall.2, fun hall => ⟨hall.1, hall.2 u h⟩⟩

end System

/-- The function changed at one argument: the local state of one party. -/
def setAt {ι β : Type} [DecidableEq ι] (f : ι → β) (i : ι) (b : β) : ι → β :=
  fun j => if j = i then b else f j

@[simp] theorem setAt_same {ι β : Type} [DecidableEq ι] (f : ι → β) (i : ι) (b : β) :
    setAt f i b i = b := by simp [setAt]

@[simp] theorem setAt_self {ι β : Type} [DecidableEq ι] (f : ι → β) (i : ι) :
    setAt f i (f i) = f := by
  funext j
  by_cases h : j = i <;> simp [setAt, h]

theorem setAt_other {ι β : Type} [DecidableEq ι] (f : ι → β) {i j : ι} (b : β)
    (h : j ≠ i) : setAt f i b j = f j := by simp [setAt, h]

/-- A view of the local states changes with them. -/
theorem setAt_comp {ι β γ : Type} [DecidableEq ι] (g : β → γ) (f : ι → β) (i : ι) (b : β) :
    (fun j => g (setAt f i b j)) = setAt (fun j => g (f j)) i (g b) := by
  funext j
  by_cases h : j = i <;> simp [setAt, h]

end Cadena.Base
