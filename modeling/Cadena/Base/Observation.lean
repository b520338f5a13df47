import Cadena.Base.Transition

/-!
# What is observed of a run

Each step of a run may show something, which depends on the action and on the
states before and after it. The observations of a run are what its steps show,
in order.
-/

namespace Cadena.Base.System

variable {σ α β : Type} (M : System σ α) (show_ : σ → α → σ → Option β)

def observe : σ → List α → List β
  | _, [] => []
  | s, a :: as =>
    match M.step s a with
    | some t => (show_ s a t).toList ++ observe t as
    | none => []

variable {M show_}

theorem observe_cons {s t : σ} {a : α} {as : List α} (hstep : M.step s a = some t) :
    M.observe show_ s (a :: as) = (show_ s a t).toList ++ M.observe show_ t as := by
  simp only [observe, hstep]

theorem observe_append {s t : σ} {as bs : List α} (hrun : M.run s as = some t) :
    M.observe show_ s (as ++ bs) = M.observe show_ s as ++ M.observe show_ t bs := by
  induction as generalizing s with
  | nil =>
    obtain rfl := Option.some.inj hrun
    rfl
  | cons a as ih =>
    obtain ⟨u, hu, hrest⟩ := M.run_cons.mp hrun
    rw [List.cons_append, observe_cons hu, observe_cons hu, ih hrest, List.append_assoc]

theorem exists_of_observe_append {s t : σ} {as : List α} {xs ys : List β} (hrun : M.run s as = some t)
    (h : M.observe show_ s as = xs ++ ys) :
    ∃ first rest u, as = first ++ rest ∧ M.run s first = some u ∧ M.observe show_ s first = xs := by
  induction as generalizing s xs with
  | nil => exact ⟨[], [], s, rfl, rfl, (List.append_eq_nil_iff.mp h.symm).1.symm⟩
  | cons a as ih =>
    obtain ⟨u, hu, hrest⟩ := M.run_cons.mp hrun
    rw [observe_cons hu] at h
    have hlater : ∀ {zs}, M.observe show_ u as = zs ++ ys → xs = (show_ s a u).toList ++ zs →
        ∃ first rest v, a :: as = first ++ rest ∧ M.run s first = some v ∧ M.observe show_ s first = xs := by
      intro zs hzs hxs
      obtain ⟨first, rest, v, rfl, hv, hfirst⟩ := ih hrest hzs
      exact ⟨a :: first, rest, v, rfl, M.run_cons.mpr ⟨u, hu, hv⟩, by rw [observe_cons hu, hfirst, hxs]⟩
    cases hshow : show_ s a u with
    | none =>
      rw [hshow] at h hlater
      exact hlater h rfl
    | some x =>
      rw [hshow] at h hlater
      cases xs with
      | nil => exact ⟨[], a :: as, s, rfl, rfl, rfl⟩
      | cons x' xs =>
        obtain ⟨rfl, hxs⟩ := List.cons.inj h
        exact hlater hxs rfl

theorem observe_invariant {P : σ → List β → Prop}
    (hstep : ∀ {s a t xs}, P s xs → M.step s a = some t → P t (xs ++ (show_ s a t).toList))
    {s t : σ} {as : List α} {xs : List β} (hs : P s xs) (hrun : M.run s as = some t) :
    P t (xs ++ M.observe show_ s as) := by
  induction as generalizing s xs with
  | nil =>
    obtain rfl := Option.some.inj hrun
    rw [observe, List.append_nil]
    exact hs
  | cons a as ih =>
    obtain ⟨u, hu, hrest⟩ := M.run_cons.mp hrun
    rw [observe_cons hu, ← List.append_assoc]
    exact ih (hstep hs hu) hrest

/-- What such an invariant implies of the observations is true of all that is
observed, up to the first action that is refused. -/
theorem observed_of_invariant {P : σ → List β → Prop} {Q : List β → Prop}
    (hstep : ∀ {s a t xs}, P s xs → M.step s a = some t → P t (xs ++ (show_ s a t).toList))
    (h : ∀ {s xs}, P s xs → Q xs) {s : σ} {xs : List β} (hs : P s xs) (as : List α) :
    Q (xs ++ M.observe show_ s as) := by
  induction as generalizing s xs with
  | nil =>
    rw [observe, List.append_nil]
    exact h hs
  | cons a as ih =>
    cases hnext : M.step s a with
    | none =>
      simp only [observe, hnext, List.append_nil]
      exact h hs
    | some t =>
      rw [observe_cons hnext, ← List.append_assoc]
      exact ih (hstep hs hnext)

end Cadena.Base.System
