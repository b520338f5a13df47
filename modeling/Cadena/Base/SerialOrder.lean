import Mathlib.Data.List.Infix
import Mathlib.Data.List.Perm.Basic

/-!
# Serial orders

Operations on a state of which `view` is what they read and what counts.
`Serial` says that the operations done so far can be put in an order that
leads from the first state to the present one, and through every state that
an operation under way has read. An operation may then be done at the end
of the order, or at the place of its read if it changes nothing there.
-/

namespace Cadena.Base

variable {σ α κ : Type*} {step : σ → α → σ} {view : σ → κ}

/-- What an operation does to the view depends on the view only. -/
def RespectsView (step : σ → α → σ) (view : σ → κ) : Prop :=
  ∀ s s' a, view s = view s' → view (step s a) = view (step s' a)

def Serial (step : σ → α → σ) (view : σ → κ) (init : σ) (done : List α) (reads : σ → Prop)
    (now : σ) : Prop :=
  ∃ order : List α, order.Perm done ∧ view (order.foldl step init) = view now ∧
    ∀ r, reads r → ∃ before, before <+: order ∧ view (before.foldl step init) = view r

theorem RespectsView.foldl (h : RespectsView step view) {s s' : σ} (hs : view s = view s')
    (ops : List α) : view (ops.foldl step s) = view (ops.foldl step s') := by
  induction ops generalizing s s' with
  | nil => exact hs
  | cons a ops ih => exact ih (h s s' a hs)

namespace Serial

variable {init now : σ} {done : List α} {reads : σ → Prop}

theorem start (init : σ) : Serial step view init [] (fun _ => False) init :=
  ⟨[], .nil, rfl, fun _ hr => hr.elim⟩

theorem mono {reads' : σ → Prop} (h : Serial step view init done reads now)
    (hreads : ∀ r, reads' r → reads r) : Serial step view init done reads' now := by
  obtain ⟨order, hperm, hnow, hseen⟩ := h
  exact ⟨order, hperm, hnow, fun r hr => hseen r (hreads r hr)⟩

theorem read {reads' : σ → Prop} (h : Serial step view init done reads now)
    (hreads : ∀ r, reads' r → reads r ∨ view r = view now) :
    Serial step view init done reads' now := by
  obtain ⟨order, hperm, hnow, hseen⟩ := h
  refine ⟨order, hperm, hnow, fun r hr => ?_⟩
  rcases hreads r hr with hold | hview
  · exact hseen r hold
  · exact ⟨order, List.prefix_refl _, hnow.trans hview.symm⟩

theorem write (hstep : RespectsView step view) (h : Serial step view init done reads now) (a : α)
    {next : σ} (hnext : view next = view (step now a)) :
    Serial step view init (done ++ [a]) reads next := by
  obtain ⟨order, hperm, hnow, hseen⟩ := h
  refine ⟨order ++ [a], hperm.append_right [a], ?_, fun r hr => ?_⟩
  · rw [List.foldl_append, List.foldl_cons, List.foldl_nil, hnext]
    exact hstep _ _ a hnow
  · obtain ⟨before, hbefore, hview⟩ := hseen r hr
    exact ⟨before, hbefore.trans (List.prefix_append _ _), hview⟩

theorem silent (hstep : RespectsView step view) (h : Serial step view init done reads now) {a : α}
    {r : σ} (hr : reads r) (hsame : view (step r a) = view r) :
    Serial step view init (done ++ [a]) reads now := by
  obtain ⟨order, hperm, hnow, hseen⟩ := h
  obtain ⟨before, ⟨after, rfl⟩, hview⟩ := hseen r hr
  have hhere : view (step (before.foldl step init) a) = view (before.foldl step init) :=
    (hstep _ _ a hview).trans (hsame.trans hview.symm)
  -- what comes after the place does not notice
  have hlater : ∀ rest : List α, view ((before ++ a :: rest).foldl step init) =
      view ((before ++ rest).foldl step init) := by
    intro rest
    rw [List.foldl_append, List.foldl_cons, List.foldl_append]
    exact hstep.foldl hhere rest
  refine ⟨before ++ a :: after, ?_, (hlater after).trans hnow, fun r' hr' => ?_⟩
  · exact (List.perm_middle.trans (hperm.cons a)).trans (List.perm_append_singleton a done).symm
  · obtain ⟨cut, hcut, hview'⟩ := hseen r' hr'
    rcases List.prefix_or_prefix_of_prefix hcut (List.prefix_append before after) with hle | hge
    · exact ⟨cut, hle.trans (List.prefix_append _ _), hview'⟩
    · obtain ⟨rest, rfl⟩ := hge
      have hrest : rest <+: after := (List.prefix_append_right_inj before).mp hcut
      refine ⟨before ++ a :: rest, ?_, (hlater rest).trans hview'⟩
      exact (List.prefix_append_right_inj before).mpr (List.cons_prefix_cons.mpr ⟨rfl, hrest⟩)

end Serial

end Cadena.Base
