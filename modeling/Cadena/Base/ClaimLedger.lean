import Cadena.Base.Transition

/-!
# Claims that are taken once

Workers claim a key for good, publish it and record it. A ledger knows the
keys claimed, published and recorded, and the key that each worker still
owes. A `Move` is what a worker does in this order; in a `Drop` it gives up
a key that it owes. No key is published twice, and all claimed keys are kept,
recorded or owed, as long as nothing is dropped: a dropped key is lost.
-/

namespace Cadena.Base

inductive ClaimStage where
  | claimed | published
  deriving DecidableEq

@[ext] structure ClaimLedger (κ ι : Type) where
  claims : List κ
  published : List κ
  recorded : List κ
  owes : ι → Option (κ × ClaimStage)

namespace ClaimLedger

variable {κ ι : Type}

def start : ClaimLedger κ ι := ⟨[], [], [], fun _ => none⟩

/-- The key is recorded, or a worker is still to record it. -/
def Kept (r : ClaimLedger κ ι) (k : κ) : Prop := k ∈ r.recorded ∨ ∃ i stage, r.owes i = some (k, stage)

def AllKept (r : ClaimLedger κ ι) : Prop := ∀ k ∈ r.claims, r.Kept k

/-- Claimed, and never recorded any more. -/
def Lost (r : ClaimLedger κ ι) (k : κ) : Prop := k ∈ r.claims ∧ ¬ r.Kept k

theorem AllKept.of_not_lost {r : ClaimLedger κ ι} (h : ∀ k, ¬ r.Lost k) : r.AllKept :=
  fun k hk => Classical.byContradiction fun hkept => h k ⟨hk, hkept⟩

theorem AllKept.not_lost {r : ClaimLedger κ ι} (h : r.AllKept) (k : κ) : ¬ r.Lost k :=
  fun hlost => hlost.2 (h k hlost.1)

variable [DecidableEq ι]

inductive Move (r : ClaimLedger κ ι) : ClaimLedger κ ι → Prop where
  | stay : Move r r
  | claim (i : ι) (k : κ) (hfree : r.owes i = none) (hnew : k ∉ r.claims) :
      Move r { r with claims := r.claims ++ [k], owes := setAt r.owes i (some (k, .claimed)) }
  | publish (i : ι) (k : κ) (howes : r.owes i = some (k, .claimed)) :
      Move r { r with published := r.published ++ [k], owes := setAt r.owes i (some (k, .published)) }
  | record (i : ι) (k : κ) (howes : r.owes i = some (k, .published)) :
      Move r { r with recorded := r.recorded ++ [k], owes := setAt r.owes i none }

inductive Drop (r : ClaimLedger κ ι) : ClaimLedger κ ι → Prop where
  | drop (i : ι) (k : κ) (stage : ClaimStage) (howes : r.owes i = some (k, stage)) :
      Drop r { r with owes := setAt r.owes i none }

structure Sound (r : ClaimLedger κ ι) : Prop where
  claimed : ∀ i k stage, r.owes i = some (k, stage) → k ∈ r.claims
  unique : ∀ i j k stage stage', r.owes i = some (k, stage) → r.owes j = some (k, stage') → i = j
  unpublished : ∀ i k, r.owes i = some (k, .claimed) → k ∉ r.published
  unrecorded : ∀ i k stage, r.owes i = some (k, stage) → k ∉ r.recorded
  publishedClaims : ∀ k ∈ r.published, k ∈ r.claims
  recordedClaims : ∀ k ∈ r.recorded, k ∈ r.claims
  once : r.published.Nodup

variable {r r' : ClaimLedger κ ι}

/-! ## What a worker owes after a step -/

variable {k : κ}

theorem owes_setAt {i j : ι} {debt : Option (κ × ClaimStage)} {stage : ClaimStage}
    (h : setAt r.owes i debt j = some (k, stage)) :
    j = i ∧ debt = some (k, stage) ∨ j ≠ i ∧ r.owes j = some (k, stage) := by
  by_cases hj : j = i
  · subst hj
    rw [setAt_same] at h
    exact .inl ⟨rfl, h⟩
  · rw [setAt_other _ _ hj] at h
    exact .inr ⟨hj, h⟩

omit [DecidableEq ι] in
theorem Sound.start : Sound (start : ClaimLedger κ ι) where
  claimed i k stage howes := by cases howes
  unique i j k stage stage' howes := by cases howes
  unpublished i k howes := by cases howes
  unrecorded i k stage howes := by cases howes
  publishedClaims k hk := absurd hk List.not_mem_nil
  recordedClaims k hk := absurd hk List.not_mem_nil
  once := List.nodup_nil

theorem Sound.claim (h : Sound r) {i : ι} (hnew : k ∉ r.claims) :
    Sound { r with claims := r.claims ++ [k], owes := setAt r.owes i (some (k, .claimed)) } where
  claimed j l stage howes := by
    rcases owes_setAt howes with ⟨-, hdebt⟩ | ⟨-, hold⟩
    · obtain rfl := (Prod.mk.inj (Option.some.inj hdebt)).1
      exact List.mem_append_right _ (List.mem_singleton.mpr rfl)
    · exact List.mem_append_left _ (h.claimed j l stage hold)
  unique j j' l stage stage' howes howes' := by
    rcases owes_setAt howes with ⟨rfl, hdebt⟩ | ⟨-, hold⟩ <;>
      rcases owes_setAt howes' with ⟨rfl, hdebt'⟩ | ⟨-, hold'⟩
    · rfl
    · obtain rfl := (Prod.mk.inj (Option.some.inj hdebt)).1
      exact absurd (h.claimed _ _ _ hold') hnew
    · obtain rfl := (Prod.mk.inj (Option.some.inj hdebt')).1
      exact absurd (h.claimed _ _ _ hold) hnew
    · exact h.unique j j' l stage stage' hold hold'
  unpublished j l howes := by
    rcases owes_setAt howes with ⟨-, hdebt⟩ | ⟨-, hold⟩
    · obtain rfl := (Prod.mk.inj (Option.some.inj hdebt)).1
      exact fun hl => hnew (h.publishedClaims _ hl)
    · exact h.unpublished j l hold
  unrecorded j l stage howes := by
    rcases owes_setAt howes with ⟨-, hdebt⟩ | ⟨-, hold⟩
    · obtain rfl := (Prod.mk.inj (Option.some.inj hdebt)).1
      exact fun hl => hnew (h.recordedClaims _ hl)
    · exact h.unrecorded j l stage hold
  publishedClaims l hl := List.mem_append_left _ (h.publishedClaims l hl)
  recordedClaims l hl := List.mem_append_left _ (h.recordedClaims l hl)
  once := h.once

theorem Sound.publish (h : Sound r) {i : ι} (howes : r.owes i = some (k, .claimed)) : Sound { r with
      published := r.published ++ [k], owes := setAt r.owes i (some (k, .published)) } := by
  have hold : ∀ j l stage, setAt r.owes i (some (k, .published)) j = some (l, stage) →
      ∃ before, r.owes j = some (l, before) := by
    intro j l stage hj
    rcases owes_setAt hj with ⟨rfl, hdebt⟩ | ⟨-, hj⟩
    · obtain rfl := (Prod.mk.inj (Option.some.inj hdebt)).1
      exact ⟨_, howes⟩
    · exact ⟨_, hj⟩
  refine ⟨?_, ?_, ?_, ?_, ?_, h.recordedClaims, ?_⟩
  · intro j l stage hj
    obtain ⟨before, hbefore⟩ := hold j l stage hj
    exact h.claimed j l before hbefore
  · intro j j' l stage stage' hj hj'
    obtain ⟨before, hbefore⟩ := hold j l stage hj
    obtain ⟨before', hbefore'⟩ := hold j' l stage' hj'
    exact h.unique j j' l before before' hbefore hbefore'
  · intro j l hj
    rcases owes_setAt hj with ⟨-, hdebt⟩ | ⟨hne, howed⟩
    · cases hdebt
    · rw [List.mem_append, List.mem_singleton, not_or]
      refine ⟨h.unpublished j l howed, ?_⟩
      rintro rfl
      exact hne (h.unique j i l _ _ howed howes)
  · intro j l stage hj
    obtain ⟨before, hbefore⟩ := hold j l stage hj
    exact h.unrecorded j l before hbefore
  · intro l hl
    rcases List.mem_append.mp hl with hl | hl
    · exact h.publishedClaims l hl
    · exact List.mem_singleton.mp hl ▸ h.claimed i k _ howes
  · refine List.nodup_append.mpr ⟨h.once, List.pairwise_singleton _ k, ?_⟩
    rintro l hl _ hk rfl
    exact h.unpublished i k howes (List.mem_singleton.mp hk ▸ hl)

/-- The worker that owed a key is rid of it. -/
theorem owes_cleared {i j : ι} {l : κ} {stage : ClaimStage}
    (h : setAt r.owes i none j = some (l, stage)) : j ≠ i ∧ r.owes j = some (l, stage) := by
  rcases owes_setAt h with ⟨-, hdebt⟩ | hold
  · cases hdebt
  · exact hold

theorem Sound.clear (h : Sound r) (i : ι) : Sound { r with owes := setAt r.owes i none } where
  claimed j l stage hj := h.claimed j l stage (owes_cleared hj).2
  unique j j' l stage stage' hj hj' :=
    h.unique j j' l stage stage' (owes_cleared hj).2 (owes_cleared hj').2
  unpublished j l hj := h.unpublished j l (owes_cleared hj).2
  unrecorded j l stage hj := h.unrecorded j l stage (owes_cleared hj).2
  publishedClaims := h.publishedClaims
  recordedClaims := h.recordedClaims
  once := h.once

theorem Sound.record (h : Sound r) {i : ι} {stage : ClaimStage} (howes : r.owes i = some (k, stage)) :
    Sound { r with recorded := r.recorded ++ [k], owes := setAt r.owes i none } where
  claimed := (h.clear i).claimed
  unique := (h.clear i).unique
  unpublished := (h.clear i).unpublished
  unrecorded j l stage hj := by
    obtain ⟨hne, hold⟩ := owes_cleared hj
    rw [List.mem_append, List.mem_singleton, not_or]
    refine ⟨h.unrecorded j l stage hold, ?_⟩
    rintro rfl
    exact hne (h.unique j i l _ _ hold howes)
  publishedClaims := h.publishedClaims
  recordedClaims l hl := by
    rcases List.mem_append.mp hl with hl | hl
    · exact h.recordedClaims l hl
    · exact List.mem_singleton.mp hl ▸ h.claimed i k _ howes
  once := h.once

theorem Sound.move (h : Sound r) (hmove : Move r r') : Sound r' := by
  cases hmove with
  | stay => exact h
  | claim i k _ hnew => exact h.claim hnew
  | publish i k howes => exact h.publish howes
  | record i k howes => exact h.record howes

theorem Sound.drop (h : Sound r) (hdrop : Drop r r') : Sound r' := by
  cases hdrop with
  | drop i k stage howes => exact h.clear i

/-! ## What is kept and what is lost -/

theorem Kept.move (h : r.Kept k) (hmove : Move r r') : r'.Kept k := by
  cases hmove with
  | stay => exact h
  | claim i l hfree =>
    refine h.imp_right fun ⟨j, stage, howes⟩ => ⟨j, stage, ?_⟩
    have hne : j ≠ i := by
      rintro rfl
      rw [hfree] at howes
      cases howes
    exact (setAt_other _ _ hne).trans howes
  | publish i l howes =>
    refine h.imp_right fun ⟨j, stage, hj⟩ => ?_
    by_cases hji : j = i
    · subst hji
      rw [howes] at hj
      obtain ⟨rfl, -⟩ := Prod.mk.inj (Option.some.inj hj)
      exact ⟨j, .published, setAt_same _ _ _⟩
    · exact ⟨j, stage, (setAt_other _ _ hji).trans hj⟩
  | record i l howes =>
    rcases h with hrecorded | ⟨j, stage, hj⟩
    · exact .inl (List.mem_append_left _ hrecorded)
    · by_cases hji : j = i
      · subst hji
        rw [howes] at hj
        obtain ⟨rfl, -⟩ := Prod.mk.inj (Option.some.inj hj)
        exact .inl (List.mem_append_right _ (List.mem_singleton.mpr rfl))
      · exact .inr ⟨j, stage, (setAt_other _ _ hji).trans hj⟩

theorem Lost.move (h : r.Lost k) (hmove : Move r r') : r'.Lost k := by
  obtain ⟨hclaimed, hlost⟩ := h
  cases hmove with
  | stay => exact ⟨hclaimed, hlost⟩
  | claim i l hfree hnew =>
    refine ⟨List.mem_append_left _ hclaimed, ?_⟩
    rintro (hrecorded | ⟨j, stage, howes⟩)
    · exact hlost (.inl hrecorded)
    · rcases owes_setAt howes with ⟨-, hdebt⟩ | ⟨-, hold⟩
      · obtain rfl := (Prod.mk.inj (Option.some.inj hdebt)).1
        exact hnew hclaimed
      · exact hlost (.inr ⟨j, stage, hold⟩)
  | publish i l howes =>
    refine ⟨hclaimed, ?_⟩
    rintro (hrecorded | ⟨j, stage, hj⟩)
    · exact hlost (.inl hrecorded)
    · rcases owes_setAt hj with ⟨rfl, hdebt⟩ | ⟨-, hold⟩
      · obtain rfl := (Prod.mk.inj (Option.some.inj hdebt)).1
        exact hlost (.inr ⟨j, _, howes⟩)
      · exact hlost (.inr ⟨j, stage, hold⟩)
  | record i l howes =>
    refine ⟨hclaimed, ?_⟩
    rintro (hrecorded | ⟨j, stage, hj⟩)
    · rcases List.mem_append.mp hrecorded with hold | hnew
      · exact hlost (.inl hold)
      · obtain rfl := List.mem_singleton.mp hnew
        exact hlost (.inr ⟨i, _, howes⟩)
    · exact hlost (.inr ⟨j, stage, (owes_cleared hj).2⟩)

theorem Lost.drop (h : r.Lost k) (hdrop : Drop r r') : r'.Lost k := by
  cases hdrop with
  | drop i l stage howes =>
    refine ⟨h.1, ?_⟩
    rintro (hrecorded | ⟨j, stage', hj⟩)
    · exact h.2 (.inl hrecorded)
    · exact h.2 (.inr ⟨j, stage', (owes_cleared hj).2⟩)

theorem allKept_move (hmove : Move r r') : r'.AllKept ↔ r.AllKept := by
  constructor
  · intro h
    exact .of_not_lost fun k hlost => h.not_lost k (hlost.move hmove)
  · intro h k hk
    cases hmove with
    | stay => exact h k hk
    | claim i l hfree hnew =>
      rcases List.mem_append.mp hk with hold | hk
      · exact (h k hold).move (.claim i l hfree hnew)
      · obtain rfl := List.mem_singleton.mp hk
        exact .inr ⟨i, .claimed, setAt_same _ _ _⟩
    | publish i l howes => exact (h k hk).move (.publish i l howes)
    | record i l howes => exact (h k hk).move (.record i l howes)

theorem Sound.not_allKept_drop (h : Sound r) (hdrop : Drop r r') : ¬ r'.AllKept := by
  cases hdrop with
  | drop i k stage howes =>
    intro hall
    rcases hall k (h.claimed i k stage howes) with hrecorded | ⟨j, stage', hj⟩
    · exact h.unrecorded i k stage howes hrecorded
    · obtain ⟨hne, hold⟩ := owes_cleared hj
      exact hne (h.unique j i k _ _ hold howes)

end ClaimLedger

end Cadena.Base
