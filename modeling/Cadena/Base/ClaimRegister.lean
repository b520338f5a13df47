import Mathlib.Tactic.Common

/-!
# A slot that parties claim

A slot is open, held or settled. A party claims an open slot, works, and
settles the slot or gives it back; after settling it may still be
finishing. `Move` is what a step of such a protocol does to the slot and
its parties. Two steps break the discipline: a `Reset` opens a held slot
whoever holds it, and in a `Resume` a party that is finishing goes back to
work.
-/

namespace Cadena.Base

inductive Slot where
  | open | held | settled
  deriving DecidableEq

/-- The slot and the parties: who holds it, and which holders have settled
it and are finishing. -/
structure ClaimRegister (ι : Type) where
  slot : Slot
  holds : ι → Prop
  finishing : ι → Prop

namespace ClaimRegister

variable {ι : Type}

/-- A holder that has not settled the slot. -/
def Working (r : ClaimRegister ι) (i : ι) : Prop := r.holds i ∧ ¬ r.finishing i

/-- No party of `r'` holds or finishes that did not in `r`, but `i`. -/
structure Only (r r' : ClaimRegister ι) (i : ι) : Prop where
  holds : ∀ j, j ≠ i → (r'.holds j ↔ r.holds j)
  finishing : ∀ j, j ≠ i → (r'.finishing j ↔ r.finishing j)

/-- Parties may leave; those that stay are where they were. -/
structure Leave (r r' : ClaimRegister ι) : Prop where
  holds : ∀ j, r'.holds j → r.holds j
  finishing : ∀ j, r'.holds j → (r'.finishing j ↔ r.finishing j)

/-- What a step may do. -/
inductive Move (r r' : ClaimRegister ι) : Prop where
  | keep (hslot : r'.slot = r.slot) (hleave : Leave r r')
  | claim (i : ι) (hopen : r.slot = .open) (hslot : r'.slot = .held) (honly : Only r r' i)
      (hworks : r'.Working i)
  | settle (i : ι) (hworked : r.Working i) (hslot : r'.slot = .settled) (honly : Only r r' i)
      (hfinish : r'.finishing i)
  | release (i : ι) (hworked : r.Working i) (hslot : r'.slot = .open) (honly : Only r r' i)
      (hleft : ¬ r'.holds i)

/-- A held slot is opened over the heads of its holders. -/
structure Reset (r r' : ClaimRegister ι) : Prop where
  held : r.slot = .held
  opened : r'.slot = .open
  leave : Leave r r'

/-- A finishing party goes back to work. -/
structure Resume (r r' : ClaimRegister ι) (i : ι) : Prop where
  held : r.holds i
  slot : r'.slot = r.slot
  only : Only r r' i
  works : r'.Working i

/-- One party holds the slot at most, and the slot shows it. -/
structure Exclusive (r : ClaimRegister ι) : Prop where
  shown : ∀ i, r.holds i → r.slot ≠ .open
  unique : ∀ i j, r.holds i → r.holds j → i = j
  settled : ∀ i, r.finishing i → r.holds i → r.slot = .settled

/-- Every holder at work shows as held. -/
def Honest (r : ClaimRegister ι) : Prop := ∀ i, r.Working i → r.slot = .held

/-- Settled for good: nobody is left who could change it. -/
def Done (r : ClaimRegister ι) : Prop := r.slot = .settled ∧ ∀ i, ¬ r.holds i

variable {r r' : ClaimRegister ι}

theorem Only.holds_or {i : ι} (h : Only r r' i) (j : ι) (hj : r'.holds j) :
    j = i ∨ r.holds j := by
  by_cases hji : j = i
  · exact .inl hji
  · exact .inr ((h.holds j hji).mp hj)

theorem Exclusive.only (h : Exclusive r) {i : ι} (hholds : r.holds i) (honly : Only r r' i)
    (j : ι) (hj : r'.holds j) : j = i := by
  rcases honly.holds_or j hj with hji | hold
  · exact hji
  · exact h.unique j i hold hholds

theorem Exclusive.of_none (h : ∀ i, ¬ r.holds i) : Exclusive r :=
  ⟨fun i hi => absurd hi (h i), fun i _ hi => absurd hi (h i), fun i _ hi => absurd hi (h i)⟩

theorem Exclusive.move (h : Exclusive r) (hmove : Move r r') : Exclusive r' := by
  cases hmove with
  | keep hslot hleave =>
    refine ⟨fun i hi => ?_, fun i j hi hj => ?_, fun i hf hi => ?_⟩
    · rw [hslot]
      exact h.shown i (hleave.holds i hi)
    · exact h.unique i j (hleave.holds i hi) (hleave.holds j hj)
    · rw [hslot]
      exact h.settled i ((hleave.finishing i hi).mp hf) (hleave.holds i hi)
  | claim i hopen hslot honly hworks =>
    -- the slot was open, so nobody else holds it
    have hself : ∀ j, r'.holds j → j = i := by
      intro j hj
      rcases honly.holds_or j hj with hji | hold
      · exact hji
      · exact absurd hopen (h.shown j hold)
    refine ⟨fun j _ => ?_, fun j k hj hk => ?_, fun j hf hj => ?_⟩
    · rw [hslot]
      exact fun h => nomatch h
    · rw [hself j hj, hself k hk]
    · rw [hself j hj] at hf
      exact absurd hf hworks.2
  | settle i hworked hslot honly hfinish =>
    have hself := h.only hworked.1 honly
    refine ⟨fun j _ => ?_, fun j k hj hk => ?_, fun _ _ _ => hslot⟩
    · rw [hslot]
      exact fun h => nomatch h
    · rw [hself j hj, hself k hk]
  | release i hworked hslot honly hleft =>
    refine Exclusive.of_none fun j hj => hleft ?_
    rw [← h.only hworked.1 honly j hj]
    exact hj

theorem Exclusive.reset (hreset : Reset r r') (hfree : ∀ i, ¬ r.holds i) : Exclusive r' :=
  Exclusive.of_none fun i hi => hfree i (hreset.leave.holds i hi)

theorem Exclusive.resume (h : Exclusive r) {i : ι} (hresume : Resume r r' i) :
    Exclusive r' := by
  have hself := h.only hresume.held hresume.only
  refine ⟨fun j _ => ?_, fun j k hj hk => ?_, fun j hf hj => ?_⟩
  · rw [hresume.slot]
    exact h.shown i hresume.held
  · rw [hself j hj, hself k hk]
  · rw [hself j hj] at hf
    exact absurd hf hresume.works.2

/-- A slot that is settled for good stays so. -/
theorem Done.move (h : Done r) (hmove : Move r r') : Done r' := by
  obtain ⟨hsettled, hnone⟩ := h
  cases hmove with
  | keep hslot hleave =>
    exact ⟨hslot.trans hsettled, fun i hi => hnone i (hleave.holds i hi)⟩
  | claim i hopen =>
    rw [hsettled] at hopen
    cases hopen
  | settle i hworked => exact absurd hworked.1 (hnone i)
  | release i hworked => exact absurd hworked.1 (hnone i)

theorem Done.not_reset (h : Done r) : ¬ Reset r r' := by
  intro hreset
  have hheld := hreset.held
  rw [h.1] at hheld
  cases hheld

theorem Done.not_resume (h : Done r) (i : ι) : ¬ Resume r r' i := fun hresume =>
  h.2 i hresume.held

theorem Honest.move (h : Honest r) (hexcl : Exclusive r) (hmove : Move r r') : Honest r' := by
  cases hmove with
  | keep hslot hleave =>
    intro i ⟨hi, hf⟩
    rw [hslot]
    exact h i ⟨hleave.holds i hi, fun hold => hf ((hleave.finishing i hi).mpr hold)⟩
  | claim i hopen hslot => exact fun _ _ => hslot
  | settle i hworked hslot honly hfinish =>
    intro j hj
    rw [hexcl.only hworked.1 honly j hj.1] at hj
    exact absurd hfinish hj.2
  | release i hworked hslot honly hleft =>
    intro j hj
    rw [hexcl.only hworked.1 honly j hj.1] at hj
    exact absurd hj.1 hleft

theorem Honest.reset (hreset : Reset r r') (hfree : ∀ i, ¬ r.holds i) : Honest r' :=
  fun i hi => absurd (hreset.leave.holds i hi.1) (hfree i)

theorem Honest.idle (h : Honest r) (hsettled : r.slot = .settled) (i : ι) : ¬ r.Working i := by
  intro hi
  rw [h i hi] at hsettled
  cases hsettled

theorem Honest.settled_move (h : Honest r) (hmove : Move r r') (hsettled : r.slot = .settled) :
    r'.slot = .settled := by
  cases hmove with
  | keep hslot => exact hslot.trans hsettled
  | claim i hopen =>
    rw [hsettled] at hopen
    cases hopen
  | settle i hworked => exact absurd hworked (h.idle hsettled i)
  | release i hworked => exact absurd hworked (h.idle hsettled i)

end ClaimRegister

end Cadena.Base
