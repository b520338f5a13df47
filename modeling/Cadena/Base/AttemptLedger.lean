import Mathlib.Data.List.Nodup
import Cadena.Base.Transition

/-!
# Attempts that are counted when they begin

Workers claim rows. The attempt is counted when the row is claimed, and given
back when the worker reports that it was turned away; a claim can be taken from
its worker at any time, which may still report later. A ledger keeps the rows,
the workers and the claims made since a row was last reset. The counter of a
row is the number of claims that were not turned away, in every run in which
nobody is turned away after the claim was taken from it.
-/

namespace Cadena.Base

/-- How a claim ended. `lapsed` claims were taken from their worker. -/
inductive ClaimEnding where
  | failed | turnedAway | done | lapsed
  deriving DecidableEq

/-- A claim that a worker is at, with the counter as the claim left it. -/
structure ClaimAtWork (κ ι : Type) where
  row : κ
  claim : ι
  attempts : Nat

/-- The claims as they were made and as they ended. The program keeps no such
book. -/
@[ext] structure ClaimBook (κ ι : Type) where
  /-- The claims of the row since it was made or reset. -/
  claims : κ → List ι
  ended : ι → Option ClaimEnding
  drawn : List ι

@[ext] structure AttemptLedger (κ ι ω : Type) extends ClaimBook κ ι where
  attempts : κ → Nat
  holder : κ → Option ι
  /-- The row is not finished. -/
  unfinished : κ → Bool
  calls : ω → Option (ClaimAtWork κ ι)

namespace ClaimBook

variable {κ ι : Type}

/-- The claims that the counter should tell. -/
def spent (B : ClaimBook κ ι) (k : κ) : List ι := (B.claims k).filter fun c => B.ended c ≠ some .turnedAway

/-- The claims that ended in a failure, or were taken from their worker. -/
def wasted (B : ClaimBook κ ι) (k : κ) : List ι :=
  (B.claims k).filter fun c => B.ended c = some .failed ∨ B.ended c = some .lapsed

theorem spent_congr {B B' : ClaimBook κ ι} {k : κ} (hclaims : B'.claims k = B.claims k)
    (hended : ∀ c ∈ B.claims k, (B'.ended c = some .turnedAway ↔ B.ended c = some .turnedAway)) :
    B'.spent k = B.spent k := by
  rw [spent, spent, hclaims]
  refine List.filter_congr fun c hc => ?_
  rw [decide_eq_decide, not_iff_not]
  exact hended c hc

end ClaimBook

namespace AttemptLedger

open ClaimBook

variable {κ ι ω : Type}

structure Sound (L : AttemptLedger κ ι ω) : Prop where
  once : ∀ k, (L.claims k).Nodup
  known : ∀ k, ∀ c ∈ L.claims k, c ∈ L.drawn
  unknown : ∀ c, c ∉ L.drawn → L.ended c = none
  apart : ∀ k l c, c ∈ L.claims k → c ∈ L.claims l → k = l
  held : ∀ k c, L.holder k = some c → c ∈ L.claims k ∧ L.ended c = none
  open_ : ∀ k, ∀ c ∈ L.claims k, L.ended c = none → L.holder k = some c
  pending : ∀ k, L.unfinished k = true ∨ L.holder k ≠ none → ∀ c ∈ L.claims k, L.ended c ≠ some .done
  working : ∀ w x, L.calls w = some x → x.claim ∈ L.drawn ∧ L.ended x.claim ≠ some .turnedAway ∧
    (L.holder x.row = some x.claim → L.attempts x.row = x.attempts) ∧ ∀ k, x.claim ∈ L.claims k → k = x.row
  alone : ∀ w v x y, L.calls w = some x → L.calls v = some y → x.claim = y.claim → w = v

def Counted (L : AttemptLedger κ ι ω) : Prop := ∀ k, L.attempts k = (L.spent k).length

variable {L L' : AttemptLedger κ ι ω}

variable {k : κ} {w : ω}

/-- Of a row that is neither claimed nor finished, the counter tells the claims
that failed or were taken from their worker. -/
theorem Sound.attempts_wasted (h : Sound L) (hcount : Counted L) (hopen : L.unfinished k = true)
    (hfree : L.holder k = none) : L.attempts k = (L.wasted k).length := by
  rw [hcount k, spent, wasted]
  congr 1
  refine List.filter_congr fun c hc => ?_
  have hdone := h.pending k (.inl hopen) c hc
  cases hended : L.ended c with
  | none => exact absurd (hfree.symm.trans (h.open_ k c hc hended)) nofun
  | some e =>
    rw [hended] at hdone
    cases e with
    | done => exact absurd rfl hdone
    | failed | turnedAway | lapsed => rfl

/-- A claim that came to nothing. -/
theorem Sound.draw (h : Sound L) (c : ι) : Sound { L with drawn := c :: L.drawn } where
  once := h.once
  known k d hd := List.mem_cons_of_mem _ (h.known k d hd)
  unknown d hd := h.unknown d fun hmem => hd (List.mem_cons_of_mem _ hmem)
  apart := h.apart
  held := h.held
  open_ := h.open_
  pending := h.pending
  working w x hw := by
    obtain ⟨hdrawn, hrest⟩ := h.working w x hw
    exact ⟨List.mem_cons_of_mem _ hdrawn, hrest⟩
  alone := h.alone

/-! ## What workers do -/

theorem lost_of_row [DecidableEq κ] {lost : List ι} (hlost : ∀ c, c ∈ lost ↔ L.holder k = some c) (c : ι) :
    c ∈ lost ↔ ∃ l, decide (l = k) = true ∧ L.holder l = some c := by
  rw [hlost]
  simp only [decide_eq_true_eq, exists_eq_left]

section
variable [DecidableEq ι]

/-- The claims `lost` are taken from the rows `p`. -/
def lapse (L : AttemptLedger κ ι ω) (p : κ → Bool) (lost : List ι) : AttemptLedger κ ι ω :=
  { L with
    holder := fun k => if p k then none else L.holder k
    ended := fun c => if c ∈ lost then some .lapsed else L.ended c }

theorem Sound.lapse (h : Sound L) {p : κ → Bool} {lost : List ι}
    (hlost : ∀ c, c ∈ lost ↔ ∃ k, p k = true ∧ L.holder k = some c) : Sound (L.lapse p lost) where
  once := h.once
  known := h.known
  unknown c hc := by
    show (if c ∈ lost then some .lapsed else L.ended c) = none
    rw [if_neg, h.unknown c hc]
    intro hmem
    obtain ⟨k, -, hk⟩ := (hlost c).mp hmem
    exact hc (h.known k c (h.held k c hk).1)
  apart := h.apart
  held k c hk := by
    simp only [AttemptLedger.lapse] at hk ⊢
    split at hk
    · cases hk
    · rename_i hp
      refine ⟨(h.held k c hk).1, ?_⟩
      rw [if_neg, (h.held k c hk).2]
      intro hmem
      obtain ⟨l, hpl, hl⟩ := (hlost c).mp hmem
      rw [h.apart k l c (h.held k c hk).1 (h.held l c hl).1] at hp
      exact hp hpl
  open_ k c hc hended := by
    simp only [AttemptLedger.lapse] at hended ⊢
    split at hended
    · cases hended
    · rename_i hmem
      have hk := h.open_ k c hc hended
      rw [if_neg, hk]
      exact fun hp => hmem ((hlost c).mpr ⟨k, hp, hk⟩)
  pending k hk c hc := by
    simp only [AttemptLedger.lapse] at hk ⊢
    split
    · exact fun hdone => nomatch hdone
    · refine h.pending k (hk.imp_right fun hholder hnone => hholder ?_) c hc
      rw [hnone, ite_self]
  working w x hw := by
    obtain ⟨hdrawn, hended, hattempts, hrow⟩ := h.working w x hw
    refine ⟨hdrawn, ?_, fun hk => hattempts ?_, hrow⟩
    · simp only [AttemptLedger.lapse]
      split
      · exact fun hshed => nomatch hshed
      · exact hended
    · simp only [AttemptLedger.lapse] at hk
      split at hk
      · cases hk
      · exact hk
  alone := h.alone

theorem Sound.spent_turnedAway (h : Sound L) {k : κ} {c : ι} (hc : c ∈ L.claims k)
    (hnot : L.ended c ≠ some .turnedAway) (hclaims : L'.claims k = L.claims k)
    (hended : L'.ended = setAt L.ended c (some .turnedAway)) :
    (L'.spent k).length + 1 = (L.spent k).length := by
  have hmem : c ∈ L.spent k := List.mem_filter.mpr ⟨hc, decide_eq_true hnot⟩
  have herase : L'.spent k = (L.spent k).erase c := by
    have hnodup : (L.spent k).Nodup := (h.once k).filter _
    rw [hnodup.erase_eq_filter, spent, spent, hclaims, List.filter_filter]
    refine List.filter_congr fun d _ => ?_
    by_cases hdc : d = c
    · subst hdc
      simp [hended]
    · simp [hended, setAt_other _ _ hdc, hdc]
  rw [herase, List.length_erase_of_mem hmem]
  have hpos := List.length_pos_of_mem hmem
  omega

theorem Counted.lapse (hcount : Counted L) (h : Sound L) {p : κ → Bool} {lost : List ι}
    (hlost : ∀ c, c ∈ lost ↔ ∃ k, p k = true ∧ L.holder k = some c) : Counted (L.lapse p lost) := by
  intro k
  show L.attempts k = _
  have hspent : (L.lapse p lost).spent k = L.spent k := by
    refine spent_congr rfl fun c _ => ?_
    simp only [AttemptLedger.lapse]
    split
    · rename_i hmem
      obtain ⟨l, -, hl⟩ := (hlost c).mp hmem
      rw [(h.held l c hl).2]
      exact ⟨nofun, nofun⟩
    · exact Iff.rfl
  rw [hspent, hcount k]

end

section
variable [DecidableEq κ] [DecidableEq ω]

def claim (L : AttemptLedger κ ι ω) (w : ω) (k : κ) (c : ι) : AttemptLedger κ ι ω :=
  { L with
    attempts := setAt L.attempts k (L.attempts k + 1)
    holder := setAt L.holder k (some c)
    unfinished := setAt L.unfinished k true
    calls := setAt L.calls w (some ⟨k, c, L.attempts k + 1⟩)
    claims := setAt L.claims k (L.claims k ++ [c])
    drawn := c :: L.drawn }

theorem Sound.claim (h : Sound L) {w : ω} {k : κ} {c : ι} (hnew : c ∉ L.drawn) (hopen : L.unfinished k = true)
    (hunheld : L.holder k = none) : Sound (L.claim w k c) := by
  have hnever : ∀ l, c ∉ L.claims l := fun l hl => hnew (h.known l c hl)
  have hclaims : ∀ l d, d ∈ (L.claim w k c).claims l → d ∈ L.claims l ∨ l = k ∧ d = c := by
    intro l d hd
    by_cases hl : l = k
    · subst hl
      simp only [AttemptLedger.claim, setAt_same, List.mem_append, List.mem_singleton] at hd
      exact hd.imp_right fun hdc => ⟨rfl, hdc⟩
    · simp only [AttemptLedger.claim, setAt_other _ _ hl] at hd
      exact .inl hd
  have hcalls : ∀ v x, (L.claim w k c).calls v = some x → v = w ∧ x = ⟨k, c, L.attempts k + 1⟩ ∨
      v ≠ w ∧ L.calls v = some x := by
    intro v x hv
    by_cases hvw : v = w
    · subst hvw
      simp only [AttemptLedger.claim, setAt_same, Option.some.injEq] at hv
      exact .inl ⟨rfl, hv.symm⟩
    · simp only [AttemptLedger.claim, setAt_other _ _ hvw] at hv
      exact .inr ⟨hvw, hv⟩
  refine ⟨fun l => ?_, fun l d hd => ?_, fun d hd => ?_, fun l m d hl hm => ?_, fun l d hl => ?_,
    fun l d hd hended => ?_, fun l hl d hd => ?_, fun v x hv => ?_, fun v u x y hv hu hxy => ?_⟩
  · by_cases hl : l = k
    · subst hl
      simp only [AttemptLedger.claim, setAt_same]
      refine List.nodup_append.mpr ⟨h.once l, List.nodup_singleton c, ?_⟩
      rintro d hd e he rfl
      rw [List.mem_singleton.mp he] at hd
      exact hnever l hd
    · simp only [AttemptLedger.claim, setAt_other _ _ hl]
      exact h.once l
  · rcases hclaims l d hd with hd | ⟨-, rfl⟩
    · exact List.mem_cons_of_mem _ (h.known l d hd)
    · exact List.mem_cons_self
  · exact h.unknown d fun hmem => hd (List.mem_cons_of_mem _ hmem)
  · rcases hclaims l d hl with hold | ⟨rfl, rfl⟩ <;> rcases hclaims m d hm with hold' | ⟨hmk, hdc⟩
    · exact h.apart l m d hold hold'
    · exact absurd (hdc ▸ hold) (hnever l)
    · exact absurd hold' (hnever m)
    · exact hmk.symm
  · by_cases hlk : l = k
    · subst hlk
      simp only [AttemptLedger.claim, setAt_same, Option.some.injEq] at hl ⊢
      subst hl
      exact ⟨List.mem_append_right _ (List.mem_singleton_self c), h.unknown c hnew⟩
    · simp only [AttemptLedger.claim, setAt_other _ _ hlk] at hl ⊢
      exact h.held l d hl
  · rcases hclaims l d hd with hd | ⟨rfl, rfl⟩
    · have hheld := h.open_ l d hd hended
      by_cases hlk : l = k
      · rw [hlk, hunheld] at hheld
        cases hheld
      · simp only [AttemptLedger.claim, setAt_other _ _ hlk]
        exact hheld
    · simp only [AttemptLedger.claim, setAt_same]
  · rcases hclaims l d hd with hd | ⟨-, rfl⟩
    · by_cases hlk : l = k
      · exact h.pending l (.inl (hlk ▸ hopen)) d hd
      · simp only [AttemptLedger.claim, setAt_other _ _ hlk] at hl
        exact h.pending l hl d hd
    · show L.ended d ≠ _
      rw [h.unknown d hnew]
      exact fun hdone => nomatch hdone
  · rcases hcalls v x hv with ⟨-, rfl⟩ | ⟨-, hv⟩
    · refine ⟨List.mem_cons_self, ?_, fun _ => ?_, fun l hl => ?_⟩
      · show L.ended c ≠ _
        rw [h.unknown c hnew]
        exact fun hshed => nomatch hshed
      · simp only [AttemptLedger.claim, setAt_same]
      · exact (hclaims l c hl).elim (fun hl => absurd hl (hnever l)) And.left
    · obtain ⟨hdrawn, hended, hattempts, hrow⟩ := h.working v x hv
      refine ⟨List.mem_cons_of_mem _ hdrawn, hended, fun hheld => ?_, fun l hl => ?_⟩
      · by_cases hxk : x.row = k
        · simp only [AttemptLedger.claim, hxk, setAt_same, Option.some.injEq] at hheld
          exact absurd (hheld ▸ hdrawn) hnew
        · simp only [AttemptLedger.claim, setAt_other _ _ hxk] at hheld ⊢
          exact hattempts hheld
      · rcases hclaims l x.claim hl with hl | ⟨-, hxc⟩
        · exact hrow l hl
        · exact absurd (hxc ▸ hdrawn) hnew
  · rcases hcalls v x hv with ⟨hvw, hx⟩ | ⟨-, hold⟩ <;> rcases hcalls u y hu with ⟨huw, hy⟩ | ⟨-, hold'⟩
    · rw [hvw, huw]
    · have hyc : y.claim = c := by rw [← hxy, hx]
      exact absurd (hyc ▸ (h.working u y hold').1) hnew
    · have hxc : x.claim = c := by rw [hxy, hy]
      exact absurd (hxc ▸ (h.working v x hold).1) hnew
    · exact h.alone v u x y hold hold' hxy

theorem Counted.claim (hcount : Counted L) (h : Sound L) {w : ω} {k : κ} {c : ι} (hnew : c ∉ L.drawn) :
    Counted (L.claim w k c) := by
  intro l
  by_cases hlk : l = k
  · subst hlk
    have hnot : L.ended c ≠ some .turnedAway := by
      rw [h.unknown c hnew]
      exact nofun
    have hspent : (L.claim w l c).spent l = L.spent l ++ [c] := by
      simp only [spent, AttemptLedger.claim, setAt_same, List.filter_append]
      exact congrArg (List.filter _ (L.claims l) ++ ·) (List.filter_cons_of_pos (decide_eq_true hnot))
    rw [hspent, List.length_append, ← hcount l]
    simp only [AttemptLedger.claim, setAt_same, List.length_singleton]
  · have hspent : (L.claim w k c).spent l = L.spent l := spent_congr (setAt_other _ _ hlk) fun _ _ => Iff.rfl
    rw [hspent, ← hcount l]
    exact setAt_other _ _ hlk

end

section
variable [DecidableEq κ]

def close (L : AttemptLedger κ ι ω) (k : κ) : AttemptLedger κ ι ω :=
  { L with unfinished := setAt L.unfinished k false }

def reset (L : AttemptLedger κ ι ω) (k : κ) : AttemptLedger κ ι ω :=
  { L with
    attempts := setAt L.attempts k 0
    unfinished := setAt L.unfinished k true
    claims := setAt L.claims k [] }

theorem Sound.close (h : Sound L) (k : κ) : Sound (L.close k) where
  once := h.once
  known := h.known
  unknown := h.unknown
  apart := h.apart
  held := h.held
  open_ := h.open_
  pending l hl c hc := by
    refine h.pending l (hl.imp_left fun hopen => ?_) c hc
    by_cases hlk : l = k
    · subst hlk
      simp only [AttemptLedger.close, setAt_same, Bool.false_eq_true] at hopen
    · simpa only [AttemptLedger.close, setAt_other _ _ hlk] using hopen
  working := h.working
  alone := h.alone

theorem mem_claims_reset {k l : κ} {c : ι} (hc : c ∈ (L.reset k).claims l) : l ≠ k ∧ c ∈ L.claims l := by
  by_cases hlk : l = k
  · subst hlk
    simp only [AttemptLedger.reset, setAt_same, List.not_mem_nil] at hc
  · simp only [AttemptLedger.reset, setAt_other _ _ hlk] at hc
    exact ⟨hlk, hc⟩

theorem Sound.reset (h : Sound L) {k : κ} (hfree : L.holder k = none) : Sound (L.reset k) where
  once l := by
    by_cases hlk : l = k
    · subst hlk
      simp only [AttemptLedger.reset, setAt_same, List.nodup_nil]
    · simp only [AttemptLedger.reset, setAt_other _ _ hlk]
      exact h.once l
  known l c hc := h.known l c (mem_claims_reset hc).2
  unknown := h.unknown
  apart l m c hl hm := h.apart l m c (mem_claims_reset hl).2 (mem_claims_reset hm).2
  held l c hl := by
    have hlk : l ≠ k := by
      rintro rfl
      exact absurd (hfree.symm.trans hl) nofun
    simp only [AttemptLedger.reset, setAt_other _ _ hlk]
    exact h.held l c hl
  open_ l c hc := h.open_ l c (mem_claims_reset hc).2
  pending l hl c hc := by
    obtain ⟨hlk, hold⟩ := mem_claims_reset hc
    simp only [AttemptLedger.reset, setAt_other _ _ hlk] at hl
    exact h.pending l hl c hold
  working w x hw := by
    obtain ⟨hdrawn, hended, hattempts, hrow⟩ := h.working w x hw
    refine ⟨hdrawn, hended, fun hheld => ?_, fun l hl => hrow l (mem_claims_reset hl).2⟩
    have hxk : x.row ≠ k := by
      intro hxk
      have hrowheld : L.holder x.row = some x.claim := hheld
      rw [hxk, hfree] at hrowheld
      cases hrowheld
    simp only [AttemptLedger.reset, setAt_other _ _ hxk]
    exact hattempts hheld
  alone := h.alone

end

section
variable [DecidableEq ω]

/-- The report of a worker that has lost its claim changes no row. -/
def late (L : AttemptLedger κ ι ω) (w : ω) : AttemptLedger κ ι ω := { L with calls := setAt L.calls w none }

theorem calls_cleared {w v : ω} {x : ClaimAtWork κ ι} (hv : setAt L.calls w none v = some x) :
    v ≠ w ∧ L.calls v = some x := by
  by_cases hvw : v = w
  · subst hvw
    rw [setAt_same] at hv
    cases hv
  · rw [setAt_other _ _ hvw] at hv
    exact ⟨hvw, hv⟩

theorem Sound.late (h : Sound L) (w : ω) : Sound (L.late w) where
  once := h.once
  known := h.known
  unknown := h.unknown
  apart := h.apart
  held := h.held
  open_ := h.open_
  pending := h.pending
  working v x hv := h.working v x (calls_cleared hv).2
  alone v u x y hv hu := h.alone v u x y (calls_cleared hv).2 (calls_cleared hu).2

end

variable [DecidableEq ι] [DecidableEq ω]

def lateTurnedAway (L : AttemptLedger κ ι ω) (w : ω) (c : ι) : AttemptLedger κ ι ω :=
  { L with calls := setAt L.calls w none, ended := setAt L.ended c (some .turnedAway) }

theorem Sound.lateTurnedAway (h : Sound L) {x : ClaimAtWork κ ι} (hcall : L.calls w = some x)
    (hlost : L.holder x.row ≠ some x.claim) : Sound (L.lateTurnedAway w x.claim) where
  once := h.once
  known := h.known
  unknown c hc := by
    have hne : c ≠ x.claim := fun heq => hc (heq ▸ (h.working w x hcall).1)
    exact (setAt_other _ _ hne).trans (h.unknown c hc)
  apart := h.apart
  held k c hk := by
    obtain ⟨hmem, hended⟩ := h.held k c hk
    have hne : c ≠ x.claim := by
      rintro rfl
      rw [(h.working w x hcall).2.2.2 k hmem] at hk
      exact hlost hk
    exact ⟨hmem, (setAt_other _ _ hne).trans hended⟩
  open_ k c hc hended := by
    have hne : c ≠ x.claim := by
      rintro rfl
      simp only [AttemptLedger.lateTurnedAway, setAt_same] at hended
      cases hended
    exact h.open_ k c hc ((setAt_other _ _ hne).symm.trans hended)
  pending k hk c hc hdone := by
    by_cases hne : c = x.claim
    · simp only [AttemptLedger.lateTurnedAway, hne, setAt_same] at hdone
      cases hdone
    · exact h.pending k hk c hc ((setAt_other _ _ hne).symm.trans hdone)
  working v y hv := by
    obtain ⟨hvw, hold⟩ := calls_cleared hv
    obtain ⟨hdrawn, hended, hrest⟩ := h.working v y hold
    have hne : y.claim ≠ x.claim := fun heq => hvw (h.alone v w y x hold hcall heq)
    refine ⟨hdrawn, ?_, hrest⟩
    show setAt L.ended x.claim _ y.claim ≠ _
    rw [setAt_other _ _ hne]
    exact hended
  alone v u y z hv hu := h.alone v u y z (calls_cleared hv).2 (calls_cleared hu).2

/-- A worker that is turned away after its claim was taken from it spends the
attempt, unless the row has been reset. -/
theorem counted_lateTurnedAway_iff (hcount : Counted L) (h : Sound L) {x : ClaimAtWork κ ι}
    (hcall : L.calls w = some x) : Counted (L.lateTurnedAway w x.claim) ↔ x.claim ∉ L.claims x.row := by
  obtain ⟨-, hnot, -, hrow⟩ := h.working w x hcall
  constructor
  · intro hafter hmem
    have hspent : ((L.lateTurnedAway w x.claim).spent x.row).length + 1 = (L.spent x.row).length :=
      h.spent_turnedAway hmem hnot rfl rfl
    have hcounted : L.attempts x.row = _ := hafter x.row
    rw [hcount x.row] at hcounted
    omega
  · intro hgone k
    show L.attempts k = _
    have hspent : (L.lateTurnedAway w x.claim).spent k = L.spent k := by
      refine spent_congr rfl fun c hc => ?_
      have hne : c ≠ x.claim := by
        rintro rfl
        exact hgone (hrow k hc ▸ hc)
      simp only [AttemptLedger.lateTurnedAway, setAt_other _ _ hne]
    rw [hspent, hcount k]

variable [DecidableEq κ]

/-- The report of a worker that has its claim still. -/
def settle (L : AttemptLedger κ ι ω) (w : ω) (k : κ) (c : ι) (e : ClaimEnding) : AttemptLedger κ ι ω :=
  { L with
    attempts := if e = .turnedAway then setAt L.attempts k (L.attempts k - 1) else L.attempts
    holder := setAt L.holder k none
    unfinished := setAt L.unfinished k (decide (e ≠ .done))
    calls := setAt L.calls w none
    ended := setAt L.ended c (some e) }

theorem Sound.settle (h : Sound L) {c : ι} {n : Nat} {e : ClaimEnding}
    (hcall : L.calls w = some ⟨k, c, n⟩) (hheld : L.holder k = some c) : Sound (L.settle w k c e) := by
  obtain ⟨hmem, -⟩ := h.held k c hheld
  have hother : ∀ l d, l ≠ k → d ∈ L.claims l → d ≠ c := by
    rintro l d hlk hd rfl
    exact hlk (h.apart l k d hd hmem)
  have hended : ∀ d, d ≠ c → (L.settle w k c e).ended d = L.ended d := fun d hd => setAt_other _ _ hd
  have hholder : ∀ l, l ≠ k → (L.settle w k c e).holder l = L.holder l := fun l hl => setAt_other _ _ hl
  refine ⟨h.once, h.known, fun d hd => ?_, h.apart, fun l d hl => ?_, fun l d hd hnone => ?_,
    fun l hl d hd => ?_, fun v x hv => ?_, fun v u x y hv hu => ?_⟩
  · rw [hended d fun heq => hd (heq ▸ h.known k c hmem)]
    exact h.unknown d hd
  · have hlk : l ≠ k := by
      rintro rfl
      simp only [AttemptLedger.settle, setAt_same] at hl
      cases hl
    rw [hholder l hlk] at hl
    obtain ⟨hd, hnone⟩ := h.held l d hl
    exact ⟨hd, (hended d (hother l d hlk hd)).trans hnone⟩
  · have hdc : d ≠ c := by
      rintro rfl
      simp only [AttemptLedger.settle, setAt_same] at hnone
      cases hnone
    rw [hended d hdc] at hnone
    have hl := h.open_ l d hd hnone
    rw [hholder l, hl]
    rintro rfl
    exact hdc (Option.some.inj (hl.symm.trans hheld))
  · by_cases hlk : l = k
    · subst hlk
      by_cases hdc : d = c
      · subst hdc
        simp only [AttemptLedger.settle, setAt_same, decide_eq_true_eq, ne_eq, not_true_eq_false, or_false,
          Option.some.injEq] at hl ⊢
        exact hl
      · rw [hended d hdc]
        exact h.pending l (.inr (by rw [hheld]; exact nofun)) d hd
    · rw [hended d (hother l d hlk hd)]
      simp only [AttemptLedger.settle, setAt_other _ _ hlk] at hl
      exact h.pending l hl d hd
  · obtain ⟨hvw, hold⟩ := calls_cleared hv
    obtain ⟨hdrawn, hnot, hattempts, hrow⟩ := h.working v x hold
    have hxc : x.claim ≠ c := fun heq => hvw (h.alone v w x _ hold hcall heq)
    refine ⟨hdrawn, ?_, fun hx => ?_, hrow⟩
    · rw [hended _ hxc]
      exact hnot
    · have hxk : x.row ≠ k := by
        rintro hxk
        simp only [AttemptLedger.settle, hxk, setAt_same] at hx
        cases hx
      rw [hholder _ hxk] at hx
      rw [← hattempts hx]
      simp only [AttemptLedger.settle]
      split
      · exact setAt_other _ _ hxk
      · rfl
  · exact h.alone v u x y (calls_cleared hv).2 (calls_cleared hu).2

/-- All that a step does, but for the report of a worker that is turned away
too late. -/
inductive Move (L : AttemptLedger κ ι ω) : AttemptLedger κ ι ω → Prop where
  | stay : Move L L
  | lapse (p : κ → Bool) (lost : List ι) (hlost : ∀ c, c ∈ lost ↔ ∃ k, p k = true ∧ L.holder k = some c) :
      Move L (L.lapse p lost)
  | claim (w : ω) (k : κ) (c : ι) (lost : List ι) (hlost : ∀ c, c ∈ lost ↔ L.holder k = some c)
      (hfree : L.calls w = none) (hnew : c ∉ L.drawn) (hopen : L.unfinished k = true) :
      Move L ((L.lapse (fun l => decide (l = k)) lost).claim w k c)
  | settle (w : ω) (k : κ) (c : ι) (n : Nat) (e : ClaimEnding) (hcall : L.calls w = some ⟨k, c, n⟩)
      (hheld : L.holder k = some c) (he : e ≠ .lapsed) : Move L (L.settle w k c e)
  | late (w : ω) : Move L (L.late w)
  | draw (c : ι) : Move L { L with drawn := c :: L.drawn }
  | close (k : κ) : Move L (L.close k)
  | reset (k : κ) (hfree : L.holder k = none) : Move L (L.reset k)

theorem Sound.move (h : Sound L) (hmove : Move L L') : Sound L' := by
  cases hmove with
  | stay => exact h
  | lapse p lost hlost => exact h.lapse hlost
  | claim w k c lost hlost hfree hnew hopen =>
    refine Sound.claim (h.lapse (lost_of_row hlost)) hnew hopen ?_
    simp only [AttemptLedger.lapse, decide_true, if_true]
  | settle w k c n e hcall hheld he => exact h.settle hcall hheld
  | late w => exact h.late w
  | draw c => exact h.draw c
  | close k => exact h.close k
  | reset k hfree => exact h.reset hfree

theorem Counted.settle (hcount : Counted L) (h : Sound L) {c : ι} {e : ClaimEnding}
    (hheld : L.holder k = some c) : Counted (L.settle w k c e) := by
  obtain ⟨hmem, hnone⟩ := h.held k c hheld
  have hnot : L.ended c ≠ some .turnedAway := by
    rw [hnone]
    exact nofun
  intro l
  by_cases he : e = .turnedAway
  · subst he
    by_cases hlk : l = k
    · subst hlk
      have hspent : ((L.settle w l c .turnedAway).spent l).length + 1 = (L.spent l).length :=
        h.spent_turnedAway hmem hnot rfl rfl
      have hattempts : (L.settle w l c .turnedAway).attempts l = L.attempts l - 1 := by
        simp only [AttemptLedger.settle, if_true, setAt_same]
      rw [hattempts, hcount l]
      omega
    · have hattempts : (L.settle w k c .turnedAway).attempts l = L.attempts l := by
        simp only [AttemptLedger.settle, if_true]
        exact setAt_other _ _ hlk
      have hspent : (L.settle w k c .turnedAway).spent l = L.spent l := by
        refine spent_congr rfl fun d hd => ?_
        have hdc : d ≠ c := by
          rintro rfl
          exact hlk (h.apart l k d hd hmem)
        simp only [AttemptLedger.settle, setAt_other _ _ hdc]
      rw [hattempts, hspent, hcount l]
  · have hattempts : (L.settle w k c e).attempts l = L.attempts l := by
      simp only [AttemptLedger.settle, if_neg he]
    have hspent : (L.settle w k c e).spent l = L.spent l := by
      refine spent_congr rfl fun d _ => ?_
      by_cases hdc : d = c
      · subst hdc
        simp only [AttemptLedger.settle, setAt_same, Option.some.injEq, he, false_iff]
        exact hnot
      · simp only [AttemptLedger.settle, setAt_other _ _ hdc]
    rw [hattempts, hspent, hcount l]

theorem Counted.move (hcount : Counted L) (h : Sound L) (hmove : Move L L') : Counted L' := by
  cases hmove with
  | stay => exact hcount
  | lapse p lost hlost => exact hcount.lapse h hlost
  | claim w k c lost hlost hfree hnew hopen =>
    exact (hcount.lapse h (lost_of_row hlost)).claim (h.lapse (lost_of_row hlost)) hnew
  | settle w k c n e hcall hheld he => exact hcount.settle h hheld
  | late w => exact hcount
  | draw c => exact hcount
  | close k => exact hcount
  | reset k hfree =>
    intro l
    by_cases hlk : l = k
    · subst hlk
      simp only [AttemptLedger.reset, setAt_same, spent, List.filter_nil, List.length_nil]
    · have hspent : (L.reset k).spent l = L.spent l := spent_congr (setAt_other _ _ hlk) fun _ _ => Iff.rfl
      rw [hspent, ← hcount l]
      exact setAt_other _ _ hlk

/-- A step, and whether it is in time. Out of time is the report of a worker
that is turned away after its claim was taken from it, unless the row has been
reset. -/
inductive Step (inTime : Prop) (L : AttemptLedger κ ι ω) : AttemptLedger κ ι ω → Prop where
  | move {L' : AttemptLedger κ ι ω} (htime : inTime) (hmove : Move L L') : Step inTime L L'
  | turnedAway (w : ω) (x : ClaimAtWork κ ι) (hcall : L.calls w = some x) (hlost : L.holder x.row ≠ some x.claim)
      (htime : inTime ↔ x.claim ∉ L.claims x.row) : Step inTime L (L.lateTurnedAway w x.claim)

variable {inTime : Prop}

theorem Sound.step (h : Sound L) (hstep : Step inTime L L') : Sound L' := by
  cases hstep with
  | move htime hmove => exact h.move hmove
  | turnedAway w x hcall hlost htime => exact h.lateTurnedAway hcall hlost

theorem counted_step_iff (hcount : Counted L) (h : Sound L) (hstep : Step inTime L L') : Counted L' ↔ inTime := by
  cases hstep with
  | move htime hmove => exact ⟨fun _ => htime, fun _ => hcount.move h hmove⟩
  | turnedAway w x hcall hlost htime => exact (counted_lateTurnedAway_iff hcount h hcall).trans htime.symm

/-- The failure of a worker that has its claim still: the counter that the worker
read when it claimed the row tells the claims that came to nothing. -/
theorem Sound.wasted_failed (h : Sound L) (hcount : Counted L) {c : ι} {n : Nat}
    (hcall : L.calls w = some ⟨k, c, n⟩) (hheld : L.holder k = some c) :
    ((L.settle w k c .failed).wasted k).length = n := by
  have hsound : Sound (L.settle w k c .failed) := h.settle hcall hheld
  have hopen : (L.settle w k c .failed).unfinished k = true := by simp [AttemptLedger.settle]
  have hfree : (L.settle w k c .failed).holder k = none := by simp [AttemptLedger.settle]
  rw [← hsound.attempts_wasted (hcount.settle h hheld) hopen hfree]
  have hattempts : (L.settle w k c .failed).attempts k = L.attempts k := by simp [AttemptLedger.settle]
  rw [hattempts]
  exact (h.working w _ hcall).2.2.1 hheld

/-! ## Workers that lost their claim -/

/-- The counter has not fallen below what a worker read when it claimed the row,
unless the row was reset since. -/
def Behind (L : AttemptLedger κ ι ω) : Prop :=
  ∀ w x, L.calls w = some x → x.claim ∈ L.claims x.row →
    x.attempts ≤ L.attempts x.row ∧ ∀ c, L.holder x.row = some c → c ≠ x.claim → x.attempts < L.attempts x.row

omit [DecidableEq κ] [DecidableEq ω] in
theorem Behind.lapse (h : Behind L) (p : κ → Bool) (lost : List ι) : Behind (L.lapse p lost) := by
  intro w x hw hx
  obtain ⟨hle, hlt⟩ := h w x hw hx
  refine ⟨hle, fun c hc => hlt c ?_⟩
  simp only [AttemptLedger.lapse] at hc
  split at hc
  · cases hc
  · exact hc

omit [DecidableEq ι] in
theorem Behind.claim (h : Behind L) (hsound : Sound L) {c : ι} (hnew : c ∉ L.drawn) : Behind (L.claim w k c) := by
  intro v x hv hx
  by_cases hvw : v = w
  · subst hvw
    simp only [AttemptLedger.claim, setAt_same, Option.some.injEq] at hv
    subst hv
    refine ⟨?_, fun d hd hne => ?_⟩
    · simp [AttemptLedger.claim]
    · simp only [AttemptLedger.claim, setAt_same, Option.some.injEq] at hd
      exact absurd hd.symm hne
  · simp only [AttemptLedger.claim, setAt_other _ _ hvw] at hv hx ⊢
    have hxc : x.claim ≠ c := fun heq => hnew (heq ▸ (hsound.working v x hv).1)
    by_cases hk : x.row = k
    · simp only [hk, setAt_same, List.mem_append, List.mem_singleton, hxc, or_false] at hx ⊢
      have hle := (h v x hv (hk ▸ hx)).1
      rw [hk] at hle
      exact ⟨Nat.le_succ_of_le hle, fun _ _ _ => Nat.lt_succ_of_le hle⟩
    · simp only [setAt_other _ _ hk] at hx ⊢
      exact h v x hv hx

theorem Behind.settle (h : Behind L) (hsound : Sound L) {c : ι} {n : Nat} {e : ClaimEnding}
    (hcall : L.calls w = some ⟨k, c, n⟩) (hheld : L.holder k = some c) : Behind (L.settle w k c e) := by
  intro v x hv hx
  obtain ⟨hvw, hold⟩ := calls_cleared hv
  obtain ⟨hle, hlt⟩ := h v x hold hx
  have hxc : x.claim ≠ c := fun heq => hvw (hsound.alone v w x _ hold hcall heq)
  by_cases hk : x.row = k
  · refine ⟨?_, fun d hd => ?_⟩
    · have hless : x.attempts < L.attempts x.row := hlt c (hk ▸ hheld) (Ne.symm hxc)
      simp only [AttemptLedger.settle]
      split
      · rw [hk, setAt_same, ← hk]
        omega
      · exact hle
    · simp only [AttemptLedger.settle, hk, setAt_same] at hd
      cases hd
  · have hattempts : (L.settle w k c e).attempts x.row = L.attempts x.row := by
      simp only [AttemptLedger.settle]
      split
      · exact setAt_other _ _ hk
      · rfl
    have hholder : (L.settle w k c e).holder x.row = L.holder x.row := setAt_other _ _ hk
    rw [hattempts, hholder]
    exact ⟨hle, hlt⟩

theorem Behind.move (h : Behind L) (hsound : Sound L) (hmove : Move L L') : Behind L' := by
  cases hmove with
  | stay => exact h
  | lapse p lost hlost => exact h.lapse p lost
  | claim w k c lost hlost hfree hnew hopen =>
    exact (h.lapse _ lost).claim (hsound.lapse (lost_of_row hlost)) hnew
  | settle w k c n e hcall hheld he => exact h.settle hsound hcall hheld
  | late w => exact fun v x hv hx => h v x (calls_cleared hv).2 hx
  | draw c => exact h
  | close k => exact h
  | reset k hfree =>
    intro v x hv hx
    obtain ⟨hk, hold⟩ := mem_claims_reset hx
    have hattempts : (L.reset k).attempts x.row = L.attempts x.row := setAt_other _ _ hk
    rw [hattempts]
    exact h v x hv hold

theorem Behind.step (h : Behind L) (hsound : Sound L) (hstep : Step inTime L L') : Behind L' := by
  cases hstep with
  | move htime hmove => exact h.move hsound hmove
  | turnedAway w x hcall hlost htime => exact fun v y hv hy => h v y (calls_cleared hv).2 hy

/-- The failure of a worker that has lost its claim takes the row from the worker
that has it, and makes no difference to the counter. -/
def overrule (L : AttemptLedger κ ι ω) (w : ω) (k : κ) (lost : List ι) : AttemptLedger κ ι ω :=
  (L.lapse (fun l => decide (l = k)) lost).late w

section
variable {w : ω} {k : κ} {lost : List ι}

theorem Sound.overrule (h : Sound L) (hlost : ∀ c, c ∈ lost ↔ L.holder k = some c) : Sound (L.overrule w k lost) :=
  (h.lapse (lost_of_row hlost)).late w

theorem Counted.overrule (hcount : Counted L) (h : Sound L) (hlost : ∀ c, c ∈ lost ↔ L.holder k = some c) :
    Counted (L.overrule w k lost) :=
  hcount.lapse h (lost_of_row hlost)

theorem Behind.overrule (h : Behind L) : Behind (L.overrule w k lost) :=
  fun v x hv hx => h.lapse _ lost v x (calls_cleared hv).2 hx

theorem Behind.wasted_overruled (h : Behind L) (hsound : Sound L) (hcount : Counted L) {x : ClaimAtWork κ ι}
    (hlost : ∀ c, c ∈ lost ↔ L.holder x.row = some c) (hcall : L.calls w = some x)
    (hclaim : x.claim ∈ L.claims x.row) (hopen : L.unfinished x.row = true) :
    x.attempts ≤ ((L.overrule w x.row lost).wasted x.row).length := by
  have hfree : (L.lapse (fun l => decide (l = x.row)) lost).holder x.row = none := by simp [AttemptLedger.lapse]
  have hwasted := (hsound.lapse (lost_of_row hlost)).attempts_wasted (hcount.lapse hsound (lost_of_row hlost))
    hopen hfree
  show _ ≤ ((L.lapse (fun l => decide (l = x.row)) lost).wasted x.row).length
  rw [← hwasted]
  exact (h w x hcall hclaim).1

end

/-- In a system whose steps are steps of a ledger, whatever an exact counter
keeps is kept all along the runs that are in time, and in no others. -/
theorem along_counted_iff {σ α : Type} {M : System σ α} (view : σ → AttemptLedger κ ι ω) (Inv : σ → Prop)
    {onTime : σ → α → Prop} {Keeps : σ → α → σ → Prop}
    (hstep : ∀ {s a t}, Inv s → M.step s a = some t → Inv t ∧ Step (onTime s a) (view s) (view t))
    (hkeeps : ∀ {s a t}, Inv s → Sound (view s) → Counted (view s) → M.step s a = some t →
      (Keeps s a t ↔ Counted (view t)))
    {s t : σ} {as : List α} (hs : Inv s) (hsound : Sound (view s)) (hcount : Counted (view s))
    (hrun : M.run s as = some t) :
    M.Along (fun s a => ∀ t, M.step s a = some t → Keeps s a t) s as ↔ M.Along onTime s as := by
  have hinv : ∀ {s a t}, Inv s ∧ Sound (view s) ∧ Counted (view s) → onTime s a → M.step s a = some t →
      Inv t ∧ Sound (view t) ∧ Counted (view t) := by
    rintro s a t ⟨hs, hsound, hcount⟩ htime hst
    obtain ⟨ht, hmove⟩ := hstep hs hst
    exact ⟨ht, hsound.step hmove, (counted_step_iff hcount hsound hmove).mpr htime⟩
  refine M.along_congr hinv ?_ ⟨hs, hsound, hcount⟩ hrun
  rintro s a t ⟨hs, hsound, hcount⟩ hst
  have hiff : Keeps s a t ↔ onTime s a :=
    (hkeeps hs hsound hcount hst).trans (counted_step_iff hcount hsound (hstep hs hst).2)
  constructor
  · intro hall
    exact hiff.mp (hall t hst)
  · intro htime u hu
    obtain rfl := Option.some.inj (hst.symm.trans hu)
    exact hiff.mpr htime

end AttemptLedger

end Cadena.Base
