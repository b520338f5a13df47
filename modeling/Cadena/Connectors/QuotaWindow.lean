import Cadena.Base.Observation
import Cadena.Connectors.RateGovernor

/-!
# Quota windows

The row of a target stores the start of one window and the calls admitted in
it. A window is replaced once it is over by the clock of the worker that looks,
however stale that clock is, so windows do not overlap; and a call is admitted
only below the limit of its own policy and the stored one.
-/

namespace Cadena.Connectors

open Cadena.Base

/-- A transaction that reads the quota: the window it is in, the effective
limit it applies, and whether it admits the call. -/
structure QuotaUse where
  start : Millis
  limit : Nat
  admitted : Bool

def quotaUse (s : GovernorState) : GovernorAction → Option QuotaUse
  | .acquire _ policy nowMs probe =>
    let row := s.row.getD (newGovernanceRow policy nowMs)
    match (acquireQuota policy nowMs probe row).2 with
    | .shed _ _ => none
    | .wait _ => some ⟨windowStart row nowMs, effectiveLimit row policy, false⟩
    | .admitted _ => some ⟨windowStart row nowMs, effectiveLimit row policy, true⟩
  | _ => none

/-- What the transactions of a run do with the quota, from no row on. -/
def quotaUses (acts : List GovernorAction) : List QuotaUse :=
  governor.observe (fun s a _ => quotaUse s a) idleGovernor acts

/-- The window starts that a run stores, one for each step. -/
def storedStarts (acts : List GovernorAction) : List Millis :=
  governor.observe (fun _ _ t => t.row.map (·.windowStartedAt)) idleGovernor acts

/-- The calls admitted in the window. -/
def admittedIn (start : Millis) (uses : List QuotaUse) : Nat :=
  uses.countP fun use => use.start = start && use.admitted

/-- The largest limit applied in the window. -/
def largestLimit (start : Millis) (uses : List QuotaUse) : Nat :=
  uses.foldr (fun use largest => if use.start = start then max use.limit largest else largest) 0

section
variable {start : Millis} {uses : List QuotaUse} {use : QuotaUse}

theorem admittedIn_append :
    admittedIn start (uses ++ [use]) =
      admittedIn start uses + if use.start = start ∧ use.admitted = true then 1 else 0 := by
  rw [admittedIn, List.countP_append, List.countP_singleton]
  simp [admittedIn]

theorem largestLimit_append :
    largestLimit start (uses ++ [use]) =
      if use.start = start then max (largestLimit start uses) use.limit else largestLimit start uses := by
  induction uses with
  | nil => simp [largestLimit]
  | cons first uses ih =>
    have hcons : ∀ rest : List QuotaUse, largestLimit start (first :: rest) =
        if first.start = start then max first.limit (largestLimit start rest) else largestLimit start rest :=
      fun _ => rfl
    rw [List.cons_append, hcons, hcons, ih]
    split <;> split <;> omega

theorem admittedIn_later (h : ∀ use ∈ uses, use.start < start) : admittedIn start uses = 0 := by
  rw [admittedIn, List.countP_eq_zero]
  intro use hmem hcount
  simp only [Bool.and_eq_true, decide_eq_true_eq] at hcount
  exact (h use hmem).ne hcount.1

end

/-! ## One transaction -/

section
variable {policy : RateGovernancePolicy} {nowMs : Millis} {row : GovernanceRow}

/-- The quota columns of a row are those of another. -/
structure SameQuota (row row' : GovernanceRow) : Prop where
  start : row'.windowStartedAt = row.windowStartedAt
  used : row'.usedRequests = row.usedRequests
  total : row'.totalRequests = row.totalRequests

theorem quotaWait_expired (h : windowExpired row nowMs = true) : quotaWait policy row nowMs = 0 := by
  have hlimit : 1 ≤ effectiveLimit row policy := Nat.le_max_left _ _
  rw [quotaWait, windowUsed, if_pos h, if_neg (by omega)]

theorem quotaWait_pos (h : effectiveLimit row policy ≤ windowUsed row nowMs) : quotaWait policy row nowMs ≠ 0 := by
  rw [quotaWait, if_pos h]
  omega

theorem shapeRow_wait (h : quotaWait policy row nowMs ≠ 0) :
    SameQuota row (shapeRow policy row nowMs (quotaWait policy row nowMs)) := by
  have hnot : windowExpired row nowMs = false := by
    cases hover : windowExpired row nowMs with
    | false => rfl
    | true => exact absurd (quotaWait_expired hover) h
  refine ⟨?_, ?_, ?_⟩
  · simp [shapeRow, windowStart, hnot]
  · simp [shapeRow, windowUsed, hnot, h]
  · simp [shapeRow, h]

theorem acquireQuota_window (policy : RateGovernancePolicy) (nowMs : Millis) (probe : Uuid) (row : GovernanceRow) :
    (∃ until_ reason, (acquireQuota policy nowMs probe row).2 = .shed until_ reason ∧
      SameQuota row (acquireQuota policy nowMs probe row).1) ∨
    (∃ wait, (acquireQuota policy nowMs probe row).2 = .wait wait ∧
      SameQuota row (acquireQuota policy nowMs probe row).1 ∧ windowStart row nowMs = row.windowStartedAt) ∨
    (∃ p, (acquireQuota policy nowMs probe row).2 = .admitted p ∧
      windowUsed row nowMs < effectiveLimit row policy ∧
      (acquireQuota policy nowMs probe row).1.windowStartedAt = windowStart row nowMs ∧
      (acquireQuota policy nowMs probe row).1.usedRequests = windowUsed row nowMs + 1) := by
  unfold acquireQuota
  simp only
  split
  · exact .inl ⟨_, _, rfl, rfl, rfl, rfl⟩
  · split
    · rename_i hwait
      have hsame := shapeRow_wait hwait
      exact .inr (.inl ⟨_, rfl, hsame, hsame.start⟩)
    · rename_i hwait
      have hzero : quotaWait policy row nowMs = 0 := not_not.mp hwait
      have hless : windowUsed row nowMs < effectiveLimit row policy := by
        by_contra hnot
        exact quotaWait_pos (by omega) hzero
      refine .inr (.inr ?_)
      split
      · exact ⟨_, rfl, hless, rfl, by simp [shapeRow, hzero]⟩
      · exact ⟨_, rfl, hless, rfl, by simp [shapeRow, hzero]⟩

end

theorem closeEpisode_quota (probe : Uuid) (nowMs : Millis) (row : GovernanceRow) :
    SameQuota row (closeEpisode probe nowMs row).1 := by
  unfold closeEpisode
  split
  · split <;> exact ⟨rfl, rfl, rfl⟩
  · exact ⟨rfl, rfl, rfl⟩

theorem releaseProbe_quota (probe : Option Uuid) (row : GovernanceRow) : SameQuota row (releaseProbe probe row) := by
  unfold releaseProbe
  split
  · split <;> exact ⟨rfl, rfl, rfl⟩
  · exact ⟨rfl, rfl, rfl⟩

theorem recordFailure_quota (policy : RateGovernancePolicy) (error : Option RemoteFailure) (probe : Option Uuid)
    (nowMs : Millis) (random : ℚ) (row : GovernanceRow) :
    SameQuota row (recordFailure policy error probe nowMs random row).1 := by
  unfold recordFailure
  simp only
  split
  · have hsame := releaseProbe_quota probe
      { countFailure policy error nowMs random row with pressureStreak := nextStreak policy error random row }
    exact ⟨hsame.start, hsame.used, hsame.total⟩
  · exact ⟨rfl, rfl, rfl⟩

/-! ## Runs -/

/-- The row counts the calls admitted in its window, no other window has begun
later, and no window has had more than its largest limit. -/
structure Counted (s : GovernorState) (uses : List QuotaUse) : Prop where
  fresh : s.row = none → uses = []
  used : ∀ row, s.row = some row → row.usedRequests = admittedIn row.windowStartedAt uses
  latest : ∀ row, s.row = some row → ∀ use ∈ uses, use.start ≤ row.windowStartedAt
  bounded : ∀ start, admittedIn start uses ≤ largestLimit start uses

structure KeepsCount (s t : GovernorState) : Prop where
  row : ∃ row, t.row = some row ∧
    (s.row = none → row.usedRequests = 0) ∧ ∀ old, s.row = some old → SameQuota old row

section
variable {s t : GovernorState} {uses : List QuotaUse}

theorem admittedIn_nil (start : Millis) : admittedIn start [] = 0 := rfl

theorem Counted.keep (h : Counted s uses) (hkeep : KeepsCount s t) : Counted t uses := by
  obtain ⟨row, hrow, hnew, hsame⟩ := hkeep.row
  refine ⟨fun hnone => ?_, fun row' hrow' => ?_, fun row' hrow' use hmem => ?_, h.bounded⟩
  · rw [hrow] at hnone
    cases hnone
  · obtain rfl := Option.some.inj (hrow.symm.trans hrow')
    cases hold : s.row with
    | none => rw [h.fresh hold, admittedIn_nil, hnew hold]
    | some old => rw [(hsame old hold).used, (hsame old hold).start, h.used old hold]
  · obtain rfl := Option.some.inj (hrow.symm.trans hrow')
    cases hold : s.row with
    | none =>
      rw [h.fresh hold] at hmem
      cases hmem
    | some old =>
      rw [(hsame old hold).start]
      exact h.latest old hold use hmem

theorem Counted.wait {row : GovernanceRow} {limit : Nat} (h : Counted t uses) (hrow : t.row = some row) :
    Counted t (uses ++ [⟨row.windowStartedAt, limit, false⟩]) := by
  have hsame : ∀ start, admittedIn start (uses ++ [⟨row.windowStartedAt, limit, false⟩]) = admittedIn start uses := by
    intro start
    rw [admittedIn_append]
    simp
  refine ⟨fun hnone => ?_, fun row' hrow' => ?_, fun row' hrow' use hmem => ?_, fun start => ?_⟩
  · rw [hrow] at hnone
    cases hnone
  · rw [hsame, h.used row' hrow']
  · obtain rfl := Option.some.inj (hrow.symm.trans hrow')
    rcases List.mem_append.mp hmem with hold | hnew
    · exact h.latest row hrow use hold
    · rw [List.mem_singleton.mp hnew]
  · have hbounded := h.bounded start
    rw [hsame, largestLimit_append]
    split
    · omega
    · exact hbounded

variable {nowMs : Millis} {policy : RateGovernancePolicy} {a : GovernorAction}

theorem Counted.inWindow {row : GovernanceRow} (h : Counted s uses)
    (hrow : s.row = some row) : windowUsed row nowMs = admittedIn (windowStart row nowMs) uses := by
  unfold windowUsed windowStart
  split
  · rename_i hover
    refine (admittedIn_later fun use hmem => ?_).symm
    have hbefore := h.latest row hrow use hmem
    simp only [windowExpired, decide_eq_true_eq] at hover
    linarith
  · exact h.used row hrow

theorem le_windowStart (row : GovernanceRow) (nowMs : Millis) : row.windowStartedAt ≤ windowStart row nowMs := by
  unfold windowStart
  split
  · rename_i hover
    simp only [windowExpired, decide_eq_true_eq] at hover
    linarith
  · exact le_refl _

theorem Counted.admit {row row' : GovernanceRow}
    (h : Counted s uses) (hold : s.row = some row ∨ s.row = none ∧ row = newGovernanceRow policy nowMs)
    (hless : windowUsed row nowMs < effectiveLimit row policy) (hrow : t.row = some row')
    (hstart : row'.windowStartedAt = windowStart row nowMs) (hused : row'.usedRequests = windowUsed row nowMs + 1) :
    Counted t (uses ++ [⟨windowStart row nowMs, effectiveLimit row policy, true⟩]) := by
  have hbefore : windowUsed row nowMs = admittedIn (windowStart row nowMs) uses := by
    rcases hold with hsome | ⟨hnone, rfl⟩
    · exact h.inWindow hsome
    · rw [h.fresh hnone, admittedIn_nil]
      unfold windowUsed
      split <;> rfl
  have hlatest : ∀ use ∈ uses, use.start ≤ windowStart row nowMs := by
    intro use hmem
    rcases hold with hsome | ⟨hnone, rfl⟩
    · exact le_trans (h.latest row hsome use hmem) (le_windowStart row nowMs)
    · rw [h.fresh hnone] at hmem
      cases hmem
  refine ⟨fun hnone => ?_, fun r hr => ?_, fun r hr use hmem => ?_, fun start => ?_⟩
  · rw [hrow] at hnone
    cases hnone
  · obtain rfl := Option.some.inj (hrow.symm.trans hr)
    rw [admittedIn_append, if_pos ⟨hstart.symm, rfl⟩, hused, hstart, hbefore]
  · obtain rfl := Option.some.inj (hrow.symm.trans hr)
    rw [hstart]
    rcases List.mem_append.mp hmem with hearlier | hnew
    · exact hlatest use hearlier
    · rw [List.mem_singleton.mp hnew]
  · have hbounded := h.bounded start
    rw [admittedIn_append, largestLimit_append]
    by_cases hsame : windowStart row nowMs = start
    · rw [if_pos ⟨hsame, rfl⟩, if_pos hsame, ← hsame, ← hbefore]
      exact le_trans hless (le_max_right _ _)
    · rw [if_neg fun hboth => hsame hboth.1, if_neg hsame]
      exact hbounded

theorem acquire_row {call : Nat} {probe : Uuid}
    (hstep : governorStep s (.acquire call policy nowMs probe) = some t) :
    t.row = some (acquireQuota policy nowMs probe (s.row.getD (newGovernanceRow policy nowMs))).1 := by
  simp only [governorStep, acquireStep] at hstep
  split at hstep
  · cases hstep
  · split at hstep <;> cases hstep <;> rfl

theorem Counted.acquire (h : Counted s uses) {call : Nat}
    {probe : Uuid} (hstep : governorStep s (.acquire call policy nowMs probe) = some t) :
    Counted t (uses ++ (quotaUse s (.acquire call policy nowMs probe)).toList) := by
  generalize hfrom : s.row.getD (newGovernanceRow policy nowMs) = row
  have hold : s.row = some row ∨ s.row = none ∧ row = newGovernanceRow policy nowMs := by
    cases hrow : s.row with
    | none =>
      rw [hrow] at hfrom
      exact .inr ⟨rfl, hfrom.symm⟩
    | some old =>
      rw [hrow] at hfrom
      exact .inl (congrArg some hfrom)
  have hrow := acquire_row hstep
  rw [hfrom] at hrow
  have hkeeps : SameQuota row (acquireQuota policy nowMs probe row).1 → KeepsCount s t := by
    intro hsame
    refine ⟨_, hrow, fun hnone => ?_, fun old hsome => ?_⟩
    · rcases hold with hsome | ⟨-, rfl⟩
      · rw [hnone] at hsome
        cases hsome
      · exact hsame.used
    · rcases hold with hsome' | ⟨hnone, -⟩
      · obtain rfl := Option.some.inj (hsome.symm.trans hsome')
        exact hsame
      · rw [hnone] at hsome
        cases hsome
  simp only [quotaUse, hfrom]
  rcases acquireQuota_window policy nowMs probe row with
    ⟨until_, reason, hshed, hsame⟩ | ⟨wait, hwait, hsame, hstart⟩ | ⟨p, hadmitted, hless, hstart, hused⟩
  · rw [hshed]
    simpa using h.keep (hkeeps hsame)
  · rw [hwait, hstart, ← hsame.start]
    exact (h.keep (hkeeps hsame)).wait hrow
  · rw [hadmitted]
    exact h.admit hold hless hrow hstart hused

theorem keepsCount_of_step (hstep : governorStep s a = some t)
    (hother : ∀ call policy nowMs probe, a ≠ .acquire call policy nowMs probe) : KeepsCount s t := by
  have hkeep : ∀ {row row' : GovernanceRow}, s.row = some row → t.row = some row' → SameQuota row row' →
      KeepsCount s t := by
    intro row row' hrow hrow' hsame
    refine ⟨row', hrow', fun hnone => ?_, fun old hold => ?_⟩
    · rw [hrow] at hnone
      cases hnone
    · obtain rfl := Option.some.inj (hrow.symm.trans hold)
      exact hsame
  cases a with
  | acquire call policy nowMs probe => exact absurd rfl (hother call policy nowMs probe)
  | register policy nowMs =>
    cases hstep
    refine ⟨_, rfl, fun hnone => ?_, fun old hold => ?_⟩
    · rw [hnone]
      rfl
    · rw [hold]
      exact ⟨rfl, rfl, rfl⟩
  | succeed call nowMs =>
    simp only [governorStep, succeedStep] at hstep
    split at hstep
    · rename_i row hrow hcall
      cases hstep
      exact hkeep hrow rfl ⟨rfl, rfl, rfl⟩
    · rename_i row probe admittedAt hrow hcall
      cases hstep
      exact hkeep hrow rfl ⟨rfl, rfl, rfl⟩
    · cases hstep
  | close call =>
    simp only [governorStep, closeStep] at hstep
    split at hstep
    · rename_i row probe admittedAt recoveredAt hrow hcall
      cases hstep
      exact hkeep hrow rfl (closeEpisode_quota probe recoveredAt row)
    · cases hstep
  | fail call policy error nowMs random =>
    simp only [governorStep, failCallStep] at hstep
    split at hstep
    · rename_i row probe hrow hcall
      cases hstep
      exact hkeep hrow rfl (recordFailure_quota policy error probe nowMs random row)
    · cases hstep

theorem Counted.step (h : Counted s uses) (hstep : governorStep s a = some t) :
    Counted t (uses ++ (quotaUse s a).toList) := by
  cases a with
  | acquire call policy nowMs probe => exact h.acquire hstep
  | register | succeed | close | fail =>
    simpa [quotaUse] using h.keep (keepsCount_of_step hstep (by rintro _ _ _ _ ⟨⟩))

/-! ## The starts of windows -/

/-- Starts stored so far are the one in the row, or a window before it. -/
def Spaced (s : GovernorState) (starts : List Millis) : Prop :=
  (s.row = none → starts = []) ∧
  starts.Pairwise (fun a b => a = b ∨ a + 60000 ≤ b) ∧
  ∀ row, s.row = some row → ∀ start ∈ starts, start = row.windowStartedAt ∨ start + 60000 ≤ row.windowStartedAt

theorem start_moves (hstep : governorStep s a = some t) : ∃ row, t.row = some row ∧ ∀ old, s.row = some old →
      row.windowStartedAt = old.windowStartedAt ∨ old.windowStartedAt + 60000 ≤ row.windowStartedAt := by
  by_cases hacquire : ∃ call policy nowMs probe, a = .acquire call policy nowMs probe
  · obtain ⟨call, policy, nowMs, probe, rfl⟩ := hacquire
    refine ⟨_, acquire_row hstep, fun old hold => ?_⟩
    rw [hold, Option.getD_some]
    rcases acquireQuota_window policy nowMs probe old with
      ⟨-, -, -, hsame⟩ | ⟨-, -, hsame, -⟩ | ⟨-, -, -, hstart, -⟩
    · exact .inl hsame.start
    · exact .inl hsame.start
    · rw [hstart]
      unfold windowStart
      split
      · rename_i hover
        exact .inr (of_decide_eq_true hover)
      · exact .inl rfl
  · have hkeeps := keepsCount_of_step hstep fun call policy nowMs probe h =>
      hacquire ⟨call, policy, nowMs, probe, h⟩
    obtain ⟨row, hrow, -, hsame⟩ := hkeeps.row
    exact ⟨row, hrow, fun old hold => .inl (hsame old hold).start⟩

theorem Spaced.step {starts : List Millis} (h : Spaced s starts)
    (hstep : governorStep s a = some t) : Spaced t (starts ++ (t.row.map (·.windowStartedAt)).toList) := by
  obtain ⟨hfresh, hpairs, hlatest⟩ := h
  obtain ⟨row, hrow, hmoves⟩ := start_moves hstep
  have hbefore : ∀ start ∈ starts, start = row.windowStartedAt ∨ start + 60000 ≤ row.windowStartedAt := by
    intro start hmem
    cases hold : s.row with
    | none =>
      rw [hfresh hold] at hmem
      cases hmem
    | some old =>
      rcases hlatest old hold start hmem with rfl | hover <;> rcases hmoves old hold with hsame | hlater
      · exact .inl hsame.symm
      · exact .inr hlater
      · exact .inr (hsame ▸ hover)
      · exact .inr (by linarith)
  refine ⟨fun hnone => ?_, ?_, ?_⟩
  · rw [hrow] at hnone
    cases hnone
  · rw [hrow]
    refine List.pairwise_append.mpr ⟨hpairs, List.pairwise_singleton _ _, fun start hmem last hlast => ?_⟩
    rw [List.mem_singleton.mp hlast]
    exact hbefore start hmem
  · intro row' hrow' start hmem
    obtain rfl := Option.some.inj (hrow.symm.trans hrow')
    rw [hrow] at hmem
    rcases List.mem_append.mp hmem with hearlier | hlast
    · exact hbefore start hearlier
    · exact .inl (List.mem_singleton.mp hlast)

theorem counted_idle : Counted idleGovernor [] where
  fresh _ := rfl
  used _ h := by cases h
  latest _ h := by cases h
  bounded _ := le_refl _

theorem spaced_idle : Spaced idleGovernor [] :=
  ⟨fun _ => rfl, List.Pairwise.nil, fun _ h => by cases h⟩

end

/-- **Quota windows are respected** in every run: stored window starts are at
least a minute apart, no window admits more calls than the largest limit applied
in it, and a call that is refused or told to wait leaves the quota as it was. -/
theorem quota_windows_respected :
    (∀ acts : List GovernorAction,
      (storedStarts acts).Pairwise (fun a b => a = b ∨ a + 60000 ≤ b) ∧
      ∀ start, admittedIn start (quotaUses acts) ≤ largestLimit start (quotaUses acts)) ∧
    ∀ (policy : RateGovernancePolicy) (nowMs : Millis) (probe : Uuid) (row : GovernanceRow),
      (∀ p, (acquireQuota policy nowMs probe row).2 ≠ .admitted p) →
        SameQuota row (acquireQuota policy nowMs probe row).1 := by
  refine ⟨fun acts => ⟨?_, ?_⟩, fun policy nowMs probe row hnot => ?_⟩
  · exact System.observed_of_invariant (M := governor) (P := Spaced) (fun h hstep => h.step hstep)
      (fun h => h.2.1) spaced_idle acts
  · exact System.observed_of_invariant (M := governor) (P := Counted) (fun h hstep => h.step hstep)
      (fun h => h.bounded) counted_idle acts
  · rcases acquireQuota_window policy nowMs probe row with
      ⟨-, -, -, hsame⟩ | ⟨-, -, hsame, -⟩ | ⟨p, hadmitted, -⟩
    · exact hsame
    · exact hsame
    · exact absurd hadmitted (hnot p)

end Cadena.Connectors
