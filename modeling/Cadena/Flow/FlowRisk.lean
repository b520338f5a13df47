import Cadena.Flow.FlowProfile
import Mathlib.Algebra.Order.Field.Rat
import Mathlib.Data.List.Dedup
import Mathlib.Data.Rat.Floor

/-!
# The risk of waiting too long

The rank of a current wait among the comparable visits that are over, the
chance to overrun the target, and the risk of a visit at the time of a pass.
Numbers are rationals. The rank never falls as the wait grows, so a visit that
is at risk at one time is at risk at every later one.
-/

namespace Cadena.Flow

open Cadena.Base Cadena.WorkItems

inductive FlowBucket where
  | active | waiting | blocked | unclassified
  deriving DecidableEq

/-- The classes of states whose visits are assessed. -/
def FlowBucket.waits : FlowBucket → Bool
  | .waiting | .blocked => true
  | .active | .unclassified => false

/-- The settings of a tenant, within the bounds that `updateSettings` checks. -/
structure RiskSettings where
  minSample : Nat
  percentileThreshold : Rat
  lookbackDays : Nat
  minSample_range : 3 ≤ minSample ∧ minSample ≤ 1000
  percentileThreshold_range : 1 / 2 ≤ percentileThreshold ∧ percentileThreshold ≤ 999 / 1000
  lookbackDays_range : 7 ≤ lookbackDays ∧ lookbackDays ≤ 730

def defaultRiskSettings : RiskSettings where
  minSample := 10
  percentileThreshold := 9 / 10
  lookbackDays := 180
  minSample_range := by decide
  percentileThreshold_range := by decide +kernel
  lookbackDays_range := by decide

/-! ## `assessRisk` -/

inductive ProbabilityBasis where
  | conditionalEmpirical | alreadyPastTarget | noSlaTarget | beyondHistory
  deriving DecidableEq

structure RiskInput where
  samples : List Rat
  sampleItems : Nat
  currentMinutes : Rat
  targetMinutes : Option Int
  minSample : Nat

structure RiskScore where
  percentile : Rat
  probabilityExceedTarget : Option Rat
  probabilityBasis : ProbabilityBasis
  sampleSize : Nat
  sampleItems : Nat
  minSample : Nat
  currentWaitMinutes : Rat
  targetMinutes : Option Int
  deriving DecidableEq

inductive RiskResult where
  | insufficientHistory (sampleSize sampleItems minSample : Nat) (message : String)
  | scored (score : RiskScore)
  deriving DecidableEq

/-- `Math.round(value * 10_000) / 10_000`. -/
def round4 (value : Rat) : Rat := (value * 10000 + 1 / 2).floor / 10000

def insufficientMessage (sampleItems minSample : Nat) : String :=
  "History is insufficient: " ++ toString sampleItems ++ " comparable item"
    ++ (if sampleItems = 1 then " has" else "s have") ++ " completed this state and at least "
    ++ toString minSample ++ " are required, so no risk score is produced."

/-- `below + equal / 2`. -/
def midRank (samples : List Rat) (current : Rat) : Rat :=
  (samples.filter (· < current)).length + (samples.filter (· == current)).length / (2 : Rat)

def percentileOf (samples : List Rat) (current : Rat) : Rat :=
  round4 (midRank samples current / samples.length)

def exceedTarget (samples : List Rat) (current : Rat) : Option Int → Option Rat × ProbabilityBasis
  | none => (none, .noSlaTarget)
  | some target =>
    if target ≤ current then (some 1, .alreadyPastTarget)
    else
      let stillGoing := samples.filter (current < ·)
      if stillGoing.isEmpty then (none, .beyondHistory)
      else
        (some (round4 ((stillGoing.filter ((target : Rat) < ·)).length / (stillGoing.length : Rat))),
          .conditionalEmpirical)

def assessRisk (input : RiskInput) : RiskResult :=
  if input.sampleItems < input.minSample then
    .insufficientHistory input.samples.length input.sampleItems input.minSample
      (insufficientMessage input.sampleItems input.minSample)
  else
    let probability := exceedTarget input.samples input.currentMinutes input.targetMinutes
    .scored
      { percentile := percentileOf input.samples input.currentMinutes
        probabilityExceedTarget := probability.1
        probabilityBasis := probability.2
        sampleSize := input.samples.length
        sampleItems := input.sampleItems
        minSample := input.minSample
        currentWaitMinutes := roundCents input.currentMinutes
        targetMinutes := input.targetMinutes }

/-- `result.status === 'scored' && result.percentile >= threshold`. -/
def RiskResult.atRisk (threshold : Rat) : RiskResult → Bool
  | .insufficientHistory .. => false
  | .scored score => threshold ≤ score.percentile

/-! ## The rank grows with the wait -/

theorem round4_mono {x y : Rat} (h : x ≤ y) : round4 x ≤ round4 y := by
  have hscaled : x * 10000 + 1 / 2 ≤ y * 10000 + 1 / 2 := by linarith
  have hfloor : (x * 10000 + 1 / 2).floor ≤ (y * 10000 + 1 / 2).floor := Rat.floor_monotone hscaled
  have hcast : ((x * 10000 + 1 / 2).floor : Rat) ≤ ((y * 10000 + 1 / 2).floor : Rat) := by exact_mod_cast hfloor
  unfold round4
  linarith

def rankOf (sample current : Rat) : Rat :=
  if sample < current then 1 else if sample = current then 1 / 2 else 0

theorem rankOf_mono (sample : Rat) {x y : Rat} (h : x ≤ y) : rankOf sample x ≤ rankOf sample y := by
  unfold rankOf
  split
  · rename_i hbelow
    rw [if_pos (lt_of_lt_of_le hbelow h)]
  · split
    · rename_i hequal
      subst hequal
      rcases lt_or_eq_of_le h with hlt | heq
      · rw [if_pos hlt]
        norm_num
      · rw [if_neg (by rw [heq]; exact lt_irrefl _), if_pos heq]
    · split
      · exact zero_le_one
      · split <;> norm_num

theorem midRank_cons (sample : Rat) (samples : List Rat) (current : Rat) :
    midRank (sample :: samples) current = rankOf sample current + midRank samples current := by
  unfold midRank rankOf
  by_cases hbelow : sample < current
  · have hne : sample ≠ current := ne_of_lt hbelow
    simp only [List.filter_cons, hbelow, hne, decide_true, beq_iff_eq, if_true, if_false, List.length_cons]
    push_cast
    ring
  · by_cases hequal : sample = current
    · simp only [List.filter_cons, hequal, decide_false, beq_self_eq_true, lt_irrefl, if_true,
        if_false, Bool.false_eq_true, List.length_cons]
      push_cast
      ring
    · simp [hbelow, hequal]

theorem midRank_mono (samples : List Rat) {x y : Rat} (h : x ≤ y) : midRank samples x ≤ midRank samples y := by
  induction samples with
  | nil => exact le_refl _
  | cons sample samples ih =>
    rw [midRank_cons, midRank_cons]
    exact add_le_add (rankOf_mono sample h) ih

theorem percentileOf_mono (samples : List Rat) {x y : Rat} (h : x ≤ y) :
    percentileOf samples x ≤ percentileOf samples y := by
  have hlength : (0 : Rat) ≤ samples.length := Nat.cast_nonneg _
  exact round4_mono (div_le_div_of_nonneg_right (midRank_mono samples h) hlength)

theorem assessRisk_atRisk_mono {input : RiskInput} {current : Rat} {threshold : Rat}
    (hwait : input.currentMinutes ≤ current) (hrisk : (assessRisk input).atRisk threshold = true) :
    (assessRisk { input with currentMinutes := current }).atRisk threshold = true := by
  unfold assessRisk at hrisk ⊢
  split at hrisk
  · cases hrisk
  · rename_i hsample
    rw [if_neg hsample]
    have hreached : threshold ≤ percentileOf input.samples input.currentMinutes := of_decide_eq_true hrisk
    exact decide_eq_true (le_trans hreached (percentileOf_mono input.samples hwait))

/-! ## The visits of a tenant -/

/-- A stay in a state, by its key in `flow_wait_risk`. -/
structure FlowVisit where
  workItemId : Uuid
  state : String
  enteredAt : Millis
  deriving DecidableEq

structure FlowItem where
  itemKey : String
  type : WorkItemType
  teamId : Uuid
  deriving DecidableEq

/-- What passes read beside the visits: settings, classes and calendars of
states, the items, and the visits that are over as pairs of an item and the
business time it took. -/
structure RiskContext where
  settings : RiskSettings
  item : Uuid → FlowItem
  classify : Uuid → String → FlowBucket
  calendar : WorkItemType → String → SlaCalendar
  history : Uuid → WorkItemType → String → List (Uuid × Int)
  target : WorkItemType → String → Option Int

structure WaitRisk where
  result : RiskResult
  visit : FlowVisit
  item : FlowItem
  classification : FlowBucket
  threshold : Rat
  atRisk : Bool

def riskInput (ctx : RiskContext) (now : Millis) (v : FlowVisit) : RiskInput :=
  let item := ctx.item v.workItemId
  let comparable := ctx.history item.teamId item.type v.state
  { samples := comparable.map fun c => (c.2 : Rat) / 60000
    sampleItems := (comparable.map (·.1)).dedup.length
    currentMinutes := (businessMs v.enteredAt now (ctx.calendar item.type v.state) : Rat) / 60000
    targetMinutes := ctx.target item.type v.state
    minSample := ctx.settings.minSample }

/-- The risk of a visit that is not over at the time; it has no open interval
before it has begun. -/
def assessVisit (ctx : RiskContext) (now : Millis) (v : FlowVisit) : Option WaitRisk :=
  let item := ctx.item v.workItemId
  let classification := ctx.classify item.teamId v.state
  if now ≤ v.enteredAt || !classification.waits then none
  else
    let result := assessRisk (riskInput ctx now v)
    some
      { result := result
        visit := v
        item := item
        classification := classification
        threshold := ctx.settings.percentileThreshold
        atRisk := result.atRisk ctx.settings.percentileThreshold }

/-- The risks of the visits that the pass finds under way. -/
def assessOrg (ctx : RiskContext) (now : Millis) (underWay : List FlowVisit) : List WaitRisk :=
  underWay.filterMap (assessVisit ctx now)

def AtRisk (ctx : RiskContext) (v : FlowVisit) (now : Millis) : Prop :=
  ∃ risk, assessVisit ctx now v = some risk ∧ risk.atRisk = true

section
variable {ctx : RiskContext} {now : Millis} {v : FlowVisit} {risk : WaitRisk}

theorem assessVisit_eq_some (h : assessVisit ctx now v = some risk) :
    v.enteredAt < now ∧ (ctx.classify (ctx.item v.workItemId).teamId v.state).waits = true ∧
      risk.visit = v ∧ risk.result = assessRisk (riskInput ctx now v) ∧
      risk.atRisk = risk.result.atRisk ctx.settings.percentileThreshold := by
  simp only [assessVisit] at h
  split at h
  · cases h
  · rename_i hopen
    rw [Bool.or_eq_true, decide_eq_true_eq, not_or, Bool.not_eq_true, Bool.not_eq_false'] at hopen
    obtain rfl := Option.some.inj h
    exact ⟨Int.not_le.mp hopen.1, hopen.2, rfl, rfl, rfl⟩

theorem AtRisk.later {now' : Millis} (h : AtRisk ctx v now) (hlater : now ≤ now') : AtRisk ctx v now' := by
  obtain ⟨risk, hrisk, hcrossed⟩ := h
  obtain ⟨hbegun, hwaits, -, hresult, hat⟩ := assessVisit_eq_some hrisk
  have hopen : (decide (now' ≤ v.enteredAt) ||
      !(ctx.classify (ctx.item v.workItemId).teamId v.state).waits) = false := by
    rw [Bool.or_eq_false_iff, decide_eq_false_iff_not, Bool.not_eq_false']
    exact ⟨Int.not_le.mpr (Int.lt_of_lt_of_le hbegun hlater), hwaits⟩
  refine ⟨_, by simp only [assessVisit, hopen]; rfl, ?_⟩
  rw [hat, hresult] at hcrossed
  have hwait : (riskInput ctx now v).currentMinutes ≤ (riskInput ctx now' v).currentMinutes := by
    have hms := businessMs_mono v.enteredAt hlater (ctx.calendar (ctx.item v.workItemId).type v.state)
    have hcast : (businessMs v.enteredAt now (ctx.calendar (ctx.item v.workItemId).type v.state) : Rat) ≤
        businessMs v.enteredAt now' (ctx.calendar (ctx.item v.workItemId).type v.state) := by
      exact_mod_cast hms
    exact div_le_div_of_nonneg_right hcast (by norm_num)
  exact assessRisk_atRisk_mono hwait hcrossed

theorem scored_of_atRisk (h : assessVisit ctx now v = some risk) (hat : risk.atRisk = true) :
    ∃ score, risk.result = .scored score := by
  obtain ⟨-, -, -, -, hresult⟩ := assessVisit_eq_some h
  rw [hresult] at hat
  cases hcase : risk.result with
  | insufficientHistory size items least message => rw [hcase] at hat; cases hat
  | scored score => exact ⟨score, rfl⟩

end

end Cadena.Flow
