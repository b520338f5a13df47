import Cadena.Connectors.TwinProjection
import Cadena.WorkItems.SlaAccounting
import Cadena.WorkItems.WorkflowVersions

/-!
# Time on hold

Transitions and aging passes on one item under fixed policies, each with
nothing in between. A new item has a clock that runs, whatever the policy of
its first state says. Where that state is not a hold state, the clock is
suspended exactly in the hold states: a pass scores time that was spent
outside of them and leaves the clock as it is.
-/

namespace Cadena.WorkItems

open Cadena.Base Cadena.Connectors

inductive ClockOp where
  | pass (now : Millis)
  | move (toState : String) (now : Millis) (fields : Fields)

def ClockOp.time : ClockOp → Millis
  | .pass now => now
  | .move _ now _ => now

def ClockOp.under (policies : List SlaPolicy) : ClockOp → SlaOp
  | .pass now => .pass policies now
  | .move toState now fields => .move policies toState now fields

def ClockOp.run (policies : List SlaPolicy) (item : WorkItem) (op : ClockOp) : WorkItem :=
  SlaOp.run item (op.under policies)

/-- A stay in a state. -/
structure Visit where
  state : String
  entered : Millis
  left : Millis
  deriving DecidableEq

/-- The stays up to `now`, the last of them not yet over. -/
def visits (state : String) (entered : Millis) (now : Millis) : List ClockOp → List Visit
  | [] => [⟨state, entered, now⟩]
  | .pass _ :: ops => visits state entered now ops
  | .move toState time _ :: ops => ⟨state, entered, time⟩ :: visits toState time now ops

/-- `suspend_sla` of the policy for the state. -/
def onHold (policies : List SlaPolicy) (orgId : Uuid) (type : WorkItemType) (state : String) : Bool :=
  ((policyFor policies orgId type state).map (·.suspendSla)).getD false

/-- The minutes of a stay by the calendar of the state's policy. -/
def Visit.minutes (policies : List SlaPolicy) (orgId : Uuid) (type : WorkItemType) (v : Visit) : Nat :=
  match policyFor policies orgId type v.state with
  | none => 0
  | some p => calculateElapsedMinutes v.entered v.left p.calendar

/-- `elapsedMinutes` of a pass, which it scores. -/
def scoredMinutes (policies : List SlaPolicy) (item : WorkItem) (now : Millis) : Option Nat :=
  (policyFor policies item.orgId item.type item.status).map fun p =>
    let clock := recomputeClock (some p) item now
    clock.elapsedMinutes + if clock.suspended then 0 else runningMinutes item clock now p.calendar

/-- The columns of the clock as an insert leaves them. -/
def newClock : SlaClock := ⟨0, none, false⟩

theorem createdItem_clock (dto : NewWorkItem) (workflow : Option PublishedWorkflow) :
    (createdItem dto workflow).sla = newClock := rfl

theorem projectedItem_clock (ctx : Projections.ProjectionContext) (clock : Projections.Clock) (id : Uuid)
    (twin : CanonicalTwin) (state : Projections.Snapshot) (d : Projections.Desired) :
    (Projections.projectedItem ctx clock id twin state d).sla = newClock := rfl

/-- An operation with the columns of the clock that it reads, and the minutes
that a pass scores or a transition keeps. -/
structure Seen where
  elapsedMinutes : Nat
  suspended : Bool
  outcome : Option Nat
  deriving DecidableEq

def seenBy (policies : List SlaPolicy) (item : WorkItem) (op : ClockOp) : Seen where
  elapsedMinutes := item.sla.elapsedMinutes
  suspended := item.sla.suspended
  outcome :=
    match op with
    | .pass now => scoredMinutes policies item now
    | .move toState now _ => some (transitionClock policies item toState now).elapsedMinutes

/-- An operation of a run, or a pass that has been put in between. -/
inductive Placed where
  | kept (op : ClockOp)
  | extra (now : Millis)

def Placed.op : Placed → ClockOp
  | .kept op => op
  | .extra now => .pass now

def Placed.isKept : Placed → Bool
  | .kept _ => true
  | .extra _ => false

/-- What the operations of the run see, one after the other. -/
def seen (policies : List SlaPolicy) : WorkItem → List Placed → List Seen
  | _, [] => []
  | item, .kept op :: rest => seenBy policies item op :: seen policies (op.run policies item) rest
  | item, .extra now :: rest => seen policies ((ClockOp.pass now).run policies item) rest

/-- The minutes that a pass scores are those of stays outside the hold
states. -/
def ScoresNoHeldTime (policies : List SlaPolicy) (item : WorkItem) : Prop :=
  ∀ (ops : List ClockOp) (now : Millis),
    (ops.map ClockOp.time ++ [now]).Pairwise (· ≤ ·) →
    ∀ minutes ∈ scoredMinutes policies (ops.foldl (ClockOp.run policies) item) now,
      ∃ charged : List Visit, charged.Sublist (visits item.status item.enteredStateAt now ops) ∧
        (∀ v ∈ charged, onHold policies item.orgId item.type v.state = false) ∧
        minutes = (charged.map (Visit.minutes policies item.orgId item.type)).sum

/-- Passes put in between change nothing that the operations of a run see. -/
def PassesUnseen (policies : List SlaPolicy) (item : WorkItem) : Prop :=
  ∀ run : List Placed, (run.map fun p => p.op.time).Pairwise (· ≤ ·) →
    seen policies item run = seen policies item (run.filter Placed.isKept)

def HeldTimeNeverCharged (policies : List SlaPolicy) (item : WorkItem) : Prop :=
  ScoresNoHeldTime policies item ∧ PassesUnseen policies item

/-! ## The clock follows the hold states -/

/-- The clock is suspended in the hold states and in no other, and otherwise
runs from the time the state was entered. -/
structure FollowsHolds (policies : List SlaPolicy) (item : WorkItem) : Prop where
  suspended : item.sla.suspended = onHold policies item.orgId item.type item.status
  startedAt : item.sla.startedAt = none

section
variable {policies : List SlaPolicy} {item row : WorkItem}

theorem onHold_of_policy {orgId : Uuid} {type : WorkItemType} {state : String} {p : SlaPolicy}
    (h : policyFor policies orgId type state = some p) : onHold policies orgId type state = p.suspendSla := by
  simp [onHold, h]

theorem FollowsHolds.recomputeClock (h : FollowsHolds policies item) {p : SlaPolicy}
    (hp : policyFor policies item.orgId item.type item.status = some p) (now : Millis) :
    recomputeClock (some p) item now = item.sla := by
  have hsuspended : item.sla.suspended = p.suspendSla := h.suspended.trans (onHold_of_policy hp)
  cases hhold : p.suspendSla <;> simp [WorkItems.recomputeClock, hhold, hsuspended]

theorem FollowsHolds.pass_sla (h : FollowsHolds policies item) (now : Millis) :
    (recomputed policies now item).sla = item.sla := by
  show WorkItems.recomputeClock (policyFor policies item.orgId item.type item.status) item now = item.sla
  cases hp : policyFor policies item.orgId item.type item.status with
  | none => rfl
  | some p => exact h.recomputeClock hp now

theorem FollowsHolds.pass_columns (h : FollowsHolds policies item) (now : Millis) :
    ((ClockOp.pass now).run policies item).slaColumns = item.slaColumns :=
  slaColumns_iff.mpr ⟨rfl, rfl, rfl, rfl, h.pass_sla now⟩

theorem FollowsHolds.of_columns (h : FollowsHolds policies item) (hrow : row.slaColumns = item.slaColumns) :
    FollowsHolds policies row := by
  obtain ⟨horg, htype, hstatus, -, hsla⟩ := slaColumns_iff.mp hrow
  constructor
  · rw [hsla, horg, htype, hstatus]
    exact h.suspended
  · rw [hsla]
    exact h.startedAt

theorem FollowsHolds.of_newClock (hnew : item.sla = newClock)
    (hstart : onHold policies item.orgId item.type item.status = false) : FollowsHolds policies item := by
  constructor
  · rw [hstart, hnew]
    rfl
  · rw [hnew]
    rfl

theorem transitionClock_eq (policies : List SlaPolicy) (item : WorkItem) (toState : String)
    (now : Millis) :
    transitionClock policies item toState now =
      if onHold policies item.orgId item.type toState then
        ⟨item.sla.elapsedMinutes +
          (if item.sla.suspended then 0
          else match policyFor policies item.orgId item.type item.status with
            | none => 0
            | some p =>
              calculateElapsedMinutes (item.sla.startedAt.getD item.enteredStateAt) now p.calendar),
          none, true⟩
      else if item.sla.suspended then ⟨item.sla.elapsedMinutes, none, false⟩
      else ⟨0, none, false⟩ := rfl

theorem FollowsHolds.move (policies : List SlaPolicy) (item : WorkItem) (toState : String) (now : Millis)
    (fields : Fields) : FollowsHolds policies ((ClockOp.move toState now fields).run policies item) := by
  have hclock : ((ClockOp.move toState now fields).run policies item).sla =
      transitionClock policies item toState now := rfl
  constructor
  · show _ = onHold policies item.orgId item.type toState
    rw [hclock, transitionClock_eq]
    cases onHold policies item.orgId item.type toState <;> cases item.sla.suspended <;> rfl
  · rw [hclock, transitionClock_eq]
    cases onHold policies item.orgId item.type toState <;> cases item.sla.suspended <;> rfl

theorem FollowsHolds.run (h : FollowsHolds policies item) (op : ClockOp) :
    FollowsHolds policies (op.run policies item) := by
  cases op with
  | pass now => exact h.of_columns (h.pass_columns now)
  | move toState now fields => exact .move policies item toState now fields

/-! ## Held time is not scored -/

/-- The minutes of the stays that come before a transition stay on the clock,
go up by those of a stay that it puts on hold, or are dropped. -/
theorem FollowsHolds.move_elapsed (h : FollowsHolds policies item) (toState : String) (now : Millis) :
    (transitionClock policies item toState now).elapsedMinutes = 0 ∨
    (transitionClock policies item toState now).elapsedMinutes = item.sla.elapsedMinutes ∨
    onHold policies item.orgId item.type item.status = false ∧
      (transitionClock policies item toState now).elapsedMinutes = item.sla.elapsedMinutes +
        Visit.minutes policies item.orgId item.type ⟨item.status, item.enteredStateAt, now⟩ := by
  rw [transitionClock_eq, h.suspended, h.startedAt]
  cases htarget : onHold policies item.orgId item.type toState <;>
    cases hsource : onHold policies item.orgId item.type item.status
  case false.false => exact .inl rfl
  case false.true => exact .inr (.inl rfl)
  case true.true => exact .inr (.inl rfl)
  case true.false => exact .inr (.inr ⟨rfl, rfl⟩)

theorem FollowsHolds.scored (h : FollowsHolds policies item) {now : Millis} {minutes : Nat}
    (hscored : scoredMinutes policies item now = some minutes) :
    minutes = item.sla.elapsedMinutes +
      if onHold policies item.orgId item.type item.status then 0
      else Visit.minutes policies item.orgId item.type ⟨item.status, item.enteredStateAt, now⟩ := by
  obtain ⟨p, hp, hminutes⟩ := Option.map_eq_some_iff.mp hscored
  rw [h.recomputeClock hp now] at hminutes
  simp only [runningMinutes, h.startedAt, h.suspended, Option.getD_none] at hminutes
  simp only [Visit.minutes, hp]
  exact hminutes.symm

/-- What a pass scores at the end of a run: minutes of stays outside the hold
states, on top of those on the clock at first or of none. -/
theorem FollowsHolds.run_scored (ops : List ClockOp) {now : Millis} {minutes : Nat} :
    ∀ {item : WorkItem}, FollowsHolds policies item →
    scoredMinutes policies (ops.foldl (ClockOp.run policies) item) now = some minutes →
    ∃ charged : List Visit, charged.Sublist (visits item.status item.enteredStateAt now ops) ∧
      (∀ v ∈ charged, onHold policies item.orgId item.type v.state = false) ∧
      ∃ carried, (carried = 0 ∨ carried = item.sla.elapsedMinutes) ∧
        minutes = carried + (charged.map (Visit.minutes policies item.orgId item.type)).sum := by
  induction ops with
  | nil =>
    intro item h hscored
    have hminutes := h.scored hscored
    cases hhold : onHold policies item.orgId item.type item.status with
    | true =>
      refine ⟨[], List.nil_sublist _, by simp, item.sla.elapsedMinutes, .inr rfl, ?_⟩
      simpa [hhold] using hminutes
    | false =>
      refine ⟨_, List.Sublist.refl _, by simp [visits, hhold], item.sla.elapsedMinutes, .inr rfl, ?_⟩
      simpa [hhold, visits] using hminutes
  | cons op ops ih =>
    intro item h hscored
    obtain ⟨charged, hsublist, hrunning, carried, hcarried, hminutes⟩ := ih (h.run op) hscored
    cases op with
    | pass time =>
      refine ⟨charged, hsublist, hrunning, carried, ?_, hminutes⟩
      rw [show ((ClockOp.pass time).run policies item).sla = item.sla from h.pass_sla time] at hcarried
      exact hcarried
    | move toState time fields =>
      have hlater : charged.Sublist (visits item.status item.enteredStateAt now
          (.move toState time fields :: ops)) := hsublist.cons _
      rcases hcarried with hdropped | hkept
      · exact ⟨charged, hlater, hrunning, carried, .inl hdropped, hminutes⟩
      · rcases h.move_elapsed toState time with hzero | hsame | ⟨hopen, hmore⟩
        · exact ⟨charged, hlater, hrunning, carried, .inl (hkept.trans hzero), hminutes⟩
        · exact ⟨charged, hlater, hrunning, carried, .inr (hkept.trans hsame), hminutes⟩
        · -- the stay that ends is charged with those that follow
          refine ⟨_ :: charged, hsublist.cons_cons _, ?_, item.sla.elapsedMinutes, .inr rfl, ?_⟩
          · intro v hv
            rcases List.mem_cons.mp hv with rfl | hv
            · exact hopen
            · exact hrunning v hv
          · have hcarried : carried = item.sla.elapsedMinutes + Visit.minutes policies item.orgId
                item.type ⟨item.status, item.enteredStateAt, time⟩ := hkept.trans hmore
            rw [List.map_cons, List.sum_cons, ← Nat.add_assoc, ← hcarried]
            exact hminutes

theorem scoresNoHeldTime (hnew : item.sla = newClock)
    (hstart : onHold policies item.orgId item.type item.status = false) :
    ScoresNoHeldTime policies item := by
  intro ops now _ minutes hscored
  obtain ⟨charged, hsublist, hrunning, carried, hcarried, hminutes⟩ :=
    FollowsHolds.run_scored ops (.of_newClock hnew hstart) hscored
  have hzero : carried = 0 := by
    rw [hnew] at hcarried
    exact hcarried.elim id id
  refine ⟨charged, hsublist, hrunning, ?_⟩
  omega

theorem seenBy_of_columns (hrow : row.slaColumns = item.slaColumns) (op : ClockOp) :
    seenBy policies row op = seenBy policies item op := by
  obtain ⟨horg, htype, hstatus, hentered, hsla⟩ := slaColumns_iff.mp hrow
  cases op with
  | pass now =>
    have hclock : ∀ p, recomputeClock p row now = recomputeClock p item now := by
      intro p
      simp only [recomputeClock, runningMinutes, hentered, hsla]
    have hscored : scoredMinutes policies row now = scoredMinutes policies item now := by
      simp only [scoredMinutes, hclock, runningMinutes, horg, htype, hstatus, hentered]
    simp only [seenBy, hscored, hsla]
  | move toState now fields =>
    simp only [seenBy, transitionClock, horg, htype, hstatus, hentered, hsla]

theorem FollowsHolds.seen_kept (run : List Placed) : ∀ {item row : WorkItem}, FollowsHolds policies item →
    row.slaColumns = item.slaColumns →
    seen policies item run = seen policies row (run.filter Placed.isKept) := by
  induction run with
  | nil => intro item row _ _; rfl
  | cons placed rest ih =>
    intro item row h hrow
    cases placed with
    | kept op =>
      have hnext : (op.run policies row).slaColumns = (op.run policies item).slaColumns :=
        slaRun_respects row item (op.under policies) hrow
      show seenBy policies item op :: _ = seenBy policies row op :: _
      rw [seenBy_of_columns hrow, ih (h.run op) hnext]
    | extra now => exact ih (h.run (.pass now)) (hrow.trans (h.pass_columns now).symm)

theorem passesUnseen (hnew : item.sla = newClock)
    (hstart : onHold policies item.orgId item.type item.status = false) : PassesUnseen policies item :=
  fun run _ => FollowsHolds.seen_kept run (.of_newClock hnew hstart) rfl

/-! ## A new item in a hold state -/

theorem isWeekday_iff (t : Int) :
    isWeekday t = true ↔ 1 ≤ (t / 86400000 + 4) % 7 ∧ (t / 86400000 + 4) % 7 ≤ 5 := by
  show (decide (1 ≤ (t / 86400000 + 4) % 7) && decide ((t / 86400000 + 4) % 7 ≤ 5)) = true ↔ _
  rw [Bool.and_eq_true, decide_eq_true_eq, decide_eq_true_eq]

theorem utcHours_eq (t : Int) : utcHours t = t % 86400000 / 3600000 := rfl

theorem businessMs_turn (now curr elapsed : Int) (fuel : Nat) :
    businessMs now (fuel + 1) curr elapsed =
      if now ≤ curr then elapsed
      else if isWeekday curr && 9 ≤ utcHours curr && utcHours curr < 17 then
        let next := min now (min ((curr / 60000 + 1) * 60000) (curr / 86400000 * 86400000 + 61200000))
        businessMs now fuel next (elapsed + (next - curr))
      else
        let next :=
          if isWeekday curr && utcHours curr < 9 then curr / 86400000 * 86400000 + 32400000
          else (curr + 86400000) / 86400000 * 86400000 + 32400000
        if now < next then elapsed else businessMs now fuel next elapsed := rfl

/-- A full minute of the business calendar. -/
structure IsWorkingMinute (m : Int) : Prop where
  full : m % 60000 = 0
  weekday : isWeekday m = true
  opened : 9 ≤ utcHours m
  closes : utcHours m < 17

theorem exists_workingMinute (t : Int) : ∃ m, t ≤ m ∧ IsWorkingMinute m := by
  refine ⟨(7 * (t / 86400000 / 7 + 1) + 4) * 86400000 + 32400000, by omega, by omega, ?_, ?_, ?_⟩
  · rw [isWeekday_iff]
    omega
  · rw [utcHours_eq]
    omega
  · rw [utcHours_eq]
    omega

theorem businessMs_workingMinute {m : Int} (hm : IsWorkingMinute m) (fuel : Nat) :
    ∀ {curr elapsed : Int}, curr ≤ m → m + 60000 - curr ≤ fuel →
      elapsed + 60000 ≤ businessMs (m + 60000) fuel curr elapsed := by
  obtain ⟨hfull, hweekday, hopened, hcloses⟩ := hm
  rw [isWeekday_iff] at hweekday
  rw [utcHours_eq] at hopened hcloses
  induction fuel with
  | zero => intro curr elapsed hcurr hfuel; omega
  | succ fuel ih =>
    intro curr elapsed hcurr hfuel
    rw [businessMs_turn, if_neg (by omega)]
    split
    · rename_i hworking
      rw [Bool.and_eq_true, Bool.and_eq_true, isWeekday_iff, decide_eq_true_eq, decide_eq_true_eq,
        utcHours_eq] at hworking
      dsimp only
      generalize hnext : min (m + 60000)
        (min ((curr / 60000 + 1) * 60000) (curr / 86400000 * 86400000 + 61200000)) = next
      rcases Int.lt_or_eq_of_le hcurr with hbefore | hreached
      · have hlater : elapsed + (next - curr) + 60000 ≤
            businessMs (m + 60000) fuel next (elapsed + (next - curr)) := ih (by omega) (by omega)
        omega
      · -- the minute itself, after which the loop is over
        have hend : next = m + 60000 := by omega
        subst hend
        cases fuel with
        | zero => simp only [businessMs]; omega
        | succ fuel => rw [businessMs_turn, if_pos (Int.le_refl _)]; omega
    · rename_i hidle
      rw [Bool.and_eq_true, Bool.and_eq_true, isWeekday_iff, decide_eq_true_eq, decide_eq_true_eq,
        utcHours_eq] at hidle
      dsimp only
      split
      · rename_i hearly
        rw [Bool.and_eq_true, isWeekday_iff, decide_eq_true_eq, utcHours_eq] at hearly
        rw [if_neg (by omega)]
        exact ih (by omega) (by omega)
      · rename_i hlate
        rw [Bool.and_eq_true, isWeekday_iff, decide_eq_true_eq, utcHours_eq] at hlate
        rw [if_neg (by omega)]
        exact ih (by omega) (by omega)

theorem calculateElapsedMinutes_of_lt {entered now : Int} (h : entered < now) (calendar : SlaCalendar) :
    calculateElapsedMinutes entered now calendar =
      match calendar with
      | .always => ((now - entered) / 60000).toNat
      | .businessHours => (businessMs now (now - entered).toNat entered 0 / 60000).toNat := by
  unfold calculateElapsedMinutes
  rw [if_neg (Int.not_le.mpr h)]
  rfl

theorem exists_elapsed (entered : Int) (calendar : SlaCalendar) :
    ∃ now : Int, 0 < calculateElapsedMinutes entered now calendar := by
  cases calendar with
  | always =>
    refine ⟨entered + 60000, ?_⟩
    rw [calculateElapsedMinutes_of_lt (by omega)]
    dsimp only
    omega
  | businessHours =>
    obtain ⟨m, hafter, hm⟩ := exists_workingMinute entered
    have hcounted : 0 + 60000 ≤ businessMs (m + 60000) (m + 60000 - entered).toNat entered 0 :=
      businessMs_workingMinute hm _ hafter (by omega)
    refine ⟨m + 60000, ?_⟩
    rw [calculateElapsedMinutes_of_lt (by omega)]
    dsimp only
    omega

theorem scored_on_hold (hnew : item.sla = newClock) {p : SlaPolicy}
    (hp : policyFor policies item.orgId item.type item.status = some p) (hhold : p.suspendSla = true)
    (now : Millis) :
    scoredMinutes policies item now = some (calculateElapsedMinutes item.enteredStateAt now p.calendar) := by
  simp [scoredMinutes, hp, recomputeClock, hhold, hnew, newClock, runningMinutes]

theorem exists_policy_of_onHold {orgId : Uuid} {type : WorkItemType} {state : String}
    (h : onHold policies orgId type state = true) :
    ∃ p, policyFor policies orgId type state = some p ∧ p.suspendSla = true := by
  cases hp : policyFor policies orgId type state with
  | none => simp [onHold, hp] at h
  | some p => exact ⟨p, rfl, (onHold_of_policy hp).symm.trans h⟩

theorem scoresNoHeldTime_iff (hnew : item.sla = newClock) :
    ScoresNoHeldTime policies item ↔ onHold policies item.orgId item.type item.status = false := by
  refine ⟨fun h => Bool.eq_false_iff.mpr fun hstart => ?_, scoresNoHeldTime hnew⟩
  obtain ⟨p, hp, hhold⟩ := exists_policy_of_onHold hstart
  obtain ⟨now, hpositive⟩ := exists_elapsed item.enteredStateAt p.calendar
  obtain ⟨charged, hsublist, hrunning, hminutes⟩ :=
    h [] now (List.pairwise_singleton ..) _ (scored_on_hold hnew hp hhold now)
  have hnone : charged = [] := by
    cases List.sublist_singleton.mp hsublist with
    | inl hnil => exact hnil
    | inr hone =>
      have hopen := hrunning _ (hone ▸ List.mem_singleton_self _)
      rw [hstart] at hopen
      cases hopen
  rw [hnone, List.map_nil, List.sum_nil] at hminutes
  omega

/-- Held time is never charged to a new item, and passes in between are never
seen, exactly where its first state is not a hold state. -/
theorem held_time_never_charged_iff (policies : List SlaPolicy) (item : WorkItem)
    (hnew : item.sla = newClock) :
    HeldTimeNeverCharged policies item ↔ onHold policies item.orgId item.type item.status = false :=
  ⟨fun h => (scoresNoHeldTime_iff hnew).mp h.1,
    fun h => ⟨scoresNoHeldTime hnew h, passesUnseen hnew h⟩⟩

end

/-- The epic of the tenant, projected while it is blocked in its source. -/
def blockedEpic : WorkItem := { reviewedEpic with status := "Blocked" }

/-- Two hours on hold are scored. -/
theorem held_time_charged : ¬ ∀ (policies : List SlaPolicy) (item : WorkItem), item.sla = newClock →
    HeldTimeNeverCharged policies item := by
  intro h
  obtain ⟨charged, hsublist, hrunning, hminutes⟩ :=
    (h reviewPolicies blockedEpic rfl).1 [] 7200000 (List.pairwise_singleton ..) 120 (by decide)
  have hvisit : onHold reviewPolicies 1 .epic "Blocked" = true := by decide
  have hnone : charged = [] := by
    cases List.sublist_singleton.mp hsublist with
    | inl hnil => exact hnil
    | inr hone =>
      have hopen := hrunning _ (hone ▸ List.mem_singleton_self _)
      exact absurd (hvisit.symm.trans hopen) (by decide)
  rw [hnone, List.map_nil, List.sum_nil] at hminutes
  omega

theorem held_time_never_charged_reviewed :
    HeldTimeNeverCharged reviewPolicies reviewedEpic :=
  (held_time_never_charged_iff reviewPolicies reviewedEpic rfl).mpr (by decide)

end Cadena.WorkItems
