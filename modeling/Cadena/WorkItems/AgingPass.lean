import Cadena.WorkItems.WorkItem

/-!
# The aging pass

What `recomputeAgingForOrg` makes of one item that it has read: the SLA clock,
which follows a change of the policy of the item's state, the score and the
bucket, and the statement that stores them where one of them has changed.
-/

namespace Cadena.WorkItems

open Cadena.Base Cadena.Connectors

def runningMinutes (item : WorkItem) (clock : SlaClock) (now : Millis) (calendar : SlaCalendar) : Nat :=
  calculateElapsedMinutes (clock.startedAt.getD item.enteredStateAt) now calendar

def recomputeClock (policy : Option SlaPolicy) (item : WorkItem) (now : Millis) : SlaClock :=
  match policy with
  | none => item.sla
  | some p =>
    if p.suspendSla && !item.sla.suspended then
      ⟨item.sla.elapsedMinutes + runningMinutes item item.sla now p.calendar, none, true⟩
    else if !p.suspendSla && item.sla.suspended then
      ⟨item.sla.elapsedMinutes, some now, false⟩
    else item.sla

def recomputeAging (policy : Option SlaPolicy) (item : WorkItem) (now : Millis) : Rat × AgingBucket :=
  match policy with
  | none => (0, .green)
  | some p =>
    let clock := recomputeClock policy item now
    let running := if clock.suspended then 0 else runningMinutes item clock now p.calendar
    computeAgingFromElapsed (clock.elapsedMinutes + running) p.thresholdMinutes

/-- The item as a pass would have it. -/
def recomputed (policies : List SlaPolicy) (now : Millis) (item : WorkItem) : WorkItem :=
  let policy := policyFor policies item.orgId item.type item.status
  let aging := recomputeAging policy item now
  { item with
    agingScore := aging.1
    agingBucket := aging.2
    sla := recomputeClock policy item now }

def agingChanged (item next : WorkItem) : Bool :=
  item.agingBucket != next.agingBucket || item.agingScore != next.agingScore || item.sla != next.sla

/-- `UPDATE work_items SET … WHERE id = …`. -/
def setAging (next row : WorkItem) : WorkItem :=
  { row with
    agingBucket := next.agingBucket
    agingScore := next.agingScore
    sla := next.sla }

theorem sla_of_not_changed {item next : WorkItem} (h : agingChanged item next = false) :
    next.sla = item.sla := by
  simp only [agingChanged, Bool.or_eq_false_iff, bne_eq_false_iff_eq] at h
  exact h.2.symm

end Cadena.WorkItems
