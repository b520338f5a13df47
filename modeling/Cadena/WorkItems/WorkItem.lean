import Cadena.Connectors.Types

/-!
# Work items

A row of `work_items`, the SLA calculator, and the update that
`commitStateChange` of the workflow service makes: the new state, the SLA
clock that follows from the policies of the two states, and the custom
fields, on condition that the item still has the state it was read in.
-/

namespace Cadena.WorkItems

open Cadena.Base Cadena.Connectors

inductive WorkItemType where
  | epic | story | incident | release
  deriving DecidableEq

inductive WorkItemPriority where
  | p0 | p1 | p2 | p3 | p4
  deriving DecidableEq

inductive WorkItemSeverity where
  | sev1 | sev2 | sev3 | sev4
  deriving DecidableEq

inductive AgingBucket where
  | green | amber | red
  deriving DecidableEq

/-- What `sla_elapsed_minutes`, `sla_clock_started_at` and `sla_suspended`
hold. -/
structure SlaClock where
  elapsedMinutes : Nat
  startedAt : Option Millis
  suspended : Bool
  deriving DecidableEq

/-- The source record of an item with origin `connector`. -/
structure WorkItemSource where
  twinId : Uuid
  connectorId : Uuid
  system : String
  nativeUrl : Option String
  updatedAt : Option Millis
  deriving DecidableEq

/-- A row of `work_items`; an item without a source has origin `local`. -/
structure WorkItem where
  id : Uuid
  orgId : Uuid
  itemKey : String
  type : WorkItemType
  title : String
  description : String
  status : String
  workflowVersion : Nat
  priority : WorkItemPriority
  severity : Option WorkItemSeverity
  ownerId : Option Uuid
  teamId : Uuid
  enteredStateAt : Millis
  createdAt : Millis
  agingBucket : AgingBucket
  agingScore : Rat
  sla : SlaClock
  customFields : Fields
  tags : List String
  source : Option WorkItemSource

/-! ## The SLA calculator -/

inductive SlaCalendar where
  /-- `5x8`: Monday to Friday, nine to five UTC. -/
  | businessHours
  | always
  deriving DecidableEq

/-- A row of `sla_policies`; the three first columns are its key. -/
structure SlaPolicy where
  orgId : Uuid
  itemType : WorkItemType
  state : String
  thresholdMinutes : Int
  calendar : SlaCalendar
  suspendSla : Bool
  deriving DecidableEq

def msPerMinute : Int := 60000
def msPerHour : Int := 3600000
def msPerDay : Int := 86400000

/-- `getUTCDay()` is 1 to 5. -/
def isWeekday (t : Millis) : Bool :=
  let day := (t / msPerDay + 4) % 7
  1 ≤ day && day ≤ 5

/-- `getUTCHours()`. -/
def utcHours (t : Millis) : Int := t % msPerDay / msPerHour

/-- The instant of the day of `t` at a full hour. -/
def atHour (t : Millis) (hour : Int) : Millis := t / msPerDay * msPerDay + hour * msPerHour

/-- The loop of the business calendar, from `curr` on with the milliseconds
counted so far. Every turn moves `curr` on. -/
def businessMs (now : Millis) : Nat → Millis → Int → Int
  | 0, _, elapsed => elapsed
  | fuel + 1, curr, elapsed =>
    if now ≤ curr then elapsed
    else if isWeekday curr && 9 ≤ utcHours curr && utcHours curr < 17 then
      let nextMinute := (curr / msPerMinute + 1) * msPerMinute
      let nextBoundary := min now (min nextMinute (atHour curr 17))
      businessMs now fuel nextBoundary (elapsed + (nextBoundary - curr))
    else
      let nextWorkTime :=
        if isWeekday curr && utcHours curr < 9 then atHour curr 9
        else atHour (curr + msPerDay) 9
      if now < nextWorkTime then elapsed else businessMs now fuel nextWorkTime elapsed

def calculateElapsedMinutes (enteredAt now : Millis) (calendar : SlaCalendar) : Nat :=
  if now ≤ enteredAt then 0
  else
    match calendar with
    | .always => ((now - enteredAt) / msPerMinute).toNat
    | .businessHours =>
      (businessMs now (now - enteredAt).toNat enteredAt 0 / msPerMinute).toNat

/-- `Math.round(x * 100) / 100`. -/
def roundCents (x : Rat) : Rat := (x * 100 + 1 / 2).floor / 100

def computeAgingFromElapsed (elapsedMinutes : Nat) (thresholdMinutes : Int) : Rat × AgingBucket :=
  let agingScore : Rat :=
    if 0 < thresholdMinutes then (elapsedMinutes : Rat) / thresholdMinutes * 100 else 0
  let agingBucket : AgingBucket :=
    if 100 < agingScore then .red else if 75 ≤ agingScore then .amber else .green
  (roundCents agingScore, agingBucket)

def policyFor (policies : List SlaPolicy) (orgId : Uuid) (type : WorkItemType) (state : String) :
    Option SlaPolicy :=
  policies.find? fun p => p.orgId == orgId && p.itemType == type && p.state == state

/-! ## `commitStateChange` -/

/-- The SLA clock after the item has left its state for `toState`. -/
def transitionClock (policies : List SlaPolicy) (item : WorkItem) (toState : String)
    (now : Millis) : SlaClock :=
  let fromPolicy := policyFor policies item.orgId item.type item.status
  let targetPolicy := policyFor policies item.orgId item.type toState
  if (targetPolicy.map (·.suspendSla)).getD false then
    let accrued :=
      if item.sla.suspended then 0
      else
        match fromPolicy with
        | none => 0
        | some p =>
          calculateElapsedMinutes (item.sla.startedAt.getD item.enteredStateAt) now p.calendar
    ⟨item.sla.elapsedMinutes + accrued, none, true⟩
  else if item.sla.suspended then
    -- leaving a hold state keeps what has accrued
    ⟨item.sla.elapsedMinutes, none, false⟩
  else ⟨0, none, false⟩

/-- A state change as computed from the item that was read. -/
structure StateChange where
  fromState : String
  toState : String
  time : Millis
  clock : SlaClock
  customFields : Fields

def stateChangeOf (policies : List SlaPolicy) (item : WorkItem) (toState : String) (now : Millis)
    (mergedFields : Fields) : StateChange where
  fromState := item.status
  toState := toState
  time := now
  clock := transitionClock policies item toState now
  customFields := mergedFields

/-- The change that a transition makes to the item it has read. -/
def moveOf (policies : List SlaPolicy) (item : WorkItem) (toState : String) (now : Millis)
    (fields : Fields) : StateChange :=
  stateChangeOf policies item toState now (spread item.customFields fields)

/-- The columns that the update of a state change sets. -/
def StateChange.apply (change : StateChange) (row : WorkItem) : WorkItem :=
  { row with
    status := change.toState
    enteredStateAt := change.time
    sla := change.clock
    customFields := change.customFields }

/-- `UPDATE … WHERE id = … AND status = …`; no row is an error. -/
def StateChange.commit (change : StateChange) (row : WorkItem) : Option WorkItem :=
  if row.status = change.fromState then some (change.apply row) else none

end Cadena.WorkItems
