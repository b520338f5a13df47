import Cadena.Base.Transition
import Cadena.Connectors.Types
import Mathlib.Data.Rat.Floor

/-!
# The rate governor of one target

The row of `integration_rate_governance` for one organisation and target,
and the transactions of `ConnectorRateGovernor` that write it. Any number
of calls in any number of processes run against the row; every transaction
locks it first, so each is one atomic step with the clock reading of its
own worker.

Jitter is computed in rationals where the source has floating point.
-/

namespace Cadena.Connectors

open Cadena.Base

def probeLeaseMs : Millis := 30000

structure RateGovernancePolicy where
  requestsPerMinute : Nat
  headroomPercentage : Nat
  maxConcurrent : Nat
  baseBackoffMs : Nat
  maxBackoffMs : Nat
  jitterRatio : ℚ
  shedAfterPressureResponses : Nat

def defaultRateGovernance : RateGovernancePolicy where
  requestsPerMinute := 600
  headroomPercentage := 90
  maxConcurrent := 4
  baseBackoffMs := 1000
  maxBackoffMs := 60000
  jitterRatio := 1 / 5
  shedAfterPressureResponses := 2

/-- A row of `integration_rate_governance`. -/
structure GovernanceRow where
  requestsPerMinute : Nat
  headroomPercentage : Nat
  maxConcurrent : Nat
  windowStartedAt : Millis
  usedRequests : Nat
  totalRequests : Nat
  succeededRequests : Nat
  failedRequests : Nat
  consecutiveFailures : Nat
  retryNotBefore : Option Millis
  lastDelayMs : Nat
  throttleEvents : Nat
  semaphorePressureEvents : Nat
  retryEvents : Nat
  shapedWaitMs : Nat
  lastStatus : Option Nat
  pressureStreak : Nat
  sheddingSince : Option Millis
  shedUntil : Option Millis
  shedReason : Option String
  shedEpisodes : Nat
  shedRequests : Nat
  probeOwner : Option Uuid
  probeExpiresAt : Option Millis

/-- The columns that the insert names; the others have their defaults. -/
def newGovernanceRow (policy : RateGovernancePolicy) (nowMs : Millis) : GovernanceRow where
  requestsPerMinute := policy.requestsPerMinute
  headroomPercentage := policy.headroomPercentage
  maxConcurrent := policy.maxConcurrent
  windowStartedAt := nowMs
  usedRequests := 0
  totalRequests := 0
  succeededRequests := 0
  failedRequests := 0
  consecutiveFailures := 0
  retryNotBefore := none
  lastDelayMs := 0
  throttleEvents := 0
  semaphorePressureEvents := 0
  retryEvents := 0
  shapedWaitMs := 0
  lastStatus := none
  pressureStreak := 0
  sheddingSince := none
  shedUntil := none
  shedReason := none
  shedEpisodes := 0
  shedRequests := 0
  probeOwner := none
  probeExpiresAt := none

/-! ## Admission -/

inductive SheddingState where
  | normal | shedding | probing
  deriving DecidableEq

def sheddingState (row : GovernanceRow) (nowMs : Millis) : SheddingState :=
  match row.sheddingSince, row.shedUntil with
  | none, _ => .normal
  | some _, some until_ => if nowMs < until_ then .shedding else .probing
  | some _, none => .probing

/-- Another call probes and its lease has not run out. -/
def probeHeld (row : GovernanceRow) (nowMs : Millis) : Bool :=
  match row.probeOwner, row.probeExpiresAt with
  | some _, some expires => nowMs < expires
  | _, _ => false

inductive Admission where
  | shed (until_ : Option Millis) (reason : Option String)
  | wait (ms : Nat)
  | admitted (probe : Option Uuid)

def effectiveLimit (row : GovernanceRow) (policy : RateGovernancePolicy) : Nat :=
  max 1 (min row.requestsPerMinute policy.requestsPerMinute
    * min row.headroomPercentage policy.headroomPercentage / 100)

/-- The quota window is over. -/
def windowExpired (row : GovernanceRow) (nowMs : Millis) : Bool :=
  row.windowStartedAt + 60000 ≤ nowMs

def windowUsed (row : GovernanceRow) (nowMs : Millis) : Nat :=
  if windowExpired row nowMs then 0 else row.usedRequests

def windowStart (row : GovernanceRow) (nowMs : Millis) : Millis :=
  if windowExpired row nowMs then nowMs else row.windowStartedAt

/-- How long the call waits for the next window; zero when there is quota. -/
def quotaWait (policy : RateGovernancePolicy) (row : GovernanceRow) (nowMs : Millis) : Nat :=
  if effectiveLimit row policy ≤ windowUsed row nowMs then
    max 1 (windowStart row nowMs + 60000 - nowMs).toNat
  else 0

/-- The quota columns after the call, which waits or is counted. -/
def shapeRow (policy : RateGovernancePolicy) (row : GovernanceRow) (nowMs : Millis)
    (wait : Nat) : GovernanceRow :=
  { row with
    requestsPerMinute := min row.requestsPerMinute policy.requestsPerMinute
    headroomPercentage := min row.headroomPercentage policy.headroomPercentage
    maxConcurrent := min row.maxConcurrent policy.maxConcurrent
    windowStartedAt := windowStart row nowMs
    usedRequests := windowUsed row nowMs + if wait = 0 then 1 else 0
    totalRequests := row.totalRequests + if wait = 0 then 1 else 0
    shapedWaitMs := row.shapedWaitMs + wait }

/-- The transaction of `acquireQuota` on the locked row; `probe` is the
random token that it may draw. -/
def acquireQuota (policy : RateGovernancePolicy) (nowMs : Millis) (probe : Uuid)
    (row : GovernanceRow) : GovernanceRow × Admission :=
  let state := sheddingState row nowMs
  if state = .shedding ∨ (state = .probing ∧ probeHeld row nowMs = true) then
    ({ row with shedRequests := row.shedRequests + 1 },
      .shed
        (match state with
          | .shedding => row.shedUntil
          | _ => row.probeExpiresAt.map fun expires => min expires (nowMs + policy.baseBackoffMs))
        row.shedReason)
  else
    let wait := quotaWait policy row nowMs
    let shaped := shapeRow policy row nowMs wait
    if wait ≠ 0 then (shaped, .wait wait)
    else if state = .probing then
      ({ shaped with probeOwner := some probe, probeExpiresAt := some (nowMs + probeLeaseMs) },
        .admitted (some probe))
    else (shaped, .admitted none)

/-! ## Reports -/

/-- What `recordFailure` reads of a `ConnectorRemoteError`; the delay is
`Math.ceil(retryAfterSeconds * 1000)` where the target named one. -/
structure RemoteFailure where
  message : String
  status : Option Nat
  retryable : Bool
  retryAfterMs : Option Nat

inductive SheddingEvent where
  | started (shedUntil : Millis) (status : Option Nat) (streak : Nat) (reason : String)
  | ended (since recoveredAt : Millis) (durationMs : Nat) (shedRequests : Nat)

/-- The first statement of `recordSuccess`. -/
def countSuccess (nowMs : Millis) (row : GovernanceRow) : GovernanceRow :=
  { row with
    succeededRequests := row.succeededRequests + 1, consecutiveFailures := 0
    pressureStreak := 0
    retryNotBefore := row.retryNotBefore.filter fun t => decide (nowMs < t)
    lastStatus := some 200 }

/-- The transaction of `recordSuccess`: only the stored probe ends the
episode. -/
def closeEpisode (probe : Uuid) (nowMs : Millis) (row : GovernanceRow) :
    GovernanceRow × Option SheddingEvent :=
  match row.sheddingSince with
  | some since =>
    if row.probeOwner = some probe then
      ({ row with
        sheddingSince := none, shedUntil := none, shedReason := none, probeOwner := none
        probeExpiresAt := none },
        some (.ended since nowMs (nowMs - since).toNat row.shedRequests))
    else (row, none)
  | none => (row, none)

/-- `/semaphore|too many requests|temporarily unavailable/i`. -/
def namesPressure (message : String) : Bool :=
  let text := message.toList.map Char.toLower
  ["semaphore", "too many requests", "temporarily unavailable"].any fun phrase =>
    text.tails.any phrase.toList.isPrefixOf

def RemoteFailure.pressure (error : RemoteFailure) : Bool :=
  error.status = some 503 || namesPressure error.message

/-- The exponential delay, moved by the jitter that `random` in [0, 1)
gives and kept within the bounds. -/
def jitteredDelay (policy : RateGovernancePolicy) (failures : Nat) (random : ℚ) : Nat :=
  let exponential := min policy.maxBackoffMs (policy.baseBackoffMs * 2 ^ (failures - 1))
  let factor := 1 + (random * 2 - 1) * policy.jitterRatio
  max 1 (min policy.maxBackoffMs ⌊(exponential : ℚ) * factor + 1 / 2⌋.toNat)

/-- How long the target is left alone; zero when the error is final. -/
def retryDelay (policy : RateGovernancePolicy) (failures : Nat) (random : ℚ) :
    Option RemoteFailure → Nat
  | some error =>
    if error.retryable then
      match error.retryAfterMs with
      | some (n + 1) => n + 1
      | _ => jitteredDelay policy failures random
    else 0
  | none => 0

/-- `CASE WHEN a IS NULL OR a < b THEN b ELSE a END`. -/
def laterOf (a : Option Millis) (b : Millis) : Millis :=
  match a with
  | none => b
  | some t => if t < b then b else t

def countFailure (policy : RateGovernancePolicy) (error : Option RemoteFailure)
    (nowMs : Millis) (random : ℚ) (row : GovernanceRow) : GovernanceRow :=
  let failures := row.consecutiveFailures + 1
  let delay := retryDelay policy failures random error
  { row with
    failedRequests := row.failedRequests + 1, consecutiveFailures := failures
    retryNotBefore :=
      if delay = 0 then row.retryNotBefore
      else some (laterOf row.retryNotBefore (nowMs + delay))
    lastDelayMs := delay
    throttleEvents :=
      row.throttleEvents + if error.bind (·.status) = some 429 then 1 else 0
    semaphorePressureEvents :=
      row.semaphorePressureEvents + if error.any RemoteFailure.pressure then 1 else 0
    retryEvents := row.retryEvents + if error.any (·.retryable) then 1 else 0
    lastStatus := error.bind (·.status) }

/-- Gives the probe lease up, if it is still this call's. -/
def releaseProbe (probe : Option Uuid) (row : GovernanceRow) : GovernanceRow :=
  match probe with
  | some p =>
    if row.probeOwner = some p then { row with probeOwner := none, probeExpiresAt := none }
    else row
  | none => row

/-- A retryable answer under pressure, after which the target is left alone. -/
def underPressure (policy : RateGovernancePolicy) (error : Option RemoteFailure)
    (random : ℚ) (row : GovernanceRow) : Bool :=
  error.any (fun e => e.pressure && e.retryable)
    && retryDelay policy (row.consecutiveFailures + 1) random error != 0

def nextStreak (policy : RateGovernancePolicy) (error : Option RemoteFailure) (random : ℚ)
    (row : GovernanceRow) : Nat :=
  if underPressure policy error random row then row.pressureStreak + 1 else 0

/-- Opens an episode, or moves the window of the open one and takes the
probe lease away. -/
def openEpisode (until_ nowMs : Millis) (reason : String) (row : GovernanceRow) :
    GovernanceRow :=
  { row with
    sheddingSince := some (row.sheddingSince.getD nowMs)
    shedUntil := some (laterOf row.shedUntil until_)
    shedReason := some reason
    shedEpisodes := row.shedEpisodes + if row.sheddingSince.isSome then 0 else 1
    probeOwner := none, probeExpiresAt := none }

/-- The transaction of `recordFailure`. -/
def recordFailure (policy : RateGovernancePolicy) (error : Option RemoteFailure)
    (probe : Option Uuid) (nowMs : Millis) (random : ℚ) (row : GovernanceRow) :
    GovernanceRow × Option SheddingEvent :=
  let streak := nextStreak policy error random row
  let counted :=
    { countFailure policy error nowMs random row with pressureStreak := streak }
  let already := row.sheddingSince.isSome
  if !underPressure policy error random row
      || (!already && decide (streak < policy.shedAfterPressureResponses)) then
    (releaseProbe probe counted, none)
  else
    let until_ := nowMs + retryDelay policy (row.consecutiveFailures + 1) random error
    let reason := sliceString ((error.map (·.message)).getD "semaphore pressure") 300
    (openEpisode until_ nowMs reason counted,
      if already then none
      else some (.started until_ (error.bind (·.status)) streak reason))

/-! ## The calls of all workers -/

/-- Where a governed call stands. The reading is that of the transaction
that admitted the call. -/
inductive GovernedCall where
  | waiting
  | running (probe : Option Uuid) (admittedAt : Millis)
  | counted (probe : Uuid) (admittedAt recoveredAt : Millis)
  | reported (probe : Uuid) (admittedAt : Millis)
  | finished

/-- The probe token of a call that has not ended, with the reading at
which it was admitted. -/
def GovernedCall.probe? : GovernedCall → Option (Uuid × Millis)
  | .running (some probe) admittedAt => some (probe, admittedAt)
  | .counted probe admittedAt _ => some (probe, admittedAt)
  | .reported probe admittedAt => some (probe, admittedAt)
  | _ => none

/-- The row, the calls, every token drawn so far, and the events. -/
structure GovernorState where
  row : Option GovernanceRow
  calls : Nat → Option GovernedCall
  drawn : List Uuid
  events : List SheddingEvent

inductive GovernorAction where
  | register (policy : RateGovernancePolicy) (nowMs : Millis)
  | acquire (call : Nat) (policy : RateGovernancePolicy) (nowMs : Millis) (probe : Uuid)
  | succeed (call : Nat) (nowMs : Millis)
  | close (call : Nat)
  | fail (call : Nat) (policy : RateGovernancePolicy) (error : Option RemoteFailure)
      (nowMs : Millis) (random : ℚ)

def GovernorState.advance (s : GovernorState) (row : GovernanceRow) (call : Nat)
    (stage : GovernedCall) (event : Option SheddingEvent) : GovernorState :=
  { s with
    row := some row
    calls := setAt s.calls call (some stage)
    events := s.events ++ event.toList }

/-- The upsert of `registerPolicy`. -/
def registerPolicy (policy : RateGovernancePolicy) (nowMs : Millis)
    (row : Option GovernanceRow) : GovernanceRow :=
  { row.getD (newGovernanceRow policy nowMs) with
    requestsPerMinute := policy.requestsPerMinute
    headroomPercentage := policy.headroomPercentage
    maxConcurrent := policy.maxConcurrent }

def admittedStage (nowMs : Millis) : Admission → GovernedCall
  | .shed _ _ => .finished
  | .wait _ => .waiting
  | .admitted probe => .running probe nowMs

/-- A call that begins, or one that slept through its quota wait. Random
tokens do not repeat. -/
def acquireStep (s : GovernorState) (call : Nat) (policy : RateGovernancePolicy)
    (nowMs : Millis) (probe : Uuid) : Option GovernorState :=
  if probe ∈ s.drawn then none
  else
    match s.calls call with
    | none | some .waiting =>
      let result := acquireQuota policy nowMs probe
        (s.row.getD (newGovernanceRow policy nowMs))
      some { s.advance result.1 call (admittedStage nowMs result.2) none with
        drawn := probe :: s.drawn }
    | _ => none

def succeedStep (s : GovernorState) (call : Nat) (nowMs : Millis) : Option GovernorState :=
  match s.row, s.calls call with
  | some row, some (.running none _) =>
    some (s.advance (countSuccess nowMs row) call .finished none)
  | some row, some (.running (some probe) admittedAt) =>
    some (s.advance (countSuccess nowMs row) call (.counted probe admittedAt nowMs) none)
  | _, _ => none

def closeStep (s : GovernorState) (call : Nat) : Option GovernorState :=
  match s.row, s.calls call with
  | some row, some (.counted probe admittedAt recoveredAt) =>
    let result := closeEpisode probe recoveredAt row
    some (s.advance result.1 call (.reported probe admittedAt) result.2)
  | _, _ => none

/-- The probe token a failure report carries. `recordSuccess` runs inside
the same `try`, so a call may fail after its success was counted. -/
def GovernedCall.failing? : GovernedCall → Option (Option Uuid)
  | .running probe _ => some probe
  | .counted probe _ _ => some (some probe)
  | .reported probe _ => some (some probe)
  | _ => none

def failCallStep (s : GovernorState) (call : Nat) (policy : RateGovernancePolicy)
    (error : Option RemoteFailure) (nowMs : Millis) (random : ℚ) : Option GovernorState :=
  match s.row, (s.calls call).bind GovernedCall.failing? with
  | some row, some probe =>
    let result := recordFailure policy error probe nowMs random row
    some (s.advance result.1 call .finished result.2)
  | _, _ => none

def governorStep (s : GovernorState) : GovernorAction → Option GovernorState
  | .register policy nowMs => some { s with row := some (registerPolicy policy nowMs s.row) }
  | .acquire call policy nowMs probe => acquireStep s call policy nowMs probe
  | .succeed call nowMs => succeedStep s call nowMs
  | .close call => closeStep s call
  | .fail call policy error nowMs random => failCallStep s call policy error nowMs random

/-- All calls to one target. -/
def governor : System GovernorState GovernorAction := ⟨governorStep⟩

/-- No row and no call yet. -/
def idleGovernor : GovernorState := ⟨none, fun _ => none, [], []⟩

end Cadena.Connectors
