import Cadena.Connectors.Types
import Cadena.Events.DeadLetterReplay

/-!
# The queue of accepted webhooks

One accepted webhook: its row in `integration_deliveries`, its event in the
outbox, and the dispatches, replays and restarts that work on it. The registry
counts the attempts of a dispatch, the row those of its life. The handler
claims the row, works, completes the row and publishes; what its `try` catches
puts the row back into the queue, or fails it.
-/

namespace Cadena.Integrations.Webhooks

open Cadena.Base Cadena.Connectors Cadena.Events Cadena.Events.DeadLetters

inductive DeliveryStatus where
  | queued | processing | completed | failed
  deriving DecidableEq

/-- The row of `integration_deliveries`. -/
structure DeliveryRow where
  status : DeliveryStatus
  attempts : Nat
  error : Option String

def maxProcessingAttempts : Nat := 3

def inboundWebhooks : ConsumerDefinition := ⟨"inbound-webhooks", maxProcessingAttempts⟩

/-- `String(event.payload?.delivery_record_id || '')`. -/
def recordOf (event : Fields) : String :=
  match lookup event "delivery_record_id" with
  | none | some .null | some (.bool false) => ""
  | some (.num n) => if numberText n = "0".toList then "" else String.ofList (numberText n)
  | some value => String.ofList (jsText value)

/-- A delivery and the event that was committed with it. -/
structure AcceptedWebhook where
  recordId : String
  event : Fields
  names : recordOf event = recordId
  nonempty : recordId ≠ ""

/-- What `processEvent` does next. `processing` ends with `completeDelivery`;
`elsewhere` is the handler at work on another delivery. -/
inductive HandlerWork where
  | claiming
  | preparing (attempts : Nat)
  | processing (attempts : Nat)
  | publishing (attempts : Nat)
  | repairing (attempts : Nat) (error : String)
  | elsewhere

/-- `settling`: dispatches of the outbox behind their delivery to the consumer;
`run`: the call whose `processEvent` the serial worker executes, and its event. -/
structure WebhookState where
  registry : ReplayState
  row : DeliveryRow
  outbox : OutboxStatus
  settling : Nat → Bool
  run : Option (Nat × Fields × HandlerWork)

inductive WebhookAction where
  | dispatch (call : Nat)
  | replay (call : Nat) (payload : Option Fields)
  | advance (call : Nat)
  | begin (call : Nat)
  | work (error : Option String)
  | subscriberThrows (call : Nat)
  | settle (call : Nat) (error : Option String)
  | restart
  | bootstrap

def phaseOf (s : WebhookState) (call : Nat) : Option DeliveryPhase :=
  (s.registry.calls call).bind Request.phase?

/-! ## `processEvent` -/

/-- `UPDATE … SET status = 'processing' … WHERE status IN ('queued', 'processing',
'failed')`. -/
def claimRow (row : DeliveryRow) : Option DeliveryRow :=
  if row.status = .completed then none else some ⟨.processing, row.attempts + 1, none⟩

def completeDelivery (row : DeliveryRow) : DeliveryRow := { row with status := .completed, error := none }

/-- The catch block. -/
def repairRow (attempts : Nat) (error : String) (row : DeliveryRow) : DeliveryRow :=
  { row with
    status := if attempts ≥ maxProcessingAttempts then .failed else .queued
    error := some error }

/-- The handler returns, or throws, to the dispatch that called it. -/
def finish (s : WebhookState) (call : Nat) (row : DeliveryRow) (error : Option String) : Option WebhookState :=
  (replayStep inboundWebhooks s.registry (.advance call error)).map fun registry =>
    { s with registry := registry, row := row, run := none }

def workStep (s : WebhookState) (call : Nat) (event : Fields) : HandlerWork → Option String → Option WebhookState
  | .claiming, none =>
    match claimRow s.row with
    | some row => some { s with row := row, run := some (call, event, .preparing row.attempts) }
    | none => finish s call s.row none
  | .preparing attempts, none => some { s with run := some (call, event, .processing attempts) }
  | .claiming, some error | .preparing _, some error => finish s call s.row (some error)
  | .processing attempts, none =>
    some { s with row := completeDelivery s.row, run := some (call, event, .publishing attempts) }
  | .publishing _, none => finish s call s.row none
  | .processing attempts, some error | .publishing attempts, some error =>
    some { s with run := some (call, event, .repairing attempts error) }
  | .repairing attempts error, none => finish s call (repairRow attempts error s.row) (some error)
  | .repairing _ _, some error => finish s call s.row (some error)
  | .elsewhere, error => finish s call s.row error

/-! ## The system -/

def isDelivery : Option Request → Bool
  | some (.delivering _ _) => true
  | _ => false

/-- A dispatch of the outbox goes on behind its delivery. -/
def settlingAfter (s : WebhookState) (call : Nat) (registry : ReplayState) : Nat → Bool :=
  if isDelivery (s.registry.calls call) && (registry.calls call).isNone then setAt s.settling call true
  else s.settling

/-- `onModuleInit` of the registry. -/
def abandon (rows : Rows) : Rows :=
  { rows with
    consumption := rows.consumption.map fun row =>
      if row.status = .processing then { row with status := .failed } else row }

variable (d : AcceptedWebhook)

def webhookStep (s : WebhookState) : WebhookAction → Option WebhookState
  | .dispatch call =>
    if s.settling call then none
    else
      (replayStep inboundWebhooks s.registry (.deliver call d.event)).map fun registry =>
        { s with registry := registry }
  | .replay call payload =>
    if s.settling call then none
    else
      (replayStep inboundWebhooks s.registry (.replay call payload)).map fun registry =>
        { s with registry := registry }
  -- the handler ends by steps of its own
  | .advance call =>
    match phaseOf s call with
    | some (.handling _) => none
    | _ =>
      (replayStep inboundWebhooks s.registry (.advance call none)).map fun registry =>
        { s with registry := registry, settling := settlingAfter s call registry }
  -- `processSerially`: one event is processed at a time
  | .begin call =>
    match s.run, s.registry.calls call with
    | none, some (.delivering event (.handling _)) | none, some (.replaying event (.handling _)) =>
      if recordOf event = "" then finish s call s.row (some "Inbound webhook event has no delivery_record_id")
      else
        some { s with
          run := some (call, event, if recordOf event = d.recordId then .claiming else .elsewhere) }
    | _, _ => none
  | .work error =>
    match s.run with
    | some (call, event, work) => workStep s call event work error
    | none => none
  -- a subscriber to every event throws before the consumer gets this one
  | .subscriberThrows call =>
    match s.registry.calls call with
    | some (.delivering _ .claiming) =>
      some { s with
        registry := { s.registry with calls := setAt s.registry.calls call none }
        outbox := .pending }
    | _ => none
  | .settle call error =>
    if s.settling call then
      some { s with
        outbox := if error.isNone then .dispatched else .pending
        settling := setAt s.settling call false }
    else none
  -- the process stops, starts again and takes abandoned claims back
  | .restart =>
    some { s with
      registry := ⟨abandon s.registry.rows, fun _ => none, s.registry.discardReturned⟩
      settling := fun _ => false
      run := none }
  | .bootstrap =>
    some { s with row := if s.row.status = .processing then { s.row with status := .queued } else s.row }

def webhookSystem : System WebhookState WebhookAction := ⟨webhookStep d⟩

/-- The webhook has just been accepted. -/
def accepted : WebhookState where
  registry := .start
  row := ⟨.queued, 0, none⟩
  outbox := .pending
  settling _ := false
  run := none

/-- At rest, and not due in the outbox: the row is completed exactly if the
event is processed, and failed exactly if its dead letter is dead. -/
def TellsOutcome (s : WebhookState) : Prop :=
  (∀ call, s.registry.calls call = none) → s.outbox ≠ .pending →
    (s.row.status = .completed ↔ s.registry.rows.consumptionStatus = some .processed) ∧
    (s.row.status = .failed ↔ s.registry.rows.entryStatus = some .dead)

/-- The dispatch has no further attempt. -/
def lastAttempt (s : WebhookState) (call : Nat) : Bool :=
  match phaseOf s call with
  | some (.handling attempt) => maxProcessingAttempts ≤ attempt
  | _ => false

/-- The statements around the `try` do not throw, and the row has had as many
attempts as the dispatch. -/
def lastAllowed : HandlerWork → Option String → Bool
  | .claiming, error | .preparing _, error => error.isNone
  | .repairing attempts _, error => error.isNone && decide (maxProcessingAttempts ≤ attempts)
  | _, _ => true

/-- The registry's statements find the rows as they left them; an event names
the delivery; at the last attempt the statements around the `try` do not throw
and the row's attempts are used up; and the process stops while nothing is in
progress, or while the event is due in the outbox and not processed with a dead
entry. -/
def Orderly (s : WebhookState) : WebhookAction → Prop
  | .advance call => DeadLetters.Orderly s.registry (.advance call none)
  | .begin call =>
    ∀ event attempt, s.registry.calls call = some (.delivering event (.handling attempt)) ∨
      s.registry.calls call = some (.replaying event (.handling attempt)) → recordOf event = d.recordId
  | .work error =>
    ∀ call event work, s.run = some (call, event, work) → lastAttempt s call = true →
      lastAllowed work error = true
  | .restart =>
    (∀ call, s.registry.calls call = none) ∨ s.outbox = .pending ∧
      ¬ (s.registry.rows.consumptionStatus = some .processed ∧ s.registry.rows.entryStatus = some .dead)
  | _ => True

/-! ## The calls of the registry -/

section
variable {s t : WebhookState} {call : Nat} {r' : Option Request} {registry : ReplayState}

/-- A replay, for which there is an entry. -/
def isReplay : Option Request → Bool
  | some (.correcting _) | some (.replaying _ _) | some (.recording _) => true
  | _ => false

/-- What the statements of a dispatch lead to, the handler left out: nothing to
mark, no discard, and a delivery that ends without an outcome has found the pair
in work or processed. -/
structure NextRequest (s t : ReplayState) (request : Request) (r' : Option Request) : Prop where
  unmarked : ∀ attempt, r'.bind Request.phase? ≠ some (.markingProcessed attempt)
  ungiven : ∀ error, r'.bind Request.phase? ≠ some (.markingFailed error)
  undiscarding : ∀ reason, r' ≠ some (.discarding reason)
  replays : isReplay r' = true → isReplay (some request) = true
  marked : works (some request) = true → tail r' = some .processed →
    ∃ attempt, request.phase? = some (.markingProcessed attempt)
  given : works (some request) = true → tail r' = some .failed →
    ∃ error, request.phase? = some (.markingFailed error)
  ended : isDelivery (some request) = true → r' = none → tail (some request) = none →
    s.rows.consumptionStatus = some .processing ∨ s.rows.consumptionStatus = some .processed

theorem not_claimable {row : Option Consumption} (h : claimable row = false) :
    row.map (·.status) = some .processing ∨ row.map (·.status) = some .processed := by
  cases row with
  | none => cases h
  | some row =>
    obtain ⟨status, attempts⟩ := row
    cases status with
    | processing => exact .inl rfl
    | processed => exact .inr rfl
    | failed => cases h

theorem next_delivering {s t : ReplayState} {event : Fields} {phase : DeliveryPhase}
    (hnot : ∀ attempt, phase ≠ .handling attempt)
    (hstep : advanceRequest inboundWebhooks s call (.delivering event phase) none = some t) :
    NextRequest s t (.delivering event phase) (t.calls call) := by
  obtain ⟨⟨rows, after⟩, hphase, rfl⟩ := Option.map_eq_some_iff.mp hstep
  simp only [ReplayState.move, setAt_same]
  cases phase with
  | handling attempt => exact absurd rfl (hnot attempt)
  | claiming =>
    simp only [phaseStep, Bool.false_or] at hphase
    split at hphase
    · cases hphase
      constructor <;> first | rintro _ ⟨⟩ | rintro ⟨⟩
    · rename_i hclaim
      cases hphase
      refine ⟨?_, ?_, ?_, ?_, ?_, ?_, fun _ _ _ => not_claimable (by simpa using hclaim)⟩ <;>
        first | rintro _ ⟨⟩ | rintro ⟨⟩
  | ready attempt =>
    cases hphase
    constructor <;> first | rintro _ ⟨⟩ | rintro ⟨⟩
  | markingProcessed attempt =>
    cases hphase
    refine ⟨?_, ?_, ?_, ?_, fun _ _ => ⟨attempt, rfl⟩, ?_, ?_⟩ <;> first | rintro _ ⟨⟩ | rintro ⟨⟩
  | markingFailed error =>
    cases hphase
    refine ⟨?_, ?_, ?_, ?_, ?_, fun _ _ => ⟨error, rfl⟩, ?_⟩ <;> first | rintro _ ⟨⟩ | rintro ⟨⟩
  | clearingDeadLetter attempt =>
    cases hphase
    constructor <;> first | (rintro _ ⟨⟩; done) | rintro _ _ ⟨⟩ | rintro ⟨⟩
  | deadLettering error =>
    cases hphase
    constructor <;> first | (rintro _ ⟨⟩; done) | rintro _ _ ⟨⟩ | rintro ⟨⟩

theorem next_replaying {s t : ReplayState} {event : Fields} {phase : DeliveryPhase}
    (hnot : ∀ attempt, phase ≠ .handling attempt)
    (hstep : advanceRequest inboundWebhooks s call (.replaying event phase) none = some t) :
    NextRequest s t (.replaying event phase) (t.calls call) := by
  obtain ⟨⟨rows, after⟩, hphase, rfl⟩ := Option.map_eq_some_iff.mp hstep
  simp only [ReplayState.move, setAt_same]
  cases phase with
  | handling attempt => exact absurd rfl (hnot attempt)
  | claiming | ready =>
    cases hphase
    refine ⟨?_, ?_, ?_, fun _ => rfl, ?_, ?_, ?_⟩ <;> rintro _ ⟨⟩
  | markingProcessed attempt =>
    cases hphase
    refine ⟨?_, ?_, ?_, fun _ => rfl, fun _ _ => ⟨attempt, rfl⟩, ?_, ?_⟩ <;> rintro _ ⟨⟩
  | markingFailed error =>
    cases hphase
    refine ⟨?_, ?_, ?_, fun _ => rfl, ?_, fun _ _ => ⟨error, rfl⟩, ?_⟩ <;> rintro _ ⟨⟩
  | clearingDeadLetter | deadLettering =>
    cases hphase
    refine ⟨?_, ?_, ?_, fun _ => rfl, ?_, ?_, ?_⟩ <;> first | (rintro _ ⟨⟩; done) | rintro ⟨⟩

theorem next_request {s t : ReplayState} {request : Request}
    (hnot : ∀ attempt, request.phase? ≠ some (.handling attempt))
    (hstep : advanceRequest inboundWebhooks s call request none = some t) :
    NextRequest s t request (t.calls call) := by
  cases request with
  | delivering event phase =>
    exact next_delivering (fun attempt hphase => hnot attempt (by rw [hphase]; rfl)) hstep
  | replaying event phase =>
    exact next_replaying (fun attempt hphase => hnot attempt (by rw [hphase]; rfl)) hstep
  | correcting =>
    cases hstep
    simp only [ReplayState.move, setAt_same]
    refine ⟨?_, ?_, ?_, fun _ => rfl, ?_, ?_, ?_⟩ <;> rintro _ ⟨⟩
  | recording | discarding | rereading =>
    cases hstep
    simp only [ReplayState.move, setAt_same]
    constructor <;> first | (rintro _ ⟨⟩; done) | rintro ⟨⟩

end

/-! ## What the steps keep -/

/-- No dispatch has come to an outcome since the webhook was accepted or the
process started. -/
def Untold (s : WebhookState) : Prop :=
  s.outbox = .pending ∧ (∀ i, s.settling i = false) ∧ ∀ i, tail (s.registry.calls i) = none

/-- The rows agree where the pair is settled, or will when a call has written
the entry. -/
structure RowsAgree (s : WebhookState) : Prop where
  processed : s.registry.rows.consumptionStatus = some .processed →
    s.row.status = .completed ∧
      (s.registry.rows.entryStatus = some .dead → ∃ i, tail (s.registry.calls i) = some .processed)
  failed : s.registry.rows.consumptionStatus = some .failed →
    (s.row.status = .failed ∧
      (s.registry.rows.entryStatus = some .dead ∨ ∃ i, tail (s.registry.calls i) = some .failed)) ∨ Untold s
  fresh : s.registry.rows.consumptionStatus = none → Untold s

/-- What the calls are about to do fits the row. -/
structure CallsAgree (s : WebhookState) : Prop where
  running : ∀ call event work, s.run = some (call, event, work) →
    (∃ attempt, phaseOf s call = some (.handling attempt)) ∧ work ≠ .elsewhere ∧
      ((∃ a, work = .publishing a) → s.row.status = .completed)
  completes : ∀ call attempt, phaseOf s call = some (.markingProcessed attempt) → s.row.status = .completed
  fails : ∀ call error, phaseOf s call = some (.markingFailed error) → s.row.status = .failed
  replays : ∀ call, isReplay (s.registry.calls call) = true → s.registry.rows.entryStatus ≠ none
  undiscarding : ∀ call reason, s.registry.calls call ≠ some (.discarding reason)

structure WebhookInv (s : WebhookState) : Prop where
  worker : OneWorker s.registry
  rows : RowsAgree s
  calls : CallsAgree s

theorem webhookInv_accepted : WebhookInv accepted where
  worker := oneWorker_start
  rows := ⟨nofun, nofun, fun _ => ⟨rfl, fun _ => rfl, fun _ => rfl⟩⟩
  calls := ⟨nofun, nofun, nofun, nofun, nofun⟩

section
variable {s t : WebhookState} {call : Nat} {r' : Option Request} {registry : ReplayState}

theorem works_of_phase {i : Nat} {p : DeliveryPhase} (h : phaseOf s i = some p)
    (hp : (∃ a, p = .handling a) ∨ (∃ a, p = .markingProcessed a) ∨ ∃ e, p = .markingFailed e) :
    works (s.registry.calls i) = true := by
  obtain ⟨request, hcall, hphase⟩ := Option.bind_eq_some_iff.mp h
  rw [hcall, works, hphase]
  rcases hp with ⟨a, rfl⟩ | ⟨a, rfl⟩ | ⟨e, rfl⟩ <;> rfl

theorem WebhookInv.busy (h : WebhookInv s) {attempt : Nat} (hphase : phaseOf s call = some (.handling attempt)) :
    s.registry.rows.consumptionStatus = some .processing ∧
      ∀ i p, phaseOf s i = some p → ((∃ a, p = .markingProcessed a) ∨ ∃ e, p = .markingFailed e) → False := by
  have hworks := works_of_phase hphase (.inl ⟨attempt, rfl⟩)
  refine ⟨h.worker.shown call hworks, fun i p hi hp => ?_⟩
  obtain rfl := h.worker.unique i call (works_of_phase hi (.inr hp)) hworks
  obtain rfl := Option.some.inj (hphase.symm.trans hi)
  rcases hp with ⟨a, ha⟩ | ⟨e, he⟩
  · cases ha
  · cases he

theorem rowsAgree_of_processing (h : t.registry.rows.consumptionStatus = some .processing) : RowsAgree t := by
  refine ⟨fun hrow => ?_, fun hrow => ?_, fun hrow => ?_⟩
  · rw [h] at hrow
    cases hrow
  · rw [h] at hrow
    cases hrow
  · rw [h] at hrow
    cases hrow

theorem WebhookInv.work (h : WebhookInv s) {event : Fields} {work work' : HandlerWork} {row : DeliveryRow}
    (hrun : s.run = some (call, event, work)) (helse : work' ≠ .elsewhere)
    (hpublish : (∃ a, work' = .publishing a) → row.status = .completed) :
    WebhookInv { s with row := row, run := some (call, event, work') } := by
  obtain ⟨⟨attempt, hphase⟩, -⟩ := h.calls.running call event work hrun
  obtain ⟨hprocessing, hunmarked⟩ := h.busy hphase
  refine ⟨h.worker, rowsAgree_of_processing hprocessing, ?_, fun i a hi => ?_, fun i e hi => ?_,
    h.calls.replays, h.calls.undiscarding⟩
  · rintro i event' work'' hrun'
    obtain ⟨rfl, rfl, rfl⟩ : i = call ∧ event' = event ∧ work'' = work' := by
      simpa [eq_comm, Prod.ext_iff] using hrun'
    exact ⟨⟨attempt, hphase⟩, helse, hpublish⟩
  · exact (hunmarked i _ hi (.inl ⟨a, rfl⟩)).elim
  · exact (hunmarked i _ hi (.inr ⟨e, rfl⟩)).elim

theorem handled_step {s t : ReplayState} {request : Request} {attempt : Nat} {error : Option String}
    (hphase : request.phase? = some (.handling attempt))
    (hstep : advanceRequest inboundWebhooks s call request error = some t) :
    ∃ request', t.rows = s.rows ∧ t.calls = setAt s.calls call (some request') ∧
      isReplay (some request') = isReplay (some request) ∧ (∀ reason, request' ≠ .discarding reason) ∧
      request'.phase? = some (match error with
        | none => .markingProcessed attempt
        | some message => attemptFrom inboundWebhooks (attempt + 1) message) := by
  cases request with
  | delivering event phase | replaying event phase =>
    obtain rfl := Option.some.inj hphase
    obtain ⟨⟨rows, after⟩, hrows, rfl⟩ := Option.map_eq_some_iff.mp hstep
    cases error <;> cases hrows <;> exact ⟨_, rfl, rfl, rfl, nofun, rfl⟩
  | correcting | recording | discarding | rereading => cases hphase

theorem attemptFrom_works (attempt : Nat) (error : String) :
    (∃ n, attemptFrom inboundWebhooks attempt error = .ready n) ∨
      attemptFrom inboundWebhooks attempt error = .markingFailed error ∧ maxProcessingAttempts < attempt := by
  unfold attemptFrom
  split
  · exact .inl ⟨attempt, rfl⟩
  · rename_i hover
    exact .inr ⟨rfl, Nat.lt_of_not_le hover⟩

theorem WebhookInv.finish (h : WebhookInv s) {event : Fields} {work : HandlerWork} {row : DeliveryRow}
    {error : Option String} {attempt : Nat} (hrun : s.run = none ∨ s.run = some (call, event, work))
    (hphase : phaseOf s call = some (.handling attempt))
    (hdone : error = none → row.status = .completed)
    (hfailed : error ≠ none → lastAttempt s call = true → row.status = .failed)
    (hstep : finish s call row error = some t) : WebhookInv t := by
  obtain ⟨registry, hregistry, rfl⟩ := Option.map_eq_some_iff.mp hstep
  obtain ⟨request, hcall, hrequest⟩ := Option.bind_eq_some_iff.mp hphase
  simp only [replayStep, hcall] at hregistry
  obtain ⟨request', hrows, hcalls, hreplay, hdiscard, hnext⟩ := handled_step hrequest hregistry
  obtain ⟨hprocessing, hunmarked⟩ := h.busy hphase
  have hworks : works (some request') = works (s.registry.calls call) := by
    rw [works_of_phase hphase (.inl ⟨attempt, rfl⟩), works, hnext]
    cases error with
    | none => rfl
    | some message => rcases attemptFrom_works (attempt + 1) message with ⟨n, hn⟩ | ⟨hn, -⟩ <;> simp only [hn]
  have hself : ∀ p, phaseOf { s with registry := registry, row := row, run := none } call = some p →
      request'.phase? = some p := by
    intro p hp
    rwa [phaseOf, hcalls, setAt_same] at hp
  have hother : ∀ i p, i ≠ call → phaseOf { s with registry := registry, row := row, run := none } i = some p →
      phaseOf s i = some p := by
    intro i p hi hp
    rwa [phaseOf, hcalls, setAt_other _ _ hi] at hp
  refine ⟨h.worker.keep hcalls hworks (by rw [hrows]), rowsAgree_of_processing (by rw [hrows]; exact hprocessing),
    (fun _ _ _ hnone => by cases hnone), fun i a hi => ?_, fun i e hi => ?_, fun i hi => ?_, fun i reason hi => ?_⟩
  · by_cases hic : i = call
    · subst hic
      have hmark := hself _ hi
      rw [hnext] at hmark
      cases error with
      | none => exact hdone rfl
      | some message =>
        rcases attemptFrom_works (attempt + 1) message with ⟨n, hn⟩ | ⟨hn, -⟩ <;> simp [hn] at hmark
    · exact (hunmarked i _ (hother i _ hic hi) (.inl ⟨a, rfl⟩)).elim
  · by_cases hic : i = call
    · subst hic
      have hgive := hself _ hi
      rw [hnext] at hgive
      cases error with
      | none => simp at hgive
      | some message =>
        rcases attemptFrom_works (attempt + 1) message with ⟨n, hn⟩ | ⟨-, hover⟩
        · simp [hn] at hgive
        · refine hfailed (by rintro ⟨⟩) ?_
          simp only [lastAttempt, hphase, decide_eq_true_eq]
          omega
    · exact (hunmarked i _ (hother i _ hic hi) (.inr ⟨e, rfl⟩)).elim
  · show registry.rows.entryStatus ≠ none
    rw [hrows]
    by_cases hic : i = call
    · subst hic
      refine h.calls.replays i ?_
      rw [hcall, ← hreplay]
      simpa only [hcalls, setAt_same] using hi
    · refine h.calls.replays i ?_
      simpa only [hcalls, setAt_other _ _ hic] using hi
  · by_cases hic : i = call
    · subst hic
      simp only [hcalls, setAt_same, Option.some.injEq] at hi
      exact hdiscard reason hi
    · simp only [hcalls, setAt_other _ _ hic] at hi
      exact h.calls.undiscarding i reason hi

end

section
variable {s t : WebhookState} {call : Nat} {registry : ReplayState}

variable {r' : Option Request}

theorem moved_entry {s t : ReplayState} {r : Option Request} (h : Moved s t r r')
    (hdiscard : ∀ reason, r ≠ some (.discarding reason)) (hentry : s.rows.entryStatus ≠ none) :
    t.rows.entryStatus ≠ none := by
  cases h with
  | quiet _ hsame | claim _ _ hsame | settle _ _ _ _ _ hsame =>
    rw [hsame]
    exact hentry
  | write _ _ _ _ _ _ _ _ _ hthere => exact hthere hentry
  | discard reason hwas => exact absurd hwas (hdiscard reason)

/-- The rows after a step of the registry. `settling` may only take up a
dispatch whose delivery has ended. -/
theorem RowsAgree.moved (h : WebhookInv s) (hmoved : Moved s.registry registry (s.registry.calls call) r')
    (hcalls : registry.calls = setAt s.registry.calls call r') {settling : Nat → Bool}
    (hmarked : works (s.registry.calls call) = true → tail r' = some .processed →
      ∃ attempt, phaseOf s call = some (.markingProcessed attempt))
    (hgiven : works (s.registry.calls call) = true → tail r' = some .failed →
      ∃ error, phaseOf s call = some (.markingFailed error))
    (hsettling : settling = s.settling ∨ tail (s.registry.calls call) ≠ none ∨
      s.registry.rows.consumptionStatus = some .processing ∨ s.registry.rows.consumptionStatus = some .processed) :
    RowsAgree { s with registry := registry, settling := settling } := by
  have hself : tail (registry.calls call) = tail r' := by rw [hcalls, setAt_same]
  cases hmoved with
  | quiet hrow hentry hworks htail htail' =>
    have htails : ∀ status, (∃ i, tail (s.registry.calls i) = some status) →
        ∃ i, tail (registry.calls i) = some status := by
      intro status
      refine setAt_exists (P := (tail · = some status)) hcalls fun hpend => ?_
      rw [htail] at hpend
      cases hpend
    have huntold : s.registry.rows.consumptionStatus ≠ some .processing →
        s.registry.rows.consumptionStatus ≠ some .processed → Untold s →
        Untold { s with registry := registry, settling := settling } := by
      rintro hprocessing hprocessed ⟨hpending, hnone, htold⟩
      rcases hsettling with rfl | hpend | hbusy | hdone
      · refine ⟨hpending, hnone, fun i => ?_⟩
        by_contra hi
        exact (setAt_not (P := (tail · ≠ none)) hcalls (not_not.mpr htail') hi).2 (htold i)
      · exact absurd htail hpend
      · exact absurd hbusy hprocessing
      · exact absurd hdone hprocessed
    refine ⟨fun hprocessed => ?_, fun hfailed => ?_, fun hnone => ?_⟩
    · obtain ⟨hrow', hdead⟩ := h.rows.processed (hrow ▸ hprocessed)
      exact ⟨hrow', fun hshown => htails _ (hdead (hentry ▸ hshown))⟩
    · have hbefore : s.registry.rows.consumptionStatus = some .failed := hrow ▸ hfailed
      rcases h.rows.failed hbefore with ⟨hrow', hdead⟩ | hold
      · refine .inl ⟨hrow', hdead.imp (fun hshown => ?_) (htails _)⟩
        exact hentry.trans hshown
      · exact .inr (huntold (by rw [hbefore]; exact nofun) (by rw [hbefore]; exact nofun) hold)
    · have hbefore : s.registry.rows.consumptionStatus = none := hrow ▸ hnone
      exact huntold (by rw [hbefore]; exact nofun) (by rw [hbefore]; exact nofun) (h.rows.fresh hbefore)
  | claim hfree hrow => exact rowsAgree_of_processing hrow
  | settle status hworks hworks' hrow hsettled hentry htail =>
    refine ⟨fun hprocessed => ?_, fun hfailed => ?_, fun hnone => ?_⟩
    · obtain rfl : status = .processed := Option.some.inj (hrow.symm.trans hprocessed)
      obtain ⟨attempt, hphase⟩ := hmarked hworks htail
      exact ⟨h.calls.completes call attempt hphase, fun _ => ⟨call, hself.trans htail⟩⟩
    · obtain rfl : status = .failed := Option.some.inj (hrow.symm.trans hfailed)
      obtain ⟨error, hphase⟩ := hgiven hworks htail
      exact .inl ⟨h.calls.fails call error hphase, .inr ⟨call, hself.trans htail⟩⟩
    · exact absurd (hrow.symm.trans hnone) nofun
  | write status htail hworks hworks' hrow hsame hentry hdead =>
    have htold : ¬ Untold s := by
      rintro ⟨-, -, hnone⟩
      rw [hnone call] at htail
      cases htail
    have hstatus : ∀ {st : ConsumptionStatus}, st ≠ .processing →
        registry.rows.consumptionStatus = some st → status = st := by
      intro st hst hnow
      rw [hrow] at hnow
      rcases hsame with hforce | hforce | hforce
      · exact Option.some.inj (hforce.symm.trans hnow)
      · exact absurd (Option.some.inj (hforce.symm.trans hnow)).symm hst
      · exact absurd (hforce.symm.trans hnow) nofun
    refine ⟨fun hprocessed => ?_, fun hfailed => ?_, fun hnone => ?_⟩
    · obtain rfl : status = .processed := hstatus nofun hprocessed
      refine ⟨(h.rows.processed (hrow ▸ hprocessed)).1, fun hshown => ?_⟩
      exact absurd rfl (hentry _ hshown)
    · obtain rfl : status = .failed := hstatus nofun hfailed
      rcases h.rows.failed (hrow ▸ hfailed) with ⟨hrow', -⟩ | hold
      · refine .inl ⟨hrow', .inl ?_⟩
        rcases hdead rfl with hnow | ⟨hgone, outcome, hrecording⟩
        · exact hnow
        · exact absurd hgone (h.calls.replays call (by rw [hrecording]; rfl))
      · exact absurd hold htold
    · exact absurd (h.rows.fresh (hrow ▸ hnone)) htold
  | discard reason hwas => exact absurd hwas (h.calls.undiscarding call reason)

theorem CallsAgree.moved (h : WebhookInv s) (hmoved : Moved s.registry registry (s.registry.calls call) r')
    (hcalls : registry.calls = setAt s.registry.calls call r') {settling : Nat → Bool}
    (hnot : ∀ attempt, phaseOf s call ≠ some (.handling attempt))
    (hunmarked : ∀ attempt, r'.bind Request.phase? ≠ some (.markingProcessed attempt))
    (hungiven : ∀ error, r'.bind Request.phase? ≠ some (.markingFailed error))
    (hundiscarding : ∀ reason, r' ≠ some (.discarding reason))
    (hreplays : isReplay r' = true → s.registry.rows.entryStatus ≠ none) :
    CallsAgree { s with registry := registry, settling := settling } := by
  have hphase : ∀ i p, phaseOf { s with registry := registry, settling := settling } i = some p →
      i = call ∧ r'.bind Request.phase? = some p ∨ i ≠ call ∧ phaseOf s i = some p := by
    intro i p hi
    exact setAt_cases (P := fun r => r.bind Request.phase? = some p) hcalls hi
  have hentry : s.registry.rows.entryStatus ≠ none → registry.rows.entryStatus ≠ none :=
    moved_entry hmoved (h.calls.undiscarding call)
  constructor
  · intro i event work hrun
    obtain ⟨⟨attempt, hi⟩, hwork⟩ := h.calls.running i event work hrun
    refine ⟨⟨attempt, ?_⟩, hwork⟩
    have hne : i ≠ call := by
      rintro rfl
      exact hnot attempt hi
    simp only [phaseOf, hcalls, setAt_other _ _ hne]
    exact hi
  · intro i attempt hi
    rcases hphase i _ hi with ⟨-, hnow⟩ | ⟨-, hbefore⟩
    · exact absurd hnow (hunmarked attempt)
    · exact h.calls.completes i attempt hbefore
  · intro i error hi
    rcases hphase i _ hi with ⟨-, hnow⟩ | ⟨-, hbefore⟩
    · exact absurd hnow (hungiven error)
    · exact h.calls.fails i error hbefore
  · intro i hi
    rcases setAt_cases (P := (isReplay · = true)) hcalls hi with ⟨-, hnow⟩ | ⟨-, hbefore⟩
    · exact hentry (hreplays hnow)
    · exact hentry (h.calls.replays i hbefore)
  · intro i reason hi
    rcases setAt_cases (P := (· = some (.discarding reason))) hcalls hi with ⟨-, hnow⟩ | ⟨-, hbefore⟩
    · exact hundiscarding reason hnow
    · exact h.calls.undiscarding i reason hbefore

theorem WebhookInv.moved (h : WebhookInv s) {request : Request} (hcall : s.registry.calls call = some request)
    (hmoved : Moved s.registry registry (some request) (registry.calls call))
    (hcalls : registry.calls = setAt s.registry.calls call (registry.calls call))
    (hnot : ∀ attempt, phaseOf s call ≠ some (.handling attempt))
    (hnext : NextRequest s.registry registry request (registry.calls call)) :
    WebhookInv { s with registry := registry, settling := settlingAfter s call registry } := by
  rw [← hcall] at hmoved
  have hphase : phaseOf s call = request.phase? := by rw [phaseOf, hcall, Option.bind_some]
  refine ⟨h.worker.moved hcalls hmoved, ?_, ?_⟩
  · refine RowsAgree.moved h hmoved hcalls ?_ ?_ ?_
    · rw [hphase, hcall]
      exact hnext.marked
    · rw [hphase, hcall]
      exact hnext.given
    · unfold settlingAfter
      split
      · rename_i hended
        simp only [Bool.and_eq_true, Option.isNone_iff_eq_none, hcall] at hended
        rw [hcall]
        by_cases htail : tail (some request) = none
        · exact .inr (.inr (hnext.ended hended.1 hended.2 htail))
        · exact .inr (.inl htail)
      · exact .inl rfl
  · refine CallsAgree.moved h hmoved hcalls hnot hnext.unmarked hnext.ungiven hnext.undiscarding fun hreplay => ?_
    exact h.calls.replays call (hcall ▸ hnext.replays hreplay)

theorem WebhookInv.arrives (h : WebhookInv s) (hcall : s.registry.calls call = none)
    (hworks : works r' = false) (htail : tail r' = none) (hread : r' ≠ some (.rereading true))
    (hundiscarding : ∀ reason, r' ≠ some (.discarding reason))
    (hphase : ∀ p, r'.bind Request.phase? = some p → p = .claiming)
    (hreplays : isReplay r' = true → s.registry.rows.entryStatus ≠ none) :
    WebhookInv { s with registry := s.registry.move call s.registry.rows r' } := by
  have hmoved : Moved s.registry (s.registry.move call s.registry.rows r') (s.registry.calls call) r' := by
    rw [hcall]
    exact arrival_moves rfl rfl hworks rfl htail hread (fun reason hr => absurd hr (hundiscarding reason)) .inl
  refine ⟨h.worker.moved rfl hmoved, ?_, ?_⟩
  · refine RowsAgree.moved h hmoved rfl (fun hw => ?_) (fun hw => ?_) (.inl rfl)
    · rw [hcall] at hw
      cases hw
    · rw [hcall] at hw
      cases hw
  · refine CallsAgree.moved h hmoved rfl (fun attempt hi => ?_) (fun attempt hi => ?_) (fun error hi => ?_)
      hundiscarding hreplays
    · rw [phaseOf, hcall] at hi
      cases hi
    · cases hphase _ hi
    · cases hphase _ hi

theorem WebhookInv.workStep (h : WebhookInv s) {event : Fields} {work : HandlerWork} {error : Option String}
    (hrun : s.run = some (call, event, work))
    (hlast : lastAttempt s call = true → lastAllowed work error = true)
    (hstep : workStep s call event work error = some t) : WebhookInv t := by
  obtain ⟨⟨attempt, hphase⟩, helse, hpublished⟩ := h.calls.running call event work hrun
  have hthrows : ∀ {error' : String} {row : DeliveryRow},
      (lastAttempt s call = true → row.status = .failed) → Webhooks.finish s call row (some error') = some t →
      WebhookInv t := by
    intro error' row hfailed hfinish
    exact h.finish (.inr hrun) hphase (fun hnone => by cases hnone) (fun _ => hfailed) hfinish
  cases work with
  | elsewhere => exact absurd rfl helse
  | claiming =>
    cases error with
    | none =>
      simp only [Webhooks.workStep] at hstep
      split at hstep
      · cases hstep
        exact h.work hrun nofun (by rintro ⟨a, ha⟩; cases ha)
      · rename_i hclaim
        refine h.finish (.inr hrun) hphase (fun _ => ?_) (fun hnone => absurd rfl hnone) hstep
        unfold claimRow at hclaim
        split at hclaim
        · assumption
        · cases hclaim
    | some message => exact hthrows (fun hl => absurd (hlast hl) nofun) hstep
  | preparing attempts =>
    cases error with
    | none =>
      cases hstep
      exact h.work hrun nofun (by rintro ⟨a, ha⟩; cases ha)
    | some message => exact hthrows (fun hl => absurd (hlast hl) nofun) hstep
  | processing attempts =>
    cases error with
    | none =>
      cases hstep
      exact h.work hrun nofun fun _ => rfl
    | some message =>
      cases hstep
      exact h.work hrun nofun (by rintro ⟨a, ha⟩; cases ha)
  | publishing attempts =>
    cases error with
    | none =>
      exact h.finish (.inr hrun) hphase (fun _ => hpublished ⟨attempts, rfl⟩) (fun hnone => absurd rfl hnone) hstep
    | some message =>
      cases hstep
      exact h.work hrun nofun (by rintro ⟨a, ha⟩; cases ha)
  | repairing attempts message =>
    cases error with
    | none =>
      refine hthrows (fun hl => ?_) hstep
      have hattempts := hlast hl
      simp only [lastAllowed, Option.isNone_none, Bool.true_and, decide_eq_true_eq] at hattempts
      simp only [repairRow, ge_iff_le, hattempts, if_true]
    | some message' => exact hthrows (fun hl => absurd (hlast hl) (by simp [lastAllowed])) hstep

end

section
variable {d : AcceptedWebhook} {s t : WebhookState} {call : Nat}

theorem WebhookInv.dispatch (h : WebhookInv s) (hstep : webhookStep d s (.dispatch call) = some t) :
    WebhookInv t := by
  simp only [webhookStep] at hstep
  split at hstep
  · cases hstep
  · simp only [replayStep] at hstep
    split at hstep
    · rename_i hcall
      cases hstep
      refine h.arrives hcall rfl rfl (by rintro ⟨⟩) (by rintro _ ⟨⟩) (fun p hp => ?_) (by rintro ⟨⟩)
      exact (Option.some.inj hp).symm
    · cases hstep

theorem WebhookInv.replay (h : WebhookInv s) {payload : Option Fields}
    (hstep : webhookStep d s (.replay call payload) = some t) : WebhookInv t := by
  simp only [webhookStep] at hstep
  split at hstep
  · cases hstep
  · simp only [replayStep] at hstep
    split at hstep
    · rename_i entry hcall hentry
      split at hstep
      · cases hstep
      · have hthere : s.registry.rows.entryStatus ≠ none := by
          rw [Rows.entryStatus, hentry]
          rintro ⟨⟩
        cases hstep
        cases payload with
        | none =>
          refine h.arrives hcall rfl rfl (by rintro ⟨⟩) (by rintro _ ⟨⟩) (fun p hp => ?_) (fun _ => hthere)
          exact (Option.some.inj hp).symm
        | some envelope =>
          exact h.arrives hcall rfl rfl (by rintro ⟨⟩) (by rintro _ ⟨⟩) (by rintro _ ⟨⟩) (fun _ => hthere)
    · cases hstep

theorem WebhookInv.advance (h : WebhookInv s) (hallowed : DeadLetters.Orderly s.registry (.advance call none))
    (hstep : webhookStep d s (.advance call) = some t) : WebhookInv t := by
  simp only [webhookStep] at hstep
  split at hstep
  · cases hstep
  · rename_i hnot
    obtain ⟨registry, hregistry, rfl⟩ := Option.map_eq_some_iff.mp hstep
    have hphase : ∀ attempt, phaseOf s call ≠ some (.handling attempt) := fun attempt hi => hnot attempt hi
    simp only [replayStep] at hregistry
    split at hregistry
    · rename_i request hcall
      simp only [DeadLetters.Orderly, hcall, Option.all_some] at hallowed
      obtain ⟨r', hcalls, hmoved⟩ := advance_moves hallowed hregistry
      have hself : registry.calls call = r' := by rw [hcalls, setAt_same]
      subst hself
      refine h.moved hcall hmoved hcalls hphase (next_request (fun attempt hi => ?_) hregistry)
      exact hphase attempt (by rw [phaseOf, hcall]; exact hi)
    · cases hregistry

theorem WebhookInv.begin (h : WebhookInv s) (hallowed : Orderly d s (.begin call))
    (hstep : webhookStep d s (.begin call) = some t) : WebhookInv t := by
  have hbegin : ∀ {event : Fields} {attempt : Nat}, phaseOf s call = some (.handling attempt) →
      recordOf event = d.recordId →
      (if recordOf event = "" then
        Webhooks.finish s call s.row (some "Inbound webhook event has no delivery_record_id")
      else some { s with run := some (call, event, if recordOf event = d.recordId then .claiming else .elsewhere) }) =
        some t → WebhookInv t := by
    intro event attempt hphase hnames ht
    rw [if_neg (by rw [hnames]; exact d.nonempty), if_pos hnames] at ht
    cases ht
    refine ⟨h.worker, rowsAgree_of_processing (h.busy hphase).1, ?_, h.calls.completes, h.calls.fails,
      h.calls.replays, h.calls.undiscarding⟩
    rintro i event' work hrun
    obtain ⟨rfl, -, rfl⟩ : i = call ∧ event' = event ∧ work = .claiming := by
      simpa [eq_comm, Prod.ext_iff] using hrun
    exact ⟨⟨attempt, hphase⟩, nofun, by rintro ⟨a, ha⟩; cases ha⟩
  simp only [webhookStep] at hstep
  split at hstep
  · rename_i event attempt hrun hcall
    exact hbegin (by rw [phaseOf, hcall]; rfl) (hallowed event attempt (.inl hcall)) hstep
  · rename_i event attempt hrun hcall
    exact hbegin (by rw [phaseOf, hcall]; rfl) (hallowed event attempt (.inr hcall)) hstep
  · cases hstep

theorem WebhookInv.subscriberThrows (h : WebhookInv s) (hstep : webhookStep d s (.subscriberThrows call) = some t) :
    WebhookInv t := by
  simp only [webhookStep] at hstep
  split at hstep
  · rename_i event hcall
    cases hstep
    have hmoved : Moved s.registry { s.registry with calls := setAt s.registry.calls call none }
        (s.registry.calls call) none := by
      rw [hcall]
      exact arrival_moves rfl rfl rfl rfl rfl (by rintro ⟨⟩) (by rintro _ ⟨⟩) .inl
    have hrows : RowsAgree { s with registry := { s.registry with calls := setAt s.registry.calls call none } } :=
      RowsAgree.moved h hmoved rfl (fun hw => by rw [hcall] at hw; cases hw)
        (fun hw => by rw [hcall] at hw; cases hw) (.inl rfl)
    have hcalls : CallsAgree { s with registry := { s.registry with calls := setAt s.registry.calls call none } } := by
      refine CallsAgree.moved h hmoved rfl (fun attempt hi => ?_) (by rintro _ ⟨⟩) (by rintro _ ⟨⟩)
        (by rintro _ ⟨⟩) (by rintro ⟨⟩)
      rw [phaseOf, hcall] at hi
      cases hi
    refine ⟨h.worker.moved rfl hmoved, ⟨hrows.processed, fun hfailed => ?_, fun hnone => ?_⟩, hcalls.running,
      hcalls.completes, hcalls.fails, hcalls.replays, hcalls.undiscarding⟩
    · exact (hrows.failed hfailed).imp id fun hold => ⟨rfl, hold.2⟩
    · exact ⟨rfl, (hrows.fresh hnone).2⟩
  · cases hstep

theorem WebhookInv.settle (h : WebhookInv s) {error : Option String}
    (hstep : webhookStep d s (.settle call error) = some t) : WebhookInv t := by
  simp only [webhookStep] at hstep
  split at hstep
  · rename_i hsettling
    cases hstep
    have htold : ¬ Untold s := by
      rintro ⟨-, hnone, -⟩
      rw [hnone call] at hsettling
      cases hsettling
    refine ⟨h.worker, ⟨h.rows.processed, fun hfailed => ?_, fun hnone => ?_⟩, h.calls.running, h.calls.completes,
      h.calls.fails, h.calls.replays, h.calls.undiscarding⟩
    · exact .inl ((h.rows.failed hfailed).resolve_right htold)
    · exact absurd (h.rows.fresh hnone) htold
  · cases hstep

theorem abandon_status (rows : Rows) :
    (abandon rows).entryStatus = rows.entryStatus ∧
      (abandon rows).consumptionStatus =
        rows.consumptionStatus.map fun status => if status = .processing then .failed else status := by
  refine ⟨rfl, ?_⟩
  simp only [abandon, Rows.consumptionStatus, Option.map_map]
  congr 1
  funext row
  simp only [Function.comp_apply]
  split <;> rfl

theorem WebhookInv.restart (h : WebhookInv s) (hallowed : Orderly d s .restart)
    (hstep : webhookStep d s .restart = some t) : WebhookInv t := by
  cases hstep
  obtain ⟨hentry, hrow⟩ := abandon_status s.registry.rows
  have hprocessed : (abandon s.registry.rows).consumptionStatus = some .processed →
      s.registry.rows.consumptionStatus = some .processed := by
    intro hnow
    rw [hrow, Option.map_eq_some_iff] at hnow
    obtain ⟨status, hstatus, hsame⟩ := hnow
    cases status <;> simp at hsame
    exact hstatus
  have hfailed : (abandon s.registry.rows).consumptionStatus = some .failed →
      s.registry.rows.consumptionStatus = some .processing ∨ s.registry.rows.consumptionStatus = some .failed := by
    intro hnow
    rw [hrow, Option.map_eq_some_iff] at hnow
    obtain ⟨status, hstatus, hsame⟩ := hnow
    cases status with
    | processing => exact .inl hstatus
    | failed => exact .inr hstatus
    | processed => simp at hsame
  have hidle : (abandon s.registry.rows).consumptionStatus ≠ some .processing := by
    rw [hrow]
    intro hnow
    obtain ⟨status, -, hsame⟩ := Option.map_eq_some_iff.mp hnow
    cases status <;> simp at hsame
  refine ⟨⟨nofun, nofun, fun hheld => absurd hheld hidle⟩, ⟨fun hdone => ?_, fun hgiven => ?_, fun hnone => ?_⟩,
    nofun, nofun, nofun, nofun, nofun⟩
  · obtain ⟨hcompleted, hdead⟩ := h.rows.processed (hprocessed hdone)
    refine ⟨hcompleted, fun hshown => ?_⟩
    have hbefore : s.registry.rows.entryStatus = some .dead := hentry ▸ hshown
    rcases hallowed with hquiet | ⟨-, hnot⟩
    · obtain ⟨i, hi⟩ := hdead hbefore
      rw [hquiet i] at hi
      cases hi
    · exact absurd ⟨hprocessed hdone, hbefore⟩ hnot
  · rcases hallowed with hquiet | ⟨hpending, -⟩
    · rcases hfailed hgiven with hbusy | hbefore
      · obtain ⟨i, hi⟩ := h.worker.held hbusy
        rw [hquiet i] at hi
        cases hi
      · rcases h.rows.failed hbefore with ⟨hrow', hdead | ⟨i, hi⟩⟩ | ⟨hpending, -⟩
        · exact .inl ⟨hrow', .inl hdead⟩
        · rw [hquiet i] at hi
          cases hi
        · exact .inr ⟨hpending, fun _ => rfl, fun _ => rfl⟩
    · exact .inr ⟨hpending, fun _ => rfl, fun _ => rfl⟩
  · refine ⟨?_, fun _ => rfl, fun _ => rfl⟩
    have hbefore : s.registry.rows.consumptionStatus = none := by
      have hnow : (abandon s.registry.rows).consumptionStatus = none := hnone
      rw [hrow] at hnow
      simpa using hnow
    exact (h.rows.fresh hbefore).1

theorem WebhookInv.bootstrap (h : WebhookInv s) (hstep : webhookStep d s .bootstrap = some t) : WebhookInv t := by
  cases hstep
  have hkeep : ∀ status, status ≠ DeliveryStatus.processing → s.row.status = status →
      (if s.row.status = .processing then { s.row with status := DeliveryStatus.queued } else s.row).status =
        status := by
    intro status hne hstatus
    rw [if_neg (by rw [hstatus]; exact hne)]
    exact hstatus
  refine ⟨h.worker, ⟨fun hdone => ?_, fun hgiven => ?_, h.rows.fresh⟩, fun i event work hrun => ?_,
    fun i a hi => ?_, fun i e hi => ?_, h.calls.replays, h.calls.undiscarding⟩
  · exact (h.rows.processed hdone).imp (hkeep _ nofun) id
  · exact (h.rows.failed hgiven).imp (And.imp (hkeep _ nofun) id) id
  · obtain ⟨hphase, helse, hpublished⟩ := h.calls.running i event work hrun
    exact ⟨hphase, helse, fun hwork => hkeep _ nofun (hpublished hwork)⟩
  · exact hkeep _ nofun (h.calls.completes i a hi)
  · exact hkeep _ nofun (h.calls.fails i e hi)

theorem WebhookInv.step (h : WebhookInv s) {a : WebhookAction} (hallowed : Orderly d s a)
    (hstep : webhookStep d s a = some t) : WebhookInv t := by
  cases a with
  | dispatch call => exact h.dispatch hstep
  | replay call payload => exact h.replay hstep
  | advance call => exact h.advance hallowed hstep
  | begin call => exact h.begin hallowed hstep
  | work error =>
    simp only [webhookStep] at hstep
    split at hstep
    · rename_i call event work hrun
      exact h.workStep hrun (hallowed call event work hrun) hstep
    · cases hstep
  | subscriberThrows call => exact h.subscriberThrows hstep
  | settle call error => exact h.settle hstep
  | restart => exact h.restart hallowed hstep
  | bootstrap => exact h.bootstrap hstep

theorem WebhookInv.tells (h : WebhookInv s) : TellsOutcome s := by
  intro hquiet hdue
  have hnotail : ∀ status, ¬ ∃ i, tail (s.registry.calls i) = some status := by
    rintro status ⟨i, hi⟩
    rw [hquiet i] at hi
    cases hi
  have htold : ¬ Untold s := fun hold => hdue hold.1
  cases hrow : s.registry.rows.consumptionStatus with
  | none => exact absurd (h.rows.fresh hrow) htold
  | some status =>
    cases status with
    | processing =>
      obtain ⟨i, hi⟩ := h.worker.held hrow
      rw [hquiet i] at hi
      cases hi
    | processed =>
      obtain ⟨hcompleted, hdead⟩ := h.rows.processed hrow
      refine ⟨⟨fun _ => rfl, fun _ => hcompleted⟩, fun hfailed => ?_, fun hshown => ?_⟩
      · rw [hcompleted] at hfailed
        cases hfailed
      · exact absurd (hdead hshown) (hnotail _)
    | failed =>
      obtain ⟨hfailed, hdead⟩ := (h.rows.failed hrow).resolve_right htold
      refine ⟨⟨fun hcompleted => ?_, nofun⟩, fun _ => hdead.resolve_right (hnotail _), fun _ => hfailed⟩
      rw [hfailed] at hcompleted
      cases hcompleted

/-- **A delivery's status tells its outcome** in every state of a run whose steps
meet the condition. -/
theorem delivery_tells_outcome (d : AcceptedWebhook) (acts : List WebhookAction)
    (hall : (webhookSystem d).Along (Orderly d) accepted acts) :
    (webhookSystem d).Throughout TellsOutcome accepted acts :=
  (webhookSystem d).throughout_of_along (fun h hallowed hstep => WebhookInv.step h hallowed hstep)
    (fun h => h.tells) webhookInv_accepted hall

end

/-! ## Deliveries that nobody replays -/

def pushWebhook : AcceptedWebhook where
  recordId := "r1"
  event := [("delivery_record_id", .str "r1"), ("body", .obj [])]
  names := by decide
  nonempty := by decide

/-- The handler's claim of the row, and the statement behind it, which throws. -/
def unprepared : List WebhookAction := [.advance 0, .begin 0, .work none, .work (some "disk full")]

/-- Three attempts that end outside the `try`. -/
def diskFull : List WebhookAction :=
  [.dispatch 0, .advance 0] ++ unprepared ++ unprepared ++ unprepared ++ [.advance 0, .advance 0, .settle 0 none]

/-- Three attempts at which the provider throws, and the row is put back. -/
def refused (call : Nat) : List WebhookAction :=
  [.advance call, .begin call, .work none, .work none, .work (some "invalid"), .work none]

def deadDelivery : List WebhookAction :=
  [.dispatch 0, .advance 0] ++ refused 0 ++ refused 0 ++ refused 0 ++ [.advance 0, .advance 0, .settle 0 none]

/-- The process stops during a replay, when the row is completed. -/
def stoppedReplay : List WebhookAction :=
  deadDelivery ++ [.replay 1 none, .advance 1, .advance 1, .begin 1, .work none, .work none, .work none, .restart,
    .bootstrap]

/-- What is seen of a state at rest. -/
def summary (s : WebhookState) : DeliveryStatus × Option ConsumptionStatus × Option EntryStatus × OutboxStatus :=
  (s.row.status, s.registry.rows.consumptionStatus, s.registry.rows.entryStatus, s.outbox)

/-- The dead letter of a delivery that is still processing; and, after a restart,
a completed delivery whose event is failed. -/
theorem untold_outcomes :
    (¬ ∀ (d : AcceptedWebhook) (acts : List WebhookAction),
      (webhookSystem d).Throughout TellsOutcome accepted acts) ∧
      ((webhookSystem pushWebhook).run accepted diskFull).map summary =
        some (.processing, some .failed, some .dead, .dispatched) := by
  refine ⟨fun h => ?_, by decide⟩
  have hrun : ((webhookSystem pushWebhook).run accepted stoppedReplay).map summary =
      some (.completed, some .failed, some .dead, .dispatched) := by decide
  obtain ⟨s, hs, hend⟩ := Option.map_eq_some_iff.mp hrun
  simp only [summary, Prod.mk.injEq] at hend
  obtain ⟨hrow, hconsumption, -, houtbox⟩ := hend
  have hquiet : ∀ call, s.registry.calls call = none := by
    have hsplit : stoppedReplay = (deadDelivery ++
        [.replay 1 none, .advance 1, .advance 1, .begin 1, .work none, .work none, .work none]) ++
          [.restart, .bootstrap] := rfl
    rw [hsplit] at hs
    obtain ⟨u, hu, hlast⟩ := (webhookSystem pushWebhook).run_append.mp hs
    cases hlast
    exact fun _ => rfl
  have htells := (webhookSystem pushWebhook).throughout_end (h pushWebhook stoppedReplay) hs hquiet
    (by rw [houtbox]; exact nofun)
  have hprocessed := htells.1.mp hrow
  rw [hconsumption] at hprocessed
  cases hprocessed

/-- The condition on a step, where the process does not stop. -/
def orderly (d : AcceptedWebhook) (s : WebhookState) : WebhookAction → Bool
  | .advance call => (s.registry.calls call).all (requestAllowed s.registry.rows)
  | .begin call =>
    match s.registry.calls call with
    | some (.delivering event _) | some (.replaying event _) => recordOf event = d.recordId
    | _ => true
  | .work error =>
    match s.run with
    | some (call, _, work) => !lastAttempt s call || lastAllowed work error
    | none => true
  | .restart => false
  | _ => true

theorem orderly_of_check (d : AcceptedWebhook) (s : WebhookState) (a : WebhookAction)
    (h : orderly d s a = true) : Orderly d s a := by
  cases a with
  | advance call => exact h
  | begin call =>
    intro event attempt hcall
    rcases hcall with hcall | hcall
    · simpa only [orderly, hcall, decide_eq_true_eq] using h
    · simpa only [orderly, hcall, decide_eq_true_eq] using h
  | work error =>
    intro call event work hrun hlast
    simpa only [orderly, hrun, hlast, Bool.not_true, Bool.false_or] using h
  | restart => cases h
  | dispatch | replay | subscriberThrows | settle | bootstrap => trivial

/-- A delivery that is dead, replayed with another body and completed. -/
def replayedDelivery : List WebhookAction :=
  deadDelivery ++ [.replay 1 (some [("delivery_record_id", .str "r1"), ("body", .obj [("ref", .str "main")])]),
    .advance 1, .advance 1, .advance 1, .begin 1, .work none, .work none, .work none, .work none, .advance 1,
    .advance 1, .advance 1, .advance 1]

theorem delivery_tells_replayed :
    (webhookSystem pushWebhook).Throughout TellsOutcome accepted replayedDelivery ∧
      ((webhookSystem pushWebhook).run accepted replayedDelivery).map summary =
        some (.completed, some .processed, some .replayed, .dispatched) :=
  ⟨delivery_tells_outcome pushWebhook replayedDelivery
    ((webhookSystem pushWebhook).along_of_checks (orderly_of_check pushWebhook) (by decide)),
    by decide⟩

end Cadena.Integrations.Webhooks
