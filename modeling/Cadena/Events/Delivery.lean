import Cadena.Base.ClaimRegister
import Cadena.Base.Transition

/-!
# Delivery of one committed event

An event is committed together with its pending outbox row.
`EventOutboxService.dispatch` publishes it to the consumers of its type,
one after the other, and marks the row dispatched; at start-up
`recoverPending` dispatches the rows that are still pending. A consumer's
subscription calls `EventConsumerRegistry.dispatch`, which claims the pair
of consumer and event, runs the handler up to `maxAttempts` times and
records the outcome; what it throws is logged and swallowed.

Any number of processes share the database. Every statement and every
handler call is one step, which returns or throws. A process that stops
takes its dispatches with it.
-/

namespace Cadena.Events

open Cadena.Base

structure ConsumerDefinition where
  name : String
  maxAttempts : Nat := 3

inductive OutboxStatus where
  | pending | dispatched
  deriving DecidableEq

/-- The row of `event_outbox`. -/
structure OutboxRow where
  status : OutboxStatus
  attempts : Nat
  lastError : Option String

inductive ConsumptionStatus where
  | processing | processed | failed
  deriving DecidableEq

/-- A row of `event_consumptions`. -/
structure Consumption where
  status : ConsumptionStatus
  attempts : Nat

inductive DeadLetterStatus where
  | dead | replayed
  deriving DecidableEq

/-- A row of `dead_letter_events`. -/
structure DeadLetter where
  status : DeadLetterStatus
  attempts : Nat
  lastError : String

/-- Where the delivery to one consumer stands. -/
inductive DeliveryPhase where
  | claiming
  | ready (attempt : Nat)
  | handling (attempt : Nat)
  | markingProcessed (attempt : Nat)
  | clearingDeadLetter (attempt : Nat)
  | markingFailed (error : String)
  | deadLettering (error : String)

inductive DispatchPhase where
  | delivering (consumer : ConsumerDefinition) (phase : DeliveryPhase)
      (rest : List ConsumerDefinition)
  | settling
  | unsettled (error : String)

/-- A call of `EventOutboxService.dispatch` and the process it runs in. -/
structure Dispatch where
  process : Nat
  phase : DispatchPhase

def nextConsumer : List ConsumerDefinition → DispatchPhase
  | [] => .settling
  | c :: rest => .delivering c .claiming rest

/-- The loop condition before an attempt. -/
def attemptFrom (c : ConsumerDefinition) (attempt : Nat) (error : String) : DeliveryPhase :=
  if attempt ≤ c.maxAttempts then .ready attempt else .markingFailed error

/-! ## The system -/

structure EventState where
  outbox : OutboxRow
  consumptions : String → Option Consumption
  deadLetters : String → Option DeadLetter
  running : Nat → Bool
  dispatches : Nat → Option Dispatch

inductive EventAction where
  | start (process : Nat)
  | stop (process : Nat)
  | dispatch (call process : Nat)
  | advance (call : Nat) (error : Option String)
  | subscriberThrows (call : Nat) (error : String)

def EventState.move (s : EventState) (call : Nat) (d : Dispatch) (phase : DispatchPhase) :
    EventState :=
  { s with dispatches := setAt s.dispatches call (some { d with phase := phase }) }

def EventState.finish (s : EventState) (call : Nat) : EventState :=
  { s with dispatches := setAt s.dispatches call none }

def EventState.consume (s : EventState) (consumer : String) (row : Consumption) : EventState :=
  { s with consumptions := setAt s.consumptions consumer (some row) }

/-- The claim inserts the pair, or takes one that ended in `failed`. -/
def claimable : Option Consumption → Bool
  | none => true
  | some row => row.status = .failed

def claimedRow : Option Consumption → Consumption
  | none => ⟨.processing, 0⟩
  | some row => { row with status := .processing }

/-- `UPDATE … SET status = 'replayed' WHERE … AND status = 'dead'`. -/
def clearDeadLetter (row : DeadLetter) : DeadLetter :=
  if row.status = .dead then { row with status := .replayed } else row

/-- The next statement of a delivery, or the handler itself, returns or
throws. -/
def deliverStep (s : EventState) (call : Nat) (d : Dispatch) (c : ConsumerDefinition)
    (rest : List ConsumerDefinition) : DeliveryPhase → Option String → Option EventState
  | .claiming, none =>
    if claimable (s.consumptions c.name) then
      some ((s.consume c.name (claimedRow (s.consumptions c.name))).move call d
        (.delivering c (attemptFrom c 1 "") rest))
    else some (s.move call d (nextConsumer rest))
  | .claiming, some _ => some (s.move call d (nextConsumer rest))
  | .ready attempt, none => some (s.move call d (.delivering c (.handling attempt) rest))
  | .ready _, some _ => none
  | .handling attempt, none =>
    some (s.move call d (.delivering c (.markingProcessed attempt) rest))
  | .handling attempt, some error =>
    some (s.move call d (.delivering c (attemptFrom c (attempt + 1) error) rest))
  | .markingProcessed attempt, none =>
    some ((s.consume c.name ⟨.processed, attempt⟩).move call d
      (.delivering c (.clearingDeadLetter attempt) rest))
  | .markingProcessed attempt, some error =>
    some (s.move call d (.delivering c (attemptFrom c (attempt + 1) error) rest))
  | .clearingDeadLetter _, none =>
    some ({ s with
      deadLetters := setAt s.deadLetters c.name
        ((s.deadLetters c.name).map clearDeadLetter) }.move call d (nextConsumer rest))
  | .clearingDeadLetter attempt, some error =>
    some (s.move call d (.delivering c (attemptFrom c (attempt + 1) error) rest))
  | .markingFailed error, none =>
    some ((s.consume c.name ⟨.failed, c.maxAttempts⟩).move call d
      (.delivering c (.deadLettering error) rest))
  | .markingFailed _, some _ => some (s.move call d (nextConsumer rest))
  | .deadLettering error, none =>
    some ({ s with
      deadLetters := setAt s.deadLetters c.name (some ⟨.dead, c.maxAttempts, error⟩) }.move
        call d (nextConsumer rest))
  | .deadLettering _, some _ => some (s.move call d (nextConsumer rest))

/-- `deadLetter` may also throw behind its insert, which changes nothing
here. -/
def advanceStep (s : EventState) (call : Nat) (error : Option String) : Option EventState :=
  match s.dispatches call with
  | none => none
  | some d =>
    match d.phase with
    | .delivering c phase rest => deliverStep s call d c rest phase error
    | .settling =>
      match error with
      | none =>
        some ({ s with outbox := ⟨.dispatched, s.outbox.attempts + 1, none⟩ }.finish call)
      | some message => some (s.move call d (.unsettled message))
    | .unsettled message =>
      match error with
      | none =>
        some ({ s with
          outbox := ⟨.pending, s.outbox.attempts + 1, some message⟩ }.finish call)
      | some _ => some (s.finish call)

variable (consumers : List ConsumerDefinition)

def eventStep (s : EventState) : EventAction → Option EventState
  -- `onModuleInit`: whatever is processing is taken for abandoned
  | .start process =>
    if s.running process then none
    else
      some { s with
        running := setAt s.running process true
        consumptions := fun c => (s.consumptions c).map fun row =>
          if row.status = .processing then { row with status := .failed } else row }
  | .stop process =>
    some { s with
      running := setAt s.running process false
      dispatches := fun call => (s.dispatches call).filter fun d => d.process != process }
  | .dispatch call process =>
    if s.running process && (s.dispatches call).isNone then
      some { s with
        dispatches := setAt s.dispatches call (some ⟨process, nextConsumer consumers⟩) }
    else none
  | .advance call error => advanceStep s call error
  -- a subscriber other than the registry's throws between two consumers
  | .subscriberThrows call error =>
    match s.dispatches call with
    | some ⟨process, .delivering _ .claiming _⟩ | some ⟨process, .settling⟩ =>
      some (s.move call ⟨process, .settling⟩ (.unsettled error))
    | _ => none

/-- The deliveries of one event, by any number of processes. -/
def delivery : System EventState EventAction := ⟨eventStep consumers⟩

/-- The event is committed; nothing has been delivered yet. -/
def committed : EventState where
  outbox := ⟨.pending, 0, none⟩
  consumptions := fun _ => none
  deadLetters := fun _ => none
  running := fun _ => false
  dispatches := fun _ => none

def slotOf : Option Consumption → Slot
  | none => .open
  | some row =>
    match row.status with
    | .processing => .held
    | .processed => .settled
    | .failed => .open

/-- The consumer whose row the dispatch has claimed and not given back. -/
def DispatchPhase.owns? : DispatchPhase → Option String
  | .delivering c phase _ =>
    match phase with
    | .claiming | .deadLettering _ => none
    | _ => some c.name
  | _ => none

/-- The consumer whose row the dispatch has marked processed. -/
def DispatchPhase.clears? : DispatchPhase → Option String
  | .delivering c (.clearingDeadLetter _) _ => some c.name
  | _ => none

def EventState.phase (s : EventState) (call : Nat) : Option DispatchPhase :=
  (s.dispatches call).map (·.phase)

def EventState.register (s : EventState) (consumer : String) : ClaimRegister Nat where
  slot := slotOf (s.consumptions consumer)
  holds call := (s.phase call).bind DispatchPhase.owns? = some consumer
  finishing call := (s.phase call).bind DispatchPhase.clears? = some consumer

end Cadena.Events
