import Cadena.Base.Json
import Cadena.Events.Delivery

/-!
# Replaying and discarding a dead letter

One consumer and one event: the row of `event_consumptions`, the entry of
`dead_letter_events`, and any number of redeliveries, replay requests and
discard requests, whose statements and handler calls are the steps. A replay
looks at the entry when it arrives and forces its claim; what it writes at its
end is written whatever the entry has become.
-/

namespace Cadena.Events.DeadLetters

open Cadena.Base

inductive EntryStatus where
  | dead | replayed | discarded
  deriving DecidableEq

/-- The row of `dead_letter_events`. -/
structure DeadLetterEntry where
  envelope : Fields
  attempts : Nat
  lastError : Option String
  status : EntryStatus

/-- The two rows of the pair. -/
structure Rows where
  consumption : Option Consumption
  entry : Option DeadLetterEntry

inductive DispatchOutcome where
  | processed (attempts : Nat)
  | deadLettered (attempts : Nat) (error : String)

/-- What a call has still to do: a delivery, a replay in its three parts, or a
discard in its two. -/
inductive Request where
  | delivering (event : Fields) (phase : DeliveryPhase)
  | correcting (envelope : Fields)
  | replaying (event : Fields) (phase : DeliveryPhase)
  | recording (outcome : DispatchOutcome)
  | discarding (reason : Option String)
  | rereading (discarded : Bool)

/-- `discardReturned`: a discard request has been answered. -/
structure ReplayState where
  rows : Rows
  calls : Nat → Option Request
  discardReturned : Bool

inductive ReplayAction where
  | deliver (call : Nat) (event : Fields)
  | replay (call : Nat) (payload : Option Fields)
  | discard (call : Nat) (reason : Option String)
  | advance (call : Nat) (error : Option String)

/-! ## The statements -/

def clearEntry (entry : DeadLetterEntry) : DeadLetterEntry :=
  if entry.status = .dead then { entry with status := .replayed } else entry

/-- `INSERT … ON CONFLICT (consumer, event_id) DO UPDATE`. -/
def deadLetter (entry : Option DeadLetterEntry) (event : Fields) (attempts : Nat) (error : String) :
    DeadLetterEntry where
  envelope := (entry.map (·.envelope)).getD event
  attempts := attempts
  lastError := some error
  status := .dead

def correctEntry (envelope : Fields) (entry : DeadLetterEntry) : DeadLetterEntry :=
  { entry with envelope := envelope }

/-- What `replay` writes behind the dispatch. -/
def recordOutcome (outcome : DispatchOutcome) (entry : DeadLetterEntry) : DeadLetterEntry :=
  match outcome with
  | .processed _ => { entry with status := .replayed, lastError := none }
  | .deadLettered attempts error =>
    { entry with
      attempts := attempts, lastError := some (if error = "" then "Replay failed" else error)
      status := .dead }

def discardEntry (reason : Option String) (entry : DeadLetterEntry) : DeadLetterEntry :=
  let noted := (reason.filter (· ≠ "")).map ("discarded: " ++ ·)
  { entry with status := .discarded, lastError := noted.or entry.lastError }

def Rows.consume (rows : Rows) (row : Consumption) : Rows := { rows with consumption := some row }

def Rows.setEntry (rows : Rows) (f : DeadLetterEntry → DeadLetterEntry) : Rows :=
  { rows with entry := rows.entry.map f }

/-- What comes after a statement of `dispatch`. -/
inductive AfterPhase where
  | phase (p : DeliveryPhase)
  | skipped
  | done (outcome : DispatchOutcome)

variable (c : ConsumerDefinition)

/-- The next statement of `EventConsumerRegistry.dispatch`, or the handler,
which may throw. -/
def phaseStep (rows : Rows) (force : Bool) (event : Fields) :
    DeliveryPhase → Option String → Option (Rows × AfterPhase)
  | .claiming, none =>
    if force || claimable rows.consumption then
      some (rows.consume (claimedRow rows.consumption), .phase (attemptFrom c 1 ""))
    else some (rows, .skipped)
  | .ready attempt, none => some (rows, .phase (.handling attempt))
  | .handling attempt, none => some (rows, .phase (.markingProcessed attempt))
  | .handling attempt, some error => some (rows, .phase (attemptFrom c (attempt + 1) error))
  | .markingProcessed attempt, none =>
    some (rows.consume ⟨.processed, attempt⟩, .phase (.clearingDeadLetter attempt))
  | .clearingDeadLetter attempt, none => some (rows.setEntry clearEntry, .done (.processed attempt))
  | .markingFailed error, none => some (rows.consume ⟨.failed, c.maxAttempts⟩, .phase (.deadLettering error))
  | .deadLettering error, none =>
    some ({ rows with entry := some (deadLetter rows.entry event c.maxAttempts error) },
      .done (.deadLettered c.maxAttempts error))
  | _, some _ => none

def afterDelivery (event : Fields) : AfterPhase → Option Request
  | .phase p => some (.delivering event p)
  | .skipped | .done _ => none

/-- A forced claim is never refused. -/
def afterReplay (event : Fields) : AfterPhase → Option Request
  | .phase p => some (.replaying event p)
  | .done outcome => some (.recording outcome)
  | .skipped => none

def ReplayState.move (s : ReplayState) (call : Nat) (rows : Rows) (request : Option Request) : ReplayState :=
  { s with rows := rows, calls := setAt s.calls call request }

def advanceRequest (s : ReplayState) (call : Nat) : Request → Option String → Option ReplayState
  | .delivering event phase, error =>
    (phaseStep c s.rows false event phase error).map fun r => s.move call r.1 (afterDelivery event r.2)
  | .replaying event phase, error =>
    (phaseStep c s.rows true event phase error).map fun r => s.move call r.1 (afterReplay event r.2)
  | .correcting envelope, none =>
    some (s.move call (s.rows.setEntry (correctEntry envelope)) (some (.replaying envelope .claiming)))
  | .recording outcome, none =>
    some (s.move call (s.rows.setEntry (recordOutcome outcome)) (some (.rereading false)))
  | .discarding reason, none =>
    some (s.move call (s.rows.setEntry (discardEntry reason)) (some (.rereading true)))
  | .rereading discarded, none =>
    some { s.move call s.rows none with discardReturned := s.discardReturned || discarded }
  | _, some _ => none

/-- A request reads the entry as it arrives; `replay` refuses one that is
discarded. -/
def replayStep (s : ReplayState) : ReplayAction → Option ReplayState
  | .deliver call event =>
    match s.calls call with
    | none => some (s.move call s.rows (some (.delivering event .claiming)))
    | some _ => none
  | .replay call payload =>
    match s.calls call, s.rows.entry with
    | none, some entry =>
      if entry.status = .discarded then none
      else
        some (s.move call s.rows (some (match payload with
          | some envelope => .correcting envelope
          | none => .replaying entry.envelope .claiming)))
    | _, _ => none
  | .discard call reason =>
    match s.calls call, s.rows.entry with
    | none, some _ => some (s.move call s.rows (some (.discarding reason)))
    | _, _ => none
  | .advance call error =>
    match s.calls call with
    | some request => advanceRequest c s call request error
    | none => none

def replaySystem : System ReplayState ReplayAction := ⟨replayStep c⟩

/-- The pair is new. -/
def ReplayState.start : ReplayState := ⟨⟨none, none⟩, fun _ => none, false⟩

def Request.phase? : Request → Option DeliveryPhase
  | .delivering _ p | .replaying _ p => some p
  | _ => none

def Handling (s : ReplayState) (call : Nat) : Prop :=
  ∃ attempt, (s.calls call).bind Request.phase? = some (.handling attempt)

def Rows.consumed (rows : Rows) (status : ConsumptionStatus) : Bool :=
  rows.consumption.any (·.status = status)

def Rows.discarded (rows : Rows) : Bool := rows.entry.any (·.status = .discarded)

/-- Two handler executions never overlap, what a discard has answered is
discarded, and where nothing is in progress the entry tells what became of the
event. -/
structure Consistent (s : ReplayState) : Prop where
  overlap : ∀ i j, Handling s i → Handling s j → i = j
  kept : s.discardReturned = true → s.rows.discarded = true
  agrees : (∀ call, s.calls call = none) → ∀ entry, s.rows.entry = some entry → entry.status ≠ .discarded →
    (entry.status = .replayed ↔ s.rows.consumed .processed = true)

/-- No replay begins the handler after a discard has returned. -/
def NoReplayAfter (s : ReplayState) : ReplayAction → Prop
  | .advance call _ =>
    ∀ event attempt, s.calls call = some (.replaying event (.ready attempt)) → s.discardReturned = false
  | _ => True

/-- The condition on the next statement of a dispatch: a forced claim finds no
dispatch at work; a replay's handler begins, and an entry is written dead, only
if the entry is not discarded; and the entry is not written for an outcome that
another dispatch has replaced by the opposite one. -/
def phaseAllowed (rows : Rows) (force : Bool) : DeliveryPhase → Bool
  | .claiming => !(force && rows.consumed .processing)
  | .ready _ => !(force && rows.discarded)
  | .clearingDeadLetter _ => !rows.consumed .failed
  | .deadLettering _ => !rows.discarded && !rows.consumed .processed
  | _ => true

def requestAllowed (rows : Rows) : Request → Bool
  | .delivering _ phase => phaseAllowed rows false phase
  | .replaying _ phase => phaseAllowed rows true phase
  | .recording (.processed _) => !rows.discarded && !rows.consumed .failed
  | .recording (.deadLettered _ _) => !rows.discarded && !rows.consumed .processed
  | _ => true

def Orderly (s : ReplayState) : ReplayAction → Prop
  | .advance call _ => (s.calls call).all (requestAllowed s.rows) = true
  | _ => True

instance (s : ReplayState) (a : ReplayAction) : Decidable (Orderly s a) :=
  match a with
  | .advance call _ => inferInstanceAs (Decidable ((s.calls call).all (requestAllowed s.rows) = true))
  | .deliver .. | .replay .. | .discard .. => isTrue trivial

/-! ## What a step does to the rows -/

def Rows.consumptionStatus (rows : Rows) : Option ConsumptionStatus := rows.consumption.map (·.status)

def Rows.entryStatus (rows : Rows) : Option EntryStatus := rows.entry.map (·.status)

theorem consumed_iff {rows : Rows} {status : ConsumptionStatus} :
    rows.consumed status = true ↔ rows.consumptionStatus = some status := by
  simp [Rows.consumed, Rows.consumptionStatus, Option.any_eq_true]

theorem discarded_iff {rows : Rows} : rows.discarded = true ↔ rows.entryStatus = some .discarded := by
  simp [Rows.discarded, Rows.entryStatus, Option.any_eq_true]

/-- Between its claim and its outcome. -/
def works : Option Request → Bool
  | some request =>
    match request.phase? with
    | some (.ready _) | some (.handling _) | some (.markingProcessed _) | some (.markingFailed _) => true
    | _ => false
  | none => false

/-- The outcome for which the call has still to write the entry. -/
def tail : Option Request → Option ConsumptionStatus
  | some (.recording (.processed _)) => some .processed
  | some (.recording (.deadLettered _ _)) => some .failed
  | some request =>
    match request.phase? with
    | some (.clearingDeadLetter _) => some .processed
    | some (.deadLettering _) => some .failed
    | _ => none
  | none => none

/-- The outcome that an entry must not show when the event came to this one. -/
def contradicts : ConsumptionStatus → EntryStatus → Prop
  | .processed, status => status = .dead
  | .failed, status => status = .replayed
  | .processing, _ => False

/-- What an orderly step does: it leaves the rows, claims, settles, writes the
entry for the outcome in force, or discards. -/
inductive Moved (s t : ReplayState) (r r' : Option Request) : Prop where
  | quiet (hrow : t.rows.consumptionStatus = s.rows.consumptionStatus)
      (hentry : t.rows.entryStatus = s.rows.entryStatus) (hworks : works r' = works r) (htail : tail r = none)
      (htail' : tail r' = none) (hread : r' ≠ some (.rereading true))
      (hdiscard : ∀ reason, r' = some (.discarding reason) → s.rows.entryStatus ≠ none)
      (hreturned : t.discardReturned = true → s.discardReturned = true ∨ r = some (.rereading true))
  | claim (hfree : s.rows.consumptionStatus ≠ some .processing)
      (hrow : t.rows.consumptionStatus = some .processing) (hentry : t.rows.entryStatus = s.rows.entryStatus)
      (hworks : works r' = true) (htail : tail r = none) (hreturned : t.discardReturned = s.discardReturned)
  | settle (status : ConsumptionStatus) (hworks : works r = true) (hworks' : works r' = false)
      (hrow : t.rows.consumptionStatus = some status) (hsettled : status ≠ .processing)
      (hentry : t.rows.entryStatus = s.rows.entryStatus)
      (htail : tail r' = some status) (hreturned : t.discardReturned = s.discardReturned)
  | write (status : ConsumptionStatus) (htail : tail r = some status) (hworks : works r = false)
      (hworks' : works r' = false) (hrow : t.rows.consumptionStatus = s.rows.consumptionStatus)
      (hsame : s.rows.consumptionStatus = some status ∨ s.rows.consumptionStatus = some .processing ∨
        s.rows.consumptionStatus = none)
      (hentry : ∀ shown, t.rows.entryStatus = some shown → ¬ contradicts status shown)
      (hdead : status = .failed → t.rows.entryStatus = some .dead ∨
        s.rows.entryStatus = none ∧ ∃ outcome, r = some (.recording outcome))
      (hkept : s.rows.entryStatus = some .discarded → t.rows.entryStatus = some .discarded)
      (hthere : s.rows.entryStatus ≠ none → t.rows.entryStatus ≠ none)
      (hread : r' ≠ some (.rereading true)) (hdiscard : ∀ reason, r' ≠ some (.discarding reason))
      (hreturned : t.discardReturned = s.discardReturned)
  | discard (reason : Option String) (hwas : r = some (.discarding reason)) (hnow : r' = some (.rereading true))
      (hrow : t.rows.consumptionStatus = s.rows.consumptionStatus)
      (hentry : s.rows.entryStatus ≠ none → t.rows.entryStatus = some .discarded)
      (hreturned : t.discardReturned = s.discardReturned)

section
variable {c : ConsumerDefinition} {s t : ReplayState}

theorem consumptionStatus_setEntry (rows : Rows) (f : DeadLetterEntry → DeadLetterEntry) :
    (rows.setEntry f).consumptionStatus = rows.consumptionStatus := rfl

theorem entryStatus_setEntry (rows : Rows) (f : DeadLetterEntry → DeadLetterEntry) :
    (rows.setEntry f).entryStatus = rows.entry.map fun entry => (f entry).status := by
  simp only [Rows.setEntry, Rows.entryStatus, Option.map_map]
  rfl

theorem attemptFrom_cases (attempt : Nat) (error : String) :
    (∃ n, attemptFrom c attempt error = .ready n) ∨ attemptFrom c attempt error = .markingFailed error := by
  unfold attemptFrom
  split
  · exact .inl ⟨attempt, rfl⟩
  · exact .inr rfl

/-- A delivery and a replay go through the same phases; what differs is what
stands behind them. -/
structure PhaseRequest (wrap : DeliveryPhase → Request) : Prop where
  phase : ∀ p, (wrap p).phase? = some p
  kind : (∃ event, wrap = .delivering event) ∨ ∃ event, wrap = .replaying event

variable {wrap : DeliveryPhase → Request}

theorem works_wrap (h : PhaseRequest wrap) (p : DeliveryPhase) : works (some (wrap p)) =
      match p with
      | .ready _ | .handling _ | .markingProcessed _ | .markingFailed _ => true
      | _ => false := by
  simp only [works, h.phase p]
  cases p <;> rfl

theorem tail_wrap (h : PhaseRequest wrap) (p : DeliveryPhase) : tail (some (wrap p)) =
      match p with
      | .clearingDeadLetter _ => some .processed
      | .deadLettering _ => some .failed
      | _ => none := by
  obtain ⟨event, rfl⟩ | ⟨event, rfl⟩ := h.kind <;> cases p <;> rfl

theorem wrap_attemptFrom (h : PhaseRequest wrap) (attempt : Nat) (error : String) :
    works (some (wrap (attemptFrom c attempt error))) = true ∧
      tail (some (wrap (attemptFrom c attempt error))) = none := by
  rcases attemptFrom_cases (c := c) attempt error with ⟨n, hn⟩ | hfailed
  · rw [hn, works_wrap h, tail_wrap h]
    exact ⟨rfl, rfl⟩
  · rw [hfailed, works_wrap h, tail_wrap h]
    exact ⟨rfl, rfl⟩

theorem wrap_ne (h : PhaseRequest wrap) (p : DeliveryPhase) :
    some (wrap p) ≠ some (.rereading true) ∧ ∀ reason, some (wrap p) ≠ some (.discarding reason) := by
  obtain ⟨event, rfl⟩ | ⟨event, rfl⟩ := h.kind <;> exact ⟨nofun, nofun⟩

theorem in_force {rows : Rows} {status other : ConsumptionStatus}
    (h : rows.consumed other = false)
    (hcases : ∀ st : ConsumptionStatus, st = status ∨ st = .processing ∨ st = other) :
    rows.consumptionStatus = some status ∨ rows.consumptionStatus = some .processing ∨
      rows.consumptionStatus = none := by
  cases hrow : rows.consumptionStatus with
  | none => exact .inr (.inr rfl)
  | some st =>
    rcases hcases st with rfl | rfl | rfl
    · exact .inl rfl
    · exact .inr (.inl rfl)
    · rw [consumed_iff.mpr hrow] at h
      cases h

theorem processed_in_force {rows : Rows} (h : rows.consumed .failed = false) :
    rows.consumptionStatus = some .processed ∨ rows.consumptionStatus = some .processing ∨
      rows.consumptionStatus = none :=
  in_force h fun st => by cases st <;> simp

theorem failed_in_force {rows : Rows} (h : rows.consumed .processed = false) :
    rows.consumptionStatus = some .failed ∨ rows.consumptionStatus = some .processing ∨
      rows.consumptionStatus = none :=
  in_force h fun st => by cases st <;> simp

end

section
variable {c : ConsumerDefinition} {s t : ReplayState}

theorem phase_moves (wrap : DeliveryPhase → Request) (hwrap : PhaseRequest wrap) {force : Bool} {event : Fields}
    {phase : DeliveryPhase} {error : Option String} {after : AfterPhase} {r' : Option Request}
    (hallowed : phaseAllowed s.rows force phase = true)
    (hstep : phaseStep c s.rows force event phase error = some (t.rows, after))
    (hreturned : t.discardReturned = s.discardReturned)
    (hnext : ∀ p, after = .phase p → r' = some (wrap p)) (hskip : after = .skipped → r' = none)
    (hdone : ∀ outcome, after = .done outcome → r' = none ∨ r' = some (.recording outcome)) :
    Moved s t (some (wrap phase)) r' := by
  -- the dispatch goes on, and the rows stay
  have hquiet : ∀ {p : DeliveryPhase}, t.rows = s.rows → after = .phase p →
      works (some (wrap p)) = works (some (wrap phase)) → tail (some (wrap phase)) = none →
      tail (some (wrap p)) = none → Moved s t (some (wrap phase)) r' := by
    intro p hrows hafter hworks htail htail'
    rw [hnext p hafter]
    refine .quiet (by rw [hrows]) (by rw [hrows]) hworks htail htail' (wrap_ne hwrap p).1
      (fun reason hr => absurd hr ((wrap_ne hwrap p).2 reason)) (fun hr => .inl (hreturned ▸ hr))
  have hleft : ∀ outcome, after = .done outcome →
      works r' = false ∧ r' ≠ some (.rereading true) ∧ ∀ reason, r' ≠ some (.discarding reason) := by
    intro outcome hafter
    rcases hdone outcome hafter with rfl | rfl
    · exact ⟨rfl, nofun, nofun⟩
    · exact ⟨rfl, nofun, nofun⟩
  cases phase with
  | claiming =>
    cases error with
    | some => cases hstep
    | none =>
      simp only [phaseStep] at hstep
      split at hstep
      · rename_i hclaims
        obtain ⟨hrows, hafter⟩ := Prod.mk.inj (Option.some.inj hstep)
        rw [hnext _ hafter.symm]
        obtain ⟨hworks, htail⟩ := wrap_attemptFrom (c := c) hwrap 1 ""
        refine .claim ?_ ?_ ?_ hworks (tail_wrap hwrap _) hreturned
        · intro hprocessing
          have hconsumed := consumed_iff.mpr hprocessing
          simp only [phaseAllowed, hconsumed, Bool.and_true, Bool.not_eq_true'] at hallowed
          rw [hallowed, Bool.false_or] at hclaims
          simp only [Rows.consumptionStatus, Option.map_eq_some_iff] at hprocessing
          obtain ⟨row, hrow, hstatus⟩ := hprocessing
          rw [hrow, claimable, hstatus] at hclaims
          cases hclaims
        · rw [← hrows]
          cases s.rows.consumption <;> rfl
        · rw [← hrows]
          rfl
      · obtain ⟨hrows, hafter⟩ := Prod.mk.inj (Option.some.inj hstep)
        rw [hskip hafter.symm]
        refine .quiet (by rw [hrows]) (by rw [hrows]) ?_ (tail_wrap hwrap _) rfl nofun nofun
          (fun hr => .inl (hreturned ▸ hr))
        rw [works_wrap hwrap]
        rfl
  | ready attempt =>
    cases error with
    | some => cases hstep
    | none =>
      obtain ⟨hrows, hafter⟩ := Prod.mk.inj (Option.some.inj hstep)
      refine hquiet hrows.symm hafter.symm ?_ (tail_wrap hwrap _) (tail_wrap hwrap _)
      rw [works_wrap hwrap, works_wrap hwrap]
  | handling attempt =>
    cases error with
    | none =>
      obtain ⟨hrows, hafter⟩ := Prod.mk.inj (Option.some.inj hstep)
      refine hquiet hrows.symm hafter.symm ?_ (tail_wrap hwrap _) (tail_wrap hwrap _)
      rw [works_wrap hwrap, works_wrap hwrap]
    | some message =>
      obtain ⟨hrows, hafter⟩ := Prod.mk.inj (Option.some.inj hstep)
      obtain ⟨hworks, htail⟩ := wrap_attemptFrom (c := c) hwrap (attempt + 1) message
      refine hquiet hrows.symm hafter.symm ?_ (tail_wrap hwrap _) htail
      rw [hworks, works_wrap hwrap]
  | markingProcessed attempt =>
    cases error with
    | some => cases hstep
    | none =>
      obtain ⟨hrows, hafter⟩ := Prod.mk.inj (Option.some.inj hstep)
      rw [hnext _ hafter.symm]
      refine .settle .processed (works_wrap hwrap _) (works_wrap hwrap _) ?_ nofun ?_ (tail_wrap hwrap _) hreturned
      · rw [← hrows]
        rfl
      · rw [← hrows]
        rfl
  | markingFailed message =>
    cases error with
    | some => cases hstep
    | none =>
      obtain ⟨hrows, hafter⟩ := Prod.mk.inj (Option.some.inj hstep)
      rw [hnext _ hafter.symm]
      refine .settle .failed (works_wrap hwrap _) (works_wrap hwrap _) ?_ nofun ?_ (tail_wrap hwrap _) hreturned
      · rw [← hrows]
        rfl
      · rw [← hrows]
        rfl
  | clearingDeadLetter attempt =>
    cases error with
    | some => cases hstep
    | none =>
      obtain ⟨hrows, hafter⟩ := Prod.mk.inj (Option.some.inj hstep)
      obtain ⟨hworks', hread, hdiscard⟩ := hleft _ hafter.symm
      have hentry : t.rows.entryStatus = s.rows.entry.map fun entry => (clearEntry entry).status := by
        rw [← hrows, entryStatus_setEntry]
      have hclear : ∀ entry, (clearEntry entry).status ≠ .dead := by
        intro entry
        unfold clearEntry
        split
        · exact nofun
        · assumption
      refine .write .processed (tail_wrap hwrap _) (works_wrap hwrap _) hworks' ?_ ?_ ?_ nofun ?_ ?_ hread hdiscard
        hreturned
      · rw [← hrows]
        rfl
      · exact processed_in_force (by simpa [phaseAllowed] using hallowed)
      · intro shown hshown hdead
        rw [hentry] at hshown
        obtain ⟨entry, -, rfl⟩ := Option.map_eq_some_iff.mp hshown
        exact hclear entry hdead
      · intro hdiscarded
        rw [hentry]
        simp only [Rows.entryStatus, Option.map_eq_some_iff] at hdiscarded ⊢
        obtain ⟨entry, hentry, hstatus⟩ := hdiscarded
        refine ⟨entry, hentry, ?_⟩
        simp only [clearEntry, hstatus, reduceCtorEq, if_false]
      · intro hthere
        rw [hentry]
        simpa [Rows.entryStatus] using hthere
  | deadLettering message =>
    cases error with
    | some => cases hstep
    | none =>
      obtain ⟨hrows, hafter⟩ := Prod.mk.inj (Option.some.inj hstep)
      obtain ⟨hworks', hread, hdiscard⟩ := hleft _ hafter.symm
      simp only [phaseAllowed, Bool.and_eq_true, Bool.not_eq_true'] at hallowed
      have hentry : t.rows.entryStatus = some .dead := by
        rw [← hrows]
        rfl
      refine .write .failed (tail_wrap hwrap _) (works_wrap hwrap _) hworks' ?_ ?_ ?_ (fun _ => .inl hentry) ?_ ?_
        hread hdiscard hreturned
      · rw [← hrows]
        rfl
      · exact failed_in_force hallowed.2
      · intro shown hshown hreplayed
        rw [hentry] at hshown
        cases hshown
        cases hreplayed
      · intro hdiscarded
        rw [discarded_iff.mpr hdiscarded] at hallowed
        cases hallowed.1
      · intro _
        rw [hentry]
        exact nofun

theorem recording_moves {outcome : DispatchOutcome} (hallowed : requestAllowed s.rows (.recording outcome) = true)
    (hrows : t.rows = s.rows.setEntry (recordOutcome outcome)) (hreturned : t.discardReturned = s.discardReturned) :
    Moved s t (some (.recording outcome)) (some (.rereading false)) := by
  have hentry : t.rows.entryStatus = s.rows.entry.map fun entry => (recordOutcome outcome entry).status := by
    rw [hrows, entryStatus_setEntry]
  have hthere : s.rows.entryStatus ≠ none → t.rows.entryStatus ≠ none := by
    intro hthere
    rw [hentry]
    simpa [Rows.entryStatus] using hthere
  have hkept : s.rows.discarded = false → s.rows.entryStatus = some .discarded →
      t.rows.entryStatus = some .discarded := by
    intro hnot hdiscarded
    rw [discarded_iff.mpr hdiscarded] at hnot
    cases hnot
  cases outcome with
  | processed attempts =>
    simp only [requestAllowed, Bool.and_eq_true, Bool.not_eq_true'] at hallowed
    refine .write .processed rfl rfl rfl (by rw [hrows]; rfl) (processed_in_force hallowed.2) ?_ nofun
      (hkept hallowed.1) hthere nofun nofun hreturned
    intro shown hshown hdead
    rw [hentry] at hshown
    obtain ⟨entry, -, rfl⟩ := Option.map_eq_some_iff.mp hshown
    cases hdead
  | deadLettered attempts error =>
    simp only [requestAllowed, Bool.and_eq_true, Bool.not_eq_true'] at hallowed
    refine .write .failed rfl rfl rfl (by rw [hrows]; rfl) (failed_in_force hallowed.2) ?_ (fun _ => ?_)
      (hkept hallowed.1) hthere nofun nofun hreturned
    · intro shown hshown hreplayed
      rw [hentry] at hshown
      obtain ⟨entry, -, rfl⟩ := Option.map_eq_some_iff.mp hshown
      cases hreplayed
    · rw [hentry, Rows.entryStatus]
      cases s.rows.entry with
      | none => exact .inr ⟨rfl, _, rfl⟩
      | some entry => exact .inl rfl

theorem arrival_moves {r r' : Option Request} (hrows : t.rows = s.rows) (hworks : works r = false)
    (hworks' : works r' = false) (htail : tail r = none) (htail' : tail r' = none)
    (hread : r' ≠ some (.rereading true))
    (hdiscard : ∀ reason, r' = some (.discarding reason) → s.rows.entryStatus ≠ none)
    (hreturned : t.discardReturned = true → s.discardReturned = true ∨ r = some (.rereading true)) :
    Moved s t r r' :=
  .quiet (by rw [hrows]) (by rw [hrows]) (hworks'.trans hworks.symm) htail htail' hread hdiscard hreturned

theorem advance_moves {call : Nat} {request : Request} {error : Option String}
    (hallowed : requestAllowed s.rows request = true) (hstep : advanceRequest c s call request error = some t) :
    ∃ r', t.calls = setAt s.calls call r' ∧ Moved s t (some request) r' := by
  cases request with
  | delivering event phase =>
    obtain ⟨⟨rows, after⟩, hphase, rfl⟩ := Option.map_eq_some_iff.mp hstep
    refine ⟨_, rfl, ?_⟩
    refine phase_moves (c := c) (.delivering event) ⟨fun _ => rfl, .inl ⟨event, rfl⟩⟩ hallowed hphase rfl
      ?_ ?_ ?_
    · rintro p rfl
      rfl
    · rintro rfl
      rfl
    · rintro outcome rfl
      exact .inl rfl
  | replaying event phase =>
    obtain ⟨⟨rows, after⟩, hphase, rfl⟩ := Option.map_eq_some_iff.mp hstep
    refine ⟨_, rfl, ?_⟩
    refine phase_moves (c := c) (.replaying event) ⟨fun _ => rfl, .inr ⟨event, rfl⟩⟩ hallowed hphase rfl
      ?_ ?_ ?_
    · rintro p rfl
      rfl
    · rintro rfl
      rfl
    · rintro outcome rfl
      exact .inr rfl
  | correcting envelope =>
    cases error with
    | some => cases hstep
    | none =>
      cases hstep
      refine ⟨_, rfl, .quiet rfl ?_ rfl rfl rfl nofun nofun .inl⟩
      show (s.rows.setEntry (correctEntry envelope)).entryStatus = s.rows.entryStatus
      rw [entryStatus_setEntry]
      rfl
  | recording outcome =>
    cases error with
    | some => cases hstep
    | none =>
      cases hstep
      exact ⟨_, rfl, recording_moves hallowed rfl rfl⟩
  | discarding reason =>
    cases error with
    | some => cases hstep
    | none =>
      cases hstep
      refine ⟨_, rfl, .discard reason rfl rfl rfl (fun hthere => ?_) rfl⟩
      show (s.rows.setEntry (discardEntry reason)).entryStatus = some .discarded
      rw [entryStatus_setEntry]
      cases hentry : s.rows.entry with
      | none =>
        rw [Rows.entryStatus, hentry] at hthere
        exact absurd rfl hthere
      | some entry => rfl
  | rereading discarded =>
    cases error with
    | some => cases hstep
    | none =>
      cases hstep
      refine ⟨_, rfl, arrival_moves rfl rfl rfl rfl rfl nofun nofun fun hreturned => ?_⟩
      simp only [Bool.or_eq_true] at hreturned
      rcases hreturned with hbefore | rfl
      · exact .inl hbefore
      · exact .inr rfl

theorem replay_moves {a : ReplayAction} (hallowed : Orderly s a) (hstep : replayStep c s a = some t) :
    ∃ call r', t.calls = setAt s.calls call r' ∧ Moved s t (s.calls call) r' := by
  cases a with
  | deliver call event =>
    simp only [replayStep] at hstep
    split at hstep
    · rename_i hcall
      cases hstep
      refine ⟨call, _, rfl, ?_⟩
      rw [hcall]
      exact arrival_moves rfl rfl rfl rfl rfl nofun nofun .inl
    · cases hstep
  | replay call payload =>
    simp only [replayStep] at hstep
    split at hstep
    · rename_i entry hcall hentry
      split at hstep
      · cases hstep
      · cases hstep
        refine ⟨call, _, rfl, ?_⟩
        rw [hcall]
        cases payload <;> exact arrival_moves rfl rfl rfl rfl rfl nofun nofun .inl
    · cases hstep
  | discard call reason =>
    simp only [replayStep] at hstep
    split at hstep
    · rename_i entry hcall hentry
      cases hstep
      refine ⟨call, _, rfl, ?_⟩
      rw [hcall]
      refine arrival_moves rfl rfl rfl rfl rfl nofun (fun _ _ => ?_) .inl
      rw [Rows.entryStatus, hentry]
      exact nofun
    · cases hstep
  | advance call error =>
    simp only [replayStep] at hstep
    split at hstep
    · rename_i request hcall
      simp only [Orderly, hcall, Option.all_some] at hallowed
      obtain ⟨r', hcalls, hmoved⟩ := advance_moves hallowed hstep
      exact ⟨call, r', hcalls, hcall ▸ hmoved⟩
    · cases hstep

end

/-! ## What orderly steps keep -/

/-- One call works on the pair at most, and the row shows it. -/
structure OneWorker (s : ReplayState) : Prop where
  shown : ∀ i, works (s.calls i) = true → s.rows.consumptionStatus = some .processing
  unique : ∀ i j, works (s.calls i) = true → works (s.calls j) = true → i = j
  held : s.rows.consumptionStatus = some .processing → ∃ i, works (s.calls i) = true

structure ReplayInv (s : ReplayState) : Prop extends OneWorker s where
  fresh : s.rows.consumptionStatus = none → s.rows.entryStatus = none ∧ ∀ i, tail (s.calls i) = none
  outcome : ∀ status shown, s.rows.consumptionStatus = some status → s.rows.entryStatus = some shown →
    contradicts status shown → ∃ i, tail (s.calls i) = some status
  present : ∀ i reason, s.calls i = some (.discarding reason) → s.rows.entryStatus ≠ none
  kept : s.discardReturned = true ∨ (∃ i, s.calls i = some (.rereading true)) →
    s.rows.entryStatus = some .discarded

theorem oneWorker_start : OneWorker .start := ⟨nofun, nofun, nofun⟩

theorem replayInv_start : ReplayInv .start where
  toOneWorker := oneWorker_start
  fresh _ := ⟨rfl, fun _ => rfl⟩
  outcome := nofun
  present := nofun
  kept := by rintro (h | ⟨i, h⟩) <;> cases h

section
variable {c : ConsumerDefinition} {s t : ReplayState} {call : Nat} {r' : Option Request}

variable {P : Option Request → Prop}

theorem setAt_cases (hcalls : t.calls = setAt s.calls call r') {i : Nat}
    (h : P (t.calls i)) : i = call ∧ P r' ∨ i ≠ call ∧ P (s.calls i) := by
  rw [hcalls] at h
  by_cases hi : i = call
  · subst hi
    rw [setAt_same] at h
    exact .inl ⟨rfl, h⟩
  · rw [setAt_other _ _ hi] at h
    exact .inr ⟨hi, h⟩

theorem setAt_exists (hcalls : t.calls = setAt s.calls call r')
    (hkeep : P (s.calls call) → P r') (h : ∃ i, P (s.calls i)) : ∃ i, P (t.calls i) := by
  obtain ⟨i, hi⟩ := h
  refine ⟨i, ?_⟩
  rw [hcalls]
  by_cases hcall : i = call
  · subst hcall
    rw [setAt_same]
    exact hkeep hi
  · rw [setAt_other _ _ hcall]
    exact hi

theorem setAt_not (hcalls : t.calls = setAt s.calls call r') (hnot : ¬ P r') {i : Nat}
    (h : P (t.calls i)) : i ≠ call ∧ P (s.calls i) := by
  rcases setAt_cases hcalls h with ⟨-, hnow⟩ | hother
  · exact absurd hnow hnot
  · exact hother

theorem ReplayInv.present_moved (h : ReplayInv s) (hcalls : t.calls = setAt s.calls call r')
    (hthere : s.rows.entryStatus ≠ none → t.rows.entryStatus ≠ none)
    (hdiscard : ∀ reason, r' = some (.discarding reason) → s.rows.entryStatus ≠ none) (i : Nat)
    (reason : Option String) (hi : t.calls i = some (.discarding reason)) : t.rows.entryStatus ≠ none := by
  rcases setAt_cases (P := (· = some (.discarding reason))) hcalls hi with ⟨-, hnow⟩ | ⟨-, hbefore⟩
  · exact hthere (hdiscard reason hnow)
  · exact hthere (h.present i reason hbefore)

theorem ReplayInv.kept_moved (h : ReplayInv s) (hcalls : t.calls = setAt s.calls call r')
    (hread : r' ≠ some (.rereading true))
    (hentry : s.rows.entryStatus = some .discarded → t.rows.entryStatus = some .discarded)
    (hreturned : t.discardReturned = true → s.discardReturned = true ∨ s.calls call = some (.rereading true))
    (hkept : t.discardReturned = true ∨ ∃ i, t.calls i = some (.rereading true)) :
    t.rows.entryStatus = some .discarded := by
  refine hentry (h.kept ?_)
  rcases hkept with hdone | ⟨i, hi⟩
  · exact (hreturned hdone).imp id fun hcall => ⟨call, hcall⟩
  · exact .inr ⟨i, (setAt_not (P := (· = some (.rereading true))) hcalls hread hi).2⟩

theorem OneWorker.keep (h : OneWorker s) (hcalls : t.calls = setAt s.calls call r')
    (hworks : works r' = works (s.calls call)) (hrow : t.rows.consumptionStatus = s.rows.consumptionStatus) :
    OneWorker t := by
  have hback : ∀ i, works (t.calls i) = true → works (s.calls i) = true := by
    intro i hi
    rcases setAt_cases (P := (works · = true)) hcalls hi with ⟨rfl, hnow⟩ | ⟨-, hbefore⟩
    · rwa [hworks] at hnow
    · exact hbefore
  refine ⟨fun i hi => ?_, fun i j hi hj => h.unique i j (hback i hi) (hback j hj), fun hheld => ?_⟩
  · rw [hrow]
    exact h.shown i (hback i hi)
  · rw [hrow] at hheld
    exact setAt_exists (P := (works · = true)) hcalls (fun hw => hworks.trans hw) (h.held hheld)

theorem OneWorker.moved (h : OneWorker s) (hcalls : t.calls = setAt s.calls call r')
    (hmoved : Moved s t (s.calls call) r') : OneWorker t := by
  cases hmoved with
  | quiet hrow _ hworks => exact h.keep hcalls hworks hrow
  | write _ _ hworks hworks' hrow => exact h.keep hcalls (hworks'.trans hworks.symm) hrow
  | discard reason hwas hnow hrow =>
    refine h.keep hcalls ?_ hrow
    rw [hwas, hnow]
    rfl
  | claim hfree hrow _ hworks =>
    have honly : ∀ i, works (t.calls i) = true → i = call := by
      intro i hi
      rcases setAt_cases (P := (works · = true)) hcalls hi with ⟨rfl, -⟩ | ⟨-, hbefore⟩
      · rfl
      · exact absurd (h.shown i hbefore) hfree
    have hcall : works (t.calls call) = true := by rw [hcalls, setAt_same, hworks]
    exact ⟨fun _ _ => hrow, fun i j hi hj => (honly i hi).trans (honly j hj).symm, fun _ => ⟨call, hcall⟩⟩
  | settle status hworks hworks' hrow hsettled =>
    have hnone : ∀ i, works (t.calls i) = true → False := by
      intro i hi
      obtain ⟨hne, hbefore⟩ := setAt_not (P := (works · = true)) hcalls (by rw [hworks']; exact nofun) hi
      exact hne (h.unique i call hbefore hworks)
    refine ⟨fun i hi => (hnone i hi).elim, fun i _ hi => (hnone i hi).elim, fun hheld => ?_⟩
    rw [hrow, Option.some.injEq] at hheld
    exact absurd hheld hsettled

theorem ReplayInv.moved (h : ReplayInv s) (hcalls : t.calls = setAt s.calls call r')
    (hmoved : Moved s t (s.calls call) r') : ReplayInv t := by
  have hworker := h.toOneWorker.moved hcalls hmoved
  cases hmoved with
  | quiet hrow hentry hworks htail htail' hread hdiscard hreturned =>
    refine ⟨hworker, fun hnone => ?_, fun status shown hrow' hentry' hcontra => ?_,
      h.present_moved hcalls (by rw [hentry]; exact id) hdiscard,
      h.kept_moved hcalls hread (by rw [hentry]; exact id) hreturned⟩
    · rw [hrow] at hnone
      obtain ⟨hfree, htails⟩ := h.fresh hnone
      refine ⟨hentry.trans hfree, fun i => ?_⟩
      by_contra hi
      exact (setAt_not (P := (tail · ≠ none)) hcalls (not_not.mpr htail') hi).2 (htails i)
    · rw [hrow] at hrow'
      rw [hentry] at hentry'
      refine setAt_exists (P := (tail · = some status)) hcalls (fun hpend => ?_)
        (h.outcome status shown hrow' hentry' hcontra)
      rw [htail] at hpend
      cases hpend
  | claim hfree hrow hentry hworks htail hreturned =>
    have hread : r' ≠ some (.rereading true) := by
      rintro rfl
      cases hworks
    refine ⟨hworker, fun hnone => ?_, fun status shown hrow' _ hcontra => ?_,
      h.present_moved hcalls (by rw [hentry]; exact id) (fun reason hr => ?_),
      h.kept_moved hcalls hread (by rw [hentry]; exact id) fun hr => .inl (hreturned ▸ hr)⟩
    · rw [hrow] at hnone
      cases hnone
    · rw [hrow] at hrow'
      cases hrow'
      exact hcontra.elim
    · rw [hr] at hworks
      cases hworks
  | settle status hworks hworks' hrow hsettled hentry htail hreturned =>
    have hread : r' ≠ some (.rereading true) := by
      rintro rfl
      cases htail
    refine ⟨hworker, fun hnone => ?_, fun status' shown hrow' _ _ => ?_,
      h.present_moved hcalls (by rw [hentry]; exact id) (fun reason hr => ?_),
      h.kept_moved hcalls hread (by rw [hentry]; exact id) fun hr => .inl (hreturned ▸ hr)⟩
    · rw [hrow] at hnone
      cases hnone
    · rw [hrow, Option.some.injEq] at hrow'
      refine ⟨call, ?_⟩
      rw [hcalls, setAt_same, htail, hrow']
    · rw [hr] at htail
      cases htail
  | write status htail hworks hworks' hrow hsame hentry _ hkept hthere hread hdiscard hreturned =>
    have hstarted : s.rows.consumptionStatus ≠ none := by
      intro hnone
      rw [(h.fresh hnone).2 call] at htail
      cases htail
    refine ⟨hworker, fun hnone => ?_, fun status' shown hrow' hentry' hcontra => ?_,
      h.present_moved hcalls hthere (fun reason hr => absurd hr (hdiscard reason)),
      h.kept_moved hcalls hread hkept fun hr => .inl (hreturned ▸ hr)⟩
    · rw [hrow] at hnone
      exact absurd hnone hstarted
    · -- the entry now shows the outcome in force, or there is none yet
      rw [hrow] at hrow'
      rcases hsame with hforce | hforce | hforce
      · obtain rfl : status = status' := Option.some.inj (hforce.symm.trans hrow')
        exact absurd hcontra (hentry shown hentry')
      · obtain rfl : ConsumptionStatus.processing = status' := Option.some.inj (hforce.symm.trans hrow')
        exact hcontra.elim
      · exact absurd hforce hstarted
  | discard reason hwas hnow hrow hentry hreturned =>
    have hdiscarded := hentry (h.present call reason hwas)
    refine ⟨hworker, fun hnone => ?_, fun status shown _ hentry' hcontra => ?_, fun _ _ _ => ?_,
      fun _ => hdiscarded⟩
    · rw [hrow] at hnone
      exact absurd (h.fresh hnone).1 (h.present call reason hwas)
    · rw [hdiscarded] at hentry'
      obtain rfl := Option.some.inj hentry'
      cases status <;> cases hcontra
    · rw [hdiscarded]
      exact nofun

theorem ReplayInv.step {a : ReplayAction} (h : ReplayInv s) (hallowed : Orderly s a)
    (hstep : replayStep c s a = some t) : ReplayInv t := by
  obtain ⟨call, r', hcalls, hmoved⟩ := replay_moves hallowed hstep
  exact h.moved hcalls hmoved

theorem works_of_handling {i : Nat} (h : Handling s i) : works (s.calls i) = true := by
  obtain ⟨attempt, hphase⟩ := h
  obtain ⟨request, hcall, hp⟩ := Option.bind_eq_some_iff.mp hphase
  rw [hcall, works, hp]

theorem ReplayInv.consistent (h : ReplayInv s) : Consistent s where
  overlap i j hi hj := h.unique i j (works_of_handling hi) (works_of_handling hj)
  kept hreturned := discarded_iff.mpr (h.kept (.inl hreturned))
  agrees hquiet entry hentry hkept := by
    have hshown : s.rows.entryStatus = some entry.status := by rw [Rows.entryStatus, hentry]; rfl
    have hnotail : ∀ status, ¬ ∃ i, tail (s.calls i) = some status := by
      rintro status ⟨i, hi⟩
      rw [hquiet i] at hi
      cases hi
    rw [consumed_iff]
    cases hrow : s.rows.consumptionStatus with
    | none =>
      rw [(h.fresh hrow).1] at hshown
      cases hshown
    | some status =>
      cases status with
      | processing =>
        obtain ⟨i, hi⟩ := h.held hrow
        rw [hquiet i] at hi
        cases hi
      | processed =>
        refine ⟨fun _ => rfl, fun _ => ?_⟩
        have hnot : entry.status ≠ .dead := fun hdead =>
          hnotail _ (h.outcome .processed entry.status hrow hshown hdead)
        cases hstatus : entry.status with
        | dead => exact absurd hstatus hnot
        | replayed => rfl
        | discarded => exact absurd hstatus hkept
      | failed =>
        refine ⟨fun hreplayed => ?_, nofun⟩
        exact absurd (h.outcome .failed entry.status hrow hshown hreplayed) (hnotail _)

theorem ReplayInv.noReplayAfter {a : ReplayAction} (h : ReplayInv s) (hallowed : Orderly s a) :
    NoReplayAfter s a := by
  cases a with
  | deliver | replay | discard => trivial
  | advance i error =>
    intro event attempt hcall
    simp only [Orderly, hcall, Option.all_some, requestAllowed, phaseAllowed, Bool.true_and,
      Bool.not_eq_true'] at hallowed
    by_contra hreturned
    rw [Bool.not_eq_false] at hreturned
    rw [discarded_iff.mpr (h.kept (.inl hreturned))] at hallowed
    cases hallowed

/-- **Dead letters are handled consistently** in every run whose statements meet
the condition: no two handler executions overlap, what has been discarded stays
so and is not replayed, and at rest the entry is replayed exactly if the event
is processed. -/
theorem dead_letters_consistent (c : ConsumerDefinition) (acts : List ReplayAction)
    (hall : (replaySystem c).Along Orderly .start acts) :
    (replaySystem c).Throughout Consistent .start acts ∧ (replaySystem c).Along NoReplayAfter .start acts := by
  have hkeep : ∀ {s t : ReplayState} {a : ReplayAction}, ReplayInv s → Orderly s a →
      (replaySystem c).step s a = some t → ReplayInv t := fun h hallowed hstep => h.step hallowed hstep
  constructor
  · exact (replaySystem c).throughout_of_along hkeep (fun h => h.consistent) replayInv_start hall
  · exact (replaySystem c).along_mono hkeep (fun h hallowed => h.noReplayAfter hallowed) replayInv_start hall

end

/-! ## Runs out of order -/

/-- A consumer that tries once. -/
def oneAttempt : ConsumerDefinition := ⟨"flow-risk", 1⟩

/-- A delivery whose handler throws. -/
def failedDelivery (call : Nat) : List ReplayAction :=
  [.deliver call [], .advance call none, .advance call none, .advance call (some "busy"), .advance call none,
    .advance call none]

/-- The entry is discarded, and the event delivered once more. -/
def redelivered : List ReplayAction :=
  failedDelivery 0 ++ [.discard 1 none, .advance 1 none, .advance 1 none] ++ failedDelivery 2

/-- Two operators replay the entry. -/
def replayedTwice : List ReplayAction :=
  failedDelivery 0 ++ [.replay 1 none, .replay 2 none, .advance 1 none, .advance 1 none, .advance 2 none,
    .advance 2 none]

/-- A second delivery is processed before the first has written the entry. -/
def overtaken : List ReplayAction :=
  [.deliver 0 [], .advance 0 none, .advance 0 none, .advance 0 (some "busy"), .advance 0 none, .deliver 1 [],
    .advance 1 none, .advance 1 none, .advance 1 none, .advance 1 none, .advance 1 none, .advance 0 none]

/-- The calls that execute the handler, of the first three. -/
def handlingCalls (s : ReplayState) : List Nat :=
  (List.range 3).filter fun call =>
    match (s.calls call).bind Request.phase? with
    | some (.handling _) => true
    | _ => false

/-- What has been discarded is dead again; two replays execute the handler at a
time; a processed event has a dead entry. -/
theorem inconsistent_dead_letters :
    (¬ ∀ (c : ConsumerDefinition) (acts : List ReplayAction), (replaySystem c).Throughout Consistent .start acts) ∧
      ((replaySystem oneAttempt).run .start replayedTwice).map handlingCalls = some [1, 2] ∧
      ((replaySystem oneAttempt).run .start overtaken).map
        (fun s => (s.rows.consumptionStatus, s.rows.entryStatus, (s.calls 0).isSome, (s.calls 1).isSome)) =
        some (some .processed, some .dead, false, false) := by
  refine ⟨fun h => ?_, by decide, by decide⟩
  have hrun : ((replaySystem oneAttempt).run .start redelivered).map
      (fun s => (s.discardReturned, s.rows.discarded)) = some (true, false) := by decide
  obtain ⟨s, hs, hend⟩ := Option.map_eq_some_iff.mp hrun
  obtain ⟨hreturned, hdiscarded⟩ := Prod.mk.inj hend
  have hkept := ((replaySystem oneAttempt).throughout_end (h oneAttempt redelivered) hs).kept hreturned
  rw [hdiscarded] at hkept
  cases hkept

/-- A failed event is replayed with a corrected payload, and its entry
discarded. -/
def correctedReplay : List ReplayAction :=
  failedDelivery 0 ++ [.replay 1 (some [("item", .str "10")]), .advance 1 none, .advance 1 none, .advance 1 none,
    .advance 1 none, .advance 1 none, .advance 1 none, .advance 1 none, .advance 1 none, .discard 2 (some "done"),
    .advance 2 none, .advance 2 none]

theorem dead_letters_consistent_corrected :
    (replaySystem oneAttempt).Throughout Consistent .start correctedReplay ∧
      ((replaySystem oneAttempt).run .start correctedReplay).map
        (fun s => (s.rows.consumptionStatus, s.rows.entryStatus)) = some (some .processed, some .discarded) :=
  ⟨(dead_letters_consistent oneAttempt correctedReplay (by decide)).1, by decide⟩

end Cadena.Events.DeadLetters
