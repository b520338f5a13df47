import Cadena.Audit.BuiltChain
import Cadena.Base.Transition

/-!
# Two writers on one chain

`EventOutboxService.enqueue` in two transactions of one tenant on pooled
PostgreSQL, one statement a step, in every order. A statement sees the
committed rows and its own transaction's. An insert waits while the other
transaction holds a row it would clash with, and a statement that fails
aborts its transaction: until the rollback every later statement fails too,
the retry of `appendAuditIntegrityEntry` among them.

Both transactions commit exactly when no head of the chain is read while
the other transaction still has to commit the entry after the same head.
-/

namespace Cadena.Audit

open Cadena.Base HashChain

/-! ## The statements of one transaction -/

inductive Party where
  | first
  | second
  deriving DecidableEq

def Party.other : Party → Party
  | .first => .second
  | .second => .first

@[simp] theorem Party.other_other (i : Party) : i.other.other = i := by cases i <;> rfl

theorem Party.other_ne (i : Party) : i.other ≠ i := by cases i <;> decide

theorem Party.eq_or_other (i j : Party) : j = i ∨ j = i.other := by
  cases i <;> cases j <;> decide

structure OutboxEventInput where
  eventId : Uuid
  orgId : Uuid
  eventType : String
  workItemId : String
  actorType : String
  actorId : String
  payload : Fields
  timestamp : Millis

def integrityInput (event : OutboxEventInput) : IntegrityEventInput where
  source := .domainEvents
  eventId := event.eventId
  orgId := some event.orgId
  workItemId := some event.workItemId
  eventType := event.eventType
  actorType := event.actorType
  actorId := event.actorId
  payload := event.payload
  occurredAt := event.timestamp

def domainRow (event : OutboxEventInput) : DomainEventRow where
  eventId := event.eventId
  orgId := some event.orgId
  eventType := event.eventType
  workItemId := some event.workItemId
  actorType := event.actorType
  actorId := event.actorId
  payload := event.payload
  occurredAt := event.timestamp

/-- What a transaction does next. -/
inductive Phase where
  | insertEvent
  | checkExisting
  | readHead (attempt : Nat)
  | insertEntry (attempt : Nat) (previousHash : Option String)
  /-- The insert is blocked by a row of the other transaction. -/
  | waiting (attempt : Nat) (row : IntegrityEntry)
  | insertOutbox
  | commit
  | committed
  /-- The error has reached `transaction`, which rolls back. -/
  | rollback
  | rolledBack

/-- A transaction: its next statement, whether a statement of it has failed,
and the entry it has inserted and not committed. -/
structure Tx where
  phase : Phase
  aborted : Bool
  entry : Option IntegrityEntry

def Tx.begin : Tx := ⟨.insertEvent, false, none⟩

/-- The committed rows, the sequence, which no rollback takes back, and the
transactions. -/
structure Pool where
  domainEvents : List DomainEventRow
  entries : List IntegrityEntry
  outbox : List Uuid
  nextSequence : Nat
  txs : Party → Tx

def Pool.move (s : Pool) (i : Party) (phase : Phase) : Pool :=
  { s with txs := setAt s.txs i { s.txs i with phase } }

/-- A statement fails: the transaction is aborted and the caller goes on
with `phase`. -/
def Pool.fail (s : Pool) (i : Party) (phase : Phase) : Pool :=
  { s with txs := setAt s.txs i { s.txs i with phase, aborted := true } }

/-- The rows of the transaction become visible. -/
def Pool.commit (s : Pool) (i : Party) (event : OutboxEventInput) : Pool :=
  { s with
    domainEvents := s.domainEvents ++ [domainRow event]
    entries := s.entries ++ (s.txs i).entry.toList
    outbox := s.outbox ++ [event.eventId]
    txs := setAt s.txs i { s.txs i with phase := .committed, entry := none } }

/-- Whether the other transaction holds a row that the insert would clash
with. -/
def Pool.blocked (s : Pool) (i : Party) (row : IntegrityEntry) : Bool :=
  (violated (s.txs i.other).entry.toList row).isSome

/-- The unique indexes decide over an entry: a committed row fails it, one
in progress makes it wait. The error of a lost race is caught for another
attempt. -/
def Pool.insertRow (s : Pool) (i : Party) (attempt : Nat) (row : IntegrityEntry) : Pool :=
  match violated s.entries row with
  | some index =>
    if lostChainRace index && attempt != MAX_APPEND_ATTEMPTS then s.fail i (.readHead (attempt + 1))
    else s.fail i .rollback
  | none =>
    if s.blocked i row then s.move i (.waiting attempt row)
    else { s with txs := setAt s.txs i { s.txs i with phase := .insertOutbox, entry := some row } }

section
variable (P : Platform) (events : Party → OutboxEventInput)

/-- A statement of a transaction that no statement has aborted. -/
def execute (s : Pool) (i : Party) : Phase → Option Pool
  | .insertEvent =>
    if s.domainEvents.any (·.eventId == (events i).eventId) then some (s.fail i .rollback)
    else some (s.move i .checkExisting)
  | .checkExisting =>
    if recorded s.entries (integrityInput (events i)) then some (s.move i .insertOutbox)
    else some (s.move i (.readHead 1))
  | .readHead attempt =>
    some (s.move i (.insertEntry attempt (headHash s.entries (events i).orgId)))
  | .insertEntry attempt previousHash =>
    let row := entryRow P (integrityInput (events i)) (events i).orgId previousHash s.nextSequence
    let drawn := { s with nextSequence := s.nextSequence + 1 }
    -- ON CONFLICT (source, event_id) DO NOTHING
    if recorded s.entries (integrityInput (events i)) then some (drawn.move i .insertOutbox)
    else some (drawn.insertRow i attempt row)
  | .waiting attempt row =>
    if s.blocked i row then none else some (s.insertRow i attempt row)
  | .insertOutbox =>
    if s.outbox.contains (events i).eventId then some (s.fail i .rollback)
    else some (s.move i .commit)
  | .commit => some (s.commit i (events i))
  | .committed | .rollback | .rolledBack => none

/-- One step of a transaction. On an aborted one every statement fails, and
`COMMIT` rolls back. -/
def step (s : Pool) (i : Party) : Option Pool :=
  match (s.txs i).phase with
  | .committed | .rolledBack => none
  | .rollback =>
    some { s with txs := setAt s.txs i { s.txs i with phase := .rolledBack, entry := none } }
  | phase =>
    if (s.txs i).aborted then some (s.fail i .rollback) else execute P events s i phase

def transactions : System Pool Party where
  step := step P events

end

/-- Between reading the head of the chain and committing. -/
def Phase.holdsHead : Phase → Bool
  | .insertEntry _ _ | .waiting _ _ | .insertOutbox | .commit => true
  | _ => false

/-- The head is not read while the other transaction is between its own read
and its commit. -/
def ReadsAlone (s : Pool) (i : Party) : Prop :=
  ∀ attempt, (s.txs i).phase = .readHead attempt → (s.txs i.other).phase.holdsHead = false

/-- Two new events of a tenant, whose chain is as appending builds it. -/
structure Start (P : Platform) (events : Party → OutboxEventInput) (orgId : Uuid) (s : Pool) :
    Prop where
  tenant : ∀ i, (events i).orgId = orgId
  distinct : (events .first).eventId ≠ (events .second).eventId
  begun : ∀ i, s.txs i = Tx.begin
  newEvent : ∀ i, ∀ r ∈ s.domainEvents, r.eventId ≠ (events i).eventId
  newOutbox : ∀ i, (events i).eventId ∉ s.outbox
  newEntry : ∀ i, recorded s.entries (integrityInput (events i)) = false
  chain : TenantChain P orgId ⟨s.entries, s.nextSequence⟩

/-! ## Runs that read the head alone -/

section
variable {P : Platform} {events : Party → OutboxEventInput} {orgId : Uuid} {s t : Pool}
  {i : Party}

/-- What a transaction has done so far when nothing has come between its
read of the head and its commit. -/
def Steady (P : Platform) (event : OutboxEventInput) (orgId : Uuid) (entries : List IntegrityEntry)
    (next : Nat) (tx : Tx) : Prop :=
  match tx.phase with
  | .insertEvent | .checkExisting | .readHead _ | .committed => tx.entry = none
  | .insertEntry _ previousHash => tx.entry = none ∧ previousHash = headHash entries orgId
  | .insertOutbox | .commit =>
    ∃ sequence, tx.entry = some (entryRow P (integrityInput event) orgId
      (headHash entries orgId) sequence) ∧
      (∀ e ∈ entries, e.sequence < sequence) ∧ sequence < next
  | .waiting _ _ | .rollback | .rolledBack => False

/-- No committed row is one of the event. -/
structure NewEvent (event : OutboxEventInput) (s : Pool) : Prop where
  domain : s.domainEvents.any (·.eventId == event.eventId) = false
  outbox : s.outbox.contains event.eventId = false
  entry : recorded s.entries (integrityInput event) = false

/-- The state of a run in which the head has been read alone. -/
structure Alone (P : Platform) (events : Party → OutboxEventInput) (orgId : Uuid) (s : Pool) :
    Prop where
  chain : TenantChain P orgId ⟨s.entries, s.nextSequence⟩
  running : ∀ i, (s.txs i).aborted = false
  steady : ∀ i, Steady P (events i) orgId s.entries s.nextSequence (s.txs i)
  exclusive : ∀ i, (s.txs i).phase.holdsHead = true → (s.txs i.other).phase.holdsHead = false
  fresh : ∀ i, (s.txs i).phase ≠ .committed → NewEvent (events i) s

theorem Start.alone (h : Start P events orgId s) : Alone P events orgId s where
  chain := h.chain
  running i := by rw [h.begun i]; rfl
  steady i := by rw [h.begun i]; rfl
  exclusive i hi := by rw [h.begun i] at hi; cases hi
  fresh i _ := by
    constructor
    · simp only [List.any_eq_false, beq_iff_eq]
      exact h.newEvent i
    · simpa using h.newOutbox i
    · exact h.newEntry i

variable {n : Nat} {entries : List IntegrityEntry} {event : OutboxEventInput} {row : IntegrityEntry}
  {head : Option String}

theorem Steady.mono {m : Nat} {tx : Tx} (h : Steady P event orgId entries n tx) (hnm : n ≤ m) :
    Steady P event orgId entries m tx := by
  unfold Steady at *
  cases hp : tx.phase with
  | insertOutbox | commit =>
    rw [hp] at h
    obtain ⟨sequence, he, hmax, hlt⟩ := h
    exact ⟨sequence, he, hmax, by omega⟩
  | waiting _ _ | rollback | rolledBack =>
    rw [hp] at h
    exact h.elim
  | _ => simpa [hp] using h

theorem Steady.of_not_holdsHead {entries' : List IntegrityEntry}
    {m : Nat} {tx : Tx} (h : Steady P event orgId entries n tx)
    (hhold : tx.phase.holdsHead = false) : Steady P event orgId entries' m tx := by
  unfold Steady at *
  cases hp : tx.phase <;> simp_all [Phase.holdsHead]

theorem Steady.entry_none {tx : Tx} (h : Steady P event orgId entries n tx) (hhold : tx.phase.holdsHead = false) :
    tx.entry = none := by
  unfold Steady at h
  cases hp : tx.phase <;> simp_all [Phase.holdsHead]

theorem Alone.keep (h : Alone P events orgId s) {tx : Tx} (hn : s.nextSequence ≤ n)
    (hsteady : Steady P (events i) orgId s.entries n tx) (hrun : tx.aborted = false)
    (hbusy : (s.txs i).phase ≠ .committed)
    (hhold : tx.phase.holdsHead = true → (s.txs i.other).phase.holdsHead = false) :
    Alone P events orgId { s with nextSequence := n, txs := setAt s.txs i tx } where
  chain := ⟨h.chain.keyed, fun e he => (h.chain.below e he).trans_le hn, h.chain.rows,
    h.chain.linear⟩
  running j := by
    rcases i.eq_or_other j with rfl | rfl
    · simpa using hrun
    · simpa [setAt_other _ _ i.other_ne] using h.running i.other
  steady j := by
    rcases i.eq_or_other j with rfl | rfl
    · simpa using hsteady
    · simpa [setAt_other _ _ i.other_ne] using (h.steady i.other).mono hn
  exclusive j hj := by
    rcases i.eq_or_other j with rfl | rfl
    · simp only [setAt_same, setAt_other _ _ (Party.other_ne _)] at hj ⊢
      exact hhold hj
    · simp only [setAt_same, setAt_other _ _ (Party.other_ne _), Party.other_other] at hj ⊢
      by_contra hne
      have hother := hhold (by simpa using hne)
      rw [hj] at hother
      cases hother
  fresh j hj := by
    rcases i.eq_or_other j with rfl | rfl
    · exact ⟨(h.fresh _ hbusy).domain, (h.fresh _ hbusy).outbox, (h.fresh _ hbusy).entry⟩
    · simp only [setAt_other _ _ i.other_ne] at hj
      exact ⟨(h.fresh _ hj).domain, (h.fresh _ hj).outbox, (h.fresh _ hj).entry⟩

theorem recorded_concat {other : OutboxEventInput}
    {previousHash : Option String} {sequence : Nat} (hne : event.eventId ≠ other.eventId)
    (h : recorded entries (integrityInput event) = false) :
    recorded (entries ++ [entryRow P (integrityInput other) orgId previousHash sequence])
      (integrityInput event) = false := by
  have hid : (other.eventId == event.eventId) = false := by simpa using hne.symm
  simp only [recorded, List.any_append, List.any_cons, List.any_nil, Bool.or_false] at h ⊢
  rw [h]
  simp [entryRow, integrityInput, hid]

theorem Alone.commits (hP : Digest P) (htenant : ∀ i, (events i).orgId = orgId)
    (hdistinct : (events i.other).eventId ≠ (events i).eventId)
    (h : Alone P events orgId s) {sequence : Nat}
    (hentry : (s.txs i).entry = some (entryRow P (integrityInput (events i)) orgId
      (headHash s.entries orgId) sequence))
    (hmax : ∀ e ∈ s.entries, e.sequence < sequence) (hlt : sequence < s.nextSequence)
    (hhold : (s.txs i.other).phase.holdsHead = false) :
    Alone P events orgId (s.commit i (events i)) where
  chain := by
    simp only [Pool.commit, hentry]
    exact h.chain.insert hP (by simp [integrityInput, htenant]) hmax hlt
  running j := by
    rcases i.eq_or_other j with rfl | rfl
    · simpa [Pool.commit] using h.running _
    · simpa [Pool.commit, setAt_other _ _ i.other_ne] using h.running i.other
  steady j := by
    rcases i.eq_or_other j with rfl | rfl
    · simp [Pool.commit, Steady]
    · simpa [Pool.commit, setAt_other _ _ i.other_ne] using
        (h.steady i.other).of_not_holdsHead hhold
  exclusive j hj := by
    rcases i.eq_or_other j with rfl | rfl
    · simp [Pool.commit, Phase.holdsHead] at hj
    · simp only [Pool.commit, setAt_other _ _ i.other_ne] at hj
      rw [hhold] at hj
      cases hj
  fresh j hj := by
    rcases i.eq_or_other j with rfl | rfl
    · simp [Pool.commit] at hj
    · simp only [Pool.commit, setAt_other _ _ i.other_ne] at hj
      have hnew := h.fresh _ hj
      constructor
      · simp only [Pool.commit, List.any_append, hnew.domain, List.any_cons, List.any_nil,
          Bool.false_or, Bool.or_false]
        simpa [domainRow] using hdistinct.symm
      · have hout := hnew.outbox
        simp only [Pool.commit, List.contains_append, hout, Bool.false_or]
        simpa using hdistinct
      · simp only [Pool.commit, hentry]
        exact recorded_concat hdistinct hnew.entry

theorem Start.distinct_other (h : Start P events orgId s) (i : Party) :
    (events i.other).eventId ≠ (events i).eventId := by
  cases i
  · exact h.distinct.symm
  · exact h.distinct

theorem Alone.progress (hP : Digest P) (htenant : ∀ i, (events i).orgId = orgId)
    (hdistinct : (events i.other).eventId ≠ (events i).eventId) (h : Alone P events orgId s)
    (hbusy : (s.txs i).phase ≠ .committed) :
    ∃ t, step P events s i = some t ∧ (ReadsAlone s i → Alone P events orgId t) := by
  have hrun := h.running i
  have hsteady := h.steady i
  have hnew := h.fresh i hbusy
  unfold Steady at hsteady
  cases hp : (s.txs i).phase with
  | insertEvent =>
    rw [hp] at hsteady
    refine ⟨s.move i .checkExisting, by simp [step, hp, hrun, execute, hnew.domain], fun _ => ?_⟩
    exact h.keep le_rfl (by simpa [Steady] using hsteady) hrun hbusy (by simp [Phase.holdsHead])
  | checkExisting =>
    rw [hp] at hsteady
    refine ⟨s.move i (.readHead 1), by simp [step, hp, hrun, execute, hnew.entry], fun _ => ?_⟩
    exact h.keep le_rfl (by simpa [Steady] using hsteady) hrun hbusy (by simp [Phase.holdsHead])
  | readHead attempt =>
    rw [hp] at hsteady
    refine ⟨s.move i (.insertEntry attempt (headHash s.entries orgId)),
      by simp [step, hp, hrun, execute, htenant], fun halone => ?_⟩
    exact h.keep le_rfl ⟨hsteady, rfl⟩ hrun hbusy fun _ => halone attempt hp
  | insertEntry attempt previousHash =>
    rw [hp] at hsteady
    obtain ⟨-, rfl⟩ := hsteady
    have hother := h.exclusive i (by rw [hp]; rfl)
    have hfree : s.blocked i (entryRow P (integrityInput (events i)) orgId
        (headHash s.entries orgId) s.nextSequence) = false := by
      unfold Pool.blocked
      rw [(h.steady i.other).entry_none hother]
      rfl
    refine ⟨{ s with
      nextSequence := s.nextSequence + 1
      txs := setAt s.txs i ⟨.insertOutbox, (s.txs i).aborted,
        some (entryRow P (integrityInput (events i)) orgId (headHash s.entries orgId)
          s.nextSequence)⟩ }, ?_, fun _ => ?_⟩
    · have hviol : violated s.entries (entryRow P (integrityInput (events i)) orgId
          (headHash s.entries orgId) s.nextSequence) = none :=
        violated_head hP h.chain.linear h.chain.rows hnew.entry
      simp only [step, hp, hrun, execute, hnew.entry, htenant, Pool.insertRow, hviol]
      simp only [Pool.blocked] at hfree ⊢
      simp [hfree]
    · refine h.keep (Nat.le_succ _) ?_ hrun hbusy fun _ => hother
      exact ⟨s.nextSequence, rfl, h.chain.below, Nat.lt_succ_self _⟩
  | waiting attempt row => rw [hp] at hsteady; exact hsteady.elim
  | insertOutbox =>
    rw [hp] at hsteady
    refine ⟨s.move i .commit, by simp only [step, hp, hrun, execute, hnew.outbox]; rfl,
      fun _ => ?_⟩
    refine h.keep le_rfl (by simpa [Steady] using hsteady) hrun hbusy fun _ => ?_
    exact h.exclusive i (by rw [hp]; rfl)
  | commit =>
    rw [hp] at hsteady
    obtain ⟨sequence, hentry, hmax, hlt⟩ := hsteady
    refine ⟨s.commit i (events i), by simp only [step, hp, hrun, execute]; rfl, fun _ => ?_⟩
    have hother := h.exclusive i (by rw [hp]; rfl)
    exact h.commits hP htenant hdistinct hentry hmax hlt hother
  | committed => exact absurd hp hbusy
  | rollback => rw [hp] at hsteady; exact hsteady.elim
  | rolledBack => rw [hp] at hsteady; exact hsteady.elim

/-! ## Two transactions after one head -/

/-- A failed transaction that nothing can make commit. -/
def Lost (tx : Tx) : Prop :=
  match tx.phase with
  | .rollback | .rolledBack => True
  | .readHead _ => tx.aborted = true
  | _ => False

/-- An insert after the head `h` that is still to be decided. -/
def Pending (event : OutboxEventInput) (orgId : Uuid) (h : Option String) (tx : Tx) : Prop :=
  tx.entry = none ∧
    match tx.phase with
    | .insertEntry _ previousHash => previousHash = h
    | .waiting _ row => row.orgId = orgId ∧ row.previousHash = h ∧ row.eventId = event.eventId
    | _ => False

/-- An entry after the head `h` that is inserted or committed. -/
def Written (event : OutboxEventInput) (orgId : Uuid) (h : Option String)
    (entries : List IntegrityEntry) (tx : Tx) : Prop :=
  match tx.phase with
  | .insertOutbox | .commit =>
    ∃ row, tx.entry = some row ∧ row.orgId = orgId ∧ row.previousHash = h ∧
      row.eventId = event.eventId
  | .committed => ∃ row ∈ entries, row.orgId = orgId ∧ row.previousHash = h
  | _ => False

/-- One transaction has failed, or one is still to insert after a head that
the other has taken as well. -/
def Doomed (events : Party → OutboxEventInput) (orgId : Uuid) (s : Pool) : Prop :=
  (∃ i, Lost (s.txs i)) ∨
    ∃ i h, Pending (events i) orgId h (s.txs i) ∧
      recorded s.entries (integrityInput (events i)) = false ∧
      (Pending (events i.other) orgId h (s.txs i.other) ∧
          recorded s.entries (integrityInput (events i.other)) = false
        ∨ Written (events i.other) orgId h s.entries (s.txs i.other))

theorem Lost.not_committed {tx : Tx} (h : Lost tx) : tx.phase ≠ .committed := by
  intro hp
  simp [Lost, hp] at h

theorem Doomed.not_committed (h : Doomed events orgId s) :
    ¬ ∀ i, (s.txs i).phase = .committed := by
  intro hall
  rcases h with ⟨i, hlost⟩ | ⟨i, head, hpend, -⟩
  · exact hlost.not_committed (hall i)
  · simp [Pending, hall i] at hpend

@[simp] theorem fail_other (s : Pool) (i : Party) (phase : Phase) :
    (s.fail i phase).txs i.other = s.txs i.other := setAt_other _ _ i.other_ne

@[simp] theorem move_other (s : Pool) (i : Party) (phase : Phase) :
    (s.move i phase).txs i.other = s.txs i.other := setAt_other _ _ i.other_ne

@[simp] theorem insertRow_other (s : Pool) (i : Party) (n : Nat) (row : IntegrityEntry) :
    (s.insertRow i n row).txs i.other = s.txs i.other := by
  unfold Pool.insertRow
  split
  · split <;> simp
  · split
    · simp
    · exact setAt_other _ _ i.other_ne

theorem execute_other {phase : Phase} (h : execute P events s i phase = some t) :
    t.txs i.other = s.txs i.other := by
  cases phase with
  | insertEvent | checkExisting | insertOutbox =>
    simp only [execute] at h
    split at h <;> cases h <;> simp
  | readHead _ =>
    cases h
    simp
  | insertEntry attempt previousHash =>
    simp only [execute] at h
    split at h <;> cases h <;> simp
  | waiting attempt row =>
    simp only [execute] at h
    split at h <;> cases h
    simp
  | commit =>
    cases h
    exact setAt_other _ _ i.other_ne
  | committed | rollback | rolledBack => cases h

theorem step_cases (hstep : step P events s i = some t) :
    ((s.txs i).phase = .rollback ∧
        t = { s with txs := setAt s.txs i { s.txs i with phase := .rolledBack, entry := none } }) ∨
      ((s.txs i).aborted = true ∧ t = s.fail i .rollback) ∨
      ((s.txs i).aborted = false ∧ execute P events s i (s.txs i).phase = some t) := by
  unfold step at hstep
  split at hstep
  · cases hstep
  · cases hstep
  · rename_i hp
    exact .inl ⟨hp, (Option.some.inj hstep).symm⟩
  · split at hstep
    · rename_i hab
      exact .inr (.inl ⟨hab, (Option.some.inj hstep).symm⟩)
    · rename_i hab
      exact .inr (.inr ⟨by simpa using hab, hstep⟩)

theorem step_other (hstep : step P events s i = some t) : t.txs i.other = s.txs i.other := by
  obtain ⟨-, rfl⟩ | ⟨-, rfl⟩ | ⟨-, hexec⟩ := step_cases hstep
  · exact setAt_other _ _ i.other_ne
  · simp
  · exact execute_other hexec

theorem lost_fail (s : Pool) (i : Party) : Lost ((s.fail i .rollback).txs i) := by
  simp [Lost, Pool.fail]

theorem Lost.step (h : Lost (s.txs i)) (hstep : step P events s i = some t) : Lost (t.txs i) := by
  obtain ⟨-, rfl⟩ | ⟨-, rfl⟩ | ⟨hrun, hexec⟩ := step_cases hstep
  · simp [Lost]
  · exact lost_fail s i
  · -- only the retry of a lost race would still execute, and its transaction is aborted
    cases hp : (s.txs i).phase with
    | readHead n => simp [Lost, hp, hrun] at h
    | rollback | rolledBack =>
      rw [hp] at hexec
      cases hexec
    | _ => simp [Lost, hp] at h

theorem Written.clash (h : Written (events i.other) orgId head s.entries (s.txs i.other)) (horg : row.orgId = orgId)
    (hprev : row.previousHash = head) (hviol : violated s.entries row = none) :
    s.blocked i row = true := by
  rw [violated_eq_none_iff] at hviol
  unfold Written at h
  cases hp : (s.txs i.other).phase with
  | insertOutbox | commit =>
    rw [hp] at h
    obtain ⟨e, he, heorg, heprev, -⟩ := h
    unfold Pool.blocked
    rw [Option.isSome_iff_ne_none]
    intro hnone
    rw [violated_eq_none_iff] at hnone
    have hclash := hnone e (by simp [he]) (heorg.trans horg.symm)
    exact hclash.2 (heprev.trans hprev.symm)
  | committed =>
    rw [hp] at h
    obtain ⟨e, he, heorg, heprev⟩ := h
    exact absurd (heprev.trans hprev.symm) (hviol e he (heorg.trans horg.symm)).2
  | _ => simp [hp] at h

theorem step_waiting (hp : (s.txs i).phase = .waiting n row) (hrun : (s.txs i).aborted = false)
    (hb : s.blocked i row = false) : step P events s i = some (s.insertRow i n row) := by
  simp only [step, hp, hrun, execute, hb, Bool.false_eq_true, if_false]

theorem insertRow_waits (hviol : violated s.entries row = none)
    (hb : s.blocked i row = true) : s.insertRow i n row = s.move i (.waiting n row) := by
  simp only [Pool.insertRow, hviol, hb, if_true]

theorem insertRow_lost {index : UniqueIndex} (hviol : violated s.entries row = some index)
    (hretry : (lostChainRace index && n != MAX_APPEND_ATTEMPTS) = true) :
    s.insertRow i n row = s.fail i (.readHead (n + 1)) := by
  simp only [Pool.insertRow, hviol, hretry, if_true]

theorem Doomed.insertRow
    (hentry : (s.txs i).entry = none) (horg : row.orgId = orgId) (hprev : row.previousHash = head)
    (hid : row.eventId = (events i).eventId)
    (hrec : recorded s.entries (integrityInput (events i)) = false)
    (hother : Pending (events i.other) orgId head (s.txs i.other) ∧
        recorded s.entries (integrityInput (events i.other)) = false
      ∨ Written (events i.other) orgId head s.entries (s.txs i.other)) :
    Doomed events orgId (s.insertRow i n row) := by
  cases hviol : violated s.entries row with
  | some index =>
    refine .inl ⟨i, ?_⟩
    simp only [Pool.insertRow, hviol]
    split
    · simp [Lost, Pool.fail]
    · exact lost_fail s i
  | none =>
    by_cases hb : s.blocked i row = true
    · refine .inr ⟨i, head, ?_⟩
      rw [insertRow_waits hviol hb, move_other]
      refine ⟨⟨?_, ?_⟩, hrec, hother⟩
      · simpa [Pool.move] using hentry
      · simpa [Pool.move] using ⟨horg, hprev, hid⟩
    · -- nothing of the other transaction is in the way, so it has not inserted yet
      refine .inr ⟨i.other, head, ?_⟩
      have hwrite : s.insertRow i n row = { s with
          txs := setAt s.txs i { s.txs i with phase := .insertOutbox, entry := some row } } := by
        simp only [Pool.insertRow, hviol, hb, Bool.false_eq_true, if_false]
      obtain ⟨hpend, hrec'⟩ := hother.resolve_right fun hw => hb (hw.clash horg hprev hviol)
      rw [hwrite]
      simp only [Party.other_other, setAt_same, setAt_other _ _ i.other_ne]
      refine ⟨hpend, hrec', .inr ?_⟩
      exact ⟨row, rfl, horg, hprev, hid⟩

theorem Pending.step (htenant : ∀ i, (events i).orgId = orgId) (hpend : Pending (events i) orgId head (s.txs i))
    (hrec : recorded s.entries (integrityInput (events i)) = false)
    (hother : Pending (events i.other) orgId head (s.txs i.other) ∧
        recorded s.entries (integrityInput (events i.other)) = false
      ∨ Written (events i.other) orgId head s.entries (s.txs i.other))
    (hstep : step P events s i = some t) : Doomed events orgId t := by
  obtain ⟨hentry, hphase⟩ := hpend
  obtain ⟨hp, -⟩ | ⟨-, rfl⟩ | ⟨-, hexec⟩ := step_cases hstep
  · simp [hp] at hphase
  · exact .inl ⟨i, lost_fail s i⟩
  · cases hp : (s.txs i).phase with
    | insertEntry attempt previousHash =>
      simp only [hp] at hphase hexec
      simp only [execute, hrec, Bool.false_eq_true, if_false, Option.some.injEq] at hexec
      subst hexec
      exact Doomed.insertRow hentry (htenant i) hphase rfl hrec hother
    | waiting attempt row =>
      simp only [hp] at hphase hexec
      obtain ⟨horg, hprev, hid⟩ := hphase
      simp only [execute] at hexec
      split at hexec
      · cases hexec
      · cases hexec
        exact Doomed.insertRow hentry horg hprev hid hrec hother
    | _ => simp [hp] at hphase

theorem Written.step (hw : Written (events i) orgId head s.entries (s.txs i)) (hstep : step P events s i = some t) :
    Lost (t.txs i) ∨ Written (events i) orgId head t.entries (t.txs i) ∧
      ∀ event, event.eventId ≠ (events i).eventId →
        recorded s.entries (integrityInput event) = false →
        recorded t.entries (integrityInput event) = false := by
  unfold Written at hw
  obtain ⟨hp, -⟩ | ⟨-, rfl⟩ | ⟨-, hexec⟩ := step_cases hstep
  · simp [hp] at hw
  · exact .inl (lost_fail s i)
  · cases hp : (s.txs i).phase with
    | insertOutbox =>
      rw [hp] at hw hexec
      simp only [execute] at hexec
      split at hexec
      · cases hexec
        exact .inl (lost_fail s i)
      · cases hexec
        refine .inr ⟨?_, fun _ _ hrec => hrec⟩
        simpa [Written, Pool.move] using hw
    | commit =>
      rw [hp] at hw hexec
      obtain ⟨row, hrow, horg, hprev, hid⟩ := hw
      cases hexec
      refine .inr ⟨?_, ?_⟩
      · simp only [Written, Pool.commit, setAt_same, hrow]
        exact ⟨row, by simp, horg, hprev⟩
      · intro event hne hrec
        have hid' : (row.eventId == event.eventId) = false := by
          rw [hid]
          simpa using hne.symm
        simp only [recorded, Pool.commit, hrow, Option.toList, List.any_append, List.any_cons,
          List.any_nil, Bool.or_false] at hrec ⊢
        rw [hrec]
        simp [integrityInput, hid']
    | committed =>
      rw [hp] at hexec
      cases hexec
    | _ => simp [hp] at hw

theorem Doomed.step (htenant : ∀ i, (events i).orgId = orgId)
    (hdistinct : ∀ i : Party, (events i.other).eventId ≠ (events i).eventId)
    (h : Doomed events orgId s) {k : Party} (hstep : step P events s k = some t) :
    Doomed events orgId t := by
  rcases h with ⟨i, hlost⟩ | ⟨i, head, hpend, hrec, hother⟩
  · refine .inl ⟨i, ?_⟩
    rcases k.eq_or_other i with rfl | rfl
    · exact hlost.step hstep
    · rw [step_other hstep]
      exact hlost
  · rcases i.eq_or_other k with rfl | rfl
    · exact Pending.step htenant hpend hrec hother hstep
    · rcases hother with ⟨hpend', hrec'⟩ | hw
      · refine Pending.step htenant hpend' hrec' (.inl ?_) hstep
        rw [Party.other_other]
        exact ⟨hpend, hrec⟩
      · have hframe := step_other hstep
        rw [Party.other_other] at hframe
        rcases hw.step hstep with hlost | ⟨hw', hkeep⟩
        · exact .inl ⟨i.other, hlost⟩
        · refine .inr ⟨i, head, ?_, hkeep _ (hdistinct i).symm hrec, .inr hw'⟩
          rw [hframe]
          exact hpend

theorem Alone.doomed (htenant : ∀ i, (events i).orgId = orgId) (h : Alone P events orgId s)
    (hnot : ¬ ReadsAlone s i) (hstep : step P events s i = some t) : Doomed events orgId t := by
  simp only [ReadsAlone, not_forall] at hnot
  obtain ⟨attempt, hp, hhold⟩ := hnot
  have hold : (s.txs i.other).phase.holdsHead = true := by simpa using hhold
  have hexec : execute P events s i (.readHead attempt) = some t := by
    obtain ⟨hp', -⟩ | ⟨hab, -⟩ | ⟨-, hexec⟩ := step_cases hstep
    · rw [hp] at hp'
      cases hp'
    · rw [h.running i] at hab
      cases hab
    · rw [hp] at hexec
      exact hexec
  simp only [execute, htenant, Option.some.injEq] at hexec
  subst hexec
  have hentry : (s.txs i).entry = none := by
    have hs := h.steady i
    unfold Steady at hs
    rw [hp] at hs
    exact hs
  have hfresh : ∀ j, (s.txs j).phase ≠ .committed →
      recorded s.entries (integrityInput (events j)) = false := fun j hj => (h.fresh j hj).entry
  refine .inr ⟨i, headHash s.entries orgId, ⟨by simpa [Pool.move] using hentry, by simp [Pool.move]⟩,
    hfresh i (by rw [hp]; simp), ?_⟩
  rw [move_other]
  have hs := h.steady i.other
  unfold Steady at hs
  cases hq : (s.txs i.other).phase with
  | insertEntry n previousHash =>
    rw [hq] at hs
    refine .inl ⟨⟨hs.1, ?_⟩, hfresh i.other (by rw [hq]; simp)⟩
    rw [hq]
    exact hs.2
  | insertOutbox | commit =>
    rw [hq] at hs
    obtain ⟨sequence, he, -⟩ := hs
    refine .inr ?_
    unfold Written
    rw [hq]
    exact ⟨_, he, rfl, rfl, rfl⟩
  | waiting n row =>
    rw [hq] at hs
    exact hs.elim
  | _ => simp [hq, Phase.holdsHead] at hold

/-- Both transactions have committed and the tenant's entries are one chain
in the order of their sequence numbers. -/
def BothSucceed (P : Platform) (orgId : Uuid) (s : Pool) : Prop :=
  (∀ i, (s.txs i).phase = .committed) ∧ LinearChain P s.entries orgId

/-- **Two writers of one tenant.** In every complete interleaving of two
enqueues both commit and extend one chain exactly when no head is read
while the other transaction is between its own read and its commit. -/
theorem concurrent_append (hP : Digest P) (hstart : Start P events orgId s) {acts : List Party}
    (hrun : (transactions P events).run s acts = some t) (hover : ∀ i, step P events t i = none) :
    BothSucceed P orgId t ↔ (transactions P events).Along ReadsAlone s acts := by
  have htenant := hstart.tenant
  have hdistinct := hstart.distinct_other
  have hkeep : ∀ {u : Pool} {i : Party} {v : Pool}, Alone P events orgId u → ReadsAlone u i →
      step P events u i = some v → Alone P events orgId v := by
    intro u i v hu hread hstep
    have hbusy : (u.txs i).phase ≠ .committed := by
      intro hp
      simp [step, hp] at hstep
    obtain ⟨w, hw, halone⟩ := hu.progress hP htenant (hdistinct i) hbusy
    rw [hstep] at hw
    exact Option.some.inj hw ▸ halone hread
  constructor
  · rintro ⟨hall, -⟩
    rcases (transactions P events).along_or_first hrun with halong |
      ⟨before, i, after, u, v, -, hbefore, halong, hnot, hstep, hafter⟩
    · exact halong
    · exfalso
      have hu := (transactions P events).along_invariant hkeep hstart.alone halong hbefore
      have hdoomed := (transactions P events).run_invariant
        (fun hd hs => Doomed.step htenant hdistinct hd hs) (hu.doomed htenant hnot hstep) hafter
      exact hdoomed.not_committed hall
  · intro halong
    have ht := (transactions P events).along_invariant hkeep hstart.alone halong hrun
    refine ⟨fun i => ?_, ht.chain.linear⟩
    by_contra hbusy
    obtain ⟨v, hv, -⟩ := ht.progress hP htenant (hdistinct i) hbusy
    rw [hover i] at hv
    cases hv

end

/-! ## A lost race -/

def exampleEvents (i : Party) : OutboxEventInput where
  eventId := if i = .first then 1 else 2
  orgId := 7
  eventType := "E"
  workItemId := "w"
  actorType := "user"
  actorId := "u"
  payload := []
  timestamp := 0

/-- No event yet. -/
def examplePool : Pool := ⟨[], [], [], 1, fun _ => Tx.begin⟩

theorem examplePool_start : Start Platform.hex exampleEvents 7 examplePool where
  tenant _ := rfl
  distinct := by decide
  begun _ := rfl
  newEvent _ := by simp [examplePool]
  newOutbox _ := by simp [examplePool]
  newEntry _ := rfl
  chain := Sound.empty Platform.hex 1 7

/-- Both read the empty chain; the second waits for the first's entry. -/
def lostRace : List Party :=
  [.first, .first, .first, .second, .second, .second, .first, .second, .first, .first,
    .second, .second, .second]

theorem violated_fork {P : Platform} (hP : Digest P) {a b : IntegrityEventInput} {orgId : Uuid}
    {head : Option String} (hhead : Produced (entryHash P) (orNull head))
    (hne : a.eventId ≠ b.eventId) (m n : Nat) :
    violated [entryRow P a orgId head m] (entryRow P b orgId head n)
      = some (if head.isSome then .chainLink else .chainGenesis) := by
  have hhash : (entryRow P a orgId head m).eventHash ≠ (entryRow P b orgId head n).eventHash := by
    intro heq
    have hbody := (hP.binding hhead hhead heq).2
    exact hne (canonicalAuditEvent_event (stableStringify_inj.mp hbody)).2
  have horg : (entryRow P a orgId head m).orgId = (entryRow P b orgId head n).orgId := rfl
  have hprev : (entryRow P a orgId head m).previousHash
    = (entryRow P b orgId head n).previousHash := rfl
  have hrow : (entryRow P b orgId head n).previousHash = head := rfl
  cases head <;> simp [violated, horg, hprev, hhash, hrow]

/-- The pool with its two transactions written out. -/
def pool (domainEvents : List DomainEventRow) (entries : List IntegrityEntry) (outbox : List Uuid)
    (nextSequence : Nat) (first second : Tx) : Pool where
  domainEvents := domainEvents
  entries := entries
  outbox := outbox
  nextSequence := nextSequence
  txs := fun
    | .first => first
    | .second => second

theorem run_pool {M : System Pool Party} {s t : Pool} {acts : List Party}
    (h : M.run s acts = some t) : M.run s acts = some (pool t.domainEvents t.entries t.outbox
      t.nextSequence (t.txs .first) (t.txs .second)) := by
  have htxs : t.txs = fun | .first => t.txs .first | .second => t.txs .second := by
    funext i
    cases i <;> rfl
  rw [h]
  exact congrArg (fun txs => some { t with txs }) htxs

theorem run_step {P : Platform} {events : Party → OutboxEventInput} {s t : Pool} {i : Party}
    (h : step P events s i = some t) : (transactions P events).run s [i] = some (pool t.domainEvents
      t.entries t.outbox t.nextSequence (t.txs .first) (t.txs .second)) :=
  run_pool ((transactions P events).run_cons.mpr ⟨t, h, rfl⟩)

def firstRow : IntegrityEntry :=
  entryRow Platform.hex (integrityInput (exampleEvents .first)) 7 none 1

def secondRow : IntegrityEntry :=
  entryRow Platform.hex (integrityInput (exampleEvents .second)) 7 none 2

theorem example_fork : violated [firstRow] secondRow = some .chainGenesis :=
  violated_fork Platform.hex_digest (by intro d hd; cases hd) (by decide) 1 2

theorem lostRace_run :
    (transactions Platform.hex exampleEvents).run examplePool lostRace
      = some (pool [domainRow (exampleEvents .first)] [firstRow] [1] 3
        ⟨.committed, false, none⟩ ⟨.rolledBack, true, none⟩) := by
  let M := transactions Platform.hex exampleEvents
  have hread : M.run examplePool (lostRace.take 7) = some (pool [] [] [] 2
      ⟨.insertOutbox, false, some firstRow⟩ ⟨.insertEntry 1 none, false, none⟩) :=
    run_pool (rfl : M.run examplePool (lostRace.take 7) = some _)
  have hwait : M.run (pool [] [] [] 2 ⟨.insertOutbox, false, some firstRow⟩
      ⟨.insertEntry 1 none, false, none⟩) [.second] = some (pool [] [] [] 3
        ⟨.insertOutbox, false, some firstRow⟩ ⟨.waiting 1 secondRow, false, none⟩) := by
    have hblocked : (pool [] [] [] 3 ⟨.insertOutbox, false, some firstRow⟩
        ⟨.insertEntry 1 none, false, none⟩).blocked .second secondRow = true :=
      congrArg Option.isSome example_fork
    have hstep : step Platform.hex exampleEvents (pool [] [] [] 2
        ⟨.insertOutbox, false, some firstRow⟩ ⟨.insertEntry 1 none, false, none⟩) .second = some ((pool [] [] [] 3
          ⟨.insertOutbox, false, some firstRow⟩ ⟨.insertEntry 1 none, false, none⟩).insertRow
            .second 1 secondRow) :=
      rfl
    rw [insertRow_waits rfl hblocked] at hstep
    exact run_step hstep
  have hcommit : M.run (pool [] [] [] 3 ⟨.insertOutbox, false, some firstRow⟩
      ⟨.waiting 1 secondRow, false, none⟩) [.first, .first]
        = some (pool [domainRow (exampleEvents .first)] [firstRow] [1] 3
          ⟨.committed, false, none⟩ ⟨.waiting 1 secondRow, false, none⟩) :=
    run_pool (rfl : M.run (pool [] [] [] 3 ⟨.insertOutbox, false, some firstRow⟩
      ⟨.waiting 1 secondRow, false, none⟩) [.first, .first] = some _)
  have hlost : M.run (pool [domainRow (exampleEvents .first)] [firstRow] [1] 3
      ⟨.committed, false, none⟩ ⟨.waiting 1 secondRow, false, none⟩) [.second]
        = some (pool [domainRow (exampleEvents .first)] [firstRow] [1] 3
          ⟨.committed, false, none⟩ ⟨.readHead 2, true, none⟩) := by
    have hstep : step Platform.hex exampleEvents (pool [domainRow (exampleEvents .first)]
        [firstRow] [1] 3 ⟨.committed, false, none⟩ ⟨.waiting 1 secondRow, false, none⟩) .second
          = some ((pool [domainRow (exampleEvents .first)] [firstRow] [1] 3
            ⟨.committed, false, none⟩ ⟨.waiting 1 secondRow, false, none⟩).insertRow
              .second 1 secondRow) := step_waiting rfl rfl rfl
    have hins : (pool [domainRow (exampleEvents .first)] [firstRow] [1] 3
        ⟨.committed, false, none⟩ ⟨.waiting 1 secondRow, false, none⟩).insertRow .second 1 secondRow
          = (pool [domainRow (exampleEvents .first)] [firstRow] [1] 3 ⟨.committed, false, none⟩
            ⟨.waiting 1 secondRow, false, none⟩).fail .second (.readHead 2) :=
      insertRow_lost example_fork (by decide)
    rw [hins] at hstep
    exact run_step hstep
  have hback : M.run (pool [domainRow (exampleEvents .first)] [firstRow] [1] 3
      ⟨.committed, false, none⟩ ⟨.readHead 2, true, none⟩) [.second, .second]
        = some (pool [domainRow (exampleEvents .first)] [firstRow] [1] 3
          ⟨.committed, false, none⟩ ⟨.rolledBack, true, none⟩) :=
    run_pool (rfl : M.run (pool [domainRow (exampleEvents .first)] [firstRow] [1] 3
      ⟨.committed, false, none⟩ ⟨.readHead 2, true, none⟩) [.second, .second] = some _)
  have hsplit : lostRace = lostRace.take 7 ++ ([.second] ++ ([.first, .first] ++ ([.second] ++
    [.second, .second]))) := rfl
  rw [hsplit]
  have htail := M.run_append.mpr ⟨_, hlost, hback⟩
  exact M.run_append.mpr ⟨_, hread, M.run_append.mpr ⟨_, hwait, M.run_append.mpr
    ⟨_, hcommit, htail⟩⟩⟩

theorem lostRace_over (i : Party) : step Platform.hex exampleEvents
    (pool [domainRow (exampleEvents .first)] [firstRow] [1] 3
      ⟨.committed, false, none⟩ ⟨.rolledBack, true, none⟩) i = none := by
  cases i <;> rfl

/-- Two enqueues of one tenant: the second loses the race for the head, its
transaction is aborted, the retry fails and its event is rolled back. -/
theorem lost_race_rolls_back :
    Start Platform.hex exampleEvents 7 examplePool ∧
      ∃ t, (transactions Platform.hex exampleEvents).run examplePool lostRace = some t ∧
        (∀ i, step Platform.hex exampleEvents t i = none) ∧
        (t.txs .second).phase = .rolledBack ∧ ¬ BothSucceed Platform.hex 7 t := by
  refine ⟨examplePool_start, _, lostRace_run, lostRace_over, rfl, ?_⟩
  intro h
  cases h.1 .second

/-- In the lost race some head is not read alone. -/
theorem concurrent_append_lost_race :
    ¬ (transactions Platform.hex exampleEvents).Along ReadsAlone examplePool lostRace := by
  intro halong
  have h := (concurrent_append Platform.hex_digest examplePool_start lostRace_run
    lostRace_over).mpr halong
  cases h.1 .second

end Cadena.Audit
