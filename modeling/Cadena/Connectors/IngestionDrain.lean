import Cadena.Connectors.IngestionQueue

/-!
# The drains of one connector's ingestion queue

`syncConnector` and `drainIngestionQueue` take the lease of the connector and
run `processDueIngestionRecords`: fifty due entries are read, and one after the
other is claimed, processed and settled. Only a sync renews the lease, nobody
renews a claim, and a worker goes on with what it has begun when either has run
out.
-/

namespace Cadena.Connectors.IngestionDrain

open Cadena.Base Cadena.Connectors Cadena.Integrations

/-- The row of `integration_connector_sync_leases`. -/
structure SyncLease where
  owner : String
  expiresAt : Millis

inductive WorkerPhase where
  | reading (processed : Nat)
  /-- The entries of the batch that are still to be handed over. -/
  | working (rest : List Uuid) (processed : Nat)
  /-- `processIngestionRecord` has claimed an entry. -/
  | busy (call : Nat) (rest : List Uuid) (processed : Nat)
  /-- In the `finally`. -/
  | leaving
  | ended

structure DrainWorker where
  leaseOwner : String
  /-- A sync renews its lease, a drain does not. -/
  renews : Bool
  phase : WorkerPhase

/-- `drawn` are the claim ids that have been drawn. The program does not keep
`lapsed`, the claims that ran out and were taken from their holders. -/
structure DrainState where
  base : ConnectorState
  lease : Option SyncLease
  workers : Nat → Option DrainWorker
  drawn : List String
  lapsed : List String

/-- What a call does between its claim and its end. -/
inductive CallStep where
  | process (ids : FreshIds)
  | complete (times : AttemptTimes)
  | fail (error : ExecError) (times : AttemptTimes)

def CallStep.action (call : Nat) : CallStep → ConnectorAction
  | .process ids => .process call ids
  | .complete times => .complete call times
  | .fail error times => .failEntry call error times

inductive DrainAction where
  | start (worker : Nat) (leaseOwner : String) (renews : Bool) (dbNow workerNow : Millis)
  | renew (worker : Nat) (workerNow : Millis)
  | read (worker : Nat) (shedding : Bool) (dbNow : Millis)
  | take (worker call : Nat) (claimId : String) (dbNow workerNow : Millis)
  | work (worker : Nat) (step : CallStep)
  /-- An error that escapes the call ends the drain. -/
  | escape (worker : Nat)
  | leave (worker : Nat)
  | order (a : QueueAction)
  | accept (entityType : String) (accepted : AcceptedRecord)
  | reinject (entryId : Uuid) (twinId : Option Uuid) (payload : ExternalRecordPayload)
      (history : List ConnectorQueueAttempt)
  | recover (dbNow : Millis)

def syncLeaseMs : Nat := 5 * 60000

def leaseTaken (lease : Option SyncLease) (dbNow : Millis) : Bool :=
  match lease with
  | none => false
  | some l => dbNow < l.expiresAt

def renewSyncLease (owner : String) (workerNow : Millis) (l : SyncLease) : SyncLease :=
  if l.owner = owner then { l with expiresAt := workerNow + syncLeaseMs } else l

def batchLimit : Nat := 50

def drainLimit : Nat := 1000

section
variable (orgId : Uuid) (connector : ConnectorRecord)

def entryDue (dbNow : Millis) (e : IngestionEntry) : Bool :=
  e.orgId = orgId && e.connectorId = connector.id
    && (e.status = .pending || e.status = .retry || (e.status = .processing && entryExpired e dbNow))
    && e.nextAttemptAt.all (· ≤ dbNow)

def entryBehind (entries : List IngestionEntry) (e : IngestionEntry) : Bool :=
  entries.any fun older =>
    older.orgId = e.orgId && older.connectorId = e.connectorId && older.partitionKey = e.partitionKey
      && older.queuePosition < e.queuePosition
      && (older.status = .pending || older.status = .retry || older.status = .processing || older.status = .dead)

def dueEntries (entries : List IngestionEntry) (dbNow : Millis) : List IngestionEntry :=
  ((entries.filter fun e => entryDue orgId connector dbNow e && !entryBehind entries e).insertionSort
    fun a b => a.queuePosition ≤ b.queuePosition).take batchLimit

def readBatch (entries : List IngestionEntry) (processed : Nat) (shedding : Bool) (dbNow : Millis) : WorkerPhase :=
  if drainLimit ≤ processed || shedding then .leaving
  else
    match dueEntries orgId connector entries dbNow with
    | [] => .leaving
    | due => .working (due.map (·.id)) processed

/-! ## The workers -/

def DrainState.setPhase (s : DrainState) (worker : Nat) (w : DrainWorker) (phase : WorkerPhase) : DrainState :=
  { s with workers := setAt s.workers worker (some { w with phase := phase }) }

/-- A call that has returned lets the loop go on. -/
def afterCall (base : ConnectorState) (call : Nat) (rest : List Uuid) (processed : Nat) : WorkerPhase :=
  match base.ingesting call with
  | some .returned => .working rest (processed + 1)
  | _ => .busy call rest processed

/-- The claims on the rows. -/
def claimsOf (entries : List IngestionEntry) (p : IngestionEntry → Bool) : List String :=
  (entries.filter p).filterMap (·.claimedBy)

def entryRecovered (dbNow : Millis) (e : IngestionEntry) : Bool := e.status = .processing && entryExpired e dbNow

variable (P : Platform)

def startStep (s : DrainState) (worker : Nat) (leaseOwner : String) (renews : Bool) (dbNow workerNow : Millis) :
    Option DrainState :=
  match s.workers worker with
  | some _ => none
  | none =>
    if leaseTaken s.lease dbNow then
      some { s with workers := setAt s.workers worker (some ⟨leaseOwner, renews, .ended⟩) }
    else
      some { s with
        lease := some ⟨leaseOwner, workerNow + syncLeaseMs⟩
        workers := setAt s.workers worker (some ⟨leaseOwner, renews, .reading 0⟩) }

def renewStep (s : DrainState) (worker : Nat) (workerNow : Millis) : Option DrainState :=
  match s.workers worker with
  | some w =>
    if w.renews then some { s with lease := s.lease.map (renewSyncLease w.leaseOwner workerNow) } else none
  | none => none

def readStep (s : DrainState) (worker : Nat) (shedding : Bool) (dbNow : Millis) : Option DrainState :=
  match s.workers worker with
  | some w =>
    match w.phase with
    | .reading processed | .working [] processed =>
      some (s.setPhase worker w (readBatch orgId connector s.base.entries processed shedding dbNow))
    | _ => none
  | none => none

/-- The claim of the next entry of the batch, under an id that is new. -/
def takeStep (s : DrainState) (worker call : Nat) (claimId : String) (dbNow workerNow : Millis) : Option DrainState :=
  if claimId ∈ s.drawn then none
  else
    match s.workers worker with
    | some w =>
      match w.phase with
      | .working (entryId :: rest) processed =>
        (claimEntryStep s.base call orgId connector entryId claimId dbNow workerNow).map fun base =>
          { s with
            base := base
            drawn := claimId :: s.drawn
            lapsed := claimsOf s.base.entries (entryClaimable orgId entryId dbNow) ++ s.lapsed }.setPhase worker w
              (afterCall base call rest processed)
      | _ => none
    | none => none

def workStep (s : DrainState) (worker : Nat) (step : CallStep) : Option DrainState :=
  match s.workers worker with
  | some w =>
    match w.phase with
    | .busy call rest processed =>
      (connectorStep P s.base (step.action call)).map fun base =>
        { s with base := base }.setPhase worker w (afterCall base call rest processed)
    | _ => none
  | none => none

/-- The `finally` gives back the lease if it is still the worker's own. -/
def leaveStep (s : DrainState) (worker : Nat) : Option DrainState :=
  match s.workers worker with
  | some w =>
    match w.phase with
    | .leaving => some ({ s with lease := s.lease.filter (·.owner ≠ w.leaseOwner) }.setPhase worker w .ended)
    | _ => none
  | none => none

def escapeStep (s : DrainState) (worker : Nat) : Option DrainState :=
  match s.workers worker with
  | some w =>
    match w.phase with
    | .busy .. | .reading _ | .working .. => some (s.setPhase worker w .leaving)
    | _ => none
  | none => none

def drainStep (s : DrainState) : DrainAction → Option DrainState
  | .start worker leaseOwner renews dbNow workerNow => startStep s worker leaseOwner renews dbNow workerNow
  | .renew worker workerNow => renewStep s worker workerNow
  | .read worker shedding dbNow => readStep orgId connector s worker shedding dbNow
  | .take worker call claimId dbNow workerNow => takeStep orgId connector s worker call claimId dbNow workerNow
  | .work worker step => workStep P s worker step
  | .escape worker => escapeStep s worker
  | .leave worker => leaveStep s worker
  | .order a => (connectorStep P s.base (.order a)).map fun base => { s with base := base }
  | .accept entityType accepted =>
    (connectorStep P s.base (.accept orgId connector entityType accepted)).map fun base => { s with base := base }
  | .reinject entryId twinId payload history =>
    (connectorStep P s.base (.reinjectEntry orgId connector entryId twinId payload history)).map fun base =>
      { s with base := base }
  | .recover dbNow =>
    (connectorStep P s.base (.recoverEntries dbNow)).map fun base =>
      { s with base := base, lapsed := claimsOf s.base.entries (entryRecovered dbNow) ++ s.lapsed }

def ingestionDrain : System DrainState DrainAction := ⟨drainStep orgId connector P⟩

end

/-- Nothing is queued, and nobody works. -/
def idleDrain (t : IngestState) : DrainState := ⟨idleConnectors t, none, fun _ => none, [], []⟩

end Cadena.Connectors.IngestionDrain
