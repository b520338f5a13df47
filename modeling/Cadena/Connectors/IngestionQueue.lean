import Cadena.Connectors.ProcessRecord

/-!
# The ingestion queue beside the work orders

Records that a poll returned wait in `integration_connector_ingestion_queue`,
one partition a twin. `processIngestionRecord` claims an entry, hands its
record to `processRecord` and completes it; a failure is retried or leaves
the entry dead, and `reinjectTwinDeadLetter` puts it back. Each statement or
transaction is one atomic step, as in the work-order queue, with which the
twins are shared.
-/

namespace Cadena.Connectors

open Cadena.Base Cadena.Integrations

inductive IngestionStatus where
  | pending | processing | retry | completed | dead
  deriving DecidableEq

/-- A row of `integration_connector_ingestion_queue`. -/
structure IngestionEntry where
  id : Uuid
  orgId : Uuid
  connectorId : Uuid
  twinId : Option Uuid
  partitionKey : String
  entityType : String
  externalId : String
  dedupeKey : String
  payload : ExternalRecordPayload
  backfillJobId : Option Uuid
  queuePosition : Nat
  status : IngestionStatus
  attempts : Nat
  attemptHistory : List ConnectorQueueAttempt
  lastError : Option String
  nextAttemptAt : Option Millis
  completedAt : Option Millis
  claimedBy : Option String
  claimExpiresAt : Option Millis

def twinPartitionKey (P : Platform) (provider entityType externalId : String) : String :=
  P.toLowerCase provider ++ ":" ++ P.toLowerCase entityType ++ ":" ++ externalId

/-- The columns of an accepted record that `acceptRecords` does not compute
from it: the random id, the dedupe key and the backfill job. -/
structure AcceptedRecord where
  id : Uuid
  dedupeKey : String
  backfillJobId : Option Uuid
  record : ExternalRecordPayload

def newEntry (P : Platform) (orgId : Uuid) (connector : ConnectorRecord) (entityType : String)
    (accepted : AcceptedRecord) (position : Nat) : IngestionEntry where
  id := accepted.id
  orgId := orgId
  connectorId := connector.id
  twinId := none
  partitionKey :=
    twinPartitionKey P connector.provider
      (if accepted.record.artifactType = "" then entityType else accepted.record.artifactType)
      accepted.record.externalId
  entityType := entityType
  externalId := accepted.record.externalId
  dedupeKey := accepted.dedupeKey
  payload := accepted.record
  backfillJobId := accepted.backfillJobId
  queuePosition := position
  status := .pending
  attempts := 0
  attemptHistory := []
  lastError := none
  nextAttemptAt := none
  completedAt := none
  claimedBy := none
  claimExpiresAt := none

/-- The unique index on `(connector_id, dedupe_key)` has this pair. -/
def dedupeTaken (entries : List IngestionEntry) (e : IngestionEntry) : Bool :=
  entries.any fun q => q.connectorId = e.connectorId && q.dedupeKey = e.dedupeKey

/-! ## Claiming and finishing -/

def entryExpired (e : IngestionEntry) (now : Millis) : Bool :=
  match e.claimExpiresAt with
  | none => true
  | some t => t ≤ now

def entryClaimable (orgId entryId : Uuid) (dbNow : Millis) (e : IngestionEntry) : Bool :=
  e.id = entryId && e.orgId = orgId
    && (e.status = .pending || e.status = .retry
      || (e.status = .processing && entryExpired e dbNow))

def claimEntry (claimId : String) (expires : Millis) (e : IngestionEntry) : IngestionEntry :=
  { e with
    status := .processing, attempts := e.attempts + 1, claimedBy := some claimId
    claimExpiresAt := some expires }

/-- Gives the claim up with a new status. -/
def IngestionEntry.release (e : IngestionEntry) (status : IngestionStatus) : IngestionEntry :=
  { e with status := status, claimedBy := none, claimExpiresAt := none }

/-- `WHERE id = … AND org_id = …`: the completion and the failure name no
claim. -/
def isEntry (job : IngestionEntry) (e : IngestionEntry) : Bool :=
  e.id = job.id && e.orgId = job.orgId

def entryAttempt (job : IngestionEntry) (times : AttemptTimes) (outcome : AttemptOutcome)
    (error : Option String) : ConnectorQueueAttempt :=
  ⟨job.attempts, times.startedAt, times.completedAt, outcome, error⟩

def completeEntry (job : IngestionEntry) (twinId : Option Uuid) (times : AttemptTimes)
    (e : IngestionEntry) : IngestionEntry :=
  { e.release .completed with
    twinId := twinId
    attemptHistory := job.attemptHistory ++ [entryAttempt job times .completed none]
    lastError := none, nextAttemptAt := none, completedAt := some times.completedAt }

/-- The last failure leaves the entry dead. -/
def entryFinal (job : IngestionEntry) : Bool := !(job.attempts < maxWorkOrderAttempts)

def failEntry (job : IngestionEntry) (message : String) (times : AttemptTimes)
    (e : IngestionEntry) : IngestionEntry :=
  let final := entryFinal job
  { e.release (if final then .dead else .retry) with
    attemptHistory :=
      job.attemptHistory ++
        [entryAttempt job times (if final then .deadLettered else .retryScheduled) (some message)]
    lastError := some (sliceString message 500)
    nextAttemptAt :=
      if final then none
      else some (times.completedAt
        + (min (workOrderBaseBackoffMs * 2 ^ (job.attempts - 1)) workOrderMaxBackoffMs : Nat)) }

/-- Load shedding gives the attempt back; this statement names the claim. -/
def deferEntry (message : String) (until_ : Millis) (e : IngestionEntry) : IngestionEntry :=
  { e.release .retry with
    attempts := e.attempts - 1
    lastError := some (sliceString ("Deferred: " ++ message) 500)
    nextAttemptAt := some until_ }

/-- What re-injection writes to a dead entry. -/
def reinjectEntry (P : Platform) (connector : ConnectorRecord) (payload : ExternalRecordPayload)
    (history : List ConnectorQueueAttempt) (e : IngestionEntry) : IngestionEntry :=
  { e with
    payload := payload
    externalId := trimString payload.externalId
    entityType := trimString payload.artifactType
    partitionKey :=
      twinPartitionKey P connector.provider (trimString payload.artifactType)
        (trimString payload.externalId)
    status := .pending, attempts := 0, attemptHistory := history, lastError := none
    nextAttemptAt := none, completedAt := none }

/-! ## The system -/

/-- Where a call of `processIngestionRecord` stands. -/
inductive IngestionStage where
  | claimed (orgId : Uuid) (connector : ConnectorRecord) (job : IngestionEntry)
      (claimId : String)
  | applied (orgId : Uuid) (connector : ConnectorRecord) (job : IngestionEntry)
      (claimId : String)
  | returned

/-- The claimed job of a call that is still at work. -/
def IngestionStage.job? :
    IngestionStage → Option (Uuid × ConnectorRecord × IngestionEntry × String)
  | .claimed orgId connector job claimId => some (orgId, connector, job, claimId)
  | .applied orgId connector job claimId => some (orgId, connector, job, claimId)
  | .returned => none

/-- The work orders and twins, the ingestion queue beside them, and the
calls that drain it. -/
structure ConnectorState where
  queue : QueueState
  entries : List IngestionEntry
  nextEntry : Nat
  ingesting : Nat → Option IngestionStage
  nodes : List SyncNode
  connectors : List ConnectorRecord

def ConnectorState.tables (s : ConnectorState) : IngestState :=
  ⟨s.queue.db.twins, s.nodes, s.connectors⟩

def ConnectorState.setTwins (s : ConnectorState) (twins : List CanonicalTwin) :
    ConnectorState :=
  { s with queue := { s.queue with db := { s.queue.db with twins := twins } } }

def ConnectorState.setTables (s : ConnectorState) (t : IngestState) : ConnectorState :=
  { s.setTwins t.twins with nodes := t.nodes, connectors := t.connectors }

def ConnectorState.advance (s : ConnectorState) (call : Nat) (stage : IngestionStage) :
    ConnectorState :=
  { s with ingesting := setAt s.ingesting call (some stage) }

inductive ConnectorAction where
  | order (a : QueueAction)
  | accept (orgId : Uuid) (connector : ConnectorRecord) (entityType : String)
      (accepted : AcceptedRecord)
  | claimEntry (call : Nat) (orgId : Uuid) (connector : ConnectorRecord) (entryId : Uuid)
      (claimId : String) (dbNow workerNow : Millis)
  | process (call : Nat) (ids : FreshIds)
  | complete (call : Nat) (times : AttemptTimes)
  | failEntry (call : Nat) (error : ExecError) (times : AttemptTimes)
  | reinjectEntry (orgId : Uuid) (connector : ConnectorRecord) (entryId : Uuid)
      (twinId : Option Uuid) (payload : ExternalRecordPayload)
      (history : List ConnectorQueueAttempt)
  | recoverEntries (dbNow : Millis)

section Steps

variable (P : Platform)

def acceptStep (s : ConnectorState) (orgId : Uuid) (connector : ConnectorRecord)
    (entityType : String) (accepted : AcceptedRecord) : Option ConnectorState :=
  let entry := newEntry P orgId connector entityType accepted s.nextEntry
  if s.entries.any fun e => e.id = entry.id then none
  else
    some { s with
      entries := if dedupeTaken s.entries entry then s.entries else s.entries ++ [entry]
      nextEntry := s.nextEntry + 1 }

def claimEntryStep (s : ConnectorState) (call : Nat) (orgId : Uuid)
    (connector : ConnectorRecord) (entryId : Uuid) (claimId : String)
    (dbNow workerNow : Millis) : Option ConnectorState :=
  match s.ingesting call with
  | none =>
    let claim := Connectors.claimEntry claimId (workerNow + workOrderClaimMs)
    some ({ s with
      entries := Table.update (entryClaimable orgId entryId dbNow) claim s.entries }.advance
        call
        (match s.entries.find? (entryClaimable orgId entryId dbNow) with
          | some e => .claimed orgId connector (claim e) claimId
          | none => .returned))
  | some _ => none

/-- `processRecord` and its transaction; an error goes to the catch block. -/
def processStep (s : ConnectorState) (call : Nat) (ids : FreshIds) : Option ConnectorState :=
  match s.ingesting call with
  | some (.claimed orgId connector job claimId) =>
    match processRecord P orgId connector ids job.payload s.tables with
    | .ok (_, t, _) =>
      some ((s.setTables t).advance call (.applied orgId connector job claimId))
    | .error _ => none
  | _ => none

/-- The id of the record's twin is read again before the entry completes. -/
def completeStep (s : ConnectorState) (call : Nat) (times : AttemptTimes) :
    Option ConnectorState :=
  match s.ingesting call with
  | some (.applied orgId connector job _) =>
    let twinId := (s.queue.db.twins.find? (twinKeyMatches orgId connector job.payload)).map
      (·.id)
    some ({ s with
      entries := Table.update (isEntry job) (completeEntry job twinId times) s.entries }.advance
        call .returned)
  | _ => none

/-- The catch block. What fails may be the record, its comments or the
database, so the call may fail wherever it stands. -/
def failEntryStep (s : ConnectorState) (call : Nat) (error : ExecError)
    (times : AttemptTimes) : Option ConnectorState :=
  match (s.ingesting call).bind IngestionStage.job? with
  | some (orgId, connector, job, claimId) =>
    match error with
    | .loadShed message until_ =>
      some ({ s with
        entries := Table.update (fun e => isEntry job e && e.claimedBy = some claimId)
          (deferEntry message until_) s.entries }.advance call .returned)
    | error =>
      let failed := { s with
        entries := Table.update (isEntry job) (Connectors.failEntry job error.message times)
          s.entries }
      some ((if entryFinal job then
          failed.setTwins (Table.update (twinKeyMatches orgId connector job.payload)
            (fun t => { t with syncState := .paused }) s.queue.db.twins)
        else failed).advance call .returned)
  | none => none

/-- The twin of the entry, if it names one, is set to synced beside it. -/
def reinjectEntryStep (s : ConnectorState) (orgId : Uuid) (connector : ConnectorRecord)
    (entryId : Uuid) (twinId : Option Uuid) (payload : ExternalRecordPayload)
    (history : List ConnectorQueueAttempt) : ConnectorState :=
  let requeued := { s with
    entries := Table.update
      (fun e => e.id = entryId && e.orgId = orgId && e.connectorId = connector.id
        && e.status = .dead)
      (Connectors.reinjectEntry P connector payload history) s.entries }
  match twinId with
  | some id => requeued.setTwins (setSyncState s.queue.db.twins id orgId .synced)
  | none => requeued

def connectorStep (s : ConnectorState) : ConnectorAction → Option ConnectorState
  | .order a => (queueStep P s.queue a).map fun q => { s with queue := q }
  | .accept orgId connector entityType accepted =>
    acceptStep P s orgId connector entityType accepted
  | .claimEntry call orgId connector entryId claimId dbNow workerNow =>
    claimEntryStep s call orgId connector entryId claimId dbNow workerNow
  | .process call ids => processStep P s call ids
  | .complete call times => completeStep s call times
  | .failEntry call error times => failEntryStep s call error times
  | .reinjectEntry orgId connector entryId twinId payload history =>
    some (reinjectEntryStep P s orgId connector entryId twinId payload history)
  | .recoverEntries dbNow =>
    some { s with
      entries := Table.update (fun e => e.status = .processing && entryExpired e dbNow)
        (fun e => { e.release .retry with nextAttemptAt := some dbNow }) s.entries }

/-- The two queues of a tenant's connectors. -/
def connectorSystem : System ConnectorState ConnectorAction := ⟨connectorStep P⟩

end Steps

def idleConnectors (t : IngestState) : ConnectorState where
  queue := emptyQueue t.twins
  entries := []
  nextEntry := 1
  ingesting := fun _ => none
  nodes := t.nodes
  connectors := t.connectors

end Cadena.Connectors
