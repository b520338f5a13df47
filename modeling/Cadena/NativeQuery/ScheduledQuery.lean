import Cadena.Connectors.IngestionQueue
import Cadena.NativeQuery.EncodedQuery
import Cadena.NativeQuery.JqlValidator

/-!
# Scheduled native queries

One row of `integration_native_queries`: the requests that edit, publish
and disable it, and the runs that read a page from its watermark and hand
the records to the ingestion queue (`NativeQueryService`).

A request reads the row first and writes it later; a run claims a lease,
reads the provider without it being looked at, and writes under it. Each
statement is one atomic step, and so is a transaction from the first row
that it writes. The runtime's times are whole milliseconds, the database's
are whole microseconds.
-/

namespace Cadena.NativeQuery.Scheduled

open Cadena.Base
open Cadena.Connectors (ExternalRecordPayload ConnectorRecord IngestionEntry AcceptedRecord
  newEntry dedupeTaken)
open Cadena.Integrations (jsLength)

/-- A `TIMESTAMP WITH TIME ZONE`. -/
abbrev Micros := Int

/-- `new Date(value)` of a database time. -/
def toMillis (t : Micros) : Millis := t / 1000

/-- The database's reading of a date of the runtime. -/
def ofMillis (t : Millis) : Micros := t * 1000

inductive QueryStatus where
  | draft | published | disabled
  deriving DecidableEq

/-- The languages a scheduled query can be written in. -/
inductive ScheduledLanguage where
  | jql | encoded
  deriving DecidableEq

def ScheduledLanguage.text : ScheduledLanguage → String
  | jql => "jql"
  | encoded => "encoded"

def providerLanguage (provider : String) : Option ScheduledLanguage :=
  if provider = "jira" then some .jql
  else if provider = "servicenow" then some .encoded
  else none

def validateNativeQuery (P : Platform) (language : ScheduledLanguage) (query : String)
    (catalog : QueryIndexCatalog) : NativeQueryValidation :=
  match language with
  | .jql => validateJql P query.toList (some catalog)
  | .encoded => validateEncodedQuery P query.toList (some catalog)

inductive RunOutcome where
  | succeeded | failed
  deriving DecidableEq

/-- A row of `integration_native_queries`; a lease owner is the run that drew
the token. -/
structure NativeQueryDefinition where
  name : String
  language : ScheduledLanguage
  entityType : String
  query : String
  intervalSeconds : Nat
  status : QueryStatus
  startFrom : Option Micros
  watermark : Option Micros
  watermarkQueryHash : Option String
  validation : NativeQueryValidation
  nextRunAt : Option Micros
  lastRunAt : Option Micros
  lastRunStatus : Option RunOutcome
  lastError : Option String
  lastEnqueued : Nat
  totalEnqueued : Nat
  consecutiveFailures : Nat
  leaseOwner : Option Nat
  leaseExpiresAt : Option Micros
  publishedBy : Option String
  publishedAt : Option Micros

/-- `` createHash('sha256').update(`${language}\n${entity_type}\n${query}`) ``. -/
def queryHash (P : Platform) (language : ScheduledLanguage) (entityType query : String) : String :=
  P.sha256 (language.text.toList ++ '\n' :: entityType.toList ++ '\n' :: query.toList)

/-- What a query needs of its connector; `catalog` is `buildQueryIndexCatalog`. -/
structure QueryTarget where
  provider : String
  activated : Bool
  paused : Bool
  entityTypes : List String
  catalog : String → QueryIndexCatalog

inductive NativeQueryError where
  | invalid (message : String)
  | conflict (message : String)
  | notFound (message : String)
  deriving DecidableEq

/-- The connector must speak a language a query can be written in and expose
the entity type. -/
def resolveTarget (target : Option QueryTarget) (entityType : String) :
    Except NativeQueryError (QueryTarget × QueryIndexCatalog) :=
  match target with
  | none => .error (.notFound "Connector not found")
  | some connector =>
    let provider := connector.provider
    let available := String.intercalate ", " connector.entityTypes
    if providerLanguage provider = none then
      .error (.invalid s!"Scheduled queries are supported for Jira (JQL) and ServiceNow (encoded query) connectors; {provider} has no query runner. WIQL can be checked with POST /integrations/native-queries/validate but not scheduled.")
    else if entityType ∉ connector.entityTypes then
      .error (.invalid s!"entity_type '{entityType}' is not configured on this connector (available: {available})")
    else .ok (connector, connector.catalog entityType)

/-! ## Editing -/

def MIN_INTERVAL_SECONDS : Int := 60
def MAX_INTERVAL_SECONDS : Int := 86400
def DEFAULT_INTERVAL_SECONDS : Nat := 900
def MAX_LOOKBACK_MS : Millis := 366 * 86400000

def requiredText (value field : String) (max : Nat) : Except NativeQueryError String :=
  if trimString value = "" then .error (.invalid s!"{field} is required")
  else if jsLength (trimString value) > max then
    .error (.invalid s!"{field} must be at most {max} characters")
  else .ok (trimString value)

/-- A number that is no whole number is `other`. -/
inductive IntervalInput where
  | null
  | whole (seconds : Int)
  | other

def interval : IntervalInput → Except NativeQueryError Nat
  | .null => .ok DEFAULT_INTERVAL_SECONDS
  | .whole seconds =>
    if seconds < MIN_INTERVAL_SECONDS ∨ MAX_INTERVAL_SECONDS < seconds then
      .error (.invalid s!"interval_seconds must be a whole number between {MIN_INTERVAL_SECONDS} and {MAX_INTERVAL_SECONDS}")
    else .ok seconds.toNat
  | .other => .error (.invalid s!"interval_seconds must be a whole number between {MIN_INTERVAL_SECONDS} and {MAX_INTERVAL_SECONDS}")

/-- What `Date.parse` makes of `start_from`. -/
inductive StartFromInput where
  | null
  | time (parsed : Millis)
  | unparsed

def startFrom (now : Millis) : StartFromInput → Except NativeQueryError (Option Millis)
  | .null => .ok none
  | .unparsed => .error (.invalid "start_from must be an ISO-8601 timestamp")
  | .time parsed =>
    if now + 60000 < parsed then .error (.invalid "start_from cannot be in the future")
    else if parsed < now - MAX_LOOKBACK_MS then
      .error (.invalid "start_from is more than 366 days back; a trigger cannot replay that much history. Choose a more recent watermark.")
    else .ok (some parsed)

/-- An entry that is absent is `undefined`. -/
structure UpdateNativeQueryDto where
  name : Option String := none
  entityType : Option String := none
  query : Option String := none
  intervalSeconds : Option IntervalInput := none
  startFrom : Option StartFromInput := none

/-- `value === undefined ? current : check(value)`. -/
def orCurrent {α β : Type} (value : Option α) (current : β)
    (check : α → Except NativeQueryError β) : Except NativeQueryError β :=
  match value with
  | none => .ok current
  | some v => check v

/-- The columns that `update` sets, from the row that it read. -/
def editOf (P : Platform) (current : NativeQueryDefinition) (dto : UpdateNativeQueryDto)
    (target : Option QueryTarget) (now : Millis) :
    Except NativeQueryError (NativeQueryDefinition → NativeQueryDefinition) := do
  let name ← orCurrent dto.name current.name (requiredText · "name" 160)
  let query ← orCurrent dto.query current.query (requiredText · "query" 100000)
  let entityType ← orCurrent dto.entityType current.entityType (requiredText · "entity_type" 80)
  let (_, catalog) ← resolveTarget target entityType
  let seconds ← orCurrent dto.intervalSeconds current.intervalSeconds interval
  let start ← orCurrent dto.startFrom (current.startFrom.map toMillis) (startFrom now)
  return fun row =>
    { row with
      name := name, query := query, entityType := entityType, intervalSeconds := seconds
      startFrom := start.map ofMillis
      validation := validateNativeQuery P current.language query catalog }

/-- What is fixed before the transaction of a publication: a query that
passed its validation. -/
structure PublicationPlan (P : Platform) where
  language : ScheduledLanguage
  entityType : String
  query : String
  catalog : QueryIndexCatalog
  accepted : (validateNativeQuery P language query catalog).valid = true

def PublicationPlan.validation {P : Platform} (plan : PublicationPlan P) : NativeQueryValidation :=
  validateNativeQuery P plan.language plan.query plan.catalog

def PublicationPlan.hash {P : Platform} (plan : PublicationPlan P) : String :=
  queryHash P plan.language plan.entityType plan.query

/-- The first finding, as the refusal quotes it. -/
def firstFinding (validation : NativeQueryValidation) : String :=
  match validation.errors with
  | [] => ""
  | first :: _ => first.message ++ " " ++ first.hint

/-- The validation of the row that was read. -/
def planOf (P : Platform) (current : NativeQueryDefinition) (target : Option QueryTarget) :
    Except NativeQueryError (PublicationPlan P) :=
  match resolveTarget target current.entityType with
  | .error e => .error e
  | .ok (connector, catalog) =>
    if !connector.activated then
      .error (.conflict
        "The connector must be discovered and activated before a query on it can be published")
    else
      let validation := validateNativeQuery P current.language current.query catalog
      if accepted : validation.valid = true then
        .ok ⟨current.language, current.entityType, current.query, catalog, accepted⟩
      else .error (.invalid ("Cannot publish: " ++ firstFinding validation))

/-- The watermark survives a publication of the query that it belongs to. -/
def keepsWatermark (row : NativeQueryDefinition) (hash : String) : Bool :=
  row.watermark.isSome && row.watermarkQueryHash = some hash

/-- The columns that a publication sets at `CURRENT_TIMESTAMP = now`. -/
def publishRow {P : Platform} (plan : PublicationPlan P) (keepWatermark : Bool) (actorId : String) (now : Micros)
    (row : NativeQueryDefinition) : NativeQueryDefinition :=
  { row with
    status := .published, validation := plan.validation
    watermarkQueryHash := some plan.hash
    watermark := if keepWatermark then row.watermark else some (row.startFrom.getD now)
    nextRunAt := some now, consecutiveFailures := 0, lastError := none
    publishedBy := some actorId, publishedAt := some now }

def disableRow (row : NativeQueryDefinition) : NativeQueryDefinition :=
  { row with
    status := .disabled, nextRunAt := none, leaseOwner := none, leaseExpiresAt := none }

/-! ## Runs -/

def RUN_LEASE_MS : Millis := 5 * 60000
def MAX_BACKOFF_SECONDS : Nat := 6 * 3600

/-- `status = 'published' AND (lease_expires_at IS NULL OR lease_expires_at <= now)`. -/
def claimable (row : NativeQueryDefinition) (now : Micros) : Bool :=
  row.status = .published &&
    match row.leaseExpiresAt with
    | none => true
    | some expires => expires ≤ now

/-- `next_run_at <= now`. -/
def isDue (row : NativeQueryDefinition) (now : Micros) : Bool :=
  match row.nextRunAt with
  | none => false
  | some next => next ≤ now

def leaseRow (owner : Nat) (now : Millis) (row : NativeQueryDefinition) : NativeQueryDefinition :=
  { row with leaseOwner := some owner, leaseExpiresAt := some (ofMillis (now + RUN_LEASE_MS)) }

/-- Gives the lease up. -/
def NativeQueryDefinition.release (row : NativeQueryDefinition) : NativeQueryDefinition :=
  { row with leaseOwner := none, leaseExpiresAt := none }

/-- A run that does not start, or that the target's load shedding postpones. -/
def postponeRow (nextRun : Millis) (message : String) (row : NativeQueryDefinition) : NativeQueryDefinition :=
  { row.release with nextRunAt := some (ofMillis nextRun), lastError := some message }

def backoffSeconds (definition : NativeQueryDefinition) (retryAfterSeconds : Nat) : Nat :=
  let seconds := definition.intervalSeconds
  max (min (seconds * 2 ^ definition.consecutiveFailures) (max seconds MAX_BACKOFF_SECONDS))
    retryAfterSeconds

/-- `fail`; `now` is the database's clock and `workerNow` the worker's. -/
def failRow (definition : NativeQueryDefinition) (message : String) (retryAfterSeconds : Nat)
    (now : Micros) (workerNow : Millis) (row : NativeQueryDefinition) : NativeQueryDefinition :=
  { row.release with
    lastRunAt := some now, lastRunStatus := some .failed
    lastError := some (sliceString message 500)
    consecutiveFailures := definition.consecutiveFailures + 1
    nextRunAt :=
      some (ofMillis (workerNow + backoffSeconds definition retryAfterSeconds * 1000)) }

/-- A page of records, with the cursor's instant after it. -/
structure QueryPage where
  records : List ExternalRecordPayload
  nextCursor : Millis
  hasMore : Bool

/-- `Math.max(Date.parse(priorWatermark), Date.parse(page.nextCursor.cursorValue))`. -/
def nextWatermark (prior : Millis) (page : QueryPage) : Millis := max prior page.nextCursor

def succeedRow (definition : NativeQueryDefinition) (prior : Millis) (page : QueryPage) (inserted : Nat)
    (now : Micros) (workerNow : Millis) (row : NativeQueryDefinition) : NativeQueryDefinition :=
  { row.release with
    watermark := some (ofMillis (nextWatermark prior page))
    lastRunAt := some now, lastRunStatus := some .succeeded, lastError := none
    lastEnqueued := inserted, totalEnqueued := row.totalEnqueued + inserted
    consecutiveFailures := 0
    nextRunAt := some (ofMillis
      (if page.hasMore then workerNow
        else workerNow + definition.intervalSeconds * 1000)) }

def optionalEntry (key : String) (value : Option Json) : Fields :=
  match value with
  | some v => [(key, v)]
  | none => []

/-- `JSON.stringify` leaves out what is undefined. -/
def recordJson (record : ExternalRecordPayload) : Json :=
  .obj ([("externalId", .str record.externalId), ("artifactType", .str record.artifactType),
      ("title", .str record.title)]
    ++ optionalEntry "nativeKey" (record.nativeKey.map .str)
    ++ optionalEntry "nativeUrl" (record.nativeUrl.map .str)
    ++ [("status", .str record.status), ("fields", .obj record.fields)]
    ++ optionalEntry "fieldAuthority" (record.fieldAuthority.map .obj)
    ++ [("updatedAt", .str (toISOString record.updatedAt))]
    ++ optionalEntry "updatedBy" (record.updatedBy.map .str))

def dedupeKey (P : Platform) (provider entityType : String) (record : ExternalRecordPayload) :
    String :=
  P.sha256 (Audit.stableStringify (.obj
    [("provider", .str provider), ("entityType", .str entityType),
      ("externalId", .str record.externalId),
      ("updatedAt", .str (toISOString record.updatedAt)), ("record", recordJson record)]))

/-- The ingestion queue and the sequence that hands out its positions. -/
structure IngestionTable where
  entries : List IngestionEntry
  nextEntry : Nat

/-- `INSERT … ON CONFLICT (connector_id, dedupe_key) DO NOTHING`, and whether
a row was inserted. -/
def acceptRecord (P : Platform) (orgId : Uuid) (connector : ConnectorRecord)
    (entityType : String) (id : Uuid) (record : ExternalRecordPayload) (table : IngestionTable) :
    IngestionTable × Bool :=
  let entry := newEntry P orgId connector entityType
    ⟨id, dedupeKey P connector.provider entityType record, none, record⟩ table.nextEntry
  if dedupeTaken table.entries entry then (⟨table.entries, table.nextEntry + 1⟩, false)
  else (⟨table.entries ++ [entry], table.nextEntry + 1⟩, true)

/-- The inserts of `acceptRecords`, and the number of rows that they add. -/
def acceptRecords (P : Platform) (orgId : Uuid) (connector : ConnectorRecord)
    (entityType : String) (ids : Nat → Uuid) :
    Nat → List ExternalRecordPayload → IngestionTable → IngestionTable × Nat
  | _, [], table => (table, 0)
  | i, record :: rest, table =>
    let (table, added) := acceptRecord P orgId connector entityType (ids i) record table
    let (table, inserted) := acceptRecords P orgId connector entityType ids (i + 1) rest table
    (table, inserted + if added then 1 else 0)

/-! ## The system -/

inductive Request (P : Platform) where
  | updating (current : NativeQueryDefinition)
  | publishing (current : NativeQueryDefinition)
  /-- The transaction has looked whether the query is published meanwhile. -/
  | guarded (plan : PublicationPlan P) (keepWatermark : Bool)
  | disabling
  | returned

inductive Run where
  /-- The claim has found the query and waits for its row. -/
  | found
  | leased (definition : NativeQueryDefinition)
  | fetching (definition : NativeQueryDefinition) (prior : Millis)
  /-- `prior` is the watermark that the page was read from. -/
  | fetched (definition : NativeQueryDefinition) (prior : Millis) (page : QueryPage)
  | ended

/-- The row, the ingestion queue, the requests and runs that have begun, and
what was published last. -/
structure QueryState (P : Platform) where
  row : NativeQueryDefinition
  queue : IngestionTable
  requests : Nat → Option (Request P)
  runs : Nat → Option Run
  published : Option (PublicationPlan P)

inductive RequestKind where
  | update | publish | disable
  deriving DecidableEq

/-- What the provider answers. -/
inductive FetchOutcome where
  | page (page : QueryPage)
  | shed (message : String) (until_ : Millis)
  | error (message : String) (retryAfterSeconds : Nat)

inductive QueryAction where
  | read (i : Nat) (kind : RequestKind)
  | edit (i : Nat) (dto : UpdateNativeQueryDto) (target : Option QueryTarget) (now : Millis)
  | guard (i : Nat) (target : Option QueryTarget)
  | publish (i : Nat) (actorId : String) (now : Micros)
  | disable (i : Nat)
  | find (k : Nat) (manual : Bool) (now : Micros)
  | lease (k : Nat) (now : Millis)
  | connect (k : Nat) (target : Option QueryTarget) (unavailable : String) (now : Micros)
      (workerNow : Millis)
  | fetch (k : Nat) (outcome : FetchOutcome) (now : Micros) (workerNow : Millis)
  | commit (k : Nat) (ids : Nat → Uuid) (now : Micros) (workerNow : Millis)
  | rollback (k : Nat) (message : String) (now : Micros) (workerNow : Millis)
  /-- The queue's other users insert and settle entries. -/
  | others (queue : IngestionTable)

section Steps

variable {P : Platform}

def QueryState.setRequest (s : QueryState P) (i : Nat) (stage : Request P) : QueryState P :=
  { s with requests := setAt s.requests i (some stage) }

def QueryState.setRun (s : QueryState P) (k : Nat) (run : Run) : QueryState P :=
  { s with runs := setAt s.runs k (some run) }

/-- `UPDATE … WHERE lease_owner = k`. -/
def QueryState.updateLeased (s : QueryState P) (k : Nat) (set : NativeQueryDefinition → NativeQueryDefinition) :
    QueryState P :=
  if s.row.leaseOwner = some k then { s with row := set s.row } else s

/-- The first read: an update of a published query is refused, and there is
nothing to do for a publication or a disabling that finds its result. -/
def readStep (s : QueryState P) (i : Nat) (kind : RequestKind) : Option (QueryState P) :=
  match s.requests i with
  | none =>
    some (s.setRequest i
      (match kind with
        | .update => if s.row.status = .published then .returned else .updating s.row
        | .publish => if s.row.status = .published then .returned else .publishing s.row
        | .disable => if s.row.status = .published then .disabling else .returned))
  | some _ => none

/-- The final `UPDATE` of an edit names the id only. -/
def editStep (s : QueryState P) (i : Nat) (dto : UpdateNativeQueryDto)
    (target : Option QueryTarget) (now : Millis) : Option (QueryState P) :=
  match s.requests i with
  | some (.updating current) =>
    match editOf P current dto target now with
    | .error _ => some (s.setRequest i .returned)
    | .ok set => some ({ s with row := set s.row }.setRequest i .returned)
  | _ => none

/-- The validation, and the `SELECT` at the start of the transaction. -/
def guardStep (s : QueryState P) (i : Nat) (target : Option QueryTarget) :
    Option (QueryState P) :=
  match s.requests i with
  | some (.publishing current) =>
    match planOf P current target with
    | .error _ => some (s.setRequest i .returned)
    | .ok plan =>
      some (s.setRequest i
        (if s.row.status = .published then .returned
          else .guarded plan (keepsWatermark s.row plan.hash)))
  | _ => none

/-- The `UPDATE` of the transaction names the id only. -/
def publishStep (s : QueryState P) (i : Nat) (actorId : String) (now : Micros) :
    Option (QueryState P) :=
  match s.requests i with
  | some (.guarded plan keepWatermark) =>
    some ({ s with
      row := publishRow plan keepWatermark actorId now s.row
      published := some plan }.setRequest i .returned)
  | _ => none

def disableStep (s : QueryState P) (i : Nat) : Option (QueryState P) :=
  match s.requests i with
  | some .disabling => some ({ s with row := disableRow s.row }.setRequest i .returned)
  | _ => none

/-! ### Runs -/

def findStep (s : QueryState P) (k : Nat) (manual : Bool) (now : Micros) : Option (QueryState P) :=
  match s.runs k with
  | none =>
    if claimable s.row now && (manual || isDue s.row now) then some (s.setRun k .found)
    else none
  | some _ => none

def leaseStep (s : QueryState P) (k : Nat) (now : Millis) : Option (QueryState P) :=
  match s.runs k with
  | some .found =>
    let row := leaseRow k now s.row
    some ({ s with row := row }.setRun k (.leased row))
  | _ => none

def failRun (s : QueryState P) (k : Nat) (definition : NativeQueryDefinition) (message : String)
    (retryAfterSeconds : Nat) (now : Micros) (workerNow : Millis) : QueryState P :=
  (s.updateLeased k (failRow definition message retryAfterSeconds now workerNow)).setRun k .ended

/-- From the look-up of the connector to the call of the provider. -/
def connectStep (s : QueryState P) (k : Nat) (target : Option QueryTarget)
    (unavailable : String) (now : Micros) (workerNow : Millis) : Option (QueryState P) :=
  match s.runs k with
  | some (.leased definition) =>
    match target with
    | none =>
      some (failRun s k definition ("Connector unavailable: " ++ unavailable) 0 now workerNow)
    | some connector =>
      if !connector.activated || connector.paused then
        let reason := if connector.paused then "The connector is paused"
          else "The connector is not activated"
        some ((s.updateLeased k
          (postponeRow (workerNow + definition.intervalSeconds * 1000)
            ("Skipped: " ++ reason))).setRun k .ended)
      else
        let validation := validateNativeQuery P definition.language definition.query
          (connector.catalog definition.entityType)
        if !validation.valid then
          some (failRun s k definition
            ("Query no longer passes validation: " ++ firstFinding validation) 0 now workerNow)
        else
          match definition.watermark with
          | none =>
            some (failRun s k definition
              "The query has no watermark; publish it again" 0 now workerNow)
          | some watermark => some (s.setRun k (.fetching definition (toMillis watermark)))
  | _ => none

def fetchStep (s : QueryState P) (k : Nat) (outcome : FetchOutcome) (now : Micros)
    (workerNow : Millis) : Option (QueryState P) :=
  match s.runs k with
  | some (.fetching definition prior) =>
    match outcome with
    | .page page => some (s.setRun k (.fetched definition prior page))
    | .shed message until_ =>
      some ((s.updateLeased k
        (postponeRow until_ (sliceString ("Deferred: " ++ message) 500))).setRun k .ended)
    | .error message retryAfterSeconds =>
      some (failRun s k definition message retryAfterSeconds now workerNow)
  | _ => none

/-- `WHERE … AND lease_owner = k AND status = 'published'`. -/
def mayCommit (row : NativeQueryDefinition) (k : Nat) : Bool :=
  row.leaseOwner = some k && row.status = .published

/-- The transaction of the records and the watermark; without the lease
nothing of it is kept. -/
def commitStep (orgId : Uuid) (connector : ConnectorRecord) (s : QueryState P)
    (k : Nat) (ids : Nat → Uuid) (now : Micros) (workerNow : Millis) : Option (QueryState P) :=
  match s.runs k with
  | some (.fetched definition prior page) =>
    if mayCommit s.row k then
      let (queue, inserted) :=
        acceptRecords P orgId connector definition.entityType ids 0 page.records s.queue
      some ({ s with
        row := succeedRow definition prior page inserted now workerNow s.row
        queue := queue }.setRun k .ended)
    else some (s.setRun k .ended)
  | _ => none

/-- A statement of the transaction throws, and the run fails. -/
def rollbackStep (s : QueryState P) (k : Nat) (message : String) (now : Micros)
    (workerNow : Millis) : Option (QueryState P) :=
  match s.runs k with
  | some (.fetched definition _ _) => some (failRun s k definition message 0 now workerNow)
  | _ => none

end Steps

section System

variable (P : Platform) (orgId : Uuid) (connector : ConnectorRecord)

def queryStep (s : QueryState P) : QueryAction → Option (QueryState P)
  | .read i kind => readStep s i kind
  | .edit i dto target now => editStep s i dto target now
  | .guard i target => guardStep s i target
  | .publish i actorId now => publishStep s i actorId now
  | .disable i => disableStep s i
  | .find k manual now => findStep s k manual now
  | .lease k now => leaseStep s k now
  | .connect k target unavailable now workerNow =>
    connectStep s k target unavailable now workerNow
  | .fetch k outcome now workerNow => fetchStep s k outcome now workerNow
  | .commit k ids now workerNow => commitStep orgId connector s k ids now workerNow
  | .rollback k message now workerNow => rollbackStep s k message now workerNow
  | .others queue => some { s with queue := queue }

/-- One scheduled query and everything that reads and writes it. -/
def scheduledQuery : System (QueryState P) QueryAction := ⟨queryStep P orgId connector⟩

end System

/-- A draft as `createDraft` inserts it, and no request or run. -/
def QueryState.start (P : Platform) (row : NativeQueryDefinition) (queue : IngestionTable) :
    QueryState P where
  row := row
  queue := queue
  requests := fun _ => none
  runs := fun _ => none
  published := none

/-- The columns that `createDraft` leaves to their defaults. -/
structure NativeQueryDefinition.IsDraft (row : NativeQueryDefinition) : Prop where
  status : row.status = .draft
  watermark : row.watermark = none
  hash : row.watermarkQueryHash = none
  lease : row.leaseOwner = none

end Cadena.NativeQuery.Scheduled
