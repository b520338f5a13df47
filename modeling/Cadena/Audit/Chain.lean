import Cadena.Audit.Integrity
import Cadena.Base.IsoTime
import Cadena.Base.HashChain

/-!
# The audit chain

`audit-integrity.ts`: the canonical event, the hash of an entry, the append
of one entry to its tenant's chain and the verification of a chain against
the source rows. Payload columns hold objects, as every writer stores them.
-/

namespace Cadena.Audit

open Cadena.Base

def AUDIT_PROOF_VERSION : Int := 1

inductive AuditEventSource where
  | domainEvents
  | auditEvents
  deriving DecidableEq

def AuditEventSource.text : AuditEventSource → String
  | .domainEvents => "domain_events"
  | .auditEvents => "audit_events"

/-- The tenant is missing only in an event read back from a row without
one. -/
structure IntegrityEventInput where
  source : AuditEventSource
  eventId : Uuid
  orgId : Option Uuid
  workItemId : Option String
  eventType : String
  actorType : String
  actorId : String
  payload : Fields
  occurredAt : Millis

/-- `text || null`. -/
def orNull (t : Option String) : Option String := t.filter (· != "")

mutual

/-- `JSON.parse(JSON.stringify(value))` on a JSON value: the numbers as
their text keeps them. -/
def durable : Json → Json
  | .num n => canonNumber n
  | .arr xs => .arr (durableElems xs)
  | .obj es => .obj (durableEntries es)
  | .null => .null
  | .bool b => .bool b
  | .str s => .str s

def durableElems : List Json → List Json
  | [] => []
  | x :: xs => durable x :: durableElems xs

def durableEntries : Fields → Fields
  | [] => []
  | (k, v) :: es => (k, durable v) :: durableEntries es

end

def uuidString (u : Uuid) : String := String.ofList (uuidText u)

def optText : Option String → Json
  | none => .null
  | some s => .str s

def proofVersion : Json :=
  .num (.finite ⟨['1'], by decide, List.all_eq_true.mp (by decide)⟩)

def canonicalAuditEvent (input : IntegrityEventInput) : Json :=
  .obj [("proof_version", proofVersion),
    ("source", .str input.source.text),
    ("event_id", .str (uuidString input.eventId)),
    ("org_id", optText (input.orgId.map uuidString)),
    ("work_item_id", optText input.workItemId),
    ("event_type", .str input.eventType),
    ("actor", .obj [("type", .str input.actorType), ("id", .str input.actorId)]),
    ("occurred_at", .str (toISOString input.occurredAt)),
    ("payload", durable (.obj input.payload))]

def calculateAuditHash (P : Platform) (previousHash : Option String) (canonicalEvent : Json) :
    String :=
  P.sha256 (((orNull previousHash).getD "GENESIS").toList
    ++ '\n' :: stableStringify canonicalEvent)

/-! ## Entries -/

/-- A row of `audit_integrity_entries`. -/
structure IntegrityEntry where
  sequence : Nat
  orgId : Uuid
  source : String
  eventId : Uuid
  workItemId : Option String
  eventType : String
  occurredAt : Millis
  previousHash : Option String
  eventHash : String
  canonicalEvent : Json
  proofVersion : Int

/-- `WHERE org_id = $1 ORDER BY sequence ASC`. -/
def tenantEntries (entries : List IntegrityEntry) (orgId : Uuid) : List IntegrityEntry :=
  (entries.filter (·.orgId == orgId)).insertionSort fun a b => a.sequence ≤ b.sequence

/-- `ORDER BY sequence DESC LIMIT 1`: the hash the next entry has to name. -/
def headHash (entries : List IntegrityEntry) (orgId : Uuid) : Option String :=
  orNull ((tenantEntries entries orgId).getLast?.map (·.eventHash))

/-- The row an append inserts after the head it has read. -/
def entryRow (P : Platform) (input : IntegrityEventInput) (orgId : Uuid)
    (previousHash : Option String) (sequence : Nat) : IntegrityEntry where
  sequence := sequence
  orgId := orgId
  source := input.source.text
  eventId := input.eventId
  workItemId := input.workItemId
  eventType := input.eventType
  occurredAt := input.occurredAt
  previousHash := previousHash
  eventHash := calculateAuditHash P previousHash (canonicalAuditEvent input)
  canonicalEvent := canonicalAuditEvent input
  proofVersion := AUDIT_PROOF_VERSION

/-- Whether `UNIQUE (source, event_id)` already holds a row of the event. -/
def recorded (entries : List IntegrityEntry) (input : IntegrityEventInput) : Bool :=
  entries.any fun e => e.source == input.source.text && e.eventId == input.eventId

/-- The unique indexes of the table that an insert can run into. -/
inductive UniqueIndex where
  | hashUnique
  | chainLink
  | chainGenesis
  deriving DecidableEq

def UniqueIndex.name : UniqueIndex → String
  | .hashUnique => "audit_integrity_hash_unique"
  | .chainLink => "audit_integrity_chain_link"
  | .chainGenesis => "audit_integrity_chain_genesis"

/-- The index that an insert of the row violates; the indexes are looked at
in the order they were created in. -/
def violated (entries : List IntegrityEntry) (row : IntegrityEntry) : Option UniqueIndex :=
  let tenant := entries.filter (·.orgId == row.orgId)
  if tenant.any (·.eventHash == row.eventHash) then some .hashUnique
  else if tenant.any (·.previousHash == row.previousHash) then
    if row.previousHash.isSome then some .chainLink else some .chainGenesis
  else none

/-- The table and the next value of its `BIGSERIAL`. -/
structure AuditStore where
  entries : List IntegrityEntry
  nextSequence : Nat

inductive AppendError where
  /-- `23505` on an index. -/
  | uniqueViolation (index : UniqueIndex)
  /-- `org_id` is NOT NULL. -/
  | missingTenant
  deriving DecidableEq

def MAX_APPEND_ATTEMPTS : Nat := 8

/-- `constraint.startsWith('audit_integrity_chain_')`. -/
def lostChainRace (index : UniqueIndex) : Bool :=
  "audit_integrity_chain_".toList.isPrefixOf index.name.toList

/-- The retry loop, with the attempts that remain after this one. An insert
that fails has drawn its sequence number all the same. -/
def appendLoop (P : Platform) (input : IntegrityEventInput) (orgId : Uuid) :
    Nat → AuditStore → AuditStore × Except AppendError Unit
  | remaining, store =>
    let previousHash := headHash store.entries orgId
    let row := entryRow P input orgId previousHash store.nextSequence
    let drawn := { store with nextSequence := store.nextSequence + 1 }
    match violated store.entries row with
    | none => ({ drawn with entries := store.entries ++ [row] }, .ok ())
    | some index =>
      match remaining with
      | 0 => (drawn, .error (.uniqueViolation index))
      | remaining + 1 =>
        if lostChainRace index then appendLoop P input orgId remaining drawn
        else (drawn, .error (.uniqueViolation index))

/-- Appends one idempotent link to the tenant's chain, with no other writer
between its statements. -/
def appendAuditIntegrityEntry (P : Platform) (store : AuditStore) (input : IntegrityEventInput) :
    AuditStore × Except AppendError Unit :=
  if recorded store.entries input then (store, .ok ())
  else
    match input.orgId with
    | none => ({ store with nextSequence := store.nextSequence + 1 }, .error .missingTenant)
    | some orgId => appendLoop P input orgId (MAX_APPEND_ATTEMPTS - 1) store

/-! ## Verification -/

/-- A row of `domain_events`. -/
structure DomainEventRow where
  eventId : Uuid
  orgId : Option Uuid
  eventType : String
  workItemId : Option String
  actorType : String
  actorId : String
  payload : Fields
  occurredAt : Millis

/-- A row of `audit_events`. -/
structure AuditEventRow where
  id : Uuid
  eventType : String
  workItemId : Uuid
  actorType : String
  actorId : String
  payload : Fields
  timestamp : Millis

/-- The columns of `work_items` that the verification joins. -/
structure WorkItemRow where
  id : Uuid
  orgId : Uuid

structure SourceTables where
  domainEvents : List DomainEventRow
  auditEvents : List AuditEventRow
  workItems : List WorkItemRow

def domainInput (row : DomainEventRow) : IntegrityEventInput where
  source := .domainEvents
  eventId := row.eventId
  orgId := row.orgId
  workItemId := orNull row.workItemId
  eventType := row.eventType
  actorType := row.actorType
  actorId := row.actorId
  payload := row.payload
  occurredAt := row.occurredAt

def auditInput (workItems : List WorkItemRow) (row : AuditEventRow) : IntegrityEventInput where
  source := .auditEvents
  eventId := row.id
  orgId := (workItems.find? (·.id == row.workItemId)).map (·.orgId)
  workItemId := some (uuidString row.workItemId)
  eventType := row.eventType
  actorType := row.actorType
  actorId := row.actorId
  payload := row.payload
  occurredAt := row.timestamp

/-- The event as its source row has it now, when the row still exists. -/
def currentInput (tables : SourceTables) (entry : IntegrityEntry) : Option IntegrityEventInput :=
  if entry.source = AuditEventSource.domainEvents.text then
    (tables.domainEvents.find? (·.eventId == entry.eventId)).map domainInput
  else if entry.source = AuditEventSource.auditEvents.text then
    (tables.auditEvents.find? (·.id == entry.eventId)).map (auditInput tables.workItems)
  else none

/-- The four checks of one entry against the hash before it. -/
def verifyEntry (P : Platform) (tables : SourceTables) (previousHash : Option String)
    (entry : IntegrityEntry) : Bool :=
  let linked := orNull entry.previousHash == previousHash
  let hashMatches :=
    calculateAuditHash P (orNull entry.previousHash) entry.canonicalEvent == entry.eventHash
  let sourceMatches :=
    match currentInput tables entry with
    | some current =>
      calculateAuditHash P (orNull entry.previousHash) (canonicalAuditEvent current)
        == entry.eventHash
    | none => false
  linked && hashMatches && sourceMatches && entry.proofVersion == AUDIT_PROOF_VERSION

/-- The loop of the verification: the last hash and whether all entries
passed. -/
def verifyLoop (P : Platform) (tables : SourceTables) :
    Option String → Bool → List IntegrityEntry → Option String × Bool
  | previousHash, valid, [] => (previousHash, valid)
  | previousHash, valid, entry :: rest =>
    verifyLoop P tables (some entry.eventHash)
      (valid && verifyEntry P tables previousHash entry) rest

structure ChainVerification where
  proofVersion : Int
  chainLength : Nat
  chainHead : Option String
  chainVerified : Bool
  deriving DecidableEq

def verifyTenantAuditChain (P : Platform) (tables : SourceTables) (entries : List IntegrityEntry)
    (orgId : Uuid) : ChainVerification :=
  let rows := tenantEntries entries orgId
  let (previousHash, valid) := verifyLoop P tables none true rows
  { proofVersion := AUDIT_PROOF_VERSION
    chainLength := rows.length
    chainHead := previousHash
    chainVerified := valid }

end Cadena.Audit
