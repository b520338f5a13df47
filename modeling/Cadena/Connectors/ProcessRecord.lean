import Cadena.Connectors.Propagation

/-!
# Ingesting one provider record

`processRecord`: a record read from a provider becomes the content of its
canonical twin, unless it is older than the twin's or has the same content,
and the change is published as a twin event.
-/

namespace Cadena.Connectors

open Cadena.Base Cadena.Audit Cadena.Integrations

/-- A record as an adapter returns it; `updatedAt` is a valid time. -/
structure ExternalRecordPayload where
  externalId : String
  artifactType : String
  title : String
  nativeKey : Option String
  nativeUrl : Option String
  status : String
  fields : Fields
  fieldAuthority : Option Fields
  updatedAt : Millis
  updatedBy : Option String

structure ConnectorRecord where
  id : Uuid
  provider : String
  name : String

/-- The tables that ingestion of records reads and writes. -/
structure IngestState where
  twins : List CanonicalTwin
  nodes : List SyncNode
  connectors : List ConnectorRecord

inductive RecordOutcome where
  | created | updated | unchanged
  deriving DecidableEq

/-- `requiredText` of the correlation service. -/
def correlationText (value field : String) : Except String String :=
  let normalized := trimString value
  if normalized = "" then .error (field ++ " is required")
  else if jsLength normalized > 512 then .error (field ++ " must be 512 characters or fewer")
  else .ok normalized

def correlationToken (P : Platform) (value field : String) : Except String String := do
  let normalized := P.toLowerCase (← correlationText value field)
  if !isToken normalized then
    throw (field ++
      " must start with a letter and contain only letters, digits, dots, dashes, or underscores")
  return normalized

/-- `optionalText`: the text itself is not read by ingestion. -/
def correlationOptional (value : Option String) (field : String) : Except String Unit :=
  match value with
  | none => .ok ()
  | some v => if jsLength (trimString v) > 2048 then .error (field ++ " is too long") else .ok ()

/-- The normalised identity of a node; what `upsertNode` can throw. -/
def normalizeEntity (P : Platform) (identity : SyncIdentity) (displayKey url : Option String) :
    Except String SyncIdentity := do
  let system ← correlationToken P identity.system "node.system"
  let entityType ← correlationToken P identity.entityType "node.entity_type"
  let immutableId ← correlationText identity.immutableId "node.immutable_id"
  correlationOptional displayKey "node.display_key"
  correlationOptional url "node.url"
  return ⟨system, entityType, immutableId⟩

/-- `INSERT … ON CONFLICT (org_id, system, entity_type, immutable_id) DO UPDATE
… RETURNING *`: the node's id, which never changes. -/
def upsertNode (nodes : List SyncNode) (orgId : Uuid) (identity : SyncIdentity)
    (newId : Uuid) : Uuid × List SyncNode :=
  match nodes.find? fun n => n.orgId = orgId && n.identity = identity with
  | some node => (node.id, nodes)
  | none => (newId, nodes ++ [⟨newId, orgId, identity⟩])

/-- `value || null`. -/
def orNull (value : Option String) : Option String := if truthy value then value else none

def optionJson (value : Option String) : Json :=
  match value with
  | some s => .str s
  | none => .null

/-- What the content hash covers. -/
def hashedParts : List (String × (ExternalRecordPayload → Json)) :=
  [("title", fun r => .str r.title),
    ("status", fun r => .str r.status),
    ("nativeKey", fun r => optionJson (orNull r.nativeKey)),
    ("nativeUrl", fun r => optionJson (orNull r.nativeUrl)),
    ("fields", fun r => .obj r.fields),
    ("fieldAuthority", fun r => .obj (r.fieldAuthority.getD []))]

def hashedContent (record : ExternalRecordPayload) : Json :=
  .obj (hashedParts.map fun part => (part.1, part.2 record))

def contentHash (P : Platform) (record : ExternalRecordPayload) : String :=
  P.sha256 (stableStringify (hashedContent record))

/-- `stableStringify(a[key] ?? null) !== stableStringify(b[key] ?? null)` for
some key of either. -/
def fieldsDiffer (prior new : Fields) : Bool :=
  ((spread prior new).map (·.1)).any fun key =>
    stableStringify ((lookup prior key).getD .null)
      != stableStringify ((lookup new key).getD .null)

/-! ## Processing -/

/-- The row of a record's natural key. -/
def twinKeyMatches (orgId : Uuid) (connector : ConnectorRecord)
    (record : ExternalRecordPayload) (t : CanonicalTwin) : Bool :=
  t.orgId = orgId && t.provider = connector.provider
    && t.artifactType = record.artifactType && t.externalId = record.externalId

theorem twinKeyMatches_columns {orgId : Uuid} {connector : ConnectorRecord}
    {record : ExternalRecordPayload} {t : CanonicalTwin} :
    twinKeyMatches orgId connector record t = true ↔ t.orgId = orgId ∧
      t.provider = connector.provider ∧ t.artifactType = record.artifactType ∧
      t.externalId = record.externalId := by
  simp [twinKeyMatches, and_assoc]

/-- The columns that an applied record sets. -/
def applyRecord (P : Platform) (record : ExternalRecordPayload) (nodeId : Uuid)
    (t : CanonicalTwin) : CanonicalTwin :=
  { t with
    nativeKey := orNull record.nativeKey
    nativeUrl := orNull record.nativeUrl
    title := some record.title
    nativeStatus := some record.status
    syncState := .synced
    fieldAuthority := record.fieldAuthority.getD []
    payload := record.fields
    contentHash := some (contentHash P record)
    sourceUpdatedAt := some record.updatedAt
    correlationNodeId := some nodeId }

/-- The row that a first record inserts. -/
def newTwin (P : Platform) (orgId : Uuid) (connector : ConnectorRecord)
    (record : ExternalRecordPayload) (twinId nodeId : Uuid) : CanonicalTwin :=
  applyRecord P record nodeId
    { id := twinId, orgId := orgId, connectorId := connector.id
      provider := connector.provider, artifactType := record.artifactType
      externalId := record.externalId, nativeKey := none, nativeUrl := none, title := none
      nativeStatus := none, syncState := .synced, fieldAuthority := [], payload := []
      contentHash := none, sourceUpdatedAt := none, correlationNodeId := none }

def isStale (prior : CanonicalTwin) (record : ExternalRecordPayload) : Bool :=
  match prior.sourceUpdatedAt with
  | some t => record.updatedAt < t
  | none => false

def connectorName (connectors : List ConnectorRecord) (id : Uuid) : String :=
  ((connectors.find? fun c => c.id = id).map (·.name)).getD ""

def recordEvent (P : Platform) (orgId : Uuid) (connector : ConnectorRecord)
    (record : ExternalRecordPayload) (prior : Option CanonicalTwin) (eventId twinId : Uuid) :
    TwinEvent where
  eventId := eventId
  eventType := if prior.isSome then .canonicalTwinUpdated else .canonicalTwinMaterialized
  workItemId := some twinId
  payload :=
    { orgId := some orgId
      twinId := some twinId
      stateChanged := some (match prior with
        | none => true
        | some t => !sameState P t.nativeStatus (some record.status))
      fieldsChanged := some (match prior with
        | none => true
        | some t => fieldsDiffer t.payload record.fields)
      identity := some ⟨connector.provider, record.artifactType, record.externalId⟩
      nativeStatus := some record.status
      state := none
      fields := some record.fields
      updatedBy := some (firstText [record.updatedBy, some (connector.provider ++ ":unattributed")])
      title := some record.title }

/-- The random ids that one call may draw. -/
structure FreshIds where
  twin : Uuid
  node : Uuid
  event : Uuid

/-- The outcome, the tables after, and the event that was committed with
them. -/
def processRecord (P : Platform) (orgId : Uuid) (connector : ConnectorRecord)
    (ids : FreshIds) (record : ExternalRecordPayload) (s : IngestState) :
    Except String (RecordOutcome × IngestState × Option TwinEvent) :=
  if record.externalId = "" then .error "Provider record has no immutable id"
  else
    let identity : SyncIdentity := ⟨connector.provider, record.artifactType, record.externalId⟩
    let displayKey := firstText [record.nativeKey, some record.externalId]
    match s.twins.find? (twinKeyMatches orgId connector record) with
    | some prior =>
      if prior.connectorId ≠ connector.id then
        .error (connector.provider ++ "/" ++ record.artifactType ++ "/" ++ record.externalId
          ++ " is already managed by connector \""
          ++ connectorName s.connectors prior.connectorId ++ "\"")
      else if isStale prior record then .ok (.unchanged, s, none)
      else if prior.contentHash = some (contentHash P record) then .ok (.unchanged, s, none)
      else
        match normalizeEntity P identity (some displayKey) record.nativeUrl with
        | .error message => .error message
        | .ok normalized =>
          let node := upsertNode s.nodes orgId normalized ids.node
          .ok (.updated,
            { s with
              twins := Table.update (fun t => t.id = prior.id && t.orgId = orgId)
                (applyRecord P record node.1) s.twins
              nodes := node.2 },
            some (recordEvent P orgId connector record (some prior) ids.event prior.id))
    | none =>
      match normalizeEntity P identity (some displayKey) record.nativeUrl with
      | .error message => .error message
      | .ok normalized =>
        let node := upsertNode s.nodes orgId normalized ids.node
        .ok (.created,
          { s with
            twins := s.twins ++ [newTwin P orgId connector record ids.twin node.1]
            nodes := node.2 },
          some (recordEvent P orgId connector record none ids.event ids.twin))

/-- What a record that is accepted can do to the tables. -/
inductive RecordChange (P : Platform) (orgId : Uuid) (connector : ConnectorRecord) (ids : FreshIds)
    (record : ExternalRecordPayload) (s : IngestState) : IngestState → Option TwinEvent → Prop where
  | same {prior : CanonicalTwin} :
      s.twins.find? (twinKeyMatches orgId connector record) = some prior →
      prior.connectorId = connector.id → RecordChange P orgId connector ids record s s none
  | updated {prior : CanonicalTwin} {nodeId : Uuid} {nodes : List SyncNode} :
      s.twins.find? (twinKeyMatches orgId connector record) = some prior →
      prior.connectorId = connector.id → isStale prior record = false →
      prior.contentHash ≠ some (contentHash P record) →
      RecordChange P orgId connector ids record s
        { s with
          twins := Table.update (fun t => t.id = prior.id && t.orgId = orgId)
            (applyRecord P record nodeId) s.twins
          nodes := nodes }
        (some (recordEvent P orgId connector record (some prior) ids.event prior.id))
  | created {nodeId : Uuid} {nodes : List SyncNode} :
      s.twins.find? (twinKeyMatches orgId connector record) = none →
      RecordChange P orgId connector ids record s
        { s with
          twins := s.twins ++ [newTwin P orgId connector record ids.twin nodeId]
          nodes := nodes }
        (some (recordEvent P orgId connector record none ids.event ids.twin))

theorem RecordChange.of_processRecord {P : Platform} {orgId : Uuid} {connector : ConnectorRecord}
    {ids : FreshIds} {record : ExternalRecordPayload} {s after : IngestState}
    {outcome : RecordOutcome} {event : Option TwinEvent}
    (h : processRecord P orgId connector ids record s = .ok (outcome, after, event)) :
    RecordChange P orgId connector ids record s after event := by
  unfold processRecord at h
  split at h
  · cases h
  simp only at h
  split at h
  · rename_i prior hprior
    split at h
    · cases h
    rename_i hconnector
    split at h
    · cases h
      exact .same hprior (not_not.mp hconnector)
    rename_i hstale
    split at h
    · cases h
      exact .same hprior (not_not.mp hconnector)
    rename_i hhash
    split at h
    · cases h
    · cases h
      exact .updated hprior (not_not.mp hconnector) (by simpa using hstale) hhash
  · rename_i hnone
    split at h
    · cases h
    · cases h
      exact .created hnone

end Cadena.Connectors
