import Cadena.Audit.Integrity
import Cadena.Base.Transition
import Cadena.Connectors.Types

/-!
# The echo guard

`SyncGuardService`: what Cadena wrote is remembered twice, as a volatile
marker for the writing actor and as the durable snapshot of the record's
content. A returning webhook is compared with both.

A `Map` is the function that looks a key up; the snapshot table is the
function that looks its primary key up. The events that both services
publish carry nothing that either reads back, and are left out.
-/

namespace Cadena.Integrations

open Cadena.Base Cadena.Audit
open Cadena.Connectors (SyncIdentity)

def suppressionWindowMs : Millis := 15 * 60 * 1000

/-- A row of `integration_correlation_nodes`. -/
structure SyncNode where
  id : Uuid
  orgId : Uuid
  identity : SyncIdentity

/-- A row of `integration_sync_snapshots`. -/
structure SyncSnapshot where
  payloadHash : String
  canonicalPayload : Json

structure GuardState where
  /-- The expiry of each marker. -/
  recentWrites : Text → Option Millis
  /-- The snapshot of each organisation's node. -/
  snapshots : Uuid × Uuid → Option SyncSnapshot

/-- A new service over an empty database. -/
def GuardState.empty : GuardState := ⟨fun _ => none, fun _ => none⟩

/-- `clearVolatileMarkers`, and what a restart does. -/
def GuardState.clearVolatileMarkers (s : GuardState) : GuardState :=
  { s with recentWrites := fun _ => none }

/-! ## Validation -/

inductive GuardError where
  | invalidSyncGuard (message : String)
  | syncIdentityNotFound (message : String)
  deriving DecidableEq

/-- `text.length`, in UTF-16 units. -/
def jsLength (s : String) : Nat := (s.toList.flatMap utf16).length

def requiredText (value field : String) (maxLength : Nat) : Except GuardError String :=
  let normalized := trimString value
  if normalized = "" then .error (.invalidSyncGuard (field ++ " is required"))
  else if jsLength normalized > maxLength then
    .error (.invalidSyncGuard
      (field ++ " must be " ++ toString maxLength ++ " characters or fewer"))
  else .ok normalized

def isTokenChar (c : Char) : Bool :=
  c.isLower || c.isDigit || c == '_' || c == '.' || c == '-'

/-- `/^[a-z][a-z0-9_.-]{0,63}$/`. -/
def isToken (s : String) : Bool :=
  match s.toList with
  | [] => false
  | c :: cs => c.isLower && cs.all isTokenChar && cs.length ≤ 63

def normalizeIdentity (P : Platform) (input : SyncIdentity) :
    Except GuardError SyncIdentity := do
  let system := P.toLowerCase (← requiredText input.system "identity.system" 64)
  let entityType := P.toLowerCase (← requiredText input.entityType "identity.entity_type" 64)
  if !isToken system || !isToken entityType then
    throw (.invalidSyncGuard
      "identity system and entity_type contain unsupported characters")
  return ⟨system, entityType, ← requiredText input.immutableId "identity.immutable_id" 512⟩

/-- A JSON object is its own JSON round trip. -/
def normalizePayload : Json → Except GuardError Json
  | .obj entries => .ok (.obj entries)
  | _ => .error (.invalidSyncGuard "payload must be a JSON object")

def hashPayload (P : Platform) (payload : Json) : String :=
  P.sha256 (stableStringify payload)

def requireNode (nodes : List SyncNode) (orgId : Uuid) (identity : SyncIdentity) :
    Except GuardError SyncNode :=
  match nodes.find? fun n => n.orgId = orgId && n.identity = identity with
  | some node => .ok node
  | none => .error (.syncIdentityNotFound "Correlation identity not found in this tenant")

/-- What both calls compute before they look at the state. -/
structure Observation where
  identity : SyncIdentity
  actorId : String
  payload : Json
  payloadHash : String
  node : SyncNode

def observe (P : Platform) (nodes : List SyncNode) (orgId : Uuid) (identity : SyncIdentity)
    (actorField actorId : String) (payload : Json) : Except GuardError Observation := do
  let identity ← normalizeIdentity P identity
  let actorId ← requiredText actorId actorField 256
  let payload ← normalizePayload payload
  let node ← requireNode nodes orgId identity
  return ⟨identity, actorId, payload, hashPayload P payload, node⟩

@[irreducible] def markerKey (orgId nodeId : Uuid) (actorId payloadHash : String) : Text :=
  uuidText orgId ++ '\n' :: uuidText nodeId ++ '\n' :: actorId.toList
    ++ '\n' :: payloadHash.toList

def GuardState.pruneExpired (s : GuardState) (now : Millis) : GuardState :=
  { s with recentWrites := fun key => (s.recentWrites key).filter fun e => now ≤ e }

def GuardState.setMarker (s : GuardState) (key : Text) (expiresAt : Millis) : GuardState :=
  { s with recentWrites := setAt s.recentWrites key (some expiresAt) }

def GuardState.deleteMarker (s : GuardState) (key : Text) : GuardState :=
  { s with recentWrites := setAt s.recentWrites key none }

/-- `INSERT … ON CONFLICT (org_id, node_id) DO UPDATE`. -/
def GuardState.saveSnapshot (s : GuardState) (orgId : Uuid) (o : Observation) : GuardState :=
  { s with
    snapshots := setAt s.snapshots (orgId, o.node.id) (some ⟨o.payloadHash, o.payload⟩) }

/-! ## The two calls -/

structure RecordIntegrationWriteDto where
  identity : SyncIdentity
  serviceAccountId : String
  payload : Json

structure RecordedWrite where
  nodeId : Uuid
  identity : SyncIdentity
  serviceAccountId : String
  payloadHash : String
  recordedAt : Millis
  suppressionExpiresAt : Millis

def recordIntegrationWrite (P : Platform) (nodes : List SyncNode) (orgId : Uuid)
    (dto : RecordIntegrationWriteDto) (now : Millis) (s : GuardState) :
    Except GuardError (RecordedWrite × GuardState) := do
  let o ← observe P nodes orgId dto.identity "service_account_id" dto.serviceAccountId
    dto.payload
  let expiresAt := now + suppressionWindowMs
  let s := ((s.saveSnapshot orgId o).pruneExpired now).setMarker
    (markerKey orgId o.node.id o.actorId o.payloadHash) expiresAt
  return (⟨o.node.id, o.identity, o.actorId, o.payloadHash, now, expiresAt⟩, s)

structure EvaluateSyncWebhookDto where
  identity : SyncIdentity
  actorId : String
  payload : Json

inductive SyncGuardReason where
  | selfOriginatedHash | contentNoop | externalChange
  deriving DecidableEq

/-- `action` is `ignore` or `process`, as `suppressed` says. -/
structure SyncGuardDecision where
  nodeId : Uuid
  identity : SyncIdentity
  payloadHash : String
  suppressed : Bool
  reason : SyncGuardReason
  matchedServiceAccount : Bool
  decidedAt : Millis

/-- The durable half of the decision. -/
def matchesSnapshot (s : GuardState) (orgId : Uuid) (o : Observation) : Bool :=
  match s.snapshots (orgId, o.node.id) with
  | some row =>
    row.payloadHash == o.payloadHash
      && stableStringify row.canonicalPayload == stableStringify o.payload
  | none => false

/-- Whether a live marker names this actor and content. -/
def hasMarker (s : GuardState) (orgId : Uuid) (o : Observation) (now : Millis) : Bool :=
  match s.recentWrites (markerKey orgId o.node.id o.actorId o.payloadHash) with
  | some expiresAt => now ≤ expiresAt
  | none => false

/-- The marker is asked first and the snapshot only without one. A marker
is used once; only an accepted change moves the snapshot. -/
def evaluateObserved (orgId : Uuid) (o : Observation) (now : Millis) (s : GuardState) :
    SyncGuardReason × GuardState :=
  let s := s.pruneExpired now
  if hasMarker s orgId o now then
    (.selfOriginatedHash,
      s.deleteMarker (markerKey orgId o.node.id o.actorId o.payloadHash))
  else if matchesSnapshot s orgId o then (.contentNoop, s)
  else (.externalChange, s.saveSnapshot orgId o)

def evaluateWebhook (P : Platform) (nodes : List SyncNode) (orgId : Uuid)
    (dto : EvaluateSyncWebhookDto) (now : Millis) (s : GuardState) :
    Except GuardError (SyncGuardDecision × GuardState) := do
  let o ← observe P nodes orgId dto.identity "actor_id" dto.actorId dto.payload
  let (reason, s) := evaluateObserved orgId o now s
  return (⟨o.node.id, o.identity, o.payloadHash, reason ≠ .externalChange, reason,
    reason = .selfOriginatedHash, now⟩, s)

variable {o : Observation}

theorem evaluateObserved_suppressed_iff {s : GuardState} {orgId : Uuid} {now : Millis} :
    (evaluateObserved orgId o now s).1 ≠ .externalChange ↔
      hasMarker s orgId o now = true ∨ matchesSnapshot s orgId o = true := by
  have hprune : hasMarker (s.pruneExpired now) orgId o now = hasMarker s orgId o now := by
    unfold hasMarker GuardState.pruneExpired
    cases h : s.recentWrites (markerKey orgId o.node.id o.actorId o.payloadHash) with
    | none => simp only [h, Option.filter_none]
    | some e => by_cases he : now ≤ e <;> simp [h, Option.filter, he]
  have hsnap : matchesSnapshot (s.pruneExpired now) orgId o = matchesSnapshot s orgId o := rfl
  unfold evaluateObserved
  simp only [hprune, hsnap]
  by_cases hm : hasMarker s orgId o now = true
  · simp [hm]
  · by_cases hc : matchesSnapshot s orgId o = true <;> simp [hm, hc]

theorem evaluateWebhook_ok {P : Platform} {nodes : List SyncNode} {orgId : Uuid}
    {dto : EvaluateSyncWebhookDto} {now : Millis} {s guard : GuardState}
    {decision : SyncGuardDecision}
    (h : evaluateWebhook P nodes orgId dto now s = .ok (decision, guard)) :
    ∃ o, observe P nodes orgId dto.identity "actor_id" dto.actorId dto.payload = .ok o ∧
      decision.reason = (evaluateObserved orgId o now s).1 ∧
      decision.suppressed = decide ((evaluateObserved orgId o now s).1 ≠ .externalChange) ∧
      guard = (evaluateObserved orgId o now s).2 := by
  unfold evaluateWebhook at h
  cases ho : observe P nodes orgId dto.identity "actor_id" dto.actorId dto.payload with
  | error e => simp [ho, bind, Except.bind] at h
  | ok o =>
    simp only [ho, bind, Except.bind, pure, Except.pure, Except.ok.injEq,
      Prod.mk.injEq] at h
    obtain ⟨rfl, rfl⟩ := h
    exact ⟨o, rfl, rfl, rfl, rfl⟩

/-! ## The content a snapshot stands for -/

/-- The canonical text of the stored content. -/
def GuardState.snapshotText (s : GuardState) (orgId nodeId : Uuid) : Option Text :=
  (s.snapshots (orgId, nodeId)).map fun row => stableStringify row.canonicalPayload

/-- A stored hash is the hash of the stored content. -/
def GuardState.Hashed (P : Platform) (s : GuardState) : Prop :=
  ∀ key row, s.snapshots key = some row →
    row.payloadHash = hashPayload P row.canonicalPayload

theorem observe_hash {P : Platform} {nodes : List SyncNode} {orgId : Uuid}
    {identity : SyncIdentity} {field actorId : String} {payload : Json}
    (h : observe P nodes orgId identity field actorId payload = .ok o) :
    o.payloadHash = hashPayload P o.payload := by
  simp only [observe, bind, Except.bind] at h
  split at h
  · cases h
  · split at h
    · cases h
    · split at h
      · cases h
      · split at h
        · cases h
        · cases h
          rfl

theorem matchesSnapshot_iff {P : Platform} {s : GuardState} (orgId : Uuid)
    (hs : s.Hashed P) (ho : o.payloadHash = hashPayload P o.payload) :
    matchesSnapshot s orgId o = true ↔
      s.snapshotText orgId o.node.id = some (stableStringify o.payload) := by
  unfold matchesSnapshot GuardState.snapshotText
  cases hrow : s.snapshots (orgId, o.node.id) with
  | none => simp
  | some row =>
    simp only [Bool.and_eq_true, beq_iff_eq, Option.map_some, Option.some.injEq]
    constructor
    · exact fun h => h.2
    · intro h
      refine ⟨?_, h⟩
      rw [hs _ _ hrow, ho, hashPayload, hashPayload, h]

theorem GuardState.Hashed.saveSnapshot {P : Platform} {s : GuardState} (hs : s.Hashed P)
    (orgId : Uuid) (ho : o.payloadHash = hashPayload P o.payload) :
    (s.saveSnapshot orgId o).Hashed P := by
  intro key row hrow
  by_cases hkey : key = (orgId, o.node.id)
  · subst hkey
    simp only [GuardState.saveSnapshot, setAt_same, Option.some.injEq] at hrow
    rw [← hrow]
    exact ho
  · simp only [GuardState.saveSnapshot, setAt_other _ _ hkey] at hrow
    exact hs key row hrow

theorem snapshotText_saveSnapshot (s : GuardState) (orgId : Uuid) (o : Observation)
    (org node : Uuid) :
    (s.saveSnapshot orgId o).snapshotText org node =
      if (org, node) = (orgId, o.node.id) then some (stableStringify o.payload)
      else s.snapshotText org node := by
  unfold GuardState.snapshotText GuardState.saveSnapshot
  by_cases hkey : (org, node) = (orgId, o.node.id)
  · simp only [hkey, setAt_same, Option.map_some, if_true]
  · simp only [if_neg hkey, setAt_other _ _ hkey]

end Cadena.Integrations
