import Mathlib.Data.Sym.Sym2
import Cadena.Base.Table
import Cadena.Base.Transition
import Cadena.Connectors.FieldMapping

/-!
# Publication of mappings

Drafts and publications of `StateMappingService` and of `FieldMappingService`
in one tenant. Both keep a table of definitions, number the versions of each
orientation of a pair, and publish in a transaction of two updates; a field
mapping is checked against the discovered schema before the transaction
begins. The transactions are those of a pooled PostgreSQL: an update chooses
its rows from what is committed when the statement starts, waits for rows
that others have locked, and looks at its conditions once more.

The rules of a definition decide nothing here and are left out.
-/

namespace Cadena.Integrations

open Cadena.Base
open Cadena.Connectors (FieldMappingEndpoint FieldMappingStatus)

/-- A row of `integration_state_mapping_definitions` or of
`integration_field_mapping_definitions`. -/
structure MappingRow where
  id : Uuid
  source : FieldMappingEndpoint
  target : FieldMappingEndpoint
  version : Nat
  status : FieldMappingStatus
  deriving DecidableEq

/-- `WHERE source_system = … AND target_entity_type = …`. -/
def MappingRow.sameOrientation (r : MappingRow) (source target : FieldMappingEndpoint) : Bool :=
  r.source = source && r.target = target

/-- Either orientation, as the look-ups match it. -/
def MappingRow.matchesPair (r : MappingRow) (a b : FieldMappingEndpoint) : Bool :=
  r.sameOrientation a b || r.sameOrientation b a

/-- `ORDER BY version DESC LIMIT 1` over the published definitions of a pair:
any of those with the highest version. -/
structure FindsPublished (rows : List MappingRow) (a b : FieldMappingEndpoint) (r : MappingRow) :
    Prop where
  mem : r ∈ rows
  published : r.status = .published
  pair : r.matchesPair a b = true
  highest : ∀ q ∈ rows, q.status = .published → q.matchesPair a b = true → q.version ≤ r.version

/-- `COALESCE(MAX(version), 0) + 1`. -/
def nextVersion (rows : List MappingRow) (source target : FieldMappingEndpoint) : Nat :=
  ((rows.filter (·.sameOrientation source target)).map (·.version)).foldl max 0 + 1

/-! ## The services -/

inductive MappingService where
  | state | field
  deriving DecidableEq

/-- A call of `createDraft` that has read the version. -/
structure DraftCall where
  source : FieldMappingEndpoint
  target : FieldMappingEndpoint
  version : Nat

/-- Where a call of `publish` stands. -/
inductive PublishPhase where
  | idle
  /-- The draft was found, and its schema is checked next. -/
  | looked (id : Uuid)
  | opened (id : Uuid)
  /-- The transaction has found the draft. -/
  | guarded (id : Uuid)
  /-- The rows that the first update has found. -/
  | matched (id : Uuid) (found : List Uuid)
  | superseded (id : Uuid) (found : List Uuid)
  /-- Both updates are made, and not committed. -/
  | published (id : Uuid) (found : List Uuid)

structure Publication where
  id : Uuid
  source : FieldMappingEndpoint
  target : FieldMappingEndpoint
  deriving DecidableEq

/-- The committed definitions, the calls under way, the row locks, and the
log of the publications, the newest first. -/
structure MappingState where
  rows : List MappingRow
  drafts : Nat → Option DraftCall
  publishers : Nat → PublishPhase
  locks : List (Nat × Uuid)
  log : List Publication

inductive MappingAction where
  | readVersion (k : Nat) (source target : FieldMappingEndpoint)
  | insertDraft (k : Nat) (id : Uuid)
  | begin (i : Nat) (id : Uuid)
  | verify (i : Nat) (complete : Bool)
  | guard (i : Nat)
  | find (i : Nat)
  | supersede (i : Nat)
  | publish (i : Nat)
  | commit (i : Nat)
  | abort (i : Nat)

def MappingState.setPublisher (s : MappingState) (i : Nat) (phase : PublishPhase) : MappingState :=
  { s with publishers := setAt s.publishers i phase }

def MappingState.row (s : MappingState) (id : Uuid) : Option MappingRow :=
  s.rows.find? (·.id == id)

/-- Another transaction holds one of the rows. -/
def MappingState.waits (s : MappingState) (i : Nat) (ids : List Uuid) : Bool :=
  s.locks.any fun l => ids.contains l.2 && l.1 != i

def MappingState.release (s : MappingState) (i : Nat) : MappingState :=
  { s with publishers := setAt s.publishers i .idle, locks := s.locks.filter (·.1 != i) }

/-- The newest publication of a pair. -/
def lastPublished (log : List Publication) (a b : FieldMappingEndpoint) : Option Uuid :=
  (log.find? fun p => p.source = a && p.target = b || p.source = b && p.target = a).map (·.id)

def readVersionStep (s : MappingState) (k : Nat) (source target : FieldMappingEndpoint) :
    Option MappingState :=
  match s.drafts k with
  | none =>
    if source = target then none
    else some { s with
      drafts := setAt s.drafts k (some ⟨source, target, nextVersion s.rows source target⟩) }
  | some _ => none

/-- A version that was inserted meanwhile violates the unique constraint. -/
def insertDraftStep (s : MappingState) (k : Nat) (id : Uuid) : Option MappingState :=
  match s.drafts k with
  | some call =>
    if s.rows.any (·.id == id) then none
    else if s.rows.any fun r =>
        r.sameOrientation call.source call.target && r.version == call.version then
      some { s with drafts := setAt s.drafts k none }
    else
      some { s with
        drafts := setAt s.drafts k none
        rows := s.rows ++ [⟨id, call.source, call.target, call.version, .draft⟩] }
  | none => none

/-- The first read of `publish`; only a draft is published. -/
def beginStep (service : MappingService) (s : MappingState) (i : Nat) (id : Uuid) :
    Option MappingState :=
  match s.publishers i with
  | .idle =>
    match s.row id with
    | none => none
    | some r =>
      if r.status = .draft then
        match service with
        | .state => some (s.setPublisher i (.guarded id))
        | .field => some (s.setPublisher i (.looked id))
      else none
  | _ => none

/-- The rules of a field mapping are checked against the schema. -/
def verifyStep (s : MappingState) (i : Nat) (complete : Bool) : Option MappingState :=
  match s.publishers i with
  | .looked id => some (s.setPublisher i (if complete then .opened id else .idle))
  | _ => none

/-- The status is read again inside the transaction. -/
def guardStep (s : MappingState) (i : Nat) : Option MappingState :=
  match s.publishers i with
  | .opened id =>
    match s.row id with
    | none => none
    | some r => some (s.setPublisher i (if r.status = .draft then .guarded id else .idle))
  | _ => none

/-- The first update of the transaction finds its rows. -/
def matchStep (s : MappingState) (i : Nat) : Option MappingState :=
  match s.publishers i with
  | .guarded id =>
    match s.row id with
    | none => none
    | some r =>
      some (s.setPublisher i (.matched id ((s.rows.filter fun q =>
        q.status = .published && q.sameOrientation r.source r.target).map (·.id))))
  | _ => none

def supersedeStep (s : MappingState) (i : Nat) : Option MappingState :=
  match s.publishers i with
  | .matched id found =>
    if s.waits i found then none
    else
      let still := found.filter fun x => s.rows.any fun q => q.id == x && q.status == .published
      some { s.setPublisher i (.superseded id still) with
        locks := s.locks ++ still.map (Prod.mk i) }
  | _ => none

/-- The second update, by the id alone. -/
def publishStep (s : MappingState) (i : Nat) : Option MappingState :=
  match s.publishers i with
  | .superseded id found =>
    if s.waits i [id] then none
    else some { s.setPublisher i (.published id found) with locks := s.locks ++ [(i, id)] }
  | _ => none

/-- What a publication does to the table. -/
def publishRows (id : Uuid) (found : List Uuid) (rows : List MappingRow) : List MappingRow :=
  Table.update (·.id == id) (fun r => { r with status := .published })
    (Table.update (fun r => found.contains r.id) (fun r => { r with status := .superseded }) rows)

def commitStep (s : MappingState) (i : Nat) : Option MappingState :=
  match s.publishers i with
  | .published id found =>
    match s.row id with
    | none => none
    | some r =>
      some { s.release i with
        rows := publishRows id found s.rows
        log := ⟨id, r.source, r.target⟩ :: s.log }
  | _ => none

def mappingStep (service : MappingService) (s : MappingState) : MappingAction → Option MappingState
  | .readVersion k source target => readVersionStep s k source target
  | .insertDraft k id => insertDraftStep s k id
  | .begin i id => beginStep service s i id
  | .verify i complete => verifyStep s i complete
  | .guard i => guardStep s i
  | .find i => matchStep s i
  | .supersede i => supersedeStep s i
  | .publish i => publishStep s i
  | .commit i => commitStep s i
  | .abort i => some (s.release i)

def mappings (service : MappingService) : System MappingState MappingAction where
  step := mappingStep service

/-- A tenant without mappings. -/
def MappingState.start : MappingState where
  rows := []
  drafts _ := none
  publishers _ := .idle
  locks := []
  log := []

end Cadena.Integrations
