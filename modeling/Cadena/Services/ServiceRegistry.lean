import Cadena.Base.Table
import Cadena.WorkItems.Workflow

/-!
# The service registry

Services of a tenant, by a key that is made of their name unless one is given.
`registerService` writes over the service that has the key; `resolveService`
looks for a service by the names that monitors use for it.
-/

namespace Cadena.Services

open Cadena.Base Cadena.WorkItems Cadena.Connectors

/-- Upper case as the runtime and as the database know it. -/
structure UpperCase where
  toUpperCase : Text → Text
  upper : Text → Text

/-- Where letters are those of ASCII. -/
def UpperCase.ascii : UpperCase where
  toUpperCase t := t.map Char.toUpper
  upper t := t.map Char.toUpper

inductive ServiceSource where
  | internal | monitoringDiscovery | cmdb
  deriving DecidableEq

def validSources : List (String × ServiceSource) :=
  [("internal", .internal), ("monitoring_discovery", .monitoringDiscovery), ("cmdb", .cmdb)]

/-- A row of `services`. -/
structure ServiceRecord where
  id : Uuid
  orgId : Uuid
  serviceKey : Text
  name : Text
  description : String
  ownerTeamId : Option Uuid
  environment : Option String
  source : ServiceSource
  externalRef : Option Text
  aliases : List Text
  createdAt : Millis
  updatedAt : Millis
  deriving DecidableEq

def ServiceRecord.uniqueKey (service : ServiceRecord) : Uuid × Text := (service.orgId, service.serviceKey)

/-- The table `services`: ids are distinct, and so are the keys of a tenant. -/
structure ServiceTable where
  rows : List ServiceRecord
  ids : (rows.map (·.id)).Nodup
  keys : (rows.map (·.uniqueKey)).Nodup

def ServiceTable.empty : ServiceTable := ⟨[], List.nodup_nil, List.nodup_nil⟩

/-- An `UPDATE` of columns other than those of the two indexes. -/
def ServiceTable.update (table : ServiceTable) (p : ServiceRecord → Bool) (f : ServiceRecord → ServiceRecord)
    (hid : ∀ s, (f s).id = s.id) (hkey : ∀ s, (f s).uniqueKey = s.uniqueKey) : ServiceTable where
  rows := Table.update p f table.rows
  ids := by
    rw [Table.update_column (fun s : ServiceRecord => s.id) hid]
    exact table.ids
  keys := by
    rw [Table.update_column ServiceRecord.uniqueKey hkey]
    exact table.keys

/-- An `INSERT`, which the indexes may refuse. -/
def ServiceTable.insert (table : ServiceTable) (row : ServiceRecord) : Option ServiceTable :=
  if h : row.id ∉ table.rows.map (·.id) ∧ row.uniqueKey ∉ table.rows.map (·.uniqueKey) then
    some ⟨table.rows ++ [row], by
      rw [List.map_append, List.map_singleton]
      exact List.nodup_append.mpr ⟨table.ids, List.nodup_singleton _, by
        rintro a ha b hb rfl
        exact h.1 (List.mem_singleton.mp hb ▸ ha)⟩, by
      rw [List.map_append, List.map_singleton]
      exact List.nodup_append.mpr ⟨table.keys, List.nodup_singleton _, by
        rintro a ha b hb rfl
        exact h.2 (List.mem_singleton.mp hb ▸ ha)⟩⟩
  else none

/-- `[A-Z0-9]`. -/
def isKeyChar (c : Char) : Bool := ('A' ≤ c && c ≤ 'Z') || ('0' ≤ c && c ≤ '9')

/-- A run of other characters becomes one hyphen; `inRun` says that it has. -/
def hyphenate : Bool → Text → Text
  | _, [] => []
  | inRun, c :: cs =>
    if isKeyChar c then c :: hyphenate false cs
    else if inRun then hyphenate true cs
    else '-' :: hyphenate true cs

/-- `replace(/^-+|-+$/g, '')`. -/
def stripHyphens (t : Text) : Text :=
  ((t.dropWhile (· == '-')).reverse.dropWhile (· == '-')).reverse

def keyPrefix : Text := "SVC-".toList

def normalizeKey (U : UpperCase) (value : Text) : Text :=
  let slug := stripHyphens (hyphenate false (U.toUpperCase (trim value)))
  if slug = [] then []
  else if keyPrefix.isPrefixOf slug then slug
  else keyPrefix ++ slug

/-- Each alias as it comes first, whatever its case; `seen` holds the upper
case of those before. -/
def dedupeAliases (U : UpperCase) : List Text → List Text → List Text
  | _, [] => []
  | seen, value :: values =>
    let trimmed := trim value
    if trimmed = [] ∨ U.toUpperCase trimmed ∈ seen then dedupeAliases U seen values
    else trimmed :: dedupeAliases U (U.toUpperCase trimmed :: seen) values

def normalizeAliases (U : UpperCase) (values : List Text) : List Text := dedupeAliases U [] values

/-! ## `registerService` -/

structure RegisterServiceDto where
  name : Option Text
  serviceKey : Option Text
  description : Option String
  ownerTeamId : Option Uuid
  environment : Option String
  source : Option String
  externalRef : Option Text
  aliases : List Text

inductive InvalidServiceError where
  | nameRequired
  | invalidSource
  | noKey
  | duplicate
  deriving DecidableEq

def InvalidServiceError.message : InvalidServiceError → String
  | .nameRequired => "name is required"
  | .invalidSource => "source must be one of: " ++ String.intercalate ", " (validSources.map Prod.fst)
  | .noKey => "service_key could not be derived; supply an explicit service_key"
  | .duplicate => "duplicate key value violates unique constraint"

/-- What a registration has after its checks. -/
structure Registration where
  name : Text
  serviceKey : Text
  source : Option ServiceSource
  aliases : List Text

/-- `dto.source`, which may be left out or empty. -/
def readSource (source : Option String) : Except InvalidServiceError (Option ServiceSource) :=
  match source.filter (· != "") with
  | none => .ok none
  | some text =>
    match validSources.lookup text with
    | some source => .ok (some source)
    | none => .error .invalidSource

def checkRegistration (U : UpperCase) (dto : RegisterServiceDto) : Except InvalidServiceError Registration := do
  let name := (dto.name.map trim).getD []
  if name = [] then throw .nameRequired
  let source ← readSource dto.source
  let given := (dto.serviceKey.map trim).getD []
  let serviceKey := normalizeKey U (if given = [] then name else given)
  if serviceKey = [] then throw .noKey
  return ⟨name, serviceKey, source, normalizeAliases U (dto.aliases ++ [name, serviceKey])⟩

def findByKey (table : ServiceTable) (orgId : Uuid) (serviceKey : Text) : Option ServiceRecord :=
  table.rows.find? fun s => s.orgId == orgId && s.serviceKey == serviceKey

/-- The `SET` of the update: what the call gives stands, else what was there. -/
def overwrite (U : UpperCase) (existing : ServiceRecord) (dto : RegisterServiceDto) (r : Registration)
    (now : Millis) (row : ServiceRecord) : ServiceRecord :=
  { row with
    name := r.name
    description := dto.description.getD existing.description
    ownerTeamId := dto.ownerTeamId.or row.ownerTeamId
    environment := dto.environment.or row.environment
    source := r.source.getD existing.source
    externalRef := dto.externalRef.or row.externalRef
    aliases := normalizeAliases U (existing.aliases ++ r.aliases)
    updatedAt := now }

def newService (orgId id : Uuid) (now : Millis) (dto : RegisterServiceDto) (r : Registration) :
    ServiceRecord where
  id := id
  orgId := orgId
  serviceKey := r.serviceKey
  name := r.name
  description := dto.description.getD ""
  ownerTeamId := dto.ownerTeamId
  environment := dto.environment.filter (· != "")
  source := r.source.getD .internal
  externalRef := dto.externalRef.filter (· != [])
  aliases := r.aliases
  createdAt := now
  updatedAt := now

/-- `id` is the random id of a new row. -/
def registerService (U : UpperCase) (table : ServiceTable) (orgId : Uuid) (dto : RegisterServiceDto)
    (id : Uuid) (now : Millis) : Except InvalidServiceError ServiceTable := do
  let r ← checkRegistration U dto
  match findByKey table orgId r.serviceKey with
  | some existing =>
    return table.update (·.id == existing.id) (overwrite U existing dto r now) (fun _ => rfl) fun _ => rfl
  | none =>
    match table.insert (newService orgId id now dto r) with
    | some table => return table
    | none => throw .duplicate

/-! ## `resolveService` -/

def ServiceRecord.answersTo (U : UpperCase) (value : Text) (service : ServiceRecord) : Bool :=
  U.upper service.serviceKey == U.upper value || U.upper service.name == U.upper value
    || U.upper (service.externalRef.getD []) == U.upper value
    || service.aliases.any fun a => U.upper a == U.upper value

/-- The values to look for, in their order. -/
def namesOf (candidates : List (Option Text)) : List Text :=
  (candidates.filterMap id).map trim |>.filter (· != [])

/-- The first candidate that a service answers to; which of several services is
the choice of the database. -/
def resolveService (U : UpperCase) (table : ServiceTable) (orgId : Uuid) (pick : Nat)
    (candidates : List (Option Text)) : Option ServiceRecord :=
  (namesOf candidates).findSome? fun value =>
    limitOne pick (table.rows.filter fun s => s.orgId == orgId && s.answersTo U value)

end Cadena.Services
