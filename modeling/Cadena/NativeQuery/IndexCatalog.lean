import Cadena.NativeQuery.Validation

/-!
# Index catalogs

The two catalogs a query is checked against, built from the discovered
schema and the operator's declarations. Both look a reference up in lower
case (`buildQueryIndexCatalog_ignoresCase`), which is what lets
`indexProblems` pass over a reference it has seen in another case.
-/

namespace Cadena.NativeQuery

open Cadena.Base

/-- What a catalog reads of a discovered field. -/
structure ConnectorFieldSchema where
  id : String
  name : String
  custom : Bool := false
  indexed : Option Bool := none
  clauseNames : List String := []
  reference : Bool := false

def JQL_INDEXED_PSEUDO_CLAUSES : List String :=
  ["text", "filter", "savedfilter", "request", "searchrequest"]

def SERVICENOW_PLATFORM_INDEXED : List String :=
  ["sys_id", "number", "sys_class_name", "sys_created_on", "sys_updated_on"]

/-- `cf[N]` for a field `customfield_N`. -/
def customReference (id : String) : Option String :=
  let digits := id.toList.drop "customfield_".length
  if "customfield_".toList.isPrefixOf id.toList ∧ digits ≠ [] ∧ digits.all Char.isDigit then
    let number := String.ofList digits
    some s!"cf[{number}]"
  else none

def fieldReferences (field : ConnectorFieldSchema) : List String :=
  [field.id, field.name] ++ field.clauseNames ++ (customReference field.id).toList

abbrev ReferenceMap : Type := String → Option ConnectorFieldSchema

/-- System clause names win over a custom field of the same display name. -/
def addReference (platform : Platform) (field : ConnectorFieldSchema) (map : ReferenceMap)
    (reference : String) : ReferenceMap :=
  let key := platform.toLowerCase reference
  if (map key).isNone || !field.custom then Function.update map key (some field) else map

def byReference (platform : Platform) (fields : List ConnectorFieldSchema) : ReferenceMap :=
  fields.foldl (fun map field => (fieldReferences field).foldl (addReference platform field) map)
    fun _ => none

/-- `declared` is what `declaredFor` returns, in lower case. -/
def jiraCatalog (platform : Platform) (entityType : String) (fields : List ConnectorFieldSchema)
    (declared : List String) : QueryIndexCatalog where
  provider := "jira"
  entityType := entityType
  unavailable :=
    if fields.any (·.indexed.isSome) then none
    else some "The discovered Jira schema predates index checks; run discovery again so field searchability is recorded."
  lookup reference :=
    let key := platform.toLowerCase reference
    if key ∈ JQL_INDEXED_PSEUDO_CLAUSES then some ⟨key, true, none⟩
    else match byReference platform fields key with
      | none => if key ∈ declared then some ⟨reference, true, none⟩ else none
      | some field =>
        if field.indexed = some true then some ⟨field.id, true, none⟩
        else if platform.toLowerCase field.id ∈ declared then some ⟨field.id, true, none⟩
        else some ⟨field.id, false, some "Jira reports it as not searchable"⟩
  indexedFields := (fields.filter fun field => field.indexed = some true).map (·.id)

/-- A later field replaces an earlier one of the same id. -/
def byId (platform : Platform) (fields : List ConnectorFieldSchema) (key : String) :
    Option ConnectorFieldSchema :=
  fields.reverse.find? fun field => platform.toLowerCase field.id == key

def serviceNowCatalog (platform : Platform) (entityType : String)
    (fields : List ConnectorFieldSchema) (declared : List String) : QueryIndexCatalog where
  provider := "servicenow"
  entityType := entityType
  unavailable := none
  lookup reference :=
    let key := platform.toLowerCase reference
    if key ∈ declared then some ⟨key, true, none⟩
    else if '.' ∈ key.toList then
      -- a dot-walk filters on a column of the joined table
      (byId platform fields (String.ofList (key.toList.takeWhile (· ≠ '.')))).map fun _ =>
        ⟨key, false,
          some "a dot-walked condition filters the joined table on a column this table cannot index"⟩
    else
      let field := byId platform fields key
      if key ∈ SERVICENOW_PLATFORM_INDEXED ∨ field.any (·.reference) then some ⟨key, true, none⟩
      else field.map fun field =>
        ⟨field.id, false,
          some "it is neither a reference column nor a platform-indexed column"⟩
  indexedFields :=
    ((SERVICENOW_PLATFORM_INDEXED ++ (fields.filter (·.reference)).map (·.id)
      ++ declared).reverse.dedup.reverse).insertionSort fun a b => keyLe a b = true

def undiscoveredCatalog (provider entityType : String) : QueryIndexCatalog where
  provider := provider
  entityType := entityType
  unavailable := some
    s!"No discovered schema for {entityType}; discover the connector before configuring a query on it."
  lookup _ := none
  indexedFields := []

/-- `fields` are those of the discovered entity, if there is one. -/
def buildQueryIndexCatalog (platform : Platform) (provider entityType : String)
    (fields : Option (List ConnectorFieldSchema)) (declared : List String) : QueryIndexCatalog :=
  match fields with
  | none => undiscoveredCatalog provider entityType
  | some fields =>
    if provider = "jira" then jiraCatalog platform entityType fields declared
    else serviceNowCatalog platform entityType fields declared

/-- The catalog reports the field as indexed. -/
def IndexedAt (catalog : QueryIndexCatalog) (reference : String) : Prop :=
  ∃ hit, catalog.lookup reference = some hit ∧ hit.indexed = true

/-- The catalog's answer does not depend on the case of the reference. -/
def IgnoresCase (platform : Platform) (catalog : QueryIndexCatalog) : Prop :=
  ∀ a b, platform.toLowerCase a = platform.toLowerCase b → IndexedAt catalog a → IndexedAt catalog b

theorem jiraCatalog_ignoresCase (platform : Platform) (entityType : String)
    (fields : List ConnectorFieldSchema) (declared : List String) :
    IgnoresCase platform (jiraCatalog platform entityType fields declared) := by
  rintro a b hkey ⟨hit, hlookup, hindexed⟩
  simp only [jiraCatalog] at hlookup
  simp only [IndexedAt, jiraCatalog, ← hkey]
  split at hlookup
  case isTrue hpseudo => exact ⟨_, if_pos hpseudo, rfl⟩
  case isFalse hpseudo =>
    rw [if_neg hpseudo]
    cases hfield : byReference platform fields (platform.toLowerCase a) with
    | none =>
      simp only [hfield] at hlookup ⊢
      split at hlookup
      case isTrue hdeclared => exact ⟨_, if_pos hdeclared, rfl⟩
      case isFalse => cases hlookup
    | some field =>
      simp only [hfield] at hlookup ⊢
      exact ⟨hit, hlookup, hindexed⟩

theorem serviceNowCatalog_ignoresCase (platform : Platform) (entityType : String)
    (fields : List ConnectorFieldSchema) (declared : List String) :
    IgnoresCase platform (serviceNowCatalog platform entityType fields declared) := by
  rintro a b hkey ⟨hit, hlookup, hindexed⟩
  simp only [serviceNowCatalog] at hlookup
  simp only [IndexedAt, serviceNowCatalog, ← hkey]
  exact ⟨hit, hlookup, hindexed⟩

theorem buildQueryIndexCatalog_ignoresCase (platform : Platform) (provider entityType : String)
    (fields : Option (List ConnectorFieldSchema)) (declared : List String) :
    IgnoresCase platform (buildQueryIndexCatalog platform provider entityType fields declared) := by
  cases fields with
  | none =>
    rintro a b - ⟨hit, hlookup, -⟩
    cases hlookup
  | some fields =>
    rw [buildQueryIndexCatalog]
    split
    case isTrue => exact jiraCatalog_ignoresCase platform entityType fields declared
    case isFalse => exact serviceNowCatalog_ignoresCase platform entityType fields declared

theorem indexProblemsFrom_nil {platform : Platform} {catalog : QueryIndexCatalog}
    {references seen : List String}
    (h : indexProblemsFrom platform catalog seen references = []) :
    ∀ r ∈ references, platform.toLowerCase r ∈ seen ∨
      ∃ s ∈ references, platform.toLowerCase s = platform.toLowerCase r ∧ IndexedAt catalog s := by
  induction references generalizing seen with
  | nil => simp
  | cons reference rest ih =>
    rw [indexProblemsFrom] at h
    intro r hr
    split at h
    case isTrue hseen =>
      rcases List.mem_cons.mp hr with rfl | hr
      · exact Or.inl hseen
      · rcases ih h r hr with hkey | ⟨s, hs, hkey, hindexed⟩
        · exact Or.inl hkey
        · exact Or.inr ⟨s, List.mem_cons_of_mem _ hs, hkey, hindexed⟩
    case isFalse =>
      cases hlookup : catalog.lookup reference with
      | none =>
        rw [hlookup] at h
        cases h
      | some hit =>
        simp only [hlookup] at h
        split at h
        case isFalse => cases h
        case isTrue hindexed =>
          have hself : IndexedAt catalog reference := ⟨hit, hlookup, hindexed⟩
          rcases List.mem_cons.mp hr with rfl | hr
          · exact Or.inr ⟨r, List.mem_cons_self, rfl, hself⟩
          · rcases ih h r hr with hkey | ⟨s, hs, hkey, hindexed⟩
            · rcases List.mem_cons.mp hkey with hkey | hkey
              · exact Or.inr ⟨reference, List.mem_cons_self, hkey.symm, hself⟩
              · exact Or.inl hkey
            · exact Or.inr ⟨s, List.mem_cons_of_mem _ hs, hkey, hindexed⟩

theorem indexed_of_indexProblems {platform : Platform} {catalog : QueryIndexCatalog}
    {references : List String} (h : indexProblems platform references (some catalog) = []) :
    ∀ r ∈ references,
      ∃ s ∈ references, platform.toLowerCase s = platform.toLowerCase r ∧ IndexedAt catalog s := by
  have hfrom : indexProblemsFrom platform catalog [] references = [] := by
    rw [indexProblems] at h
    split at h
    case h_1 =>
      split at h
      case isTrue => cases h
      case isFalse => exact h
    case h_2 => exact h
  intro r hr
  rcases indexProblemsFrom_nil hfrom r hr with hseen | hother
  · cases hseen
  · exact hother

end Cadena.NativeQuery
