import Cadena.Connectors.Types

/-!
# Field mappings

The published field-mapping definitions and the names they write
(`FieldMappingService.writtenFieldNames`).
-/

namespace Cadena.Connectors

open Cadena.Base

inductive FieldMappingDirection where
  | sourceToTarget | targetToSource
  deriving DecidableEq

inductive FieldMappingStatus where
  | draft | published | superseded
  deriving DecidableEq

structure FieldMappingEndpoint where
  system : String
  entityType : String
  deriving DecidableEq

/-- `when … equals …, then …`. -/
structure ConditionalCase where
  field : String
  equals : String
  result : Json

inductive FieldMappingTransform where
  | direct
  | constant (value : Json)
  | valueTable (table : Fields) (defaultValue : Option Json)
  | conditional (cases : List ConditionalCase) (elseValue : Option Json)
  | script (code : String)

structure FieldMappingRule where
  direction : FieldMappingDirection
  sourceField : String
  targetField : String
  transform : FieldMappingTransform

/-- A row of `integration_field_mapping_definitions`. -/
structure FieldMappingDefinition where
  orgId : Uuid
  source : FieldMappingEndpoint
  target : FieldMappingEndpoint
  version : Nat
  status : FieldMappingStatus
  rules : List FieldMappingRule

/-- `path.split('.')[0]`. -/
def topLevel (path : String) : String := (segmentsOf path).headD ""

def writesHere (mapping : FieldMappingDefinition) (endpoint : FieldMappingEndpoint)
    (rule : FieldMappingRule) : Bool :=
  (rule.direction = .sourceToTarget && mapping.target = endpoint)
    || (rule.direction = .targetToSource && mapping.source = endpoint)

/-- `names.add(name)`. -/
def addName (names : List String) (name : String) : List String :=
  if name ∈ names then names else names ++ [name]

/-- The names that the published mappings of an endpoint could write to it. -/
def writtenFieldNames (mappings : List FieldMappingDefinition) (orgId : Uuid)
    (endpoint : FieldMappingEndpoint) : List String :=
  let published := mappings.filter fun m =>
    m.orgId = orgId && m.status = .published && (m.source = endpoint || m.target = endpoint)
  (published.flatMap fun m =>
    (m.rules.filter (writesHere m endpoint)).map fun rule => topLevel rule.targetField).foldl
      addName []

theorem mem_foldl_addName (xs names : List String) (x : String) :
    x ∈ xs.foldl addName names ↔ x ∈ names ∨ x ∈ xs := by
  induction xs generalizing names with
  | nil => simp
  | cons y ys ih =>
    rw [List.foldl_cons, ih]
    unfold addName
    split
    · rename_i hy
      rw [List.mem_cons]
      constructor
      · rintro (hx | hx)
        · exact .inl hx
        · exact .inr (.inr hx)
      · rintro (hx | rfl | hx)
        · exact .inl hx
        · exact .inl hy
        · exact .inr hx
    · simp [or_assoc]

theorem mem_writtenFieldNames {mappings : List FieldMappingDefinition} {orgId : Uuid}
    {endpoint : FieldMappingEndpoint} {name : String} :
    name ∈ writtenFieldNames mappings orgId endpoint ↔
      ∃ m ∈ mappings, m.orgId = orgId ∧ m.status = .published ∧
        ∃ rule ∈ m.rules, writesHere m endpoint rule = true ∧
          topLevel rule.targetField = name := by
  simp only [writtenFieldNames, mem_foldl_addName, List.not_mem_nil, false_or,
    List.mem_flatMap, List.mem_filter, List.mem_map, Bool.and_eq_true, Bool.or_eq_true,
    decide_eq_true_eq]
  constructor
  · rintro ⟨m, ⟨hm, ⟨horg, hpub⟩, -⟩, rule, ⟨hrule, hw⟩, htop⟩
    exact ⟨m, hm, horg, hpub, rule, hrule, hw, htop⟩
  · rintro ⟨m, hm, horg, hpub, rule, hrule, hw, htop⟩
    refine ⟨m, ⟨hm, ⟨horg, hpub⟩, ?_⟩, rule, ⟨hrule, hw⟩, htop⟩
    simp only [writesHere, Bool.or_eq_true, Bool.and_eq_true, decide_eq_true_eq] at hw
    rcases hw with ⟨-, h⟩ | ⟨-, h⟩
    · exact .inr h
    · exact .inl h

end Cadena.Connectors
