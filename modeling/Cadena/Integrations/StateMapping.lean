import Cadena.Integrations.SyncGuard

/-!
# State mappings

`StateMappingService.evaluate`: a published mapping decides which state of the
target a state of the source becomes, or that an operator has to look at it.
The published mapping is an argument, as the query returns it, and so is the
comparison of states, which follows the locale.
-/

namespace Cadena.Integrations

open Cadena.Base Cadena.Connectors

inductive StateMappingDirection where
  | sourceToTarget | targetToSource
  deriving DecidableEq

structure StateMappingEndpoint where
  system : String
  entityType : String
  deriving DecidableEq

structure StateMappingRule where
  direction : StateMappingDirection
  fromState : String
  toState : String
  requiredTargetFields : List String
  allowedTargetFromStates : List String

structure StateMappingDefinition where
  name : String
  source : StateMappingEndpoint
  target : StateMappingEndpoint
  version : Nat
  rules : List StateMappingRule

inductive StateTranslationReason where
  | mapped | mappingNotFound | unmappedState | missingRequiredFields | invalidTargetTransition
  deriving DecidableEq

def StateTranslationReason.text : StateTranslationReason → String
  | mapped => "mapped"
  | mappingNotFound => "mapping_not_found"
  | unmappedState => "unmapped_state"
  | missingRequiredFields => "missing_required_fields"
  | invalidTargetTransition => "invalid_target_transition"

/-- What an evaluation decides; the status is `ready` for the reason `mapped`
and `held` for every other. -/
structure Evaluation where
  rule : Option StateMappingRule
  reason : StateTranslationReason
  message : String
  mappedTargetState : Option String
  missingTargetFields : List String

def Evaluation.ready (e : Evaluation) : Bool := e.reason == .mapped

/-- `requiredText`. -/
def stateText (value field : String) (maxLength : Nat) : Except String String :=
  let normalized := trimString value
  if normalized = "" then .error (field ++ " is required")
  else if jsLength normalized > maxLength then
    .error (field ++ " must be " ++ toString maxLength ++ " characters or fewer")
  else .ok normalized

/-- The value of own properties along a path of objects. -/
def ownValue (value : Json) : List String → Option Json
  | [] => some value
  | s :: ss =>
    match value with
    | .obj entries => (lookup entries s).bind (ownValue · ss)
    | _ => none

def hasValue (fields : Fields) (path : String) : Bool :=
  match ownValue (.obj fields) (segmentsOf path) with
  | none | some .null => false
  | some (.str s) => trimString s ≠ ""
  | some _ => true

def sameEndpoint (endpoint : StateMappingEndpoint) (identity : SyncIdentity) : Bool :=
  endpoint.system = identity.system && endpoint.entityType = identity.entityType

def StateMappingDefinition.directionFor (mapping : StateMappingDefinition) (source target : SyncIdentity) :
    Except String StateMappingDirection :=
  if sameEndpoint mapping.source source && sameEndpoint mapping.target target then .ok .sourceToTarget
  else if sameEndpoint mapping.target source && sameEndpoint mapping.source target then .ok .targetToSource
  else .error "Published mapping does not match the correlated record direction"

/-- `list.join(', ')`. -/
def commaList (values : List String) : String := String.intercalate ", " values

def mappingText (mapping : StateMappingDefinition) : String :=
  mapping.name ++ " v" ++ toString mapping.version

def directionText : StateMappingDirection → String
  | .sourceToTarget => "source_to_target"
  | .targetToSource => "target_to_source"

def evaluate (sameText : String → String → Bool) (published : Option StateMappingDefinition)
    (source target : SyncIdentity) (sourceState : String) (currentTargetState : Option String)
    (targetFields : Fields) : Except String Evaluation := do
  let some mapping := published
    | return ⟨none, .mappingNotFound, "No published state mapping exists for " ++ source.system ++ "/"
        ++ source.entityType ++ " → " ++ target.system ++ "/" ++ target.entityType, none, []⟩
  let direction ← mapping.directionFor source target
  let some rule := mapping.rules.find? fun r => r.direction = direction && sameText r.fromState sourceState
    | return ⟨none, .unmappedState, "State '" ++ sourceState ++ "' has no " ++ directionText direction
        ++ " rule in mapping " ++ mappingText mapping, none, []⟩
  let missing := rule.requiredTargetFields.filter fun path => !hasValue targetFields path
  if !missing.isEmpty then
    return ⟨some rule, .missingRequiredFields, "Required target fields are missing: " ++ commaList missing,
      some rule.toState, missing⟩
  let allowed := match currentTargetState with
    | some current => rule.allowedTargetFromStates.any (sameText · current)
    | none => false
  if !rule.allowedTargetFromStates.isEmpty && !allowed then
    let actual := match currentTargetState with
      | some current => "'" ++ current ++ "'"
      | none => "an unknown state"
    return ⟨some rule, .invalidTargetTransition, "Target is in " ++ actual ++ "; '" ++ rule.toState
      ++ "' is allowed only from " ++ commaList rule.allowedTargetFromStates, some rule.toState, []⟩
  return ⟨some rule, .mapped, "Map '" ++ sourceState ++ "' to '" ++ rule.toState ++ "' using "
    ++ mappingText mapping, some rule.toState, []⟩

/-- `translate`, after the identities have been found and their link: the
states are trimmed and bounded first. -/
def translateState (sameText : String → String → Bool) (published : Option StateMappingDefinition)
    (source target : SyncIdentity) (sourceState : String) (currentTargetState : Option String)
    (targetFields : Fields) : Except String Evaluation := do
  let sourceState ← stateText sourceState "source_state" 160
  let current ← match currentTargetState with
    | none => pure none
    | some state => some <$> stateText state "current_target_state" 160
  evaluate sameText published source target sourceState current targetFields

end Cadena.Integrations
