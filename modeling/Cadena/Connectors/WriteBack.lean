import Cadena.Connectors.EffectiveStatus
import Cadena.Connectors.OperatorPause

/-!
# Editing a twin

`routeTwinEdit` turns an operator's edit of a field that a provider owns into a
work order. Whether the field may be edited, and to which values, is read off
the connector's write-back policy and its discovered schema. The order carries
the value; nothing of the policy goes with it.
-/

namespace Cadena.Connectors.WriteBack

open Cadena.Base Cadena.Audit Cadena.Connectors.Target
open Cadena.Connectors.Admin (ConnectorStatus)

/-! ## The connector -/

structure ConnectorWriteBackPolicy where
  state : Bool
  fields : List String
  deriving DecidableEq

/-- A field of a discovered entity; no allowed values is as an empty list. -/
structure ConnectorFieldSchema where
  id : String
  name : String
  allowedValues : List String

structure ConnectorEntitySchema where
  entityType : String
  fields : List ConnectorFieldSchema

inductive ConnectorCapability where
  | connectionTest | scopeDiscovery | fieldDiscovery | customFieldDiscovery | stateDiscovery
  | incrementalQuery | stateWrite | commentRead | commentWrite
  deriving DecidableEq

structure ConnectorDiscoveryResult where
  entities : List ConnectorEntitySchema
  supportedCapabilities : List ConnectorCapability

def statusText : ConnectorStatus → String
  | .unconfigured => "unconfigured"
  | .connected => "connected"
  | .discovering => "discovering"
  | .discovered => "discovered"
  | .active => "active"
  | .degraded => "degraded"
  | .error => "error"
  | .paused => "paused"

/-- The columns of `integration_connectors` that an edit is judged by. -/
structure GovernedConnector where
  id : Uuid
  orgId : Uuid
  provider : String
  name : String
  status : ConnectorStatus
  activated : Bool
  discoveryMetadata : Option ConnectorDiscoveryResult
  writeBack : ConnectorWriteBackPolicy

def providerName (provider : String) : String :=
  if provider = "jira" then "Jira" else if provider = "servicenow" then "ServiceNow" else provider

/-- The provider's own name of the lifecycle field. -/
def nativeState (provider : String) : String := if provider = "servicenow" then "state" else "status"

def schemaOf (connector : GovernedConnector) (entityType fieldId : String) : Option ConnectorFieldSchema :=
  ((connector.discoveryMetadata.bind fun discovery =>
    discovery.entities.find? (·.entityType = entityType)).bind fun entity =>
      entity.fields.find? (·.id = fieldId))

/-- The allowed values of a field, if any were discovered. -/
def allowedValuesOf (connector : GovernedConnector) (entityType fieldId : String) : Option (List String) :=
  match schemaOf connector entityType fieldId with
  | some schema => if schema.allowedValues = [] then none else some schema.allowedValues
  | none => none

def available (connector : GovernedConnector) : Bool :=
  connector.activated && (connector.status = .active || connector.status = .degraded)

def canWrite (connector : GovernedConnector) : Bool :=
  match connector.discoveryMetadata with
  | some discovery => discovery.supportedCapabilities.contains .stateWrite
  | none => false

/-! ## `validateWriteBack` -/

def stringList : Option Json → List String
  | some (.arr elems) =>
    ((elems.filterMap fun
      | .str s => some (trimString s)
      | _ => none).filter (· ≠ "")).eraseDups
  | _ => []

/-- The policy that an input means, or the message it is refused with. -/
def validateWriteBack : Option Json → Except String ConnectorWriteBackPolicy
  | none | some .null => .ok ⟨false, []⟩
  | some (.obj entries) =>
    match (entries.map (·.1)).filter fun key => key ≠ "state" && key ≠ "fields" with
    | [] =>
      match lookup entries "state" with
      | none => .ok ⟨false, stringList (lookup entries "fields")⟩
      | some (.bool state) => .ok ⟨state, stringList (lookup entries "fields")⟩
      | some _ => .error "writeBack.state must be true or false"
    | unknown =>
      .error ("writeBack supports only 'state' and 'fields'; no outbound mapping exists for " ++
        ", ".intercalate unknown)
  | some _ => .error "writeBack must be an object"

/-! ## `fieldPolicies` -/

inductive TwinFieldEditReason where
  | writeBackEnabled | noOutboundMapping | writeBackDisabled | connectorUnavailable | capabilityMissing
  | stateValuesUnknown
  deriving DecidableEq

structure TwinFieldPolicy where
  field : String
  nativeField : String
  label : String
  value : Option Json
  authority : String
  editable : Bool
  reason : TwinFieldEditReason
  message : String
  allowedValues : Option (List String)

def writtenThroughOrder (provider : String) : String :=
  "Changes are written to " ++ provider ++ " through an audited connector work order."

/-- Why the state may or may not be changed, the first reason that applies. -/
def stateReason (twin : CanonicalTwin) (connector : GovernedConnector) : TwinFieldEditReason × String :=
  let provider := providerName twin.provider
  if !connector.writeBack.state then
    (.writeBackDisabled, provider ++ " owns this state. State write-back is disabled for " ++ connector.name ++
      "; change it in " ++ provider ++ " or ask an administrator to enable write-back.")
  else if !canWrite connector then
    (.capabilityMissing, connector.name ++ " cannot write states back to " ++ provider ++ ".")
  else if allowedValuesOf connector twin.artifactType (nativeState twin.provider) = none then
    (.stateValuesUnknown, "No " ++ provider ++ " state values were discovered for " ++ twin.artifactType ++
      "; run discovery before editing.")
  else if !available connector then
    (.connectorUnavailable, connector.name ++ " is " ++ statusText connector.status ++
      "; state changes are refused until it is active.")
  else (.writeBackEnabled, writtenThroughOrder provider)

/-- Why a field that the policy lists may or may not be changed. -/
def fieldReason (twin : CanonicalTwin) (connector : GovernedConnector) : TwinFieldEditReason × String :=
  let provider := providerName twin.provider
  if !canWrite connector then
    (.capabilityMissing, connector.name ++ " cannot write fields back to " ++ provider ++ ".")
  else if !available connector then
    (.connectorUnavailable, connector.name ++ " is " ++ statusText connector.status ++
      "; field changes are refused until it is active.")
  else (.writeBackEnabled, writtenThroughOrder provider)

def authorityText : Json → String
  | .str s => s
  | _ => ""

def statePolicy (twin : CanonicalTwin) (connector : GovernedConnector) : TwinFieldPolicy where
  field := "state"
  nativeField := nativeState twin.provider
  label := "State"
  value := twin.nativeStatus.map .str
  authority := orText ((lookup twin.fieldAuthority (nativeState twin.provider)).map authorityText) twin.provider
  editable := (stateReason twin connector).1 = .writeBackEnabled
  reason := (stateReason twin connector).1
  message := (stateReason twin connector).2
  allowedValues := allowedValuesOf connector twin.artifactType (nativeState twin.provider)

def fieldPolicy (twin : CanonicalTwin) (connector : GovernedConnector) (fieldId : String) (authority : Json) :
    TwinFieldPolicy :=
  let label := orText ((schemaOf connector twin.artifactType fieldId).map (·.name)) fieldId
  let value := some ((lookup twin.payload fieldId).getD .null)
  if connector.writeBack.fields.contains fieldId then
    { field := fieldId, nativeField := fieldId, label := label, value := value
      authority := authorityText authority
      editable := (fieldReason twin connector).1 = .writeBackEnabled
      reason := (fieldReason twin connector).1
      message := (fieldReason twin connector).2
      allowedValues := allowedValuesOf connector twin.artifactType fieldId }
  else
    { field := fieldId, nativeField := fieldId, label := label, value := value
      authority := authorityText authority
      editable := false
      reason := .noOutboundMapping
      message := providerName (authorityText authority) ++ " owns " ++ label ++
        ". Cadena has no outbound mapping for it; change it in " ++ providerName (authorityText authority) ++ "."
      allowedValues := none }

def fieldPolicies (twin : CanonicalTwin) (connector : GovernedConnector) : List TwinFieldPolicy :=
  statePolicy twin connector ::
    (twin.fieldAuthority.filter fun e => e.1 ≠ nativeState twin.provider).map fun e =>
      fieldPolicy twin connector e.1 e.2

/-! ## `routeTwinEdit` -/

/-- What a request comes to before anything is written. -/
inductive EditDecision where
  | badRequest (message : String)
  | blocked (policy : TwinFieldPolicy)
  | invalidValue (field message : String)
  | noop (field value message : String)
  | routed (field : String) (before : Option Json) (after : String) (order : NewWorkOrder)

/-- A property that has to be a string, trimmed; empty for any other value. -/
def inputText : Option Json → String
  | some (.str s) => trimString s
  | _ => ""

def unmappedPolicy (twin : CanonicalTwin) (requested : String) : TwinFieldPolicy where
  field := requested
  nativeField := requested
  label := requested
  value := none
  authority := twin.provider
  editable := false
  reason := .noOutboundMapping
  message := providerName twin.provider ++ " owns '" ++ requested ++
    "'. Cadena has no outbound mapping for it; change it in " ++ providerName twin.provider ++ "."
  allowedValues := none

def policyFor (twin : CanonicalTwin) (connector : GovernedConnector) (requested : String) : TwinFieldPolicy :=
  ((fieldPolicies twin connector).find? fun candidate =>
    candidate.field = requested || candidate.nativeField = requested ||
      (requested = "status" && candidate.field = "state")).getD (unmappedPolicy twin requested)

section
variable (P : Platform)

/-- An enumerated field takes one of its values, a free one the text. -/
def acceptedValue (policy : TwinFieldPolicy) (requestedValue : String) : Option String :=
  match policy.allowedValues with
  | some values =>
    (values.find? fun candidate => sameState P (some candidate) (some requestedValue)).filter (· ≠ "")
  | none => some requestedValue

/-- The row that is inserted for a permitted change. -/
def editOrder (twin : CanonicalTwin) (policy : TwinFieldPolicy) (value : String) (workOrderId : Uuid) :
    NewWorkOrder :=
  let isState := policy.field = "state"
  { id := workOrderId
    orgId := twin.orgId
    origin := .operatorEdit
    sourceEventId := none
    sourcePayload := [("title", .str (orText twin.title "")),
      ("fields", .obj (if isState then twin.payload else setKey twin.payload policy.nativeField (.str value)))]
    sourceConnectorId := none
    targetConnectorId := twin.connectorId
    targetTwinId := twin.id
    targetEntityType := twin.artifactType
    targetExternalId := twin.externalId
    targetState := if isState then some value else none
    fields := if isState then [] else [(policy.nativeField, .str value)] }

def isCurrent (twin : CanonicalTwin) (policy : TwinFieldPolicy) (value : String) : Bool :=
  if policy.field = "state" then sameState P twin.nativeStatus (some value)
  else stableStringify ((lookup twin.payload policy.nativeField).getD .null) = stableStringify (.str value)

def routeTwinEdit (twin : CanonicalTwin) (connector : GovernedConnector) (field value : Option Json)
    (workOrderId : Uuid) : EditDecision :=
  let requested := inputText field
  let requestedValue := inputText value
  if requested = "" then .badRequest "field is required"
  else if requestedValue = "" then .badRequest "value must be a non-empty string"
  else
    let policy := policyFor twin connector requested
    if !policy.editable then .blocked policy
    else
      match acceptedValue P policy requestedValue with
      | none =>
        .invalidValue policy.field ("'" ++ requestedValue ++ "' is not a " ++ providerName twin.provider ++ " " ++
          P.toLowerCase policy.label ++ ". Allowed: " ++ ", ".intercalate (policy.allowedValues.getD []))
      | some value =>
        if isCurrent P twin policy value then
          .noop policy.field value (orText twin.nativeKey twin.externalId ++ " already has " ++ policy.label ++
            " = " ++ value)
        else
          .routed policy.field
            (if policy.field = "state" then twin.nativeStatus.map .str
              else some ((lookup twin.payload policy.nativeField).getD .null))
            value (editOrder twin policy value workOrderId)

end

/-! ## `reinjectTwinDeadLetter` -/

/-- What is put into the queue for an order that was dead or held. -/
structure ReinjectedOrder where
  sourcePayload : Fields
  targetState : String
  fields : Fields

def reinjectedState (entry : WorkOrder) (payload : Option Fields) : String :=
  match payload.bind (lookup · "targetState") with
  | none => orText entry.targetState ""
  | some value => trimString (String.ofList (jsText value))

def reinjectedFields (entry : WorkOrder) (payload : Option Fields) : Option Fields :=
  match payload.bind (lookup · "fields") with
  | none => some entry.fields
  | some value => value.entries?

/-- Only a propagated order keeps a source payload, whose identity may not
change. -/
def reinjectedSource (entry : WorkOrder) (payload : Option Fields) : Except String Fields :=
  if entry.origin = .statePropagation then
    match payload.bind (lookup · "sourcePayload") with
    | none => .ok entry.sourcePayload
    | some (.obj sourcePayload) =>
      let identity (source : Fields) := (lookup source "identity").map stableStringify
      if flagAt entry.sourcePayload "identity" && identity entry.sourcePayload ≠ identity sourcePayload then
        .error "a corrected payload cannot change its immutable source identity"
      else .ok sourcePayload
    | some _ => .error "payload.sourcePayload must be a JSON object"
  else .ok []

def reinjected (entry : WorkOrder) (payload : Option Fields) : Except String ReinjectedOrder := do
  let targetState := reinjectedState entry payload
  if targetState = "" then .error "payload.targetState must be a non-empty string"
  else
    match reinjectedFields entry payload with
    | none => .error "payload.fields must be a JSON object"
    | some fields =>
      let sourcePayload ← reinjectedSource entry payload
      return ⟨sourcePayload, targetState, fields⟩

/-- The policy lets the state be written, and the value is one of the field's. -/
def permitsState (connector : GovernedConnector) (entityType : String) : Option String → Bool
  | none => true
  | some state =>
    connector.writeBack.state &&
      match allowedValuesOf connector entityType (nativeState connector.provider) with
      | some values => values.contains state
      | none => false

def permitsField (connector : GovernedConnector) (entityType : String) (e : String × Json) : Bool :=
  connector.writeBack.fields.contains e.1 &&
    match allowedValuesOf connector entityType e.1, e.2 with
    | none, _ => true
    | some values, .str value => values.contains value
    | some _, _ => false

/-- The configuration lets this be written to a record. -/
def permits (connector : GovernedConnector) (entityType : String) (targetState : Option String)
    (fields : Fields) : Bool :=
  permitsState connector entityType targetState && fields.all (permitsField connector entityType)

/-! ## A routed edit is permitted -/

section
variable {P : Platform} {twin : CanonicalTwin} {connector : GovernedConnector}

theorem statePolicy_editable (h : (statePolicy twin connector).editable = true) :
    connector.writeBack.state = true ∧
      ∃ values, allowedValuesOf connector twin.artifactType (nativeState twin.provider) = some values := by
  have henabled : (stateReason twin connector).1 = .writeBackEnabled := of_decide_eq_true h
  simp only [stateReason] at henabled
  split at henabled
  · cases henabled
  · rename_i hstate
    split at henabled
    · cases henabled
    · split at henabled
      · cases henabled
      · rename_i hvalues
        exact ⟨by simpa using hstate, Option.ne_none_iff_exists'.mp hvalues⟩

theorem fieldPolicy_editable {fieldId : String} {authority : Json}
    (h : (fieldPolicy twin connector fieldId authority).editable = true) :
    connector.writeBack.fields.contains fieldId = true ∧
      (fieldPolicy twin connector fieldId authority).allowedValues =
        allowedValuesOf connector twin.artifactType fieldId := by
  simp only [fieldPolicy] at h ⊢
  split at h
  · rename_i hlisted
    rw [if_pos hlisted]
    exact ⟨hlisted, rfl⟩
  · cases h

theorem fieldPolicy_field (twin : CanonicalTwin) (connector : GovernedConnector) (fieldId : String)
    (authority : Json) :
    (fieldPolicy twin connector fieldId authority).field = fieldId ∧
      (fieldPolicy twin connector fieldId authority).nativeField = fieldId := by
  unfold fieldPolicy
  split <;> exact ⟨rfl, rfl⟩

/-- An editable policy is that of the state or of a field that is not called
`state`: a request for `state` finds the policy of the state first. -/
theorem policyFor_cases {requested : String} (h : (policyFor twin connector requested).editable = true) :
    policyFor twin connector requested = statePolicy twin connector ∨
      ∃ fieldId authority, fieldId ≠ "state" ∧
        policyFor twin connector requested = fieldPolicy twin connector fieldId authority := by
  unfold policyFor fieldPolicies at h ⊢
  rw [List.find?_cons] at h ⊢
  split at h
  · exact .inl rfl
  · rename_i hstate
    have hname : (statePolicy twin connector).field = "state" := rfl
    simp only [hname, Bool.or_eq_false_iff, decide_eq_false_iff_not, decide_true, Bool.and_true] at hstate
    cases hfind : List.find? (fun candidate : TwinFieldPolicy => candidate.field = requested ||
        candidate.nativeField = requested || (requested = "status" && candidate.field = "state"))
        ((twin.fieldAuthority.filter fun e => e.1 ≠ nativeState twin.provider).map fun e =>
          fieldPolicy twin connector e.1 e.2) with
    | none =>
      rw [hfind] at h
      cases h
    | some policy =>
      refine .inr ?_
      obtain ⟨e, -, rfl⟩ := List.mem_map.mp (List.mem_of_find?_eq_some hfind)
      have hmatches := List.find?_some hfind
      obtain ⟨hfield, hnative⟩ := fieldPolicy_field twin connector e.1 e.2
      rw [hfield, hnative] at hmatches
      simp only [hstate.2, decide_false, Bool.false_and, Bool.or_false, Bool.or_self, decide_eq_true_eq] at hmatches
      exact ⟨e.1, e.2, fun he => hstate.1.1 (he.symm.trans hmatches), rfl⟩

theorem acceptedValue_allowed {policy : TwinFieldPolicy} {requestedValue value : String}
    (h : acceptedValue P policy requestedValue = some value) {values : List String}
    (hvalues : policy.allowedValues = some values) : values.contains value = true := by
  simp only [acceptedValue, hvalues] at h
  have hfind := (Option.filter_eq_some_iff.mp h).1
  simpa using List.mem_of_find?_eq_some hfind

/-- An order that is routed is permitted by the configuration it was routed
under. -/
theorem routed_permitted {field value before : Option Json} {name after : String} {workOrderId : Uuid}
    {order : NewWorkOrder} (hprovider : twin.provider = connector.provider)
    (h : routeTwinEdit P twin connector field value workOrderId = .routed name before after order) :
    permits connector order.targetEntityType order.targetState order.fields = true := by
  simp only [routeTwinEdit] at h
  split at h
  · cases h
  · split at h
    · cases h
    · split at h
      · cases h
      · rename_i heditable
        simp only [Bool.not_eq_true', Bool.not_eq_false] at heditable
        split at h
        · cases h
        · rename_i accepted haccepted
          split at h <;> cases h
          rcases policyFor_cases heditable with hpolicy | ⟨fieldId, authority, hname, hpolicy⟩
          · rw [hpolicy] at heditable haccepted ⊢
            obtain ⟨hstate, values, hvalues⟩ := statePolicy_editable heditable
            have hallowed := acceptedValue_allowed haccepted hvalues
            rw [hprovider] at hvalues
            show permits connector twin.artifactType (some after) [] = true
            simp only [permits, permitsState, hstate, hvalues, hallowed, List.all_nil, Bool.and_self]
          · rw [hpolicy] at heditable haccepted ⊢
            obtain ⟨hlisted, hvalues⟩ := fieldPolicy_editable heditable
            obtain ⟨hfield, hnative⟩ := fieldPolicy_field twin connector fieldId authority
            simp only [editOrder, hfield, hnative, hname, if_false, permits, permitsState, List.all_cons,
              List.all_nil, permitsField, hlisted, Bool.true_and, Bool.and_true]
            cases hallowed : allowedValuesOf connector twin.artifactType fieldId with
            | none => rfl
            | some values => exact acceptedValue_allowed haccepted (hvalues.trans hallowed)

end

end Cadena.Connectors.WriteBack
