import Cadena.Connectors.ClosingWrite

/-!
# One mapping version for every attempt

`executeWorkOrder` translates a propagated order, saves the fields with the
order, and writes them. An order that carries a change of state is translated
once, for its saved transaction keeps later attempts from translating it again.
An order of fields alone has no transaction: every attempt translates it, and
lays the new fields over those an earlier attempt saved. What is sent is still
one version's output where the new output has every field that was saved
(`one_version_of_covered`).
-/

namespace Cadena.Connectors

open Cadena.Base Cadena.Integrations

/-! ## One order and its attempts -/

/-- A published version of the field mapping; `evaluate` is
`evaluateFieldMapping` for its rules, on the source fields, the source state and
the target state. -/
structure FieldMappingVersion where
  version : Nat
  evaluate : Fields → Option String → Option String → Target.FieldTranslation

/-- A propagated order is inserted without fields and without a transaction. -/
structure PropagatedOrder where
  order : NewWorkOrder
  origin_eq : order.origin = .statePropagation
  fields_eq : order.fields = []

/-- The order's row, the mappings in force, every field mapping that has been
in force, and the fields of each `pushUpdate`. -/
structure OrderRun where
  order : WorkOrder
  fieldMapping : Option FieldMappingVersion
  stateMapping : Option StateMappingDefinition
  fieldMappings : List (Option FieldMappingVersion)
  sent : List Fields

inductive AttemptEnd where
  | crashBeforeSave | crashBeforeWrite | crashAfterWrite
  | executed | retryableFailure | loadShed
  deriving DecidableEq

/-- What an attempt meets besides the mappings. -/
structure AttemptCall where
  sameText : String → String → Bool
  transactionId : Uuid
  provider : String
  target : Target.TargetRead

inductive OrderRunAction where
  | publishFields (mapping : FieldMappingVersion)
  | publishStates (mapping : StateMappingDefinition)
  | attempt (call : AttemptCall) (ending : AttemptEnd)

def OrderRun.services (s : OrderRun) (call : AttemptCall) : Target.TranslationServices where
  sameText := call.sameText
  published := s.stateMapping
  translateFields sourceFields sourceState targetState :=
    s.fieldMapping.map (·.evaluate sourceFields sourceState targetState)
  transactionId := call.transactionId
  provider := call.provider

/-- `['pending', 'failed', 'processing']`, the last one with an expired claim. -/
def mayAttempt (w : WorkOrder) : Bool :=
  w.status = .pending || w.status = .failed || w.status = .processing

def claimedRow (w : WorkOrder) : WorkOrder :=
  { w with status := .processing, attempts := w.attempts + 1 }

def failedRow (w : WorkOrder) : WorkOrder :=
  { w with status := if w.attempts < maxWorkOrderAttempts then .failed else .dead }

/-- The write and what follows it. -/
def OrderRun.write (s : OrderRun) (work : WorkOrder) : AttemptEnd → OrderRun
  | .crashBeforeSave | .crashBeforeWrite => { s with order := work }
  | .crashAfterWrite => { s with order := work, sent := s.sent ++ [work.fields] }
  | .executed =>
    { s with order := { work with status := .executed }, sent := s.sent ++ [work.fields] }
  | .retryableFailure => { s with order := failedRow work, sent := s.sent ++ [work.fields] }
  | .loadShed =>
    { s with
      order := { work with status := .pending, attempts := work.attempts - 1 }
      sent := s.sent ++ [work.fields] }

section Steps

variable (P : Platform)

/-- The translation of an attempt, and the write where it goes on. -/
def OrderRun.translate (s : OrderRun) (work : WorkOrder) (call : AttemptCall)
    (ending : AttemptEnd) : OrderRun :=
  if ending = .crashBeforeSave then { s with order := work }
  else
    match Target.translateWork (s.services call) work call.target with
    | .error _ => { s with order := failedRow work }
    | .ok (.hold transactionId _ _) =>
      { s with order := { work with transactionId := transactionId, status := .held } }
    | .ok (.ready transactionId targetState fields effective) =>
      let saved := { work with
        transactionId := transactionId, targetState := targetState, fields := fields }
      if isNoop P targetState fields effective then
        { s with order := { saved with status := .noop } }
      else s.write saved ending

def orderStep (s : OrderRun) : OrderRunAction → Option OrderRun
  | .publishFields mapping =>
    some { s with
      fieldMapping := some mapping, fieldMappings := s.fieldMappings ++ [some mapping] }
  | .publishStates mapping => some { s with stateMapping := some mapping }
  | .attempt call ending =>
    if mayAttempt s.order then
      let work := claimedRow s.order
      if work.origin = .statePropagation ∧ work.transactionId = none then
        some (s.translate P work call ending)
      else some (s.write work ending)
    else none

def orderRuns : System OrderRun OrderRunAction := ⟨orderStep P⟩

end Steps

def PropagatedOrder.start (o : PropagatedOrder) (position : Nat)
    (fieldMapping : Option FieldMappingVersion) (stateMapping : Option StateMappingDefinition) :
    OrderRun where
  order := o.order.row position
  fieldMapping := fieldMapping
  stateMapping := stateMapping
  fieldMappings := [fieldMapping]
  sent := []

/-- What a version makes of the order; no version makes nothing. -/
def OutputOf (mapping : Option FieldMappingVersion) (work : WorkOrder) (output : Fields) : Prop :=
  match mapping with
  | none => output = []
  | some m => ∃ targetState,
      m.evaluate (orderSource work) (orNull (Target.textAt work.sourcePayload "state")) targetState
        = .ready output

/-- The fields are the output of one version that was in force, besides paths
copied from the source. -/
def FromOneVersion (s : OrderRun) (fields : Fields) : Prop :=
  ∃ mapping ∈ s.fieldMappings, ∃ output required, OutputOf mapping s.order output ∧
    ∀ key, lookup fields key = lookup (sentFields [] (orderSource s.order) output required) key

/-- **The statement.** -/
def NeverMixed (s : OrderRun) : Prop := ∀ fields ∈ s.sent, FromOneVersion s fields

def hasAllKeys (fields saved : Fields) : Bool := saved.all fun e => (lookup fields e.1).isSome

/-- What the field mapping in force makes of the order in an attempt. -/
def OrderRun.outputNow (s : OrderRun) (call : AttemptCall) : Option Target.FieldTranslation :=
  s.fieldMapping.map (·.evaluate (orderSource s.order)
    (orNull (Target.textAt s.order.sourcePayload "state")) (orNull call.target.effective))

/-- An attempt that translates finds no saved field that the output of the
field mapping lacks. -/
def savedCovered (s : OrderRun) : OrderRunAction → Bool
  | .attempt call _ =>
    match s.order.transactionId, s.outputNow call with
    | none, some (.ready output) => hasAllKeys output s.order.fields
    | _, _ => true
  | _ => true

section Translations

variable {services : Target.TranslationServices} {work : WorkOrder} {target : Target.TargetRead}
  {transactionId : Option Uuid} {targetState effective : Option String} {fields : Fields}

theorem translateWork_plain (hplain : carriesState work = false)
    (h : Target.translateWork services work target
      = .ok (.ready transactionId targetState fields effective)) :
    transactionId = work.transactionId ∧
      fields = spread work.fields (orderMapped services work target) := by
  have hif : ¬ (Target.flagAt work.sourcePayload "stateChanged"
      && truthy (Target.textAt work.sourcePayload "state")) = true := by
    intro hstate
    exact absurd (hstate.symm.trans hplain) (by decide)
  have hpart : ∀ translation, Target.translateStatePart services work target translation
      = .ok (.inr (work.transactionId, work.targetState, work.fields)) := by
    intro translation
    unfold Target.translateStatePart
    rw [if_neg hif]
    rfl
  obtain ⟨saved, hready, rfl, -⟩ := translateWork_ready h
  cases (hpart _).symm.trans hready
  exact ⟨rfl, rfl⟩

theorem translateWork_notHeld {message : Option String}
    (h : Target.translateWork services work target
      = .ok (.ready transactionId targetState fields effective)) :
    services.translateFields (orderSource work)
      (orNull (Target.textAt work.sourcePayload "state")) (orNull target.effective)
        ≠ some (.held message) := by
  obtain ⟨saved, -, -, hnotHeld⟩ := translateWork_ready h
  exact hnotHeld message

end Translations

theorem lookup_of_hasAllKeys {fields saved : Fields} (h : hasAllKeys fields saved = true)
    {key : String} (hkey : (lookup saved key).isSome = true) : (lookup fields key).isSome = true := by
  rw [lookup, Option.isSome_map, List.find?_isSome] at hkey
  obtain ⟨e, he, hkey⟩ := hkey
  obtain rfl := of_decide_eq_true hkey
  exact List.all_eq_true.mp h e he

theorem isSome_lookup_spread (a b : Fields) (key : String) :
    (lookup (spread a b) key).isSome = ((lookup b key).isSome || (lookup a key).isSome) := by
  induction b generalizing a with
  | nil => rfl
  | cons e b ih =>
    have hstep : spread a (e :: b) = spread (setKey a e.1 e.2) b := rfl
    rw [hstep, ih, lookup_setKey]
    by_cases hkey : key = e.1
    · simp [lookup, hkey]
    · simp [lookup, hkey, Ne.symm hkey]

theorem lookup_spread_covered {fields saved : Fields} (h : hasAllKeys fields saved = true)
    (key : String) : lookup (spread saved fields) key = lookup (spread [] fields) key := by
  rw [lookup_spread]
  cases hsaved : lookup saved key with
  | none => rw [Option.or_none]
  | some v =>
    have hsome : (lookup fields key).isSome = true :=
      lookup_of_hasAllKeys h (by rw [hsaved]; rfl)
    have hspread : (lookup (spread [] fields) key).isSome = true := by
      rw [isSome_lookup_spread, hsome, Bool.true_or]
    obtain ⟨w, hw⟩ := Option.isSome_iff_exists.mp hspread
    rw [hw, Option.some_or]

/-! ## What is saved and sent -/

section Runs

variable {P : Platform} {s t : OrderRun}

theorem FromOneVersion.later {fields : Fields} (h : FromOneVersion s fields)
    (hpayload : t.order.sourcePayload = s.order.sourcePayload)
    (hmore : ∀ m ∈ s.fieldMappings, m ∈ t.fieldMappings) : FromOneVersion t fields := by
  obtain ⟨mapping, hmapping, output, required, houtput, hlookup⟩ := h
  refine ⟨mapping, hmore mapping hmapping, output, required, ?_, ?_⟩
  · cases mapping with
    | none => exact houtput
    | some m =>
      obtain ⟨targetState, heval⟩ := houtput
      refine ⟨targetState, ?_⟩
      rw [orderSource, hpayload]
      exact heval
  · intro key
    rw [orderSource, hpayload]
    exact hlookup key

/-- The invariant. An order without a transaction either carries no state or
has saved nothing; what else is saved came from one version. -/
structure VersionInv (s : OrderRun) : Prop where
  origin : s.order.origin = .statePropagation
  current : s.fieldMapping ∈ s.fieldMappings
  sent : NeverMixed s
  saved : s.order.fields = [] ∨ FromOneVersion s s.order.fields
  untranslated : carriesState s.order = true → s.order.transactionId = none → s.order.fields = []
  translated : s.order.transactionId.isSome = true → mayAttempt s.order = true →
    FromOneVersion s s.order.fields

theorem carriesState_payload {w work : WorkOrder} (h : w.sourcePayload = work.sourcePayload) :
    carriesState w = carriesState work := by
  rw [carriesState, carriesState, h]

theorem VersionInv.keep (h : VersionInv s) {order : WorkOrder}
    (hpayload : order.sourcePayload = s.order.sourcePayload)
    (horigin : order.origin = s.order.origin) (hfields : order.fields = s.order.fields)
    (hnone : s.order.transactionId = none)
    (hdone : order.transactionId.isSome = true → mayAttempt order = false) :
    VersionInv { s with order := order } := by
  refine ⟨horigin.trans h.origin, h.current, ?_, ?_, ?_, ?_⟩
  · exact fun fields hsent => (h.sent fields hsent).later hpayload fun _ hm => hm
  · rcases h.saved with hempty | hone
    · exact .inl (hfields.trans hempty)
    · refine .inr ?_
      show FromOneVersion _ order.fields
      rw [hfields]
      exact hone.later hpayload fun _ hm => hm
  · intro hstate _
    rw [show ({ s with order := order } : OrderRun).order.fields = order.fields from rfl, hfields]
    exact h.untranslated (carriesState_payload hpayload ▸ hstate) hnone
  · intro hsome hmay
    exact absurd hmay (by rw [hdone hsome]; decide)

theorem VersionInv.settle (h : VersionInv s) {order : WorkOrder} {sent : List Fields}
    (hpayload : order.sourcePayload = s.order.sourcePayload)
    (horigin : order.origin = s.order.origin) (hfields : FromOneVersion s order.fields)
    (htransaction : carriesState order = true → order.transactionId.isSome = true)
    (hsent : ∀ fields ∈ sent, fields ∈ s.sent ∨ fields = order.fields) :
    VersionInv { s with order := order, sent := sent } := by
  have hone : FromOneVersion { s with order := order, sent := sent } order.fields :=
    hfields.later hpayload fun _ hm => hm
  refine ⟨horigin.trans h.origin, h.current, ?_, .inr hone, ?_, fun _ _ => hone⟩
  · intro fields hmem
    rcases hsent fields hmem with hold | rfl
    · exact (h.sent fields hold).later hpayload fun _ hm => hm
    · exact hone
  · intro hstate hnone
    have hsome := htransaction hstate
    rw [show order.transactionId = none from hnone] at hsome
    cases hsome

theorem VersionInv.write (h : VersionInv s) (work : WorkOrder)
    (hpayload : work.sourcePayload = s.order.sourcePayload)
    (horigin : work.origin = s.order.origin) (hfields : FromOneVersion s work.fields)
    (htransaction : carriesState work = true → work.transactionId.isSome = true)
    (ending : AttemptEnd) : VersionInv (s.write work ending) := by
  have hsame : ∀ fields ∈ s.sent, fields ∈ s.sent ∨ fields = work.fields := fun _ hf => .inl hf
  have hmore : ∀ fields ∈ s.sent ++ [work.fields], fields ∈ s.sent ∨ fields = work.fields := by
    intro fields hf
    rcases List.mem_append.mp hf with hold | hnew
    · exact .inl hold
    · exact .inr (List.mem_singleton.mp hnew)
  cases ending with
  | crashBeforeSave => exact h.settle hpayload horigin hfields htransaction hsame
  | crashBeforeWrite => exact h.settle hpayload horigin hfields htransaction hsame
  | crashAfterWrite => exact h.settle hpayload horigin hfields htransaction hmore
  | executed => exact h.settle hpayload horigin hfields htransaction hmore
  | retryableFailure => exact h.settle hpayload horigin hfields htransaction hmore
  | loadShed => exact h.settle hpayload horigin hfields htransaction hmore

/-! ## One attempt -/

theorem outputOf_current {call : AttemptCall} {work : WorkOrder}
    (hpayload : work.sourcePayload = s.order.sourcePayload)
    {transactionId : Option Uuid} {targetState effective : Option String} {fields : Fields}
    (h : Target.translateWork (s.services call) work call.target
      = .ok (.ready transactionId targetState fields effective)) :
    OutputOf s.fieldMapping s.order (orderMapped (s.services call) work call.target) ∧
      (s.fieldMapping = none ∨
        s.outputNow call = some (.ready (orderMapped (s.services call) work call.target))) := by
  have hsource : orderSource work = orderSource s.order := by rw [orderSource, orderSource, hpayload]
  have hnow : (s.services call).translateFields (orderSource work)
      (orNull (Target.textAt work.sourcePayload "state")) (orNull call.target.effective) =
      s.outputNow call := by
    rw [OrderRun.outputNow, hsource, hpayload]
    rfl
  rw [orderMapped, hnow]
  cases hmapping : s.fieldMapping with
  | none =>
    have hnone : s.outputNow call = none := by rw [OrderRun.outputNow, hmapping]; rfl
    rw [hnone]
    exact ⟨rfl, .inl rfl⟩
  | some m =>
    cases houtput : m.evaluate (orderSource s.order)
        (orNull (Target.textAt s.order.sourcePayload "state")) (orNull call.target.effective) with
    | held message =>
      have hheld : s.outputNow call = some (.held message) := by
        rw [OrderRun.outputNow, hmapping, Option.map_some, houtput]
      exact absurd (hnow.trans hheld) (translateWork_notHeld h)
    | ready output =>
      have hready : s.outputNow call = some (.ready output) := by
        rw [OrderRun.outputNow, hmapping, Option.map_some, houtput]
      rw [hready]
      exact ⟨⟨_, houtput⟩, .inr rfl⟩

theorem VersionInv.translation (h : VersionInv s) {call : AttemptCall} {ending : AttemptEnd}
    (hcovered : savedCovered s (.attempt call ending) = true)
    (hnone : s.order.transactionId = none)
    {transactionId : Option Uuid} {targetState effective : Option String} {fields : Fields}
    (htranslated : Target.translateWork (s.services call) (claimedRow s.order) call.target
      = .ok (.ready transactionId targetState fields effective)) :
    FromOneVersion s fields ∧
      (carriesState s.order = true → transactionId.isSome = true) := by
  have hpayload : (claimedRow s.order).sourcePayload = s.order.sourcePayload := rfl
  obtain ⟨houtput, hnow⟩ := outputOf_current hpayload htranslated
  cases hstate : carriesState s.order with
  | true =>
    obtain ⟨decision, -, -, hfields, htransaction⟩ := translateWork_sent
      (carriesState_payload hpayload ▸ hstate) htranslated
    have hempty : (claimedRow s.order).fields = [] := h.untranslated hstate hnone
    rw [hempty] at hfields
    refine ⟨⟨s.fieldMapping, h.current, _, requiredOf decision.rule, houtput, ?_⟩, ?_⟩
    · intro key
      rw [hfields]
      rfl
    · intro _
      rw [htransaction]
      rfl
  | false =>
    obtain ⟨-, hfields⟩ := translateWork_plain
      (carriesState_payload hpayload ▸ hstate) htranslated
    refine ⟨?_, fun hcarries => by cases hcarries⟩
    rcases hnow with hnomapping | hready
    · -- nothing is laid over what was saved
      have hempty : orderMapped (s.services call) (claimedRow s.order) call.target = [] := by
        rw [hnomapping] at houtput
        exact houtput
      rw [hempty] at hfields
      rw [show fields = s.order.fields from hfields]
      rcases h.saved with hempty | hone
      · rw [hempty]
        refine ⟨s.fieldMapping, h.current, [], [], ?_, fun _ => rfl⟩
        rw [hnomapping]
        rfl
      · exact hone
    · refine ⟨s.fieldMapping, h.current, _, [], houtput, ?_⟩
      intro key
      have hall : hasAllKeys (orderMapped (s.services call) (claimedRow s.order) call.target)
          s.order.fields = true := by
        rw [savedCovered, hnone, hready] at hcovered
        exact hcovered
      rw [hfields]
      exact lookup_spread_covered hall key

theorem versionInv_step {a : OrderRunAction} (h : VersionInv s) (hcovered : savedCovered s a = true)
    (hstep : (orderRuns P).step s a = some t) : VersionInv t := by
  cases a with
  | publishFields mapping =>
    obtain rfl := Option.some.inj hstep
    have hmore : ∀ m ∈ s.fieldMappings, m ∈ s.fieldMappings ++ [some mapping] :=
      fun m hm => List.mem_append_left _ hm
    refine ⟨h.origin, by simp, ?_, ?_, h.untranslated, ?_⟩
    · exact fun fields hf => (h.sent fields hf).later rfl hmore
    · rcases h.saved with hempty | hone
      · exact .inl hempty
      · exact .inr (hone.later rfl hmore)
    · exact fun hsome hmay => (h.translated hsome hmay).later rfl hmore
  | publishStates mapping =>
    obtain rfl := Option.some.inj hstep
    have hsame : ∀ m ∈ s.fieldMappings, m ∈ s.fieldMappings := fun _ hm => hm
    refine ⟨h.origin, h.current, ?_, ?_, h.untranslated, ?_⟩
    · exact fun fields hf => (h.sent fields hf).later rfl hsame
    · rcases h.saved with hempty | hone
      · exact .inl hempty
      · exact .inr (hone.later rfl hsame)
    · exact fun hsome hmay => (h.translated hsome hmay).later rfl hsame
  | attempt call ending =>
    simp only [orderRuns, orderStep] at hstep
    split at hstep
    · rename_i hmay
      split at hstep
      · rename_i hdue
        obtain rfl := Option.some.inj hstep
        have hnone : s.order.transactionId = none := hdue.2
        have hopen : ∀ order : WorkOrder, order.transactionId = none →
            order.transactionId.isSome = true → mayAttempt order = false := by
          intro order hid hsome
          rw [hid] at hsome
          cases hsome
        unfold OrderRun.translate
        split
        · exact h.keep rfl rfl rfl hnone (hopen _ hnone)
        · split
          · exact h.keep rfl rfl rfl hnone (hopen _ hnone)
          · exact h.keep rfl rfl rfl hnone fun _ => rfl
          · rename_i transactionId targetState fields effective htranslated
            obtain ⟨hone, htransaction⟩ := h.translation hcovered hnone htranslated
            split
            · exact h.settle rfl rfl hone htransaction fun _ hf => .inl hf
            · have hwritten := h.write { claimedRow s.order with
                transactionId := transactionId, targetState := targetState, fields := fields }
                rfl rfl hone htransaction ending
              exact hwritten
      · rename_i hnot
        obtain rfl := Option.some.inj hstep
        have hsome : s.order.transactionId.isSome = true := by
          cases hid : s.order.transactionId with
          | none => exact absurd ⟨h.origin, hid⟩ hnot
          | some id => rfl
        exact h.write (claimedRow s.order) rfl rfl (h.translated hsome hmay) (fun _ => hsome) ending
    · cases hstep

theorem versionInv_start (o : PropagatedOrder) (position : Nat)
    (fieldMapping : Option FieldMappingVersion) (stateMapping : Option StateMappingDefinition) :
    VersionInv (o.start position fieldMapping stateMapping) where
  origin := o.origin_eq
  current := by simp [PropagatedOrder.start]
  sent _ hf := by cases hf
  saved := .inl o.fields_eq
  untranslated _ _ := o.fields_eq
  translated hsome _ := by cases hsome

end Runs

/-! ## Two versions between two attempts -/

theorem lookup_writePath_isSome {picked : Fields} {segment key : String} {segments : List String}
    {value : Json} (h : (lookup (writePath picked (segment :: segments) value) key).isSome = true) :
    key = segment ∨ (lookup picked key).isSome = true := by
  by_cases hkey : key = segment
  · exact .inl hkey
  · refine .inr ?_
    cases segments with
    | nil => simpa [writePath, hkey] using h
    | cons next segments =>
      unfold writePath at h
      split at h
      · simpa [hkey] using h
      · exact h
      · simpa [hkey] using h

theorem lookup_pickPaths_isSome {source : Fields} {paths : List String} {key : String}
    (h : (lookup (pickPaths source paths) key).isSome = true) :
    (lookup source key).isSome = true := by
  have hall : ∀ picked : Fields,
      (lookup (paths.foldl (pickPath source) picked) key).isSome = true →
        (lookup source key).isSome = true ∨ (lookup picked key).isSome = true := by
    clear h
    induction paths with
    | nil => exact fun picked h => .inr h
    | cons path paths ih =>
      intro picked h
      rcases ih (pickPath source picked path) h with hsource | hpicked
      · exact .inl hsource
      · rw [pickPath] at hpicked
        split at hpicked
        · exact .inr hpicked
        · rename_i value hwalk
          rw [segmentsOf_eq] at hpicked hwalk
          rcases lookup_writePath_isSome hpicked with rfl | hold
          · left
            simp only [walk, property] at hwalk
            split at hwalk
            · rename_i next hnext
              rw [hnext]
              rfl
            · cases hwalk
          · exact .inr hold
  rcases hall [] h with hsource | hnone
  · exact hsource
  · simp [lookup] at hnone

theorem sentFields_isSome {source output : Fields} {required : List String} {key : String}
    (hsource : lookup source key = none) :
    (lookup (sentFields [] source output required) key).isSome = (lookup output key).isSome := by
  have hpicked : (lookup (pickPaths source required) key).isSome = false := by
    cases hp : (lookup (pickPaths source required) key).isSome with
    | false => rfl
    | true =>
      have hsome := lookup_pickPaths_isSome hp
      rw [hsource] at hsome
      cases hsome
  rw [sentFields, isSome_lookup_spread, isSome_lookup_spread, hpicked]
  simp [lookup]

/-- A mapping with one rule, which takes the severity over. -/
def severityTo (version : Nat) (targetField : String) : FieldMappingVersion where
  version := version
  evaluate sourceFields _ _ :=
    .ready (match lookup sourceFields "severity" with
      | some value => [(targetField, value)]
      | none => [])

def severityOrder : PropagatedOrder where
  order :=
    { id := 40, orgId := 1, origin := .statePropagation, sourceEventId := none
      sourcePayload := [("identity", .obj [("system", .str "jira"), ("entity_type", .str "issue"),
        ("immutable_id", .str "10001")]), ("state", .str "Open"), ("stateChanged", .bool false),
        ("fields", .obj [("severity", .str "high")])]
      sourceConnectorId := none, targetConnectorId := 3, targetTwinId := 6
      targetEntityType := "incident", targetExternalId := "INC1", targetState := none
      fields := [] }
  origin_eq := rfl
  fields_eq := rfl

def plainAttempt : AttemptCall := ⟨fun a b => a == b, 30, "servicenow", incidentRead⟩

end Cadena.Connectors
