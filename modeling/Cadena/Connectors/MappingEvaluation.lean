import Cadena.Base.LeafTree
import Cadena.Connectors.PickedFields
import Mathlib.Data.List.Pairwise

/-!
# Evaluating a field mapping

`normalizeRules` of `field-mapping.service.ts` and `evaluateFieldMapping` of
`field-mapping-evaluator.ts`. Values that are objects are shared: a rule that
takes one over puts its address into the result, and a later rule that writes
below it changes the object itself. The objects that `setPath` makes on its way
belong to the result alone, so they are a tree (`Cadena.Base.LeafTree`) with
values at its leaves.
-/

namespace Cadena.Connectors

open Cadena.Base

/-! ## Values -/

/-- An object stands at an address. Arrays are never entered, so they are
plain values, as are `null`, booleans, numbers and strings. -/
inductive JsValue where
  | plain (j : Json)
  | method (name : String)
  | object (address : Nat)

/-- The own properties of each object. -/
abbrev Heap := List (String → Option JsValue)

/-- What every object inherits, `__proto__` apart. -/
def objectMethods : List String :=
  ["constructor", "hasOwnProperty", "isPrototypeOf", "propertyIsEnumerable", "toLocaleString",
   "toString", "valueOf", "__defineGetter__", "__defineSetter__", "__lookupGetter__",
   "__lookupSetter__"]

def inherited (segment : String) : Option JsValue :=
  if segment ∈ objectMethods then some (.method segment) else none

def Heap.propertyOf (h : Heap) (v : JsValue) (segment : String) : Option JsValue :=
  match v with
  | .object a => (h[a]?).bind fun own => (own segment).or (inherited segment)
  | _ => none

def Heap.getPath (h : Heap) : JsValue → List String → Option JsValue
  | v, [] => some v
  | v, k :: ks => (h.propertyOf v k).bind fun next => h.getPath next ks

/-- `object[key] = value`. -/
def Heap.put (h : Heap) (a : Nat) (key : String) (v : JsValue) : Heap :=
  h.modify a fun own => setAt own key (some v)

mutual

/-- What `JSON.parse` builds. -/
def Heap.load (h : Heap) : Json → JsValue × Heap
  | .obj entries =>
    let (own, h) := h.loadEntries entries
    (.object h.length, h ++ [own])
  | .null => (.plain .null, h)
  | .bool b => (.plain (.bool b), h)
  | .num n => (.plain (.num n), h)
  | .str s => (.plain (.str s), h)
  | .arr elems => (.plain (.arr elems), h)

def Heap.loadEntries (h : Heap) : List (String × Json) → (String → Option JsValue) × Heap
  | [] => (fun _ => none, h)
  | (key, j) :: entries =>
    let (v, h) := h.load j
    let (own, h) := h.loadEntries entries
    (setAt own key (some v), h)

end

/-- `String(value)`. -/
def valueText : JsValue → String
  | .plain j => String.ofList (jsText j)
  | .method name => s!"function {name}() \x7b [native code] \x7d"
  | .object _ => "[object Object]"

abbrev OwnFields := LeafTree.Branches String JsValue

def isObject : JsValue → Bool
  | .object _ => true
  | _ => false

/-- `setPath` from an object that was there before. -/
def Heap.setPath : Heap → Nat → List String → JsValue → Heap
  | h, _, [], _ => h
  | h, a, [k], v => h.put a k v
  | h, a, k :: k' :: ks, v =>
    match h.propertyOf (.object a) k with
    | some (.object next) => (h.put a k (.object next)).setPath next (k' :: ks) v
    | _ =>
      let h' : Heap := h ++ [fun _ => none]
      (h'.put a k (.object h.length)).setPath h.length (k' :: ks) v

/-- `setPath` from the result. -/
def setPath : OwnFields → Heap → List String → JsValue → OwnFields × Heap
  | b, h, [], _ => (b, h)
  | b, h, [k], v => (setAt b k (some (.leaf v)), h)
  | b, h, k :: k' :: ks, v =>
    match b k with
    | some (.node c) =>
      let (c, h) := setPath c h (k' :: ks) v
      (setAt b k (some (.node c)), h)
    | some (.leaf (.object a)) => (b, h.setPath a (k' :: ks) v)
    | _ =>
      let (c, h) := setPath LeafTree.bare h (k' :: ks) v
      (setAt b k (some (.node c)), h)

/-! ## Transforms -/

inductive FieldMappingHoldReason where
  | noTableEntry | noConditionalMatch | scriptFailed | schemaDrift
  deriving DecidableEq

structure FieldMappingEvaluationInput where
  sourceFields : JsValue
  sourceState : Option String
  targetState : Option String

/-- What is called from outside: the comparison of `localeCompare` with the
sensitivity `accent`, and the sandbox, which returns a value of its own with
what stands behind it, or `undefined`. -/
structure MappingRuntime where
  sameText : String → String → Bool
  runMappingScript : String → Heap → FieldMappingEvaluationInput → FieldMappingDirection →
    Except String (Option (JsValue × Heap))

inductive Resolution where
  | value (v : JsValue) (h : Heap)
  | undefined
  | failed (reason : FieldMappingHoldReason) (message : String)

def Resolution.fresh (h : Heap) (j : Json) : Resolution :=
  let (v, h) := h.load j
  .value v h

variable (P : Platform) (runtime : MappingRuntime)

def caseHolds (h : Heap) (input : FieldMappingEvaluationInput) (sourceValue : JsValue)
    (entry : ConditionalCase) : Bool :=
  let candidate :=
    if entry.field = "$value" then some sourceValue
    else h.getPath input.sourceFields (segmentsOf entry.field)
  match candidate with
  | none | some (.plain .null) => false
  | some v => runtime.sameText (valueText v) entry.equals

def resolveTransform (h : Heap) (rule : FieldMappingRule) (sourceValue : JsValue)
    (input : FieldMappingEvaluationInput) : Resolution :=
  match rule.transform with
  | .direct => .value sourceValue h
  | .constant value => .fresh h value
  | .valueTable table defaultValue =>
    let text := valueText sourceValue
    match table.find? fun entry => P.toLowerCase entry.1 = P.toLowerCase text with
    | some entry => .fresh h entry.2
    | none =>
      match defaultValue with
      | some value => .fresh h value
      | none => .failed .noTableEntry
          s!"'{text}' has no entry in the value table for {rule.sourceField} → {rule.targetField}"
  | .conditional cases elseValue =>
    match cases.find? (caseHolds runtime h input sourceValue) with
    | some entry => .fresh h entry.result
    | none =>
      match elseValue with
      | some value => .fresh h value
      | none => .failed .noConditionalMatch
          s!"No condition matched for {rule.sourceField} → {rule.targetField}, and no default was configured"
  | .script code =>
    match runtime.runMappingScript code h input rule.direction with
    | .ok (some (v, h)) => .value v h
    | .ok none => .undefined
    | .error message => .failed .scriptFailed
        s!"Script for {rule.sourceField} → {rule.targetField} failed: {message}"

/-! ## Evaluation -/

inductive RuleStatus where
  | applied (value : JsValue)
  | unchanged
  | held (reason : FieldMappingHoldReason) (message : String)

structure FieldMappingRuleOutcome where
  rule : FieldMappingRule
  status : RuleStatus

inductive EvaluationStatus where
  | ready | held
  deriving DecidableEq

/-- The variables of the loop, and the objects that were there before. -/
structure FieldEvaluation where
  heap : Heap
  fields : OwnFields
  outcomes : List FieldMappingRuleOutcome
  held : Bool

def FieldEvaluation.start (h : Heap) : FieldEvaluation := ⟨h, LeafTree.bare, [], false⟩

def FieldEvaluation.status (e : FieldEvaluation) : EvaluationStatus :=
  if e.held then .held else .ready

def FieldEvaluation.report (e : FieldEvaluation) (rule : FieldMappingRule) (status : RuleStatus) :
    FieldEvaluation :=
  { e with outcomes := e.outcomes ++ [⟨rule, status⟩] }

def FieldEvaluation.hold (e : FieldEvaluation) (rule : FieldMappingRule)
    (reason : FieldMappingHoldReason) (message : String) : FieldEvaluation :=
  { e.report rule (.held reason message) with held := true }

def FieldEvaluation.apply (e : FieldEvaluation) (rule : FieldMappingRule) (value : JsValue)
    (h : Heap) : FieldEvaluation :=
  let (fields, heap) := setPath e.fields h (segmentsOf rule.targetField) value
  { e.report rule (.applied value) with fields := fields, heap := heap }

/-- The paths that a rule reads and writes. -/
def FieldMappingRule.paths (rule : FieldMappingRule) : List String :=
  rule.sourceField :: rule.targetField ::
    match rule.transform with
    | .conditional cases _ => cases.map (·.field)
    | _ => []

/-- A segment `__proto__` leads to the prototype. -/
def FieldMappingRule.namesPrototype (rule : FieldMappingRule) : Bool :=
  rule.paths.any fun path => (segmentsOf path).contains "__proto__"

/-- `null` or the empty string, which are no value to translate. -/
def isEmptyValue : JsValue → Bool
  | .plain .null => true
  | .plain (.str s) => s = ""
  | _ => false

/-- `none` where a rule names `__proto__`, or a script returns `undefined`;
what happens then is not modelled. -/
def evaluateRule (targetSchemaHas : String → Bool) (input : FieldMappingEvaluationInput)
    (e : FieldEvaluation) (rule : FieldMappingRule) : Option FieldEvaluation :=
  if rule.namesPrototype then none
  else if !targetSchemaHas rule.targetField then
    some (e.hold rule .schemaDrift
      s!"Target field '{rule.targetField}' is no longer part of the discovered schema")
  else
    match e.heap.getPath input.sourceFields (segmentsOf rule.sourceField) with
    | none => some (e.report rule .unchanged)
    | some sourceValue =>
      if isEmptyValue sourceValue then some (e.report rule .unchanged)
      else
        match resolveTransform P runtime e.heap rule sourceValue input with
        | .failed reason message => some (e.hold rule reason message)
        | .undefined => none
        | .value value h => some (e.apply rule value h)

def evaluateRules (targetSchemaHas : String → Bool) (input : FieldMappingEvaluationInput) :
    FieldEvaluation → List FieldMappingRule → Option FieldEvaluation
  | e, [] => some e
  | e, rule :: rules =>
    match evaluateRule P runtime targetSchemaHas input e rule with
    | none => none
    | some next => evaluateRules targetSchemaHas input next rules

def evaluateFieldMapping (rules : List FieldMappingRule) (direction : FieldMappingDirection)
    (sourceFields : Fields) (sourceState targetState : Option String)
    (targetSchemaHas : String → Bool) : Option FieldEvaluation :=
  let (source, heap) := Heap.load [] (.obj sourceFields)
  evaluateRules P runtime targetSchemaHas ⟨source, sourceState, targetState⟩ (.start heap)
    (rules.filter fun rule => rule.direction = direction)

/-! ## The rules that are accepted -/

def MAX_RULES : Nat := 200

/-- `direction` is `none` for anything but the two directions, a field is
`none` if it is not a string, and `transform` is what `normalizeTransform`
makes of the rule's transform under the field's name. -/
structure FieldMappingRuleInput where
  direction : Option FieldMappingDirection
  sourceField : Option String
  targetField : Option String
  transform : String → Except String FieldMappingTransform

def requiredRuleText (value : Option String) (field : String) (maxLength : Nat) : Except String String :=
  let text := trimString (value.getD "")
  if text = "" then .error s!"{field} is required"
  else if maxLength < (text.toList.flatMap utf16).length then
    .error s!"{field} must be {maxLength} characters or fewer"
  else .ok text

/-- `/^[a-zA-Z_][a-zA-Z0-9_.-]{0,127}$/`. -/
def isFieldPath (text : String) : Bool :=
  match text.toList with
  | [] => false
  | c :: cs =>
    (c.isAlpha || c = '_') && cs.length ≤ 127
      && cs.all fun d => d.isAlphanum || d = '_' || d = '.' || d = '-'

def requiredFieldPath (value : Option String) (field : String) : Except String String := do
  let text ← requiredRuleText value field 128
  if isFieldPath text then return text
  else .error s!"{field} is not a supported field path"

def FieldMappingDirection.text : FieldMappingDirection → String
  | .sourceToTarget => "source_to_target"
  | .targetToSource => "target_to_source"

/-- One turn of the loop: the rule, and the key it is known by. -/
def normalizeRule (index : Nat) (seen : List String) (rule : Option FieldMappingRuleInput) :
    Except String (FieldMappingRule × String) :=
  match rule with
  | none => .error s!"rules[{index}] must be an object"
  | some rule =>
    match rule.direction with
    | none => .error s!"rules[{index}].direction must be source_to_target or target_to_source"
    | some direction => do
      let sourceField ← requiredFieldPath rule.sourceField s!"rules[{index}].source_field"
      let targetField ← requiredFieldPath rule.targetField s!"rules[{index}].target_field"
      let source := P.toLowerCase sourceField
      let target := P.toLowerCase targetField
      let key := s!"{direction.text}\n{source}\n{target}"
      if key ∈ seen then
        .error s!"rules contains a duplicate {direction.text} mapping for {sourceField} → {targetField}"
      else do
        let transform ← rule.transform s!"rules[{index}].transform"
        return (⟨direction, sourceField, targetField, transform⟩, key)

def normalizeFrom (index : Nat) (seen : List String) :
    List (Option FieldMappingRuleInput) → Except String (List FieldMappingRule)
  | [] => .ok []
  | rule :: rules => do
    let (first, key) ← normalizeRule P index seen rule
    let rest ← normalizeFrom (index + 1) (key :: seen) rules
    return first :: rest

def normalizeRules (input : Option (List (Option FieldMappingRuleInput))) :
    Except String (List FieldMappingRule) :=
  match input with
  | none | some [] => .error "rules must contain at least one field mapping"
  | some rules =>
    if MAX_RULES < rules.length then .error s!"rules cannot exceed {MAX_RULES} entries"
    else normalizeFrom P 0 [] rules

inductive Shown where
  | plain (j : Json)
  | method (name : String)
  | object

def JsValue.shown : JsValue → Shown
  | .plain j => .plain j
  | .method name => .method name
  | .object _ => .object

/-- What a value shows along a path; values that show the same along every
path are equal as far as `getPath` can tell. -/
def Heap.shows (h : Heap) (v : JsValue) (path : List String) : Option Shown :=
  (h.getPath v path).map JsValue.shown

/-- What `getPath` reads from the result. -/
def readBack (h : Heap) : OwnFields → List String → Option Shown
  | _, [] => some .object
  | b, k :: ks =>
    match b k with
    | some (.leaf v) => h.shows v ks
    | some (.node c) => readBack h c ks
    | none => (inherited k).bind fun v => h.shows v ks

/-- What the applied rules report to have written, and where. -/
def FieldEvaluation.applied (e : FieldEvaluation) : List (List String × JsValue) :=
  e.outcomes.filterMap fun o =>
    match o.status with
    | .applied v => some (segmentsOf o.rule.targetField, v)
    | _ => none

/-- Every value that an outcome reports is read back at the rule's target. -/
def FieldEvaluation.Contains (e : FieldEvaluation) : Prop :=
  ∀ a ∈ e.applied, ∀ path, readBack e.heap e.fields (a.1 ++ path) = e.heap.shows a.2 path

/-- Two applied rules whose target paths are equal, or one below the other,
agree: what the value of the upper one shows at the rest of the path is the
value of the lower one. -/
def FieldEvaluation.TargetsAgree (e : FieldEvaluation) : Prop :=
  LeafTree.Agrees e.heap.shows e.applied

/-! ## The result is a tree of what was written -/

variable {P runtime}

theorem setPath_write (b : OwnFields) (h : Heap) (path : List String) (v : JsValue) :
    (setPath b h path v).1 = LeafTree.write isObject b path v := by
  induction path generalizing b h with
  | nil => rfl
  | cons k path ih =>
    cases path with
    | nil => rfl
    | cons k' ks =>
      unfold setPath LeafTree.write
      cases hbk : b k with
      | none => simp [ih]
      | some t =>
        cases t with
        | node c => simp [ih]
        | leaf w => cases w <;> simp [ih, isObject]

/-- The invariant of the loop. -/
def FieldEvaluation.Faithful (e : FieldEvaluation) : Prop :=
  e.fields = LeafTree.writeAll isObject LeafTree.bare e.applied

theorem FieldEvaluation.Faithful.apply {e : FieldEvaluation} (he : e.Faithful) (rule : FieldMappingRule)
    (v : JsValue) (h : Heap) : (e.apply rule v h).Faithful := by
  have happlied : (e.apply rule v h).applied =
      e.applied ++ [(segmentsOf rule.targetField, v)] := List.filterMap_append
  have hfields : (e.apply rule v h).fields =
      LeafTree.write isObject e.fields (segmentsOf rule.targetField) v := setPath_write _ _ _ _
  rw [FieldEvaluation.Faithful, hfields, happlied, LeafTree.writeAll, List.foldl_append, he]
  rfl

variable {input : FieldMappingEvaluationInput} {targetSchemaHas : String → Bool}

theorem evaluateRule_cases {e next : FieldEvaluation} {rule : FieldMappingRule}
    (h : evaluateRule P runtime targetSchemaHas input e rule = some next) :
    (∃ status, (∀ v, status ≠ .applied v) ∧ next.fields = e.fields ∧
      next.outcomes = e.outcomes ++ [⟨rule, status⟩]) ∨
    ∃ v heap, next = e.apply rule v heap := by
  unfold evaluateRule at h
  split at h
  · cases h
  · split at h
    · obtain rfl := Option.some.inj h
      exact .inl ⟨.held _ _, by simp, rfl, rfl⟩
    · split at h
      · obtain rfl := Option.some.inj h
        exact .inl ⟨.unchanged, by simp, rfl, rfl⟩
      · split at h
        · obtain rfl := Option.some.inj h
          exact .inl ⟨.unchanged, by simp, rfl, rfl⟩
        · split at h
          · obtain rfl := Option.some.inj h
            exact .inl ⟨.held _ _, by simp, rfl, rfl⟩
          · cases h
          · obtain rfl := Option.some.inj h
            exact .inr ⟨_, _, rfl⟩

/-- **One rule keeps the result a tree of the writes.** -/
theorem evaluateRule_faithful {e next : FieldEvaluation} {rule : FieldMappingRule}
    (he : e.Faithful) (h : evaluateRule P runtime targetSchemaHas input e rule = some next) :
    next.Faithful := by
  rcases evaluateRule_cases h with ⟨status, hsilent, hfields, houtcomes⟩ | ⟨v, heap, rfl⟩
  · have happlied : next.applied = e.applied := by
      rw [FieldEvaluation.applied, houtcomes, List.filterMap_append, FieldEvaluation.applied]
      cases status with
      | applied v => exact absurd rfl (hsilent v)
      | unchanged => exact List.append_nil _
      | held reason message => exact List.append_nil _
    rw [FieldEvaluation.Faithful, hfields, happlied]
    exact he
  · exact he.apply rule v heap

theorem evaluateRules_faithful {rules : List FieldMappingRule} {e last : FieldEvaluation}
    (he : e.Faithful) (h : evaluateRules P runtime targetSchemaHas input e rules = some last) :
    last.Faithful := by
  induction rules generalizing e with
  | nil =>
    obtain rfl := Option.some.inj h
    exact he
  | cons rule rules ih =>
    unfold evaluateRules at h
    split at h
    · cases h
    · rename_i next hnext
      exact ih (evaluateRule_faithful he hnext) h

theorem evaluateRules_rules {rules : List FieldMappingRule} {e last : FieldEvaluation}
    (h : evaluateRules P runtime targetSchemaHas input e rules = some last) :
    last.outcomes.map (·.rule) = e.outcomes.map (·.rule) ++ rules := by
  induction rules generalizing e with
  | nil =>
    obtain rfl := Option.some.inj h
    exact (List.append_nil _).symm
  | cons rule rules ih =>
    unfold evaluateRules at h
    split at h
    · cases h
    · rename_i next hnext
      have hone : next.outcomes.map (·.rule) = e.outcomes.map (·.rule) ++ [rule] := by
        rcases evaluateRule_cases hnext with ⟨status, -, -, houtcomes⟩ | ⟨v, heap, rfl⟩
        · rw [houtcomes, List.map_append]
          rfl
        · exact List.map_append
      rw [ih h, hone, List.append_assoc]
      rfl

theorem shows_self (h : Heap) (v : JsValue) : (h.shows v []).isSome = true := rfl

theorem shows_below (h : Heap) (v : JsValue) (path : List String) (hv : isObject v = false)
    (hpath : path ≠ []) : h.shows v path = none := by
  obtain ⟨k, ks, rfl⟩ := List.exists_cons_of_ne_nil hpath
  cases v with
  | object a => cases hv
  | plain j => rfl
  | method name => rfl

theorem readBack_leaf {h : Heap} {b : OwnFields} {u : List String} {w : JsValue}
    (hleaf : LeafTree.leafAt b u = some w) (rest : List String) :
    readBack h b (u ++ rest) = h.shows w rest := by
  induction u generalizing b with
  | nil => simp at hleaf
  | cons k u ih =>
    rw [List.cons_append, readBack]
    cases hbk : b k with
    | none => cases u <;> simp [LeafTree.leafAt, hbk] at hleaf
    | some t =>
      cases u with
      | nil =>
        cases t with
        | node c => simp [LeafTree.leafAt, hbk] at hleaf
        | leaf x =>
          obtain rfl : x = w := by simpa [LeafTree.leafAt, hbk] using hleaf
          rfl
      | cons l u =>
        cases t with
        | leaf x => simp [LeafTree.leafAt, hbk] at hleaf
        | node c =>
          have hinner : LeafTree.leafAt c (l :: u) = some w := by
            simpa [LeafTree.leafAt, hbk] using hleaf
          exact ih hinner

theorem contains_iff_agree {e : FieldEvaluation} (he : e.Faithful) : e.Contains ↔ e.TargetsAgree := by
  constructor
  · intro hcontains a ha b hb s hsplit path
    rw [← hcontains b hb, hsplit, List.append_assoc, hcontains a ha]
  · intro hagree a ha path
    have hpaths : ∀ a ∈ e.applied, a.1 ≠ [] := by
      intro a ha
      obtain ⟨o, -, ho⟩ := List.mem_filterMap.mp ha
      split at ho
      · rw [← Option.some.inj ho]
        exact segmentsOf_ne_nil _
      · cases ho
    obtain ⟨u, s, w, hsplit, hleaf, hshows⟩ :=
      LeafTree.covered_of_agrees (shows_self e.heap) (shows_below e.heap) hpaths hagree a ha
    rw [← he] at hleaf
    rw [hsplit, List.append_assoc, readBack_leaf hleaf, hshows]

section Evaluations

variable {rules : List FieldMappingRule} {direction : FieldMappingDirection}
  {sourceFields : Fields} {sourceState targetState : Option String}
  {targetSchemaHas : String → Bool} {e : FieldEvaluation}

theorem evaluateFieldMapping_faithful
    (h : evaluateFieldMapping P runtime rules direction sourceFields sourceState targetState
      targetSchemaHas = some e) : e.Faithful := by
  unfold evaluateFieldMapping at h
  have hstart : (FieldEvaluation.start (Heap.load [] (.obj sourceFields)).2).Faithful := rfl
  exact evaluateRules_faithful hstart h

/-- Neither path is the other one, or above it. -/
def Unrelated (p q : List String) : Prop := ¬ p <+: q ∧ ¬ q <+: p

theorem unrelated_targets_agree
    (h : evaluateFieldMapping P runtime rules direction sourceFields sourceState targetState
      targetSchemaHas = some e)
    (hunrelated : (rules.filter fun rule => rule.direction = direction).Pairwise fun r r' =>
      Unrelated (segmentsOf r.targetField) (segmentsOf r'.targetField)) : e.TargetsAgree := by
  have hrules : e.outcomes.map (·.rule) = rules.filter fun rule => rule.direction = direction := by
    unfold evaluateFieldMapping at h
    exact evaluateRules_rules h
  have happlied : e.applied.Pairwise fun a b => Unrelated a.1 b.1 := by
    rw [← hrules, List.pairwise_map] at hunrelated
    refine List.Pairwise.filterMap _ ?_ hunrelated
    intro o o' hpair a ha b hb
    split at ha
    · split at hb
      · rw [← Option.some.inj ha, ← Option.some.inj hb]
        exact hpair
      · cases hb
    · cases ha
  intro a ha b hb s hsplit path
  by_cases hab : a = b
  · subst hab
    obtain rfl : s = [] := by simpa using hsplit
    rfl
  · have hsymm : Std.Symm fun x y : List String × JsValue => Unrelated x.1 y.1 :=
      ⟨fun _ _ hxy => ⟨hxy.2, hxy.1⟩⟩
    have hpair := happlied.forall ha hb hab
    exact absurd ⟨s, hsplit.symm⟩ hpair.1

end Evaluations

/-- Names are equal up to the case of ASCII letters, and no script runs. -/
def plainRuntime : MappingRuntime where
  sameText s t := Platform.ascii.toLowerCase s == Platform.ascii.toLowerCase t
  runMappingScript _ _ _ _ := .error "no sandbox"

def takeOver (sourceField targetField : String) : Option FieldMappingRuleInput :=
  some ⟨some .sourceToTarget, some sourceField, some targetField, fun _ => .ok .direct⟩

def incidentFields : Fields := [("priority", .str "1"), ("impact", .str "2")]

end Cadena.Connectors
