import Cadena.Base.IsoTime

/-!
# Connector data

The rows and values shared by the connector services, and the small
functions at the end of `connector.service.ts` that read them.
-/

namespace Cadena.Connectors

open Cadena.Base

/-- The immutable provider identity of a record. -/
structure SyncIdentity where
  system : String
  entityType : String
  immutableId : String
  deriving DecidableEq

inductive SyncState where
  | synced | diverged | error | paused
  deriving DecidableEq

/-- A row of `integration_canonical_twins`. -/
structure CanonicalTwin where
  id : Uuid
  orgId : Uuid
  connectorId : Uuid
  provider : String
  artifactType : String
  externalId : String
  nativeKey : Option String
  nativeUrl : Option String
  title : Option String
  nativeStatus : Option String
  syncState : SyncState
  fieldAuthority : Fields
  payload : Fields
  contentHash : Option String
  sourceUpdatedAt : Option Millis
  correlationNodeId : Option Uuid

def numberText : JsNumber → Text
  | .finite text => text.chars
  | .negZero => "0".toList
  | .infinity negative => (if negative then "-Infinity" else "Infinity").toList

mutual

/-- `String(value)`. -/
def jsText : Json → Text
  | .null => "null".toList
  | .bool b => (if b then "true" else "false").toList
  | .num n => numberText n
  | .str s => s.toList
  | .arr elems => ",".toList.intercalate (elementTexts elems)
  | .obj _ => "[object Object]".toList

def elementTexts : List Json → List Text
  | [] => []
  | .null :: elems => [] :: elementTexts elems
  | value :: elems => jsText value :: elementTexts elems

end

/-! ## Objects -/

/-- `object[key]` for an own property. -/
def lookup (fields : Fields) (key : String) : Option Json :=
  (fields.find? fun e => e.1 = key).map (·.2)

/-- `object[key] = value`. -/
def setKey (fields : Fields) (key : String) (value : Json) : Fields :=
  if (lookup fields key).isSome then
    fields.map fun e => if e.1 = key then (key, value) else e
  else fields ++ [(key, value)]

/-- `{ ...a, ...b }`. -/
def spread (a b : Fields) : Fields := b.foldl (fun acc e => setKey acc e.1 e.2) a

theorem lookup_append (a b : Fields) (key : String) :
    lookup (a ++ b) key = (lookup a key).or (lookup b key) := by
  simp only [lookup, List.find?_append]
  cases a.find? fun e => e.1 = key <;> rfl

theorem lookup_map_set (fields : Fields) (key k : String) (value : Json) :
    lookup (fields.map fun e => if e.1 = key then (key, value) else e) k =
      if k = key then (lookup fields key).map fun _ => value else lookup fields k := by
  induction fields with
  | nil => simp [lookup]
  | cons e fields ih =>
    obtain ⟨l, v⟩ := e
    simp only [lookup, List.map_cons, List.find?_cons] at ih ⊢
    by_cases hl : l = key
    · subst hl
      by_cases hk : k = l
      · subst hk; simp
      · have hne : ¬ l = k := fun h => hk h.symm
        simpa [hk, hne] using ih
    · by_cases hk : k = key
      · subst hk
        simpa [hl] using ih
      · by_cases hlk : l = k
        · simp [hk, hlk]
        · simpa [hl, hk, hlk] using ih

@[simp] theorem lookup_setKey (fields : Fields) (key k : String) (value : Json) :
    lookup (setKey fields key value) k =
      if k = key then some value else lookup fields k := by
  unfold setKey
  split
  · rename_i h
    obtain ⟨v, hv⟩ := Option.isSome_iff_exists.mp h
    rw [lookup_map_set, hv]
    rfl
  · rename_i h
    have hnone : lookup fields key = none := by simpa using h
    rw [lookup_append]
    by_cases hk : k = key
    · subst hk
      rw [hnone]
      simp [lookup]
    · have hne : ¬ key = k := fun h => hk h.symm
      simp [lookup, hk, hne]

theorem lookup_map_values (f : Json → Json) (fields : Fields) (key : String) :
    lookup (fields.map fun e => (e.1, f e.2)) key = (lookup fields key).map f := by
  induction fields with
  | nil => rfl
  | cons e fields ih =>
    simp only [lookup, List.map_cons, List.find?_cons] at ih ⊢
    by_cases h : e.1 = key
    · simp [h]
    · simpa [h] using ih

theorem lookup_spread (a b : Fields) (key : String) :
    lookup (spread a b) key = (lookup (spread [] b) key).or (lookup a key) := by
  induction b generalizing a with
  | nil => rfl
  | cons e b ih =>
    have hset : lookup (setKey a e.1 e.2) key =
        (lookup (setKey [] e.1 e.2) key).or (lookup a key) := by
      rw [lookup_setKey, lookup_setKey]
      split <;> rfl
    calc lookup (spread a (e :: b)) key
        = (lookup (spread [] b) key).or (lookup (setKey a e.1 e.2) key) := ih (setKey a e.1 e.2)
      _ = ((lookup (spread [] b) key).or (lookup (setKey [] e.1 e.2) key)).or (lookup a key) := by
          rw [hset, Option.or_assoc]
      _ = (lookup (spread [] (e :: b)) key).or (lookup a key) := by
          rw [← ih (setKey [] e.1 e.2)]
          rfl

theorem lookup_of_render_eq {a b : Fields} (h : render (.obj a) = render (.obj b)) (key : String) :
    (lookup a key).map render = (lookup b key).map render := by
  have hparsed : parsedEntries a = parsedEntries b := by
    simpa only [parsed, Json.obj.injEq] using parsed_eq_iff.mpr h
  have hkey := congrArg (fun es => (lookup es key).map render) hparsed
  simpa only [parsedEntries_eq, lookup_map_values, Option.map_map, Function.comp_def, render_parsed]
    using hkey

/-! ## Paths -/

instance (cs : Text) : Decidable (∀ c ∈ cs, isNumberChar c = true) :=
  List.decidableBAll _ cs

/-- The number a small index or a length is. -/
def natNumber (n : Nat) : Json :=
  if h : (Nat.toDigits 10 n) ≠ [] ∧ ∀ c ∈ Nat.toDigits 10 n, isNumberChar c = true then
    .num (.finite ⟨Nat.toDigits 10 n, h.1, h.2⟩)
  else .null

/-- `value[segment]` where `value` may be any JSON value. -/
def property (value : Json) (segment : String) : Option Json :=
  match value with
  | .obj entries => lookup entries segment
  | .arr elems =>
    if segment = "length" then some (natNumber elems.length)
    else
      match (List.range elems.length).find? fun i => toString i = segment with
      | some i => elems[i]?
      | none => none
  | _ => none

/-- `path.split('.')`. -/
def splitDots : Text → List Text
  | [] => [[]]
  | c :: cs =>
    if c = '.' then [] :: splitDots cs
    else
      match splitDots cs with
      | [] => [[c]]
      | part :: parts => (c :: part) :: parts

def segmentsOf (path : String) : List String :=
  (splitDots path.toList).map String.ofList

/-- The value at the end of the path, or `undefined`. -/
def walk (value : Json) : List String → Option Json
  | [] => some value
  | s :: ss =>
    match property value s with
    | some next => walk next ss
    | none => none

/-- Writes a value at a path, creating the objects on the way. A picked
array on the way already holds the value, since it was picked from the
same source. -/
def writePath (picked : Fields) : List String → Json → Fields
  | [], _ => picked
  | [s], value => setKey picked s value
  | s :: t :: ss, value =>
    match lookup picked s with
    | some (.obj inner) => setKey picked s (.obj (writePath inner (t :: ss) value))
    | some (.arr _) => picked
    | _ => setKey picked s (.obj (writePath [] (t :: ss) value))

/-- The part of an object that lies at the given paths. -/
def pickPaths (source : Fields) (paths : List String) : Fields :=
  paths.foldl
    (fun picked path =>
      match walk (.obj source) (segmentsOf path) with
      | none => picked
      | some value => writePath picked (segmentsOf path) value)
    []

/-- Two states are the same when both are strings that differ in case and
surrounding space only. -/
def sameState (P : Platform) : Option String → Option String → Bool
  | some left, some right =>
    P.toLowerCase (trimString left) == P.toLowerCase (trimString right)
  | _, _ => false

/-- `value ? … : …` for an optional string: absent and empty are false. -/
def truthy : Option String → Bool
  | some s => s ≠ ""
  | none => false

/-- `value || fallback`. -/
def orText (value : Option String) (fallback : String) : String :=
  if truthy value then value.getD fallback else fallback

end Cadena.Connectors
