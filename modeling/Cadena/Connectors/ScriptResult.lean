import Cadena.Base.CodeUnits
import Cadena.Base.DepthWalk
import Cadena.Base.Page
import Cadena.Base.Text

/-!
# Results of mapping scripts

`runMappingScript` of `script-sandbox.ts` after the script has run. The result
is copied out of the isolate with its shape, so that it may be any finite graph
of arrays and objects: one may be referred to twice, or from below. The size of
the result is taken from its JSON text, and a result without one counts as
empty; its depth is taken by a walk that passes over what it has seen. The stack
of the host is taken to be as deep as a walk needs.
-/

namespace Cadena.Connectors.Scripts

open Cadena.Base DepthWalk Page

inductive Primitive where
  | null
  | undefined
  | bool (b : Bool)
  | num (n : JsNumber)
  | nan
  | str (s : JsString)
  | bigint (i : Int)

inductive Value (n : Nat) where
  | prim (p : Primitive)
  | object (i : Fin n)

inductive Content (n : Nat) where
  | arr (elems : List (Value n))
  | obj (entries : List (JsString × Value n))

/-- A value copied out of the isolate. -/
structure ObjectGraph where
  size : Nat
  content : Fin size → Content size
  root : Value size

def Content.children {n : Nat} : Content n → List (Value n)
  | .arr xs => xs
  | .obj es => es.map (·.2)

def Value.object? {n : Nat} : Value n → Option (Fin n)
  | .prim _ => none
  | .object i => some i

/-- The walk of `valueDepth`, with the level at which it enters every object. -/
def depthWalk (g : ObjectGraph) : Nat × List (Fin g.size × Nat) :=
  visit (fun i => (g.content i).children.map Value.object?) (g.size + 1) 1 g.root.object? []

def valueDepth (g : ObjectGraph) : Nat := (depthWalk g).1

theorem depthWalk_fuel (g : ObjectGraph) (n : Nat) :
    visit (fun i => (g.content i).children.map Value.object?) (g.size + 1 + n) 1 g.root.object? [] = depthWalk g := by
  induction n with
  | zero => rfl
  | succ n ih => rw [← ih, ← Nat.add_assoc, visit_fuel (g.size + 1 + n) 1 _ [] List.nodup_nil
      (by rw [Fintype.card_fin, List.length_nil]; omega)]

/-- `JSON.stringify` throws on a `BigInt` and leaves out `undefined`. -/
def Primitive.shown : Primitive → Option (Option (Scalar JsString))
  | .null | .nan => some (some .null)
  | .undefined => some none
  | .bool b => some (some (.bool b))
  | .num n => some (some (shownNumber n))
  | .str s => some (some (.str s))
  | .bigint _ => none

/-- `SerializeJSONProperty`: `none` is an error, for a value that is on the stack
among others. -/
def serialize (g : ObjectGraph) :
    Nat → List (Fin g.size) → Value g.size → Option (Option (Tree JsString (Scalar JsString)))
  | _, _, .prim p => p.shown.map (·.map .leaf)
  | 0, _, .object _ => none
  | fuel + 1, stack, .object i =>
    if i ∈ stack then none
    else
      match g.content i with
      | .arr xs => (xs.mapM (serialize g fuel (i :: stack))).map fun ys => some (.arr (ys.map (·.getD (.leaf .null))))
      | .obj es => (es.mapM fun e => (serialize g fuel (i :: stack) e.2).map (e.1, ·)).map fun ds =>
          some (.obj (ds.filterMap fun d => d.2.map (d.1, ·)))

/-- The JSON text, `null` for `undefined`. -/
def jsonText? (g : ObjectGraph) : Option Text :=
  (serialize g (g.size + 1) [] g.root).map fun v => (v.map (jsonText unitsQuoting).write).getD "null".toList

/-- The recursion of `stableStringify`, which has no stack to look at. -/
def stableText (g : ObjectGraph) : Nat → Value g.size → Option Text
  | _, .prim p => p.shown.map fun v => (v.map (scalarText unitsQuoting)).getD "null".toList
  | 0, .object _ => none
  | fuel + 1, .object i =>
    match g.content i with
    | .arr xs => (xs.mapM (stableText g fuel)).map fun ts => '[' :: joinComma ts ++ [']']
    | .obj es => (es.mapM fun e => (stableText g fuel e.2).map (e.1, ·)).map fun ts =>
        '{' :: joinComma ((sortByKey (·.1) ts).map fun e => quoteUnits e.1 ++ ':' :: e.2) ++ ['}']

/-- `none` where it throws, or goes deeper than there are objects and so never ends. -/
def stableText? (g : ObjectGraph) : Option Text := stableText g (g.size + 1) g.root

def utf8Length (t : Text) : Nat := (t.map Char.utf8Size).sum

/-- A text that is longer than the engine's longest string throws. -/
def held (maxLength : Nat) (text : Option Text) : Option Text :=
  text.filter fun t => (t.flatMap utf16).length ≤ maxLength

def safeStringify (maxLength : Nat) (text : Option Text) : Text := (held maxLength text).getD []

def maxResultBytes : Nat := 64 * 1024
def maxInputBytes : Nat := 512 * 1024
def maxScriptChars : Nat := 20000
def maxResultDepth : Nat := 12

inductive FailureReason where
  | compileError | timeout | memoryLimit | runtimeError | unclonableResult | oversizedResult | excessiveNesting
  | oversizedInput | scriptTooLarge
  deriving DecidableEq

structure MappingScriptInput where
  fields : Fields
  sourceState : Option String
  targetState : Option String
  sourceToTarget : Bool

structure MappingScriptOptions where
  timeoutMs : Nat := 500
  memoryLimitMb : Nat := 16

abbrev Outcome := Except (FailureReason × String) ObjectGraph

/-- The engine: what a script returns or how it fails in an isolate, and the
length of the longest string. -/
structure Engine where
  run : String → MappingScriptInput → MappingScriptOptions → Outcome
  maxLength : Nat

/-- What is refused before a script runs. -/
def inputFailure (E : Engine) (code : String) (input : MappingScriptInput) : Option (FailureReason × String) :=
  let bytes := utf8Length (safeStringify E.maxLength (some (render (.obj input.fields))))
  if trimString code = "" then some (.compileError, "Script body is empty")
  else if maxScriptChars < (units code).length then some (.scriptTooLarge, "Script exceeds 20000 characters")
  else if maxInputBytes < bytes then
    some (.oversizedInput, "Source fields are " ++ toString bytes ++
      " bytes, exceeding the 524288-byte limit for scripted transforms")
  else none

def checkResult (E : Engine) (raw : ObjectGraph) : Outcome :=
  let bytes := utf8Length (safeStringify E.maxLength (jsonText? raw))
  if maxResultBytes < bytes then
    .error (.oversizedResult, "The transform returned " ++ toString bytes ++ " bytes, exceeding the 65536-byte limit")
  else if maxResultDepth < valueDepth raw then
    .error (.excessiveNesting, "The transform returned a value nested " ++ toString (valueDepth raw) ++
      " levels deep, exceeding the 12-level limit")
  else .ok raw

def runMappingScript (E : Engine) (code : String) (input : MappingScriptInput) (options : MappingScriptOptions) :
    Outcome :=
  match inputFailure E code input with
  | some failure => .error failure
  | none => E.run code input options >>= checkResult E

/-! ## Bounded trees -/

section
variable (g : ObjectGraph)

def Refers (i j : Fin g.size) : Prop := .object j ∈ (g.content i).children

structure PathFrom (v : Value g.size) (l : List (Fin g.size)) : Prop where
  starts : ∀ i ∈ l.head?, v = .object i
  chain : l.IsChain (Refers g)

/-- The level at which the walk of `valueDepth` enters an object. -/
def level (i : Fin g.size) : Nat := levelIn (depthWalk g).2 i

/-- A tree within the limits that has both texts. -/
structure BoundedTree (maxLength : Nat) : Prop where
  acyclic : ∀ l, PathFrom g g.root l → l.Nodup
  shallow : ∀ l, PathFrom g g.root l → l.length ≤ maxResultDepth
  text : ∃ t, held maxLength (jsonText? g) = some t ∧ utf8Length t ≤ maxResultBytes
  stable : ∃ t, held maxLength (stableText? g) = some t

/-- No `BigInt` is reached. -/
def NoBigInt : Prop :=
  (∀ k, g.root ≠ .prim (.bigint k)) ∧ ∀ l, PathFrom g g.root l → ∀ i ∈ l, ∀ k, .prim (.bigint k) ∉ (g.content i).children

/-- What the two checks rest on: nothing but a cycle keeps a value from being
written, and no long path goes through a reference that does not lead to the next level. -/
structure Measured (maxLength : Nat) : Prop where
  plain : NoBigInt g
  fits : ∀ t ∈ jsonText? g, (t.flatMap utf16).length ≤ maxLength
  stableFits : ∀ t ∈ stableText? g, (t.flatMap utf16).length ≤ maxLength
  offLevel : ∀ l, PathFrom g g.root l → ¬ l.IsChain (fun i j => level g j = level g i + 1) → l.length ≤ maxResultDepth

end

section
variable {g : ObjectGraph} {v c : Value g.size} {i : Fin g.size} {l : List (Fin g.size)}

theorem PathFrom.cons (hc : c ∈ (g.content i).children) (h : PathFrom g c l) : PathFrom g (.object i) (i :: l) where
  starts j hj := by rw [Option.some.inj hj]
  chain := List.isChain_cons.mpr ⟨fun j hj => by rw [Refers, ← h.starts j hj]; exact hc, h.chain⟩

theorem PathFrom.single (i : Fin g.size) : PathFrom g (.object i) [i] :=
  ⟨fun j hj => by rw [Option.some.inj hj], .singleton i⟩

theorem mapM_isSome {α β : Type} {f : α → Option β} {xs : List α} :
    (xs.mapM f).isSome = true ↔ ∀ x ∈ xs, (f x).isSome = true := by
  induction xs with
  | nil => simp
  | cons x xs ih =>
    rw [List.mapM_cons, List.forall_mem_cons, ← ih]
    cases f x <;> cases xs.mapM f <;> simp

theorem serialize_object {fuel : Nat} {stack : List (Fin g.size)} :
    (serialize g (fuel + 1) stack (.object i)).isSome = true ↔
      i ∉ stack ∧ ∀ c ∈ (g.content i).children, (serialize g fuel (i :: stack) c).isSome = true := by
  rw [serialize]
  split
  · rename_i hmem
    exact iff_of_false (by simp) fun h => h.1 hmem
  · rename_i hnew
    rw [and_iff_right hnew]
    cases g.content i with
    | arr xs => rw [Option.isSome_map, mapM_isSome, Content.children]
    | obj es =>
      rw [Option.isSome_map, mapM_isSome, Content.children, List.forall_mem_map]
      simp only [Option.isSome_map]

theorem serialize_prim {fuel : Nat} {stack : List (Fin g.size)} {p : Primitive} :
    (serialize g fuel stack (.prim p)).isSome = true ↔ ∀ k, p ≠ .bigint k := by
  rw [serialize, Option.isSome_map]
  cases p <;> simp [Primitive.shown]

theorem stableText_of_serialize {fuel : Nat} {stack : List (Fin g.size)}
    (h : (serialize g fuel stack v).isSome = true) : (stableText g fuel v).isSome = true := by
  induction fuel generalizing stack v with
  | zero =>
    cases v with
    | prim p => rwa [stableText, Option.isSome_map, ← Option.isSome_map, ← serialize]
    | object i => cases h
  | succ fuel ih =>
    cases v with
    | prim p => rwa [stableText, Option.isSome_map, ← Option.isSome_map, ← serialize]
    | object i =>
      obtain ⟨-, hchildren⟩ := serialize_object.mp h
      rw [stableText]
      split <;> rename_i hcontent <;> rw [Option.isSome_map, mapM_isSome] <;> rw [hcontent, Content.children] at hchildren
      · exact fun c hc => ih (hchildren c hc)
      · exact fun e he => by rw [Option.isSome_map]; exact ih (hchildren e.2 (List.mem_map_of_mem he))

theorem no_bigint_of_serialize {fuel : Nat} {stack : List (Fin g.size)}
    (h : (serialize g fuel stack v).isSome = true) :
    (∀ k, v ≠ .prim (.bigint k)) ∧ ∀ l, PathFrom g v l → ∀ i ∈ l, ∀ k, .prim (.bigint k) ∉ (g.content i).children := by
  induction fuel generalizing stack v with
  | zero =>
    cases v with
    | object i => cases h
    | prim p =>
      refine ⟨fun k hk => serialize_prim.mp h k (Value.prim.inj hk), fun l hl i hi => ?_⟩
      cases l with
      | nil => cases hi
      | cons j l => cases hl.starts j rfl
  | succ fuel ih =>
    cases v with
    | prim p =>
      refine ⟨fun k hk => serialize_prim.mp h k (Value.prim.inj hk), fun l hl i hi => ?_⟩
      cases l with
      | nil => cases hi
      | cons j l => cases hl.starts j rfl
    | object i =>
      obtain ⟨-, hchildren⟩ := serialize_object.mp h
      refine ⟨fun k => nofun, fun l hl j hj k => ?_⟩
      cases l with
      | nil => cases hj
      | cons j' l =>
        obtain rfl := Value.object.inj (hl.starts j' rfl)
        rcases List.mem_cons.mp hj with rfl | hj
        · exact fun hbig => (ih (hchildren _ hbig)).1 k rfl
        · cases l with
          | nil => cases hj
          | cons m l =>
            obtain ⟨him, hrest⟩ := List.isChain_cons_cons.mp hl.chain
            exact (ih (hchildren _ him)).2 (m :: l) ⟨fun x hx => by rw [Option.some.inj hx], hrest⟩ j hj k

theorem serialize_of_acyclic {fuel : Nat} {stack : List (Fin g.size)} (hfuel : fuel + stack.length = g.size + 1)
    (hacyclic : ∀ l, PathFrom g v l → (stack.reverse ++ l).Nodup) (hroot : ∀ k, v ≠ .prim (.bigint k))
    (hplain : ∀ l, PathFrom g v l → ∀ i ∈ l, ∀ k, .prim (.bigint k) ∉ (g.content i).children) :
    (serialize g fuel stack v).isSome = true := by
  induction fuel generalizing stack v with
  | zero =>
    cases v with
    | prim p => exact serialize_prim.mpr fun k hk => hroot k (by rw [hk])
    | object i =>
      have hle := (hacyclic [] ⟨nofun, .nil⟩).length_le_card
      rw [List.append_nil, List.length_reverse, Fintype.card_fin] at hle
      omega
  | succ fuel ih =>
    cases v with
    | prim p => exact serialize_prim.mpr fun k hk => hroot k (by rw [hk])
    | object i =>
      have hi := hacyclic [i] (.single i)
      rw [List.nodup_append] at hi
      refine serialize_object.mpr ⟨fun hmem => ?_, fun c hc => ih (by rw [List.length_cons]; omega) (fun l hl => ?_) ?_ ?_⟩
      · exact hi.2.2 i (List.mem_reverse.mpr hmem) i (List.mem_singleton_self i) rfl
      · rw [List.reverse_cons, List.append_assoc]
        exact hacyclic (i :: l) (hl.cons hc)
      · rintro k rfl
        exact hplain [i] (.single i) i (List.mem_singleton_self i) k hc
      · exact fun l hl j hj => hplain (i :: l) (hl.cons hc) j (List.mem_cons_of_mem _ hj)

theorem length_le_valueDepth (hl : PathFrom g g.root l)
    (hlevels : l.IsChain fun i j => level g j = level g i + 1) : l.length ≤ valueDepth g := by
  cases l with
  | nil => exact Nat.zero_le _
  | cons i l =>
    have hroot : g.root.object? = some i := by rw [hl.starts i rfl, Value.object?]
    unfold level depthWalk at hlevels
    rw [hroot] at hlevels
    rw [valueDepth, depthWalk, hroot]
    exact length_le_depth hlevels

theorem held_eq_some {maxLength : Nat} {text : Option Text} {t : Text} :
    held maxLength text = some t ↔ text = some t ∧ (t.flatMap utf16).length ≤ maxLength := by
  rw [held, Option.filter_eq_some_iff, decide_eq_true_iff]

theorem BoundedTree.measured {maxLength : Nat} (h : BoundedTree g maxLength) : Measured g maxLength := by
  obtain ⟨t, htext, -⟩ := h.text
  obtain ⟨s, hstable⟩ := h.stable
  rw [held_eq_some] at htext hstable
  have hwritten : (serialize g (g.size + 1) [] g.root).isSome = true := by
    rw [← Option.isSome_map, ← jsonText?, htext.1]
    rfl
  refine ⟨no_bigint_of_serialize hwritten, ?_, ?_, fun l hl _ => h.shallow l hl⟩
  · exact fun t' ht => Option.some.inj (ht.symm.trans htext.1) ▸ htext.2
  · exact fun s' hs => Option.some.inj (hs.symm.trans hstable.1) ▸ hstable.2

theorem Measured.bounded {maxLength : Nat} (h : Measured g maxLength) (hdepth : valueDepth g ≤ maxResultDepth)
    (hbytes : utf8Length (safeStringify maxLength (jsonText? g)) ≤ maxResultBytes) : BoundedTree g maxLength := by
  have hshallow : ∀ l, PathFrom g g.root l → l.length ≤ maxResultDepth := fun l hl => by
    by_cases hlevels : l.IsChain fun i j => level g j = level g i + 1
    · exact (length_le_valueDepth hl hlevels).trans hdepth
    · exact h.offLevel l hl hlevels
  have hacyclic : ∀ l, PathFrom g g.root l → l.Nodup := fun l hl =>
    nodup_of_bounded (P := fun l => ∀ i ∈ l.head?, g.root = .object i) (fun l l' heq hl => by rwa [← heq]) hl.starts
      hl.chain fun l hl hchain => hshallow l ⟨hl, hchain⟩
  have hwritten : (serialize g (g.size + 1) [] g.root).isSome = true :=
    serialize_of_acyclic rfl hacyclic h.plain.1 h.plain.2
  have htext : (jsonText? g).isSome = true := by rwa [jsonText?, Option.isSome_map]
  obtain ⟨t, ht⟩ := Option.isSome_iff_exists.mp htext
  obtain ⟨s, hs⟩ := Option.isSome_iff_exists.mp (stableText_of_serialize hwritten)
  have hheld := held_eq_some.mpr ⟨ht, h.fits t ht⟩
  rw [safeStringify, hheld] at hbytes
  exact ⟨hacyclic, hshallow, ⟨t, hheld, hbytes⟩, ⟨s, held_eq_some.mpr ⟨hs, h.stableFits s hs⟩⟩⟩

end

section
variable {E : Engine} {code : String} {input : MappingScriptInput} {options : MappingScriptOptions} {raw : ObjectGraph}

theorem runMappingScript_ok_iff (hbefore : inputFailure E code input = none) (hrun : E.run code input options = .ok raw) :
    runMappingScript E code input options = .ok raw ↔
      utf8Length (safeStringify E.maxLength (jsonText? raw)) ≤ maxResultBytes ∧ valueDepth raw ≤ maxResultDepth := by
  rw [runMappingScript, hbefore]
  dsimp only
  rw [hrun]
  show checkResult E raw = _ ↔ _
  rw [checkResult]
  split
  · rename_i hbytes
    exact iff_of_false nofun fun h => absurd h.1 (Nat.not_le.mpr hbytes)
  · rename_i hbytes
    split
    · rename_i hdepth
      exact iff_of_false nofun fun h => absurd h.2 (Nat.not_le.mpr hdepth)
    · rename_i hdepth
      exact iff_of_true rfl ⟨Nat.not_lt.mp hbytes, Nat.not_lt.mp hdepth⟩

/-- **An accepted result is a bounded tree** exactly when a check stops it or the
checks have seen all of it. -/
theorem script_results_iff (hbefore : inputFailure E code input = none) (hrun : E.run code input options = .ok raw) :
    (runMappingScript E code input options = .ok raw → BoundedTree raw E.maxLength) ↔
      maxResultDepth < valueDepth raw ∨
        (∃ t, held E.maxLength (jsonText? raw) = some t ∧ maxResultBytes < utf8Length t) ∨
        Measured raw E.maxLength := by
  rw [runMappingScript_ok_iff hbefore hrun]
  constructor
  · intro h
    by_cases hdepth : maxResultDepth < valueDepth raw
    · exact .inl hdepth
    · by_cases hbytes : maxResultBytes < utf8Length (safeStringify E.maxLength (jsonText? raw))
      · refine .inr (.inl ?_)
        rw [safeStringify] at hbytes
        cases htext : held E.maxLength (jsonText? raw) with
        | none => rw [htext] at hbytes; cases hbytes
        | some t => rw [htext] at hbytes; exact ⟨t, rfl, hbytes⟩
      · exact .inr (.inr (h ⟨Nat.not_lt.mp hbytes, Nat.not_lt.mp hdepth⟩).measured)
  · rintro h ⟨hbytes, hdepth⟩
    rcases h with h | ⟨t, htext, hlong⟩ | h
    · exact absurd hdepth (Nat.not_le.mpr h)
    · rw [safeStringify, htext] at hbytes
      exact absurd hbytes (Nat.not_le.mpr hlong)
    · exact h.bounded hdepth hbytes

end

def returning (g : ObjectGraph) : Engine := ⟨fun _ _ _ => .ok g, 536870888⟩

def noFields : MappingScriptInput := ⟨[], none, none, true⟩

/-- `[o, o]` with one empty array `o`. -/
def sharedPair : ObjectGraph where
  size := 2
  content i := .arr (if i = 0 then [.object 1, .object 1] else [])
  root := .object 0

theorem sharedPair_children {i : Fin 2} {c : Value 2} (h : c ∈ (sharedPair.content i).children) :
    i = 0 ∧ c = .object 1 := by
  change c ∈ (if i = 0 then [.object 1, .object 1] else []) at h
  split at h
  · exact ⟨‹_›, by simpa using h⟩
  · cases h

theorem sharedPair_bounded :
    runMappingScript (returning sharedPair) "return fields" noFields {} = .ok sharedPair ∧
      BoundedTree sharedPair 536870888 := by
  have hbefore : inputFailure (returning sharedPair) "return fields" noFields = none := rfl
  have hrun : (returning sharedPair).run "return fields" noFields {} = .ok sharedPair := rfl
  refine ⟨rfl, (script_results_iff hbefore hrun).mpr (.inr (.inr ?_)) rfl⟩
  refine ⟨⟨nofun, fun l hl i hi k h => ?_⟩, ?_, ?_, fun l hl hoff => ?_⟩
  · cases (sharedPair_children h).2
  · rintro t ⟨⟩
    decide
  · rintro t ⟨⟩
    decide
  · refine absurd (hl.chain.imp fun i j hij => ?_) hoff
    obtain ⟨rfl, hj⟩ := sharedPair_children hij
    obtain rfl := Value.object.inj hj
    rfl

/-- An array that holds itself has no text, and its depth is 1. -/
def selfRef : ObjectGraph where
  size := 1
  content _ := .arr [.object 0]
  root := .object 0

theorem selfRef_accepted :
    ¬ ∀ (E : Engine) (code : String) (input : MappingScriptInput) (options : MappingScriptOptions) (raw : ObjectGraph),
      runMappingScript E code input options = .ok raw → BoundedTree raw E.maxLength := by
  intro h
  have htree := h (returning selfRef) "return fields" noFields {} selfRef rfl
  have hround : PathFrom selfRef selfRef.root [(0 : Fin 1), (0 : Fin 1)] :=
    ⟨fun i hi => by rw [← Option.some.inj hi]; rfl, List.isChain_pair.mpr List.mem_cons_self⟩
  exact (List.nodup_cons.mp (htree.acyclic _ hround)).1 List.mem_cons_self

end Cadena.Connectors.Scripts
