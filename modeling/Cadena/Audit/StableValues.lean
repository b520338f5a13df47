import Cadena.Audit.Integrity
import Cadena.Base.CodeUnits
import Cadena.Base.TreeMaps
import Mathlib.Data.List.Lex
import Mathlib.Order.Fin.Basic

/-!
# The values behind canonical texts

`stableStringify` on everything that `JSON.parse` returns, surrogates that stand
alone and numbers too large for a double among it. On values whose strings are
texts of characters it is the `stableStringify` of the audit chain.
-/

namespace Cadena.Audit

open Cadena.Base Page

/-- A value that is no array and no object. -/
inductive JsScalar where
  | null
  | bool (b : Bool)
  | num (n : JsNumber)
  | str (s : JsString)

abbrev JsValue := Tree JsString JsScalar

/-- A result of `JSON.parse`; an object has every key once. -/
structure Parsed where
  value : JsValue
  distinct : value.Distinct

/-- What `JSON.stringify` writes of a scalar. -/
def JsScalar.shown : JsScalar → Scalar JsString
  | .null => .null
  | .bool b => .bool b
  | .num n => shownNumber n
  | .str s => .str s

namespace Values

mutual

/-- `stableStringify`; `sort()` compares keys by their code units. -/
def stableStringify : JsValue → Text
  | .leaf v => scalarText unitsQuoting v.shown
  | .arr xs => '[' :: joinComma (stringifyElems xs) ++ [']']
  | .obj es =>
    '{' :: joinComma ((sortByKey (·.1) (stringifyEntries es)).map fun e => quoteUnits e.1 ++ ':' :: e.2) ++ ['}']

def stringifyElems : List JsValue → List Text
  | [] => []
  | x :: xs => stableStringify x :: stringifyElems xs

def stringifyEntries : List (JsString × JsValue) → List (JsString × Text)
  | [] => []
  | (k, v) :: es => (k, stableStringify v) :: stringifyEntries es

end

theorem joinComma_eq (ts : List Text) : joinComma ts = (jsonText unitsQuoting).join ts := by
  cases ts with
  | nil => rfl
  | cons t ts => rw [joinComma_cons, TreeText.join, List.flatMap_def]; rfl

mutual

theorem stableStringify_eq : ∀ v : JsValue, stableStringify v = (jsonText unitsQuoting).write (v.sorted JsScalar.shown)
  | .leaf v => rfl
  | .arr xs => by
    rw [stableStringify, Tree.sorted, TreeText.write, stringifyElems_eq, joinComma_eq]
    rfl
  | .obj es => by
    rw [stableStringify, Tree.sorted, TreeText.write, stringifyEntries_eq, sortByKey_map, List.map_map,
      TreeText.writeEntries_eq, joinComma_eq]
    rfl

theorem stringifyElems_eq : ∀ xs : List JsValue,
    stringifyElems xs = (jsonText unitsQuoting).writeElems (Tree.sortedElems JsScalar.shown xs)
  | [] => rfl
  | x :: xs => by rw [stringifyElems, Tree.sortedElems, TreeText.writeElems, stableStringify_eq x, stringifyElems_eq xs]

theorem stringifyEntries_eq : ∀ es : List (JsString × JsValue),
    stringifyEntries es = (Tree.sortedEntries JsScalar.shown es).map fun e => (e.1, (jsonText unitsQuoting).write e.2)
  | [] => rfl
  | (k, v) :: es => by
    rw [stringifyEntries, Tree.sortedEntries, List.map_cons, stableStringify_eq v, stringifyEntries_eq es]

end

/-- **The canonical text determines the value** with objects as maps, as far as
numbers are shown. -/
theorem stableStringify_same (a b : Parsed) :
    stableStringify a.value = stableStringify b.value ↔ Tree.Same (·.shown = ·.shown) a.value b.value := by
  rw [← Tree.sorted_eq_iff a.value b.value a.distinct b.distinct, stableStringify_eq, stableStringify_eq]
  constructor
  · intro h
    have htext := congrArg (· ++ ([] : Text)) h
    exact ((jsonText unitsQuoting).reads _ _ [] [] delimited_nil delimited_nil htext).1
  · exact fun h => by rw [h]

def SameScalar (v w : JsScalar) : Prop :=
  v = w ∨ ∀ x ∈ [v, w], x = .num .negZero ∨ x = .num (.finite zeroText)

/-- `1e999` is parsed to an infinity, which is written `null`. -/
theorem infinity_as_null :
    ¬ ∀ a b : Parsed, stableStringify a.value = stableStringify b.value ↔ Tree.Same SameScalar a.value b.value := by
  intro h
  have hsame := (h ⟨.leaf (.num (.infinity false)), trivial⟩ ⟨.leaf .null, trivial⟩).mp rfl
  rcases hsame with hsame | hsame
  · cases hsame
  · rcases hsame .null (List.mem_cons_of_mem _ List.mem_cons_self) with h | h <;> cases h

/-! ## Values of characters -/

mutual

/-- A value whose strings are texts of characters. -/
def ofJson : Json → JsValue
  | .null => .leaf .null
  | .bool b => .leaf (.bool b)
  | .num n => .leaf (.num n)
  | .str s => .leaf (.str (jsString s))
  | .arr xs => .arr (ofElems xs)
  | .obj es => .obj (ofEntries es)

def ofElems : List Json → List JsValue
  | [] => []
  | x :: xs => ofJson x :: ofElems xs

def ofEntries : Fields → List (JsString × JsValue)
  | [] => []
  | (k, v) :: es => (jsString k, ofJson v) :: ofEntries es

end

theorem keyLe_iff (k l : String) : keyLe k l = true ↔ jsString k ≤ jsString l := by
  have hlex (ms ns : Units) (hms : ∀ m ∈ ms, m < 65536) (hns : ∀ n ∈ ns, n < 65536) :
      unitsLe ms ns = true ↔ ¬ ns.map (Fin.ofNat 65536 ·) < ms.map (Fin.ofNat 65536 ·) := by
    induction ms generalizing ns with
    | nil => exact iff_of_true rfl (List.not_lt_nil _)
    | cons m ms ih =>
      cases ns with
      | nil => exact iff_of_false Bool.false_ne_true fun h => h (List.nil_lt_cons _ _)
      | cons n ns =>
        rw [List.forall_mem_cons] at hms hns
        have hm : (Fin.ofNat 65536 m).val = m := Nat.mod_eq_of_lt hms.1
        have hn : (Fin.ofNat 65536 n).val = n := Nat.mod_eq_of_lt hns.1
        rw [unitsLe, Bool.or_eq_true, Bool.and_eq_true, decide_eq_true_eq, beq_iff_eq, ih ns hms.2 hns.2,
          List.map_cons, List.map_cons, List.cons_lt_cons_iff, Fin.lt_def, Fin.ext_iff, hm, hn]
        by_cases hrest : ns.map (Fin.ofNat 65536 ·) < ms.map (Fin.ofNat 65536 ·)
        · simp only [hrest, not_true_eq_false, and_false, and_true, or_false]
          omega
        · simp only [hrest, not_false_eq_true, and_true, and_false, or_false]
          omega
  have hunits (s : String) : ∀ n ∈ units s, n < 65536 := by
    intro n hn
    obtain ⟨c, -, hc⟩ := List.mem_flatMap.mp hn
    exact utf16_lt hc
  rw [← not_lt]
  exact hlex _ _ (hunits k) (hunits l)

theorem sortByKey_jsString {α : Type} (es : List (String × α)) :
    sortByKey (·.1) (es.map fun e => (jsString e.1, e.2)) = (sortEntries es).map fun e => (jsString e.1, e.2) :=
  (List.map_insertionSort (fun a b : String × α => keyLe a.1 b.1 = true) (fun a b : JsString × α => a.1 ≤ b.1)
    (fun e => (jsString e.1, e.2)) es fun a _ b _ => keyLe_iff a.1 b.1).symm

mutual

theorem stableStringify_ofJson : ∀ j : Json, stableStringify (ofJson j) = Audit.stableStringify j
  | .null => rfl
  | .bool b => by cases b <;> rfl
  | .num n => by cases n <;> rfl
  | .str s => quoteUnits_jsString s
  | .arr xs => by rw [ofJson, stableStringify, Audit.stableStringify, stringifyElems_ofElems xs]
  | .obj es => by
    rw [ofJson, stableStringify, Audit.stableStringify, stringifyEntries_ofEntries es, sortByKey_jsString, List.map_map]
    simp only [Function.comp_def, quoteUnits_jsString, entryText]

theorem stringifyElems_ofElems : ∀ xs : List Json, stringifyElems (ofElems xs) = Audit.stringifyElems xs
  | [] => rfl
  | x :: xs => by
    rw [ofElems, stringifyElems, Audit.stringifyElems, stableStringify_ofJson x, stringifyElems_ofElems xs]

theorem stringifyEntries_ofEntries : ∀ es : Fields,
    stringifyEntries (ofEntries es) = (Audit.stringifyEntries es).map fun e => (jsString e.1, e.2)
  | [] => rfl
  | (k, v) :: es => by
    rw [ofEntries, stringifyEntries, Audit.stringifyEntries, List.map_cons, stableStringify_ofJson v,
      stringifyEntries_ofEntries es]

end

end Values

end Cadena.Audit
