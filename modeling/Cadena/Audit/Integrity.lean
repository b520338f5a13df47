import Cadena.Base.Json

/-!
# Canonical text for hashing

`stableStringify` of `audit-integrity.ts`: the text that content hashes,
payload comparisons and the audit chain are computed from.
-/

namespace Cadena.Audit

open Cadena.Base

mutual

/-- JSON canonicalisation used before hashing; object key order can never
change the result. -/
def stableStringify : Json → Text
  | .arr xs => '[' :: joinComma (stringifyElems xs) ++ [']']
  | .obj es =>
    '{' :: joinComma ((sortEntries (stringifyEntries es)).map fun e =>
      entryText e.1 e.2) ++ ['}']
  | .null => render .null
  | .bool b => render (.bool b)
  | .num n => render (.num n)
  | .str s => render (.str s)

def stringifyElems : List Json → List Text
  | [] => []
  | x :: xs => stableStringify x :: stringifyElems xs

def stringifyEntries : List (String × Json) → List (String × Text)
  | [] => []
  | (k, v) :: es => (k, stableStringify v) :: stringifyEntries es

end

mutual

theorem stableStringify_eq : ∀ j : Json, stableStringify j = render (canon j)
  | .null | .bool _ | .str _ => by rw [stableStringify, canon]
  | .num n => by cases n <;> rfl
  | .arr xs => by
    rw [stableStringify, canon, render_arr, stringifyElems_eq]
  | .obj es => by
    rw [stableStringify, canon, render_obj, stringifyEntries_eq,
      sortEntries_map render, List.map_map]
    rfl

theorem stringifyElems_eq : ∀ xs : List Json,
    stringifyElems xs = (canonElems xs).map render
  | [] => rfl
  | x :: xs => by
    rw [stringifyElems, canonElems, List.map_cons, stableStringify_eq x,
      stringifyElems_eq xs]

theorem stringifyEntries_eq : ∀ es : Fields,
    stringifyEntries es = (canonEntries es).map fun e => (e.1, render e.2)
  | [] => rfl
  | (k, v) :: es => by
    rw [stringifyEntries, canonEntries, List.map_cons, stableStringify_eq v,
      stringifyEntries_eq es]

end

/-- **The canonical text determines the value** up to the order of object
keys. -/
theorem stableStringify_inj {a b : Json} :
    stableStringify a = stableStringify b ↔ canon a = canon b := by
  constructor
  · intro h
    rw [stableStringify_eq, stableStringify_eq] at h
    exact render_canon_inj h
  · intro h
    rw [stableStringify_eq, stableStringify_eq, h]

end Cadena.Audit
