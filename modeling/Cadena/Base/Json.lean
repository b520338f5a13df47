import Cadena.Base.TreeText
import Mathlib.Data.List.Sort
import Mathlib.Tactic.IntervalCases

/-!
# JSON values and their canonical text

JSON values as `JSON.parse` returns them, the text of a value with its
object entries in the order they are stored (`render`), and the form
with sorted keys (`canon`). `render` is injective: a value can be read
back from its text, whatever delimiter follows it. Nothing here depends
on the program.

Text is a list of characters, so that scanners and writers recurse on it.
-/

namespace Cadena.Base

abbrev Text := List Char

/-- The characters of a decimal number's text. -/
def isNumberChar (c : Char) : Bool :=
  c.isDigit || c == '-' || c == '+' || c == '.' || c == 'e'

/-- The decimal text of a finite number; different numbers have
different texts, so the text stands for the number. -/
structure NumberText where
  chars : Text
  nonempty : chars ≠ []
  wf : ∀ c ∈ chars, isNumberChar c = true
  deriving DecidableEq

/-- A parsed number. `-0` is a value of its own and an exponent too large
for a double parses to an infinity. -/
inductive JsNumber where
  | finite (text : NumberText)
  | negZero
  | infinity (negative : Bool)
  deriving DecidableEq

inductive Json where
  | null
  | bool (b : Bool)
  | num (n : JsNumber)
  | str (s : String)
  | arr (elems : List Json)
  | obj (entries : List (String × Json))

/-- The entries of an object, in insertion order. -/
abbrev Fields := List (String × Json)

def Json.entries? : Json → Option Fields
  | .obj entries => some entries
  | _ => none

def hexDigit (n : Nat) : Char :=
  if n < 10 then Char.ofNat (48 + n) else Char.ofNat (87 + n)

/-- One character inside a JSON string literal. -/
def escapeChar (c : Char) : Text :=
  if c = '"' then ['\\', '"']
  else if c = '\\' then ['\\', '\\']
  else if c.toNat = 8 then ['\\', 'b']
  else if c.toNat = 9 then ['\\', 't']
  else if c.toNat = 10 then ['\\', 'n']
  else if c.toNat = 12 then ['\\', 'f']
  else if c.toNat = 13 then ['\\', 'r']
  else if c.toNat < 32 then
    ['\\', 'u', '0', '0', hexDigit (c.toNat / 16), hexDigit (c.toNat % 16)]
  else [c]

def quote (s : String) : Text :=
  '"' :: s.toList.flatMap escapeChar ++ ['"']

def zeroText : NumberText := ⟨['0'], by decide, List.all_eq_true.mp (by decide)⟩

/-- `-0` is written `0` and an infinity is written `null`. -/
def renderNumber : JsNumber → Text
  | .finite t => t.chars
  | .negZero => zeroText.chars
  | .infinity _ => "null".toList

mutual

/-- The text of a value, its object entries in stored order. -/
def render : Json → Text
  | .null => "null".toList
  | .bool true => "true".toList
  | .bool false => "false".toList
  | .num n => renderNumber n
  | .str s => quote s
  | .arr [] => "[]".toList
  | .arr (x :: xs) => '[' :: render x ++ renderElems xs
  | .obj [] => "{}".toList
  | .obj ((k, v) :: es) => '{' :: quote k ++ ':' :: render v ++ renderEntries es

/-- The elements after the first, and the closing bracket. -/
def renderElems : List Json → Text
  | [] => [']']
  | x :: xs => ',' :: render x ++ renderElems xs

/-- The entries after the first, and the closing brace. -/
def renderEntries : List (String × Json) → Text
  | [] => ['}']
  | (k, v) :: es => ',' :: quote k ++ ':' :: render v ++ renderEntries es

end

/-! ## Reading an escaped character back -/

def hexValue (c : Char) : Nat :=
  if c.isDigit then c.toNat - 48 else c.toNat - 87

/-- The inverse of `escapeChar`, one character at a time. -/
def unescape : Text → Option (Char × Text)
  | '\\' :: 'u' :: '0' :: '0' :: h :: l :: r =>
    some (Char.ofNat (16 * hexValue h + hexValue l), r)
  | '\\' :: 'b' :: r => some (Char.ofNat 8, r)
  | '\\' :: 't' :: r => some (Char.ofNat 9, r)
  | '\\' :: 'n' :: r => some (Char.ofNat 10, r)
  | '\\' :: 'f' :: r => some (Char.ofNat 12, r)
  | '\\' :: 'r' :: r => some (Char.ofNat 13, r)
  | '\\' :: c :: r => some (c, r)
  | '"' :: _ => none
  | c :: r => some (c, r)
  | [] => none

theorem unescape_escapeChar_control {n : Nat} (h : n < 32) (r : Text) :
    unescape (escapeChar (Char.ofNat n) ++ r) = some (Char.ofNat n, r) := by
  interval_cases n <;> rfl

theorem unescape_escapeChar (c : Char) (r : Text) :
    unescape (escapeChar c ++ r) = some (c, r) := by
  by_cases hctl : c.toNat < 32
  · have hc : Char.ofNat c.toNat = c := Char.ofNat_toNat c
    rw [← hc]
    exact unescape_escapeChar_control hctl r
  · by_cases hq : c = '"'
    · subst hq; rfl
    · by_cases hb : c = '\\'
      · subst hb; rfl
      · have hplain : escapeChar c = [c] := by
          simp only [escapeChar, hq, hb, hctl, if_false]
          simp only [show c.toNat ≠ 8 by omega, show c.toNat ≠ 9 by omega,
            show c.toNat ≠ 10 by omega, show c.toNat ≠ 12 by omega,
            show c.toNat ≠ 13 by omega, if_false]
        rw [hplain, List.singleton_append]
        unfold unescape
        split <;> simp_all

variable {r r' : Text} {t u : NumberText}

theorem pieces_inj {β : Type} {text : β → Text}
    (hinj : ∀ {p q r r'}, text p ++ r = text q ++ r' → p = q ∧ r = r') (hstop : ∀ {p r r'}, text p ++ r ≠ '"' :: r')
    {ps qs : List β} (h : ps.flatMap text ++ '"' :: r = qs.flatMap text ++ '"' :: r') : ps = qs ∧ r = r' := by
  induction ps generalizing qs with
  | nil =>
    cases qs with
    | nil => exact ⟨rfl, (List.cons.inj h).2⟩
    | cons q qs =>
      rw [List.flatMap_cons, List.append_assoc] at h
      exact absurd h.symm hstop
  | cons p ps ih =>
    cases qs with
    | nil =>
      rw [List.flatMap_cons, List.append_assoc] at h
      exact absurd h hstop
    | cons q qs =>
      rw [List.flatMap_cons, List.flatMap_cons, List.append_assoc, List.append_assoc] at h
      obtain ⟨rfl, hrest⟩ := hinj h
      obtain ⟨rfl, hr⟩ := ih hrest
      exact ⟨rfl, hr⟩

theorem escapeChar_inj {c d : Char} (h : escapeChar c ++ r = escapeChar d ++ r') : c = d ∧ r = r' := by
  have hread := congrArg unescape h
  rw [unescape_escapeChar, unescape_escapeChar] at hread
  exact Prod.mk.inj (Option.some.inj hread)

theorem escapeChar_stop {c : Char} : escapeChar c ++ r ≠ '"' :: r' := by
  intro h
  have hread := congrArg unescape h
  rw [unescape_escapeChar] at hread
  cases hread

theorem quote_inj {s t : String} (h : quote s ++ r = quote t ++ r') : s = t ∧ r = r' := by
  simp only [quote, List.cons_append, List.append_assoc, List.nil_append,
    List.cons.injEq, true_and] at h
  obtain ⟨hs, hr⟩ := pieces_inj escapeChar_inj escapeChar_stop h
  exact ⟨String.toList_inj.mp hs, hr⟩

/-! ## Reading a value back -/

/-- A text that cannot continue a number: what follows a value inside a
larger value, or the end. -/
def Delimited (r : Text) : Prop := ∀ c ∈ r.head?, isNumberChar c = false

theorem delimited_nil : Delimited [] := by
  intro c hc
  simp at hc

theorem delimited_cons {c : Char} (h : isNumberChar c = false) : Delimited (c :: r) := by
  intro d hd
  simp only [List.head?_cons, Option.mem_def, Option.some.injEq] at hd
  exact hd ▸ h

theorem number_prefix {x : Text} (hu : u.chars = t.chars ++ x) (hr : Delimited (x ++ r)) : x = [] := by
  cases x with
  | nil => rfl
  | cons c x =>
    have hc : isNumberChar c = true := u.wf c (by simp [hu])
    have hn : isNumberChar c = false := hr c (by simp)
    rw [hc] at hn
    cases hn

theorem NumberText.ext' (h : t.chars = u.chars) : t = u := by
  cases t; cases u; cases h; rfl

theorem numberText_inj (hr : Delimited r)
    (hr' : Delimited r') (h : t.chars ++ r = u.chars ++ r') : t = u ∧ r = r' := by
  rcases List.append_eq_append_iff.mp h with ⟨x, hu, hx⟩ | ⟨x, ht, hx⟩
  · have hnil : x = [] := number_prefix hu (hx ▸ hr)
    subst hnil
    exact ⟨NumberText.ext' (by simpa using hu.symm), by simpa using hx⟩
  · have hnil : x = [] := number_prefix ht (hx ▸ hr')
    subst hnil
    exact ⟨NumberText.ext' (by simpa using ht), by simpa using hx.symm⟩

theorem NumberText.head_cases (t : NumberText) :
    ∃ c cs, t.chars = c :: cs ∧ isNumberChar c = true := by
  cases ht : t.chars with
  | nil => exact absurd ht t.nonempty
  | cons c cs => exact ⟨c, cs, rfl, t.wf c (by simp [ht])⟩

mutual

/-- No number of the value is `-0` or infinite. -/
def Json.Finite : Json → Prop
  | .num (.finite _) => True
  | .num _ => False
  | .arr xs => FiniteElems xs
  | .obj es => FiniteEntries es
  | _ => True

def FiniteElems : List Json → Prop
  | [] => True
  | x :: xs => x.Finite ∧ FiniteElems xs

def FiniteEntries : List (String × Json) → Prop
  | [] => True
  | (_, v) :: es => v.Finite ∧ FiniteEntries es

end

/-! ## Values as trees -/

inductive Scalar (σ : Type) where
  | null
  | bool (b : Bool)
  | num (t : NumberText)
  | str (s : σ)

/-- String literals that can be read back. -/
structure Quoting (σ : Type) where
  quote : σ → Text
  opens : ∀ s, ∃ t, quote s = '"' :: t
  inj : ∀ s t r r', quote s ++ r = quote t ++ r' → s = t ∧ r = r'

section
variable {σ : Type} (Q : Quoting σ)

def scalarText : Scalar σ → Text
  | .null => "null".toList
  | .bool true => "true".toList
  | .bool false => "false".toList
  | .num t => t.chars
  | .str s => Q.quote s

/-- What the first character says of a scalar. -/
def Scalar.Starts (c : Char) : Scalar σ → Prop
  | .null => c = 'n'
  | .bool true => c = 't'
  | .bool false => c = 'f'
  | .num _ => isNumberChar c = true
  | .str _ => c = '"'

theorem scalarText_starts (v : Scalar σ) : ∃ c cs, scalarText Q v = c :: cs ∧ v.Starts c := by
  match v with
  | .null | .bool true | .bool false => exact ⟨_, _, rfl, rfl⟩
  | .num t => exact t.head_cases
  | .str s =>
    obtain ⟨cs, hcs⟩ := Q.opens s
    exact ⟨_, cs, hcs, rfl⟩

theorem scalarText_inj (v w : Scalar σ) (r r' : Text) (hr : Delimited r) (hr' : Delimited r')
    (h : scalarText Q v ++ r = scalarText Q w ++ r') : v = w ∧ r = r' := by
  obtain ⟨c, cs, hv, hc⟩ := scalarText_starts Q v
  obtain ⟨d, ds, hw, hd⟩ := scalarText_starts Q w
  obtain rfl : c = d := by
    rw [hv, hw] at h
    exact (List.cons.inj h).1
  match v, w with
  | .null, .null | .bool true, .bool true | .bool false, .bool false => exact ⟨rfl, List.append_cancel_left h⟩
  | .num t, .num u =>
    obtain ⟨rfl, hrest⟩ := numberText_inj hr hr' h
    exact ⟨rfl, hrest⟩
  | .str s, .str t =>
    obtain ⟨rfl, hrest⟩ := Q.inj s t r r' h
    exact ⟨rfl, hrest⟩
  | .null, .bool true | .null, .bool false | .null, .num _ | .null, .str _ | .bool true, .null | .bool true, .bool false
  | .bool true, .num _ | .bool true, .str _ | .bool false, .null | .bool false, .bool true | .bool false, .num _
  | .bool false, .str _ | .str _, .null | .str _, .bool true | .str _, .bool false | .str _, .num _ =>
    cases hc
    exact absurd hd (by simp [Scalar.Starts, isNumberChar])
  | .num _, .null | .num _, .bool true | .num _, .bool false | .num _, .str _ =>
    cases hd
    exact absurd hc (by simp [Scalar.Starts, isNumberChar])

def jsonText : TreeText σ (Scalar σ) Char where
  openArr := '['
  closeArr := ']'
  openObj := '{'
  closeObj := '}'
  comma := ','
  colon := ':'
  key := Q.quote
  leaf := scalarText Q
  Ends := Delimited
  marks := by decide
  ends c r h := delimited_cons (by rcases h with rfl | rfl | rfl <;> decide)
  key_inj := Q.inj
  key_close k r r' h := by
    obtain ⟨t, ht⟩ := Q.opens k
    rw [ht] at h
    exact absurd (List.cons.inj h).1 (by decide)
  leaf_inj := scalarText_inj Q
  leaf_open v c r r' hmark h := by
    obtain ⟨d, ds, hv, hd⟩ := scalarText_starts Q v
    rw [hv] at h
    obtain rfl := (List.cons.inj h).1
    revert hd
    rcases hmark with rfl | rfl | rfl <;> rcases v with _ | (_ | _) | _ | _ <;> simp [Scalar.Starts, isNumberChar]

end

def stringQuoting : Quoting String := ⟨quote, fun _ => ⟨_, rfl⟩, fun _ _ _ _ => quote_inj⟩

def shownNumber {σ : Type} : JsNumber → Scalar σ
  | .finite t => .num t
  | .negZero => .num zeroText
  | .infinity _ => .null

mutual

/-- What the text shows of a value. -/
def Json.tree : Json → Tree String (Scalar String)
  | .null => .leaf .null
  | .bool b => .leaf (.bool b)
  | .num n => .leaf (shownNumber n)
  | .str s => .leaf (.str s)
  | .arr xs => .arr (treeElems xs)
  | .obj es => .obj (treeEntries es)

def treeElems : List Json → List (Tree String (Scalar String))
  | [] => []
  | x :: xs => x.tree :: treeElems xs

def treeEntries : Fields → List (String × Tree String (Scalar String))
  | [] => []
  | (k, v) :: es => (k, v.tree) :: treeEntries es

end

mutual

theorem render_tree : ∀ j : Json, render j = (jsonText stringQuoting).write j.tree
  | .null | .str _ | .arr [] | .obj [] => rfl
  | .bool b => by cases b <;> rfl
  | .num n => by cases n <;> rfl
  | .arr (x :: xs) => by
    rw [render, render_tree x, renderElems_tree xs, ← List.append_assoc]
    rfl
  | .obj ((k, v) :: es) => by
    rw [render, render_tree v, renderEntries_tree es, ← List.append_assoc, List.cons_append, List.append_assoc,
      ← List.append_assoc]
    rfl

theorem renderElems_tree : ∀ xs : List Json,
    renderElems xs = ((jsonText stringQuoting).writeElems (treeElems xs)).flatMap (',' :: ·) ++ [']']
  | [] => rfl
  | x :: xs => by
    rw [renderElems, render_tree x, renderElems_tree xs, ← List.append_assoc]
    rfl

theorem renderEntries_tree : ∀ es : Fields,
    renderEntries es = ((jsonText stringQuoting).writeEntries (treeEntries es)).flatMap (',' :: ·) ++ ['}']
  | [] => rfl
  | (k, v) :: es => by
    rw [renderEntries, render_tree v, renderEntries_tree es]
    simp [treeEntries, TreeText.writeEntries, jsonText, stringQuoting]

end

mutual

theorem tree_inj : ∀ a b : Json, a.Finite → b.Finite → a.tree = b.tree → a = b
  | .num (.finite t), .num (.finite u), _, _, h => by cases h; rfl
  | .null, .null, _, _, _ => rfl
  | .bool _, .bool _, _, _, h | .str _, .str _, _, _, h => by cases h; rfl
  | .arr xs, .arr ys, ha, hb, h => by rw [treeElems_inj xs ys ha hb (Tree.arr.inj h)]
  | .obj es, .obj ds, ha, hb, h => by rw [treeEntries_inj es ds ha hb (Tree.obj.inj h)]

theorem treeElems_inj : ∀ xs ys : List Json, FiniteElems xs → FiniteElems ys → treeElems xs = treeElems ys → xs = ys
  | [], [], _, _, _ => rfl
  | x :: xs, y :: ys, ha, hb, h => by
    obtain ⟨hx, hxs⟩ := List.cons.inj h
    rw [tree_inj x y ha.1 hb.1 hx, treeElems_inj xs ys ha.2 hb.2 hxs]

theorem treeEntries_inj : ∀ es ds : Fields, FiniteEntries es → FiniteEntries ds → treeEntries es = treeEntries ds → es = ds
  | [], [], _, _, _ => rfl
  | (k, v) :: es, (l, w) :: ds, ha, hb, h => by
    obtain ⟨he, hes⟩ := List.cons.inj h
    obtain ⟨rfl, hv⟩ := Prod.mk.inj he
    rw [tree_inj v w ha.1 hb.1 hv, treeEntries_inj es ds ha.2 hb.2 hes]

end

/-- **The text determines the value**, and where the value ends. -/
theorem render_inj (a b : Json) {r r' : Text} (ha : a.Finite) (hb : b.Finite) (hr : Delimited r) (hr' : Delimited r')
    (h : render a ++ r = render b ++ r') : a = b ∧ r = r' := by
  rw [render_tree, render_tree] at h
  obtain ⟨htree, hrest⟩ := (jsonText stringQuoting).reads a.tree b.tree r r' hr hr' h
  exact ⟨tree_inj a b ha hb htree, hrest⟩

/-! ## Canonical form: sorted keys -/

/-- The UTF-16 code units of a character. -/
def utf16 (c : Char) : List Nat :=
  if c.toNat < 0x10000 then [c.toNat]
  else [0xD800 + (c.toNat - 0x10000) / 0x400, 0xDC00 + (c.toNat - 0x10000) % 0x400]

/-- Lexicographic order of code units. -/
def unitsLe : List Nat → List Nat → Bool
  | [], _ => true
  | _ :: _, [] => false
  | m :: ms, n :: ns => m < n || (m == n && unitsLe ms ns)

/-- The order in which strings sort: by UTF-16 code units. -/
def keyLe (k l : String) : Bool :=
  unitsLe (k.toList.flatMap utf16) (l.toList.flatMap utf16)

def sortEntries {α : Type} (es : List (String × α)) : List (String × α) :=
  es.insertionSort (fun a b => keyLe a.1 b.1 = true)

theorem sortEntries_map {α β : Type} (f : α → β) (es : List (String × α)) :
    sortEntries (es.map fun e => (e.1, f e.2))
      = (sortEntries es).map fun e => (e.1, f e.2) := by
  exact (List.map_insertionSort (fun a b : String × α => keyLe a.1 b.1 = true)
    (fun a b : String × β => keyLe a.1 b.1 = true) (fun e => (e.1, f e.2)) es
    (fun _ _ _ _ => Iff.rfl)).symm

@[simp] theorem mem_sortEntries {α : Type} {e : String × α} {es : List (String × α)} :
    e ∈ sortEntries es ↔ e ∈ es :=
  List.mem_insertionSort _

theorem sortEntries_values {α β : Type} {f g : α → β} {es : List (String × α)}
    (h : sortEntries (es.map fun e => (e.1, f e.2)) = sortEntries (es.map fun e => (e.1, g e.2))) :
    ∀ e ∈ es, f e.2 = g e.2 := by
  rw [sortEntries_map, sortEntries_map] at h
  intro e he
  have hpair := List.map_inj_left.mp h e (mem_sortEntries.mpr he)
  exact congrArg Prod.snd hpair

def canonNumber : JsNumber → Json
  | .finite t => .num (.finite t)
  | .negZero => .num (.finite zeroText)
  | .infinity _ => .null

mutual

/-- The value with the keys of every object sorted and the numbers as
their text keeps them. -/
def canon : Json → Json
  | .num n => canonNumber n
  | .arr xs => .arr (canonElems xs)
  | .obj es => .obj (sortEntries (canonEntries es))
  | .null => .null
  | .bool b => .bool b
  | .str s => .str s

def canonElems : List Json → List Json
  | [] => []
  | x :: xs => canon x :: canonElems xs

def canonEntries : List (String × Json) → List (String × Json)
  | [] => []
  | (k, v) :: es => (k, canon v) :: canonEntries es

end

theorem canonElems_eq (xs : List Json) : canonElems xs = xs.map canon := by
  induction xs with
  | nil => rfl
  | cons x xs ih => rw [canonElems, ih, List.map_cons]

theorem canonEntries_eq (es : Fields) :
    canonEntries es = es.map fun e => (e.1, canon e.2) := by
  induction es with
  | nil => rfl
  | cons e es ih => rw [canonEntries, ih, List.map_cons]

theorem finiteElems_iff (xs : List Json) : FiniteElems xs ↔ ∀ x ∈ xs, x.Finite := by
  induction xs with
  | nil => simp [FiniteElems]
  | cons x xs ih => simp [FiniteElems, ih]

theorem finiteEntries_iff (es : Fields) : FiniteEntries es ↔ ∀ e ∈ es, e.2.Finite := by
  induction es with
  | nil => simp [FiniteEntries]
  | cons e es ih => simp [FiniteEntries, ih]

theorem canonNumber_finite (n : JsNumber) : (canonNumber n).Finite := by
  cases n <;> trivial

mutual

theorem canon_finite : ∀ j : Json, (canon j).Finite
  | .null | .bool _ | .str _ => by simp [canon, Json.Finite]
  | .num n => by simpa only [canon] using canonNumber_finite n
  | .arr xs => by
    simp only [canon, Json.Finite]
    exact canonElems_finite xs
  | .obj es => by
    simp only [canon, Json.Finite, finiteEntries_iff, mem_sortEntries]
    exact (finiteEntries_iff _).mp (canonEntries_finite es)

theorem canonElems_finite : ∀ xs : List Json, FiniteElems (canonElems xs)
  | [] => trivial
  | x :: xs => ⟨canon_finite x, canonElems_finite xs⟩

theorem canonEntries_finite : ∀ es : Fields, FiniteEntries (canonEntries es)
  | [] => trivial
  | (_, v) :: es => ⟨canon_finite v, canonEntries_finite es⟩

end

theorem render_canon_inj {a b : Json} (h : render (canon a) = render (canon b)) :
    canon a = canon b := by
  have h' : render (canon a) ++ [] = render (canon b) ++ [] := by rw [h]
  exact (render_inj _ _ (canon_finite a) (canon_finite b) delimited_nil
    delimited_nil h').1

/-! ## What the text keeps of a value -/

mutual

/-- The value that is read back from the text of a value. -/
def parsed : Json → Json
  | .num n => canonNumber n
  | .arr xs => .arr (parsedElems xs)
  | .obj es => .obj (parsedEntries es)
  | .null => .null
  | .bool b => .bool b
  | .str s => .str s

def parsedElems : List Json → List Json
  | [] => []
  | x :: xs => parsed x :: parsedElems xs

def parsedEntries : List (String × Json) → List (String × Json)
  | [] => []
  | (k, v) :: es => (k, parsed v) :: parsedEntries es

end

mutual

theorem parsed_finite : ∀ j : Json, (parsed j).Finite
  | .null | .bool _ | .str _ => by simp [parsed, Json.Finite]
  | .num n => by simpa only [parsed] using canonNumber_finite n
  | .arr xs => by
    simp only [parsed, Json.Finite]
    exact parsedElems_finite xs
  | .obj es => by
    simp only [parsed, Json.Finite]
    exact parsedEntries_finite es

theorem parsedElems_finite : ∀ xs : List Json, FiniteElems (parsedElems xs)
  | [] => trivial
  | x :: xs => ⟨parsed_finite x, parsedElems_finite xs⟩

theorem parsedEntries_finite : ∀ es : Fields, FiniteEntries (parsedEntries es)
  | [] => trivial
  | (_, v) :: es => ⟨parsed_finite v, parsedEntries_finite es⟩

end

mutual

theorem render_parsed : ∀ j : Json, render (parsed j) = render j
  | .null | .bool _ | .str _ => by simp [parsed]
  | .num n => by cases n <;> rfl
  | .arr [] => rfl
  | .arr (x :: xs) => by
    simp only [parsed, parsedElems, render, render_parsed x, renderElems_parsed xs]
  | .obj [] => rfl
  | .obj ((k, v) :: es) => by
    simp only [parsed, parsedEntries, render, render_parsed v, renderEntries_parsed es]

theorem renderElems_parsed : ∀ xs : List Json, renderElems (parsedElems xs) = renderElems xs
  | [] => rfl
  | x :: xs => by simp only [parsedElems, renderElems, render_parsed x, renderElems_parsed xs]

theorem renderEntries_parsed : ∀ es : Fields, renderEntries (parsedEntries es) = renderEntries es
  | [] => rfl
  | (k, v) :: es => by
    simp only [parsedEntries, renderEntries, render_parsed v, renderEntries_parsed es]

end

/-- What is read back depends on the text, whatever the numbers. -/
theorem parsed_eq_iff {a b : Json} : parsed a = parsed b ↔ render a = render b := by
  constructor
  · intro h
    rw [← render_parsed a, h, render_parsed]
  · intro h
    have htext : render (parsed a) ++ [] = render (parsed b) ++ [] := by
      rw [render_parsed, render_parsed, h]
    exact (render_inj _ _ (parsed_finite a) (parsed_finite b) delimited_nil delimited_nil htext).1

theorem parsedEntries_eq (es : Fields) : parsedEntries es = es.map fun e => (e.1, parsed e.2) := by
  induction es with
  | nil => rfl
  | cons e es ih => rw [parsedEntries, ih, List.map_cons]

/-- `texts.join(',')`. -/
def joinComma : List Text → Text
  | [] => []
  | [t] => t
  | t :: u :: ts => t ++ ',' :: joinComma (u :: ts)

theorem renderElems_eq (xs : List Json) :
    renderElems xs = (xs.map fun x => ',' :: render x).flatten ++ [']'] := by
  induction xs with
  | nil => rfl
  | cons x xs ih => simp [renderElems, ih]

theorem joinComma_cons (t : Text) (ts : List Text) :
    joinComma (t :: ts) = t ++ (ts.map fun u => ',' :: u).flatten := by
  induction ts generalizing t with
  | nil => simp [joinComma]
  | cons u ts ih => simp [joinComma, ih u]

theorem render_arr (xs : List Json) :
    render (.arr xs) = '[' :: joinComma (xs.map render) ++ [']'] := by
  cases xs with
  | nil => rfl
  | cons x xs =>
    simp [render, renderElems_eq, joinComma_cons, List.map_map, Function.comp_def]

def entryText (k : String) (t : Text) : Text := quote k ++ ':' :: t

theorem renderEntries_eq (es : Fields) :
    renderEntries es
      = (es.map fun e => ',' :: entryText e.1 (render e.2)).flatten ++ ['}'] := by
  induction es with
  | nil => rfl
  | cons e es ih => simp [renderEntries, entryText, ih]

theorem render_obj (es : Fields) :
    render (.obj es)
      = '{' :: joinComma (es.map fun e => entryText e.1 (render e.2)) ++ ['}'] := by
  cases es with
  | nil => rfl
  | cons e es =>
    simp [render, renderEntries_eq, joinComma_cons, entryText, List.map_map,
      Function.comp_def]

end Cadena.Base
