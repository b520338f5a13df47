import Cadena.Base.Canonical

/-!
# Strings as code units

A string of the runtime is a list of UTF-16 code units in which a
surrogate may stand alone, so that not every string is a text of
characters. `JSON.stringify` writes such a surrogate as an escape, and
the code units can be read back from the literal.
-/

namespace Cadena.Base

/-- A string by its code units. -/
abbrev Units := List Nat

/-- The code units of a text of characters. -/
def units (s : String) : Units := s.toList.flatMap utf16

/-- A code point is no surrogate. -/
theorem char_valid (c : Char) : c.toNat < 0xD800 ∨ (0xDFFF < c.toNat ∧ c.toNat < 0x110000) := by
  have hvalid := c.valid
  simpa [UInt32.isValidChar, Nat.isValidChar] using hvalid

theorem utf16_lt {c : Char} {n : Nat} (h : n ∈ utf16 c) : n < 65536 := by
  have hvalid := char_valid c
  unfold utf16 at h
  split at h
  · rw [List.mem_singleton.mp h]
    assumption
  · simp only [List.mem_cons, List.not_mem_nil, or_false] at h
    omega

/-! ## String literals -/

abbrev JsString := List (Fin 65536)

inductive CodePoint where
  | char (c : Char)
  /-- A surrogate without its other half, by its offset from `D800`. -/
  | lone (u : Fin 2048)

def CodePoint.units : CodePoint → Units
  | .char c => utf16 c
  | .lone u => [0xD800 + u.val]

/-- The code point of a unit that is no half of a pair. -/
def unpaired (u : Fin 65536) : CodePoint :=
  if h : 0xD800 ≤ u.val ∧ u.val < 0xE000 then .lone ⟨u.val - 0xD800, by omega⟩ else .char (Char.ofNat u.val)

def codePoints : JsString → List CodePoint
  | u :: v :: s =>
    if (0xD800 ≤ u.val ∧ u.val < 0xDC00) ∧ 0xDC00 ≤ v.val ∧ v.val < 0xE000 then
      .char (Char.ofNat (0x10000 + (u.val - 0xD800) * 0x400 + (v.val - 0xDC00))) :: codePoints s
    else unpaired u :: codePoints (v :: s)
  | [u] => [unpaired u]
  | [] => []

/-- A code point inside a string literal. -/
def CodePoint.text : CodePoint → Text
  | .char c => escapeChar c
  | .lone u => ['\\', 'u', 'd', hexDigit (8 + u.val / 256), hexDigit (u.val / 16 % 16), hexDigit (u.val % 16)]

def quoteUnits (s : JsString) : Text := '"' :: (codePoints s).flatMap CodePoint.text ++ ['"']

theorem toNat_ofNat_valid {n : Nat} (h : n < 0xD800 ∨ 0xE000 ≤ n ∧ n < 0x110000) : (Char.ofNat n).toNat = n := by
  have hvalid : n.isValidChar := h.imp id fun h => ⟨by omega, h.2⟩
  rw [Char.ofNat, dif_pos hvalid]
  rfl

theorem unpaired_units (u : Fin 65536) : (unpaired u).units = [u.val] := by
  unfold unpaired
  split
  · rename_i h
    show [0xD800 + (u.val - 0xD800)] = [u.val]
    rw [Nat.add_sub_cancel' h.1]
  · rename_i h
    have hu : (Char.ofNat u.val).toNat = u.val := toNat_ofNat_valid (by omega)
    rw [CodePoint.units, utf16, hu, if_pos u.isLt]

theorem units_codePoints (s : JsString) : (codePoints s).flatMap CodePoint.units = s.map (·.val) := by
  fun_induction codePoints s with
  | case1 u v s h ih =>
    have hc := toNat_ofNat_valid (n := 0x10000 + (u.val - 0xD800) * 0x400 + (v.val - 0xDC00)) (.inr (by omega))
    rw [List.flatMap_cons, ih, CodePoint.units, utf16, hc, if_neg (by omega)]
    simp only [List.map_cons, List.cons_append, List.nil_append, List.cons.injEq, and_true]
    omega
  | case2 u v s h ih =>
    rw [List.flatMap_cons, ih, unpaired_units]
    rfl
  | case3 u => rw [List.flatMap_singleton, unpaired_units, List.map_singleton]
  | case4 => rfl

theorem codePoints_inj {s t : JsString} (h : codePoints s = codePoints t) : s = t := by
  have hunits := congrArg (List.flatMap CodePoint.units) h
  rw [units_codePoints, units_codePoints] at hunits
  exact List.map_injective_iff.mpr Fin.val_injective hunits

theorem nibble_inj : ∀ m n : Fin 16, hexDigit m = hexDigit n → m = n := by decide

theorem escapeChar_ne_lone {c : Char} {r t : Text} : escapeChar c ++ r ≠ '\\' :: 'u' :: 'd' :: t := by
  intro h
  have hread : unescape ('\\' :: 'u' :: 'd' :: t) = some ('u', 'd' :: t) := rfl
  rw [← h, unescape_escapeChar, Option.some.injEq, Prod.mk.injEq] at hread
  rw [hread.1] at h
  exact absurd (List.cons.inj h).1 (by decide)

theorem CodePoint.text_inj {p q : CodePoint} {r r' : Text} (h : p.text ++ r = q.text ++ r') : p = q ∧ r = r' := by
  match p, q with
  | .char c, .char d =>
    obtain ⟨rfl, hr⟩ := escapeChar_inj h
    exact ⟨rfl, hr⟩
  | .char c, .lone u => exact absurd h escapeChar_ne_lone
  | .lone u, .char d => exact absurd h.symm escapeChar_ne_lone
  | .lone u, .lone v =>
    simp only [CodePoint.text, List.cons_append, List.nil_append, List.cons.injEq, true_and] at h
    obtain ⟨h₁, h₂, h₃, hr⟩ := h
    have e₁ := congrArg Fin.val (nibble_inj ⟨8 + u.val / 256, by omega⟩ ⟨8 + v.val / 256, by omega⟩ h₁)
    have e₂ := congrArg Fin.val (nibble_inj ⟨u.val / 16 % 16, by omega⟩ ⟨v.val / 16 % 16, by omega⟩ h₂)
    have e₃ := congrArg Fin.val (nibble_inj ⟨u.val % 16, by omega⟩ ⟨v.val % 16, by omega⟩ h₃)
    simp only at e₁ e₂ e₃
    exact ⟨congrArg _ (Fin.ext (by omega)), hr⟩

theorem CodePoint.text_stop {p : CodePoint} {r r' : Text} : p.text ++ r ≠ '"' :: r' := by
  cases p with
  | char c => exact escapeChar_stop
  | lone u => exact fun h => absurd (List.cons.inj h).1 (by decide)

theorem quoteUnits_inj (s t : JsString) (r r' : Text) (h : quoteUnits s ++ r = quoteUnits t ++ r') : s = t ∧ r = r' := by
  simp only [quoteUnits, List.cons_append, List.append_assoc, List.nil_append, List.cons.injEq, true_and] at h
  obtain ⟨hs, hr⟩ := pieces_inj CodePoint.text_inj CodePoint.text_stop h
  exact ⟨codePoints_inj hs, hr⟩

def unitsQuoting : Quoting JsString := ⟨quoteUnits, fun _ => ⟨_, rfl⟩, quoteUnits_inj⟩

/-- The string with the characters of a text. -/
def jsString (s : String) : JsString := (units s).map (Fin.ofNat 65536 ·)

theorem codePoints_char (c : Char) (s : JsString) :
    codePoints ((utf16 c).map (Fin.ofNat 65536 ·) ++ s) = .char c :: codePoints s := by
  have hvalid := char_valid c
  unfold utf16
  split
  · rename_i h
    have hu : (Fin.ofNat 65536 c.toNat).val = c.toNat := Nat.mod_eq_of_lt h
    have hpoint : unpaired (Fin.ofNat 65536 c.toNat) = .char c := by
      rw [unpaired, dif_neg (by omega), hu, Char.ofNat_toNat]
    cases s with
    | nil => rw [List.map_singleton, List.append_nil, codePoints, hpoint, codePoints]
    | cons v s => rw [List.map_singleton, List.singleton_append, codePoints, if_neg (by omega), hpoint]
  · rename_i h
    have hhi : (Fin.ofNat 65536 (0xD800 + (c.toNat - 0x10000) / 0x400)).val = 0xD800 + (c.toNat - 0x10000) / 0x400 :=
      Nat.mod_eq_of_lt (by omega)
    have hlo : (Fin.ofNat 65536 (0xDC00 + (c.toNat - 0x10000) % 0x400)).val = 0xDC00 + (c.toNat - 0x10000) % 0x400 :=
      Nat.mod_eq_of_lt (by omega)
    have hc : 0x10000 + (0xD800 + (c.toNat - 0x10000) / 0x400 - 0xD800) * 0x400 +
        (0xDC00 + (c.toNat - 0x10000) % 0x400 - 0xDC00) = c.toNat := by omega
    rw [List.map_cons, List.map_singleton, List.cons_append, List.singleton_append, codePoints,
      if_pos (by omega), hhi, hlo, hc, Char.ofNat_toNat]

/-- For a text of characters the literal is the same. -/
theorem quoteUnits_jsString (s : String) : quoteUnits (jsString s) = quote s := by
  have hpoints (cs : Text) : codePoints ((cs.flatMap utf16).map (Fin.ofNat 65536 ·)) = cs.map .char := by
    induction cs with
    | nil => rfl
    | cons c cs ih => rw [List.flatMap_cons, List.map_append, codePoints_char, ih, List.map_cons]
  rw [quoteUnits, jsString, units, hpoints, List.flatMap_map]
  rfl

end Cadena.Base
