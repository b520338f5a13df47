import Cadena.Base.Json
import Mathlib.Data.List.Basic
import Mathlib.Data.List.TakeWhile

/-!
# Strings as the runtime sees them

The parts of a JavaScript runtime that the program relies on: white
space, `trim`, UUID text, and the two functions whose tables are too
large to write down (Unicode lower case and SHA-256), which are a
parameter.
-/

namespace Cadena.Base

/-- The functions of the runtime that are taken as given. -/
structure Platform where
  toLowerCase : String → String
  sha256 : Text → String

/-- A platform on which strings are ASCII and nothing is compressed. -/
def Platform.ascii : Platform where
  toLowerCase s := String.ofList (s.toList.map Char.toLower)
  sha256 t := String.ofList t

theorem Platform.ascii_injective : Function.Injective Platform.ascii.sha256 :=
  fun _ _ h => String.ofList_injective h

/-- White space and line terminators: what `trim` removes and `\s` matches. -/
def isSpace (c : Char) : Bool :=
  let n := c.toNat
  (9 ≤ n && n ≤ 13) || n == 0x20 || n == 0xA0 || n == 0x1680
    || (0x2000 ≤ n && n ≤ 0x200A) || n == 0x2028 || n == 0x2029
    || n == 0x202F || n == 0x205F || n == 0x3000 || n == 0xFEFF

def trimStart (t : Text) : Text := t.dropWhile isSpace

def trimEnd (t : Text) : Text := (t.reverse.dropWhile isSpace).reverse

/-- `text.trim()`. -/
def trim (t : Text) : Text := trimEnd (trimStart t)

theorem trimEnd_append {a b : Text} (h : ∃ c, a.getLast? = some c ∧ isSpace c = false) :
    trimEnd (a ++ b) = a ++ trimEnd b := by
  obtain ⟨c, hc, hs⟩ := h
  obtain ⟨a', rfl⟩ : ∃ a', a = a' ++ [c] := List.getLast?_eq_some_iff.mp hc
  have hkeep : (a' ++ [c]).reverse.dropWhile isSpace = (a' ++ [c]).reverse := by
    rw [List.reverse_append, List.reverse_singleton, List.singleton_append,
      List.dropWhile_cons_of_neg (by simp [hs])]
  rw [trimEnd, trimEnd, List.reverse_append, List.dropWhile_append]
  by_cases hb : (b.reverse.dropWhile isSpace).isEmpty = true
  · rw [if_pos hb, hkeep, List.isEmpty_iff.mp hb]
    simp
  · rw [if_neg hb, List.reverse_append, List.reverse_reverse]

theorem trimStart_eq_self {t : Text} (h : ∃ c, t.head? = some c ∧ isSpace c = false) :
    trimStart t = t := by
  obtain ⟨c, hc, hs⟩ := h
  cases t with
  | nil => cases hc
  | cons d t =>
    obtain rfl : d = c := by simpa using hc
    rw [trimStart, List.dropWhile_cons_of_neg (by simp [hs])]

theorem trim_eq_self {t : Text} (hhead : ∃ c, t.head? = some c ∧ isSpace c = false)
    (hlast : ∃ c, t.getLast? = some c ∧ isSpace c = false) : trim t = t := by
  have := trimEnd_append (b := []) hlast
  rw [List.append_nil] at this
  rw [trim, trimStart_eq_self hhead, this, trimEnd, List.reverse_nil, List.dropWhile_nil,
    List.reverse_nil, List.append_nil]

theorem mem_dropWhile {p : Char → Bool} {t : Text} {c : Char} (hc : c ∈ t) (hp : p c = false) :
    c ∈ t.dropWhile p := by
  rw [← List.takeWhile_append_dropWhile (p := p) (l := t), List.mem_append] at hc
  rcases hc with h | h
  · rw [List.mem_takeWhile_imp h] at hp
    cases hp
  · exact h

theorem mem_trim {t : Text} {c : Char} (hc : c ∈ t) (hs : isSpace c = false) : c ∈ trim t := by
  rw [trim, trimEnd, List.mem_reverse]
  exact mem_dropWhile (List.mem_reverse.mpr (mem_dropWhile hc hs)) hs

def trimString (s : String) : String := String.ofList (trim s.toList)

/-- `text.slice(0, n)`. -/
def sliceString (s : String) (n : Nat) : String := String.ofList (s.toList.take n)

abbrev Uuid := BitVec 128

instance : LawfulBEq Uuid := inferInstance

/-- The lowest `k` hexadecimal digits of a number, most significant first. -/
def hexDigits (n : Nat) : Nat → Text
  | 0 => []
  | k + 1 => hexDigits (n / 16) k ++ [hexDigit (n % 16)]

/-- `8-4-4-4-12`. -/
def uuidText (u : Uuid) : Text :=
  let d := hexDigits u.toNat 32
  d.take 8 ++ '-' :: (d.drop 8).take 4 ++ '-' :: (d.drop 12).take 4
    ++ '-' :: (d.drop 16).take 4 ++ '-' :: d.drop 20

@[simp] theorem hexDigits_length (n k : Nat) : (hexDigits n k).length = k := by
  induction k generalizing n with
  | zero => rfl
  | succ k ih => simp [hexDigits, ih]

theorem hexDigit_inj : ∀ m < 16, ∀ n < 16, hexDigit m = hexDigit n → m = n := by decide

theorem hexDigits_inj {m n k : Nat} (hm : m < 16 ^ k) (hn : n < 16 ^ k)
    (h : hexDigits m k = hexDigits n k) : m = n := by
  induction k generalizing m n with
  | zero => omega
  | succ k ih =>
    rw [hexDigits, hexDigits] at h
    obtain ⟨hhi, hlo⟩ := List.append_inj h (by simp)
    have hlow : m % 16 = n % 16 :=
      hexDigit_inj _ (by omega) _ (by omega) (List.cons.inj hlo).1
    have hhigh : m / 16 = n / 16 :=
      ih (by rw [pow_succ] at hm; omega) (by rw [pow_succ] at hn; omega) hhi
    omega

@[simp] theorem uuidText_length (u : Uuid) : (uuidText u).length = 36 := by
  simp [uuidText]

theorem take_drop_five (d : Text) :
    d = d.take 8 ++ ((d.drop 8).take 4 ++ ((d.drop 12).take 4
      ++ ((d.drop 16).take 4 ++ d.drop 20))) := by
  have step : ∀ k, d.drop k = (d.drop k).take 4 ++ d.drop (k + 4) := fun k => by
    rw [← List.drop_drop, List.take_append_drop]
  calc d = d.take 8 ++ d.drop 8 := (List.take_append_drop 8 d).symm
    _ = _ := congrArg _ ((step 8).trans (congrArg _ ((step 12).trans (congrArg _ (step 16)))))

theorem uuidText_inj {u v : Uuid} (h : uuidText u = uuidText v) : u = v := by
  have hd : hexDigits u.toNat 32 = hexDigits v.toNat 32 := by
    simp only [uuidText, List.append_assoc, List.cons_append] at h
    obtain ⟨h1, h⟩ := List.append_inj h (by simp)
    obtain ⟨h2, h⟩ := List.append_inj (List.cons.inj h).2 (by simp)
    obtain ⟨h3, h⟩ := List.append_inj (List.cons.inj h).2 (by simp)
    obtain ⟨h4, h⟩ := List.append_inj (List.cons.inj h).2 (by simp)
    have h5 := (List.cons.inj h).2
    rw [take_drop_five (hexDigits u.toNat 32), h1, h2, h3, h4, h5, ← take_drop_five]
  exact BitVec.eq_of_toNat_eq (hexDigits_inj (by omega) (by omega) hd)

end Cadena.Base
