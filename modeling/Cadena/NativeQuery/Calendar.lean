import Cadena.Base.Text

/-!
# Instants as the providers write them

`formatInTimeZone` of `connector-http.ts`. What the runtime's date
functions return is a parameter.
-/

namespace Cadena.NativeQuery

open Cadena.Base

structure DigitText where
  chars : Text
  nonempty : chars ≠ []
  digits : ∀ c ∈ chars, c.isDigit = true

/-- The parts of `Intl.DateTimeFormat('en-CA', …).formatToParts`. -/
structure DateTimeParts where
  year : DigitText
  month : DigitText
  day : DigitText
  hour : DigitText
  minute : DigitText
  second : DigitText

/-- Dates as the runtime reads and writes them; instants are milliseconds. -/
structure Calendar where
  formatToParts : Int → String → DateTimeParts
  parseDate : Text → Option Int

def formatInTimeZone (calendar : Calendar) (instant : Int) (timeZone : String) : Text :=
  let p := calendar.formatToParts instant timeZone
  p.year.chars ++ '-' :: p.month.chars ++ '-' :: p.day.chars ++ ' ' :: p.hour.chars
    ++ ':' :: p.minute.chars ++ ':' :: p.second.chars

/-- The characters of a formatted instant. -/
def isStampChar (c : Char) : Bool := c.isDigit || c == '-' || c == ':' || c == ' '

theorem formatInTimeZone_chars (calendar : Calendar) (instant : Int) (timeZone : String) :
    ∀ c ∈ formatInTimeZone calendar instant timeZone, isStampChar c = true := by
  have hdigits : ∀ (d : DigitText), ∀ c ∈ d.chars, isStampChar c = true := fun d c hc => by
    simp [isStampChar, d.digits c hc]
  intro c hc
  simp only [formatInTimeZone, List.mem_append, List.mem_cons] at hc
  rcases hc with ((((h | rfl | h) | rfl | h) | rfl | h) | rfl | h) | rfl | h
  all_goals first
    | exact hdigits _ c h
    | decide

theorem isDigit_not_space {c : Char} (h : c.isDigit = true) : isSpace c = false := by
  simp only [Char.isDigit, Bool.and_eq_true, decide_eq_true_eq] at h
  have h1 : 48 ≤ c.toNat := h.1
  have h2 : c.toNat ≤ 57 := h.2
  simp only [isSpace, Bool.or_eq_false_iff, Bool.and_eq_false_iff, decide_eq_false_iff_not,
    beq_eq_false_iff_ne]
  omega

/-- `updated` from `from` on and before `to`. -/
structure BackfillWindow where
  from_ : Int
  to_ : Int

def epochCalendar : Calendar where
  formatToParts _ _ :=
    let two : DigitText := ⟨"00".toList, by decide, List.all_eq_true.mp (by decide)⟩
    let first : DigitText := ⟨"01".toList, by decide, List.all_eq_true.mp (by decide)⟩
    { year := ⟨"1970".toList, by decide, List.all_eq_true.mp (by decide)⟩, month := first, day := first,
      hour := two, minute := two, second := two }
  parseDate _ := none

end Cadena.NativeQuery
