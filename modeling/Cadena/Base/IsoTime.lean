import Cadena.Base.Text

/-!
# Instants as text

`new Date(t).toISOString()` for a time in milliseconds since the epoch.
-/

namespace Cadena.Base

/-- Milliseconds since the epoch. -/
abbrev Millis := Int

/-- Year, month and day of a day counted from 1970-01-01. Years are taken to
start in March, so that the leap day is the last of its year. -/
def civilDate (day : Int) : Int × Nat × Nat :=
  let shifted := day + 719468
  let era := shifted / 146097
  let dayOfEra := (shifted % 146097).toNat
  let yearOfEra :=
    (dayOfEra - dayOfEra / 1460 + dayOfEra / 36524 - dayOfEra / 146096) / 365
  let dayOfYear := dayOfEra - (365 * yearOfEra + yearOfEra / 4 - yearOfEra / 100)
  let monthFromMarch := (5 * dayOfYear + 2) / 153
  let day := dayOfYear - (153 * monthFromMarch + 2) / 5 + 1
  let month := if monthFromMarch < 10 then monthFromMarch + 3 else monthFromMarch - 9
  let year := (yearOfEra : Int) + era * 400 + (if month ≤ 2 then 1 else 0)
  (year, month, day)

/-- The last `k` decimal digits of a number. -/
def padded (n : Nat) : Nat → Text
  | 0 => []
  | k + 1 => padded (n / 10) k ++ [Char.ofNat (48 + n % 10)]

/-- A year outside 0 to 9999 is written with its sign and six digits. -/
def yearText (year : Int) : Text :=
  if year < 0 then '-' :: padded year.natAbs 6
  else if 9999 < year then '+' :: padded year.toNat 6
  else padded year.toNat 4

/-- `new Date(t).toISOString()`. -/
def toISOString (t : Int) : String :=
  let (year, month, day) := civilDate (t / 86400000)
  let inDay := (t % 86400000).toNat
  String.ofList
    (yearText year ++ '-' :: padded month 2 ++ '-' :: padded day 2
      ++ 'T' :: padded (inDay / 3600000) 2 ++ ':' :: padded (inDay / 60000 % 60) 2
      ++ ':' :: padded (inDay / 1000 % 60) 2 ++ '.' :: padded (inDay % 1000) 3 ++ ['Z'])

example : toISOString (-1) = "1969-12-31T23:59:59.999Z" := by decide

example : toISOString 1709210096789 = "2024-02-29T12:34:56.789Z" := by decide

end Cadena.Base
