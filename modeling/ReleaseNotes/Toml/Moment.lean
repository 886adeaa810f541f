import ReleaseNotes.Toml.Scan
import ReleaseNotes.Toml.Value

/-!
# Moments

Dates and times: a date, a time of day, or a date with a time and perhaps
with an offset.

The numbers have a fixed count of digits and have to exist in the calendar. A
month has as many days as it has, February one more in a leap year, and a
minute may have a sixtieth second. A date and its time are joined by the letter
T in either case or by a single blank. A time of day alone has no offset.

What moment it is does not matter here, so nothing of it is kept.

## Main definitions

* `daysIn`: The number of days of a month.
* `moment`: A date, a time of day, or both.
-/

namespace ReleaseNotes

namespace Toml

/-- A number of exactly this many decimal digits, within bounds. -/
def fixedNumber (count low high : Nat) : Scan Nat := do
  let rest ← get
  let found := rest.take count
  guard (found.length == count && found.all Char.isDigit)
  set (rest.drop count)
  let value := numberOf 10 found
  guard (low ≤ value && value ≤ high)
  return value

/-- The number of days of a month in a year. -/
def daysIn (year month : Nat) : Nat :=
  if month == 2 then
    if year % 4 == 0 && (year % 100 != 0 || year % 400 == 0) then 29 else 28
  else if month == 4 || month == 6 || month == 9 || month == 11 then 30
  else 31

/-- A date of the calendar. -/
def date : Scan Unit := do
  let year ← fixedNumber 4 0 9999
  exactly '-'
  let month ← fixedNumber 2 1 12
  exactly '-'
  discard (fixedNumber 2 1 (daysIn year month))

/-- A time of day, to the second or finer. -/
def timeOfDay : Scan Unit := do
  discard (fixedNumber 2 0 23)
  exactly ':'
  discard (fixedNumber 2 0 59)
  exactly ':'
  discard (fixedNumber 2 0 60)
  (exactly '.' *> discard (run1 Char.isDigit)) <|> pure ()

/-- The offset of a time from universal time. -/
def timeOffset : Scan Unit :=
  exactly 'Z' <|> exactly 'z' <|> do
    exactly '+' <|> exactly '-'
    discard (fixedNumber 2 0 23)
    exactly ':'
    discard (fixedNumber 2 0 59)

/-- The time behind a date. -/
def timeAfterDate : Scan Unit := do
  exactly 'T' <|> exactly 't' <|> exactly ' '
  timeOfDay
  timeOffset <|> pure ()

/-- A date, a time of day, or both. -/
def moment : Scan Value := do
  (date *> (timeAfterDate <|> pure ())) <|> timeOfDay
  return .moment

end Toml

end ReleaseNotes
