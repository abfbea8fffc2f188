/-!
# The calendar

The date and the time of day in UTC of a moment, which is given in seconds since the epoch and may
lie before it. Years are those of the Gregorian calendar, which repeats itself every 400 years of
146097 days. Counting starts with March, so that a leap day is the last day of its year.
-/
namespace Galley.Calendar

structure Date where
  year : Int
  /-- January is 1. -/
  month : Nat
  day : Nat
  deriving DecidableEq, Repr

/-- The date of the day `n` days after the first of March of a year divisible by 400, with years
counted from that one. -/
def dateInEra (n : Nat) : Date :=
  let year := (n - n / 1460 + n / 36524 - n / 146096) / 365
  let day := n - (365 * year + year / 4 - year / 100)
  let month := (5 * day + 2) / 153
  let dayOfMonth := day - (153 * month + 2) / 5 + 1
  if month < 10 then ⟨year, month + 3, dayOfMonth⟩ else ⟨year + 1, month - 9, dayOfMonth⟩

/-- The date of a day, counted from the epoch. -/
def date (day : Int) : Date :=
  let sinceMarch := day + 719468
  let d := dateInEra (sinceMarch.emod 146097).toNat
  { d with year := d.year + 400 * sinceMarch.ediv 146097 }

/-- The day of the week of a day, counted from the epoch; Sunday is 0. -/
def weekday (day : Int) : Nat :=
  ((day + 4).emod 7).toNat

def weekdayNames : List String :=
  ["Sun", "Mon", "Tue", "Wed", "Thu", "Fri", "Sat"]

def monthNames : List String :=
  ["Jan", "Feb", "Mar", "Apr", "May", "Jun", "Jul", "Aug", "Sep", "Oct", "Nov", "Dec"]

def twoDigits (n : Nat) : String :=
  String.ofList [Nat.digitChar (n / 10), Nat.digitChar (n % 10)]

/-- The text of a moment, as in `Tue Nov 14 22:13:20 UTC 2023`. -/
def text (seconds : Int) : String :=
  let day := seconds.ediv 86400
  let time := (seconds.emod 86400).toNat
  let d := date day
  let weekdayName := weekdayNames.getD (weekday day) ""
  let monthName := monthNames.getD (d.month - 1) ""
  s!"{weekdayName} {monthName} {d.day} " ++
    twoDigits (time / 3600) ++ ":" ++ twoDigits (time / 60 % 60) ++ ":" ++ twoDigits (time % 60) ++
    s!" UTC {d.year}"

/-- The whole seconds of a time in nanoseconds, rounded down. -/
def seconds (nanos : Int) : Int :=
  nanos.ediv 1000000000

example : date 0 = ⟨1970, 1, 1⟩ := by decide

example : date (-1) = ⟨1969, 12, 31⟩ := by decide

example : date 19782 = ⟨2024, 2, 29⟩ := by decide

end Galley.Calendar
