/-
# Dates

The date and time of a moment, given as seconds since the start of 1970, in the common calendar
and at the meridian of Greenwich.  Years are counted from March on, so that a leap day is the last
day of its year, and in cycles of four hundred years, which all have the same number of days.
-/

namespace PhpCatalog

/-- A day of the calendar. -/
structure Day where
  year : Nat
  month : Nat
  day : Nat
  deriving Repr, DecidableEq

/-- The days in four hundred years. -/
def cycleDays : Nat := 146097

/-- The day that follows the start of 1970 by a number of days. -/
def Day.ofDays (days : Nat) : Day :=
  let shifted := days + 719468
  let inCycle := shifted % cycleDays
  let year := (inCycle - inCycle / 1460 + inCycle / 36524 - inCycle / 146096) / 365
  let inYear := inCycle - (365 * year + year / 4 - year / 100)
  let fromMarch := (5 * inYear + 2) / 153
  let month := if fromMarch < 10 then fromMarch + 3 else fromMarch - 9
  { year := year + shifted / cycleDays * 400 + (if month ≤ 2 then 1 else 0)
    month
    day := inYear - (153 * fromMarch + 2) / 5 + 1 }

/-- A number with zeros before it, up to a width. -/
def padded (width n : Nat) : String :=
  let digits := toString n
  String.ofList (List.replicate (width - digits.length) '0') ++ digits

/-- A moment as text. -/
def momentText (seconds : Nat) : String :=
  let day := Day.ofDays (seconds / 86400)
  let time := seconds % 86400
  padded 4 day.year ++ "-" ++ padded 2 day.month ++ "-" ++ padded 2 day.day ++ "T" ++
    padded 2 (time / 3600) ++ ":" ++ padded 2 (time / 60 % 60) ++ ":" ++ padded 2 (time % 60) ++ "Z"

end PhpCatalog
