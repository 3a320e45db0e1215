/-
CompileGate/Log/Timestamp.lean

The time at which a record is written, in universal time with milliseconds:
year, month and day, the letter T, the time of day, and the zero offset.
-/
import CompileGate.Text.Basic

namespace CompileGate
namespace Log

/-- A day of the calendar. -/
structure Day where
  year : Nat
  month : Nat
  day : Nat
deriving DecidableEq

/-- The day that comes `n` days after 1 January 1970.  Days are counted from 1 March of the year
0, so that a leap day ends its year, in cycles of 400 years. -/
def Day.ofEpochDays (n : Nat) : Day :=
  let z := n + 719468
  let cycle := z / 146097
  let dayOfCycle := z % 146097
  let yearOfCycle :=
    (dayOfCycle - dayOfCycle / 1460 + dayOfCycle / 36524 - dayOfCycle / 146096) / 365
  let dayOfYear := dayOfCycle - (365 * yearOfCycle + yearOfCycle / 4 - yearOfCycle / 100)
  let m := (5 * dayOfYear + 2) / 153
  let month := if m < 10 then m + 3 else m - 9
  ⟨yearOfCycle + cycle * 400 + (if month ≤ 2 then 1 else 0), month,
    dayOfYear - (153 * m + 2) / 5 + 1⟩

/-- A number with zeros in front. -/
def padded (width n : Nat) : Text := Text.padZeros width (Text.ofNat n)

/-- The text of a time, given in milliseconds after the start of 1970. -/
def timestamp (millis : Nat) : Text :=
  let seconds := millis / 1000
  let d := Day.ofEpochDays (seconds / 86400)
  padded 4 d.year ++ "-" ++ padded 2 d.month ++ "-" ++ padded 2 d.day ++ "T"
    ++ padded 2 (seconds / 3600 % 24) ++ ":" ++ padded 2 (seconds / 60 % 60) ++ ":"
    ++ padded 2 (seconds % 60) ++ "." ++ padded 3 (millis % 1000) ++ "+00:00"

end Log

end CompileGate
