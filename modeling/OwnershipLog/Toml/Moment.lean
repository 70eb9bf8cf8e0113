import OwnershipLog.Toml.Number

/-!
# Dates and times

A moment is a date, a date with a time of day and perhaps an offset, or a time of
day alone. Days must exist in their month; a minute may have a leap second.
-/

namespace OwnershipLog.Toml

/-- A day of the calendar. -/
structure Date where
  year : Nat
  month : Nat
  day : Nat
deriving DecidableEq, Repr

/-- A time of day; the fraction of its second is kept as digits. -/
structure TimeOfDay where
  hour : Nat
  minute : Nat
  second : Nat
  fraction : List Char
deriving DecidableEq, Repr

/-- A date or a time of day or both; the offset is in minutes. -/
inductive Moment where
  | date (date : Date)
  | dateTime (date : Date) (time : TimeOfDay) (offset : Option Int)
  | time (time : TimeOfDay)
deriving DecidableEq, Repr

/-- Whether February has 29 days. -/
def isLeapYear (year : Nat) : Bool := year % 4 == 0 && (year % 100 != 0 || year % 400 == 0)

/-- How many days a month has. -/
def daysIn (year month : Nat) : Nat :=
  if month = 2 then (if isLeapYear year then 29 else 28)
  else if month = 4 ∨ month = 6 ∨ month = 9 ∨ month = 11 then 30
  else 31

namespace Moment

/-- A number of exactly `n` digits from `low` to `high`. -/
def fixed (n low high : Nat) : Scan Nat := fun cs =>
  let text := cs.take n
  let value := ofDigits 10 text
  if text.length = n ∧ text.all (isDigit 10) ∧ low ≤ value ∧ value ≤ high then
    some (value, cs.drop n)
  else none

/-- A date. -/
def scanDate : Scan Date := do
  let year ← fixed 4 0 9999
  Scan.exactly "-"
  let month ← fixed 2 1 12
  Scan.exactly "-"
  let day ← fixed 2 1 (daysIn year month)
  return ⟨year, month, day⟩

/-- A time of day. -/
def scanTime : Scan TimeOfDay := do
  let hour ← fixed 2 0 23
  Scan.exactly ":"
  let minute ← fixed 2 0 59
  Scan.exactly ":"
  let second ← fixed 2 0 60
  let fraction ← Scan.attempt (Scan.exactly "." *> Scan.run1 (isDigit 10))
  return ⟨hour, minute, second, fraction.getD []⟩

/-- An offset from universal time, in minutes. -/
def scanOffset : Scan Int :=
  (Scan.one (fun c => c == 'Z' || c == 'z') *> pure 0) <|> do
    let behind ← (Scan.exactly "-" *> pure true) <|> (Scan.exactly "+" *> pure false)
    let hour ← fixed 2 0 23
    Scan.exactly ":"
    let minute ← fixed 2 0 59
    let minutes : Nat := 60 * hour + minute
    return if behind then -minutes else minutes

/-- What may follow a date: a time of day, and perhaps an offset. -/
def scanRest : Scan (TimeOfDay × Option Int) := do
  let _ ← Scan.one fun c => c == 'T' || c == 't' || c == ' '
  let clock ← scanTime
  return (clock, ← Scan.attempt scanOffset)

/-- A moment. -/
def scan : Scan Moment :=
  (do
    let day ← scanDate
    match ← Scan.attempt scanRest with
    | some (clock, offset) => return dateTime day clock offset
    | none => return date day)
  <|> time <$> scanTime

end Moment

end OwnershipLog.Toml
