import Reconfig.Text.Scan

/-!
# Dates and times as texts

A date has four digits for the year and two each for the month and the day; a time has two digits
each for the hour, the minute and the second, maybe a fraction, and its distance from universal
time.

* `daysIn`: the length of a month; `isDate`, `isTime`, **`isDateTime`**;
* `isLeapSecond`: a minute may have a second 60 at the end of a month in universal time.
-/

namespace Reconfig.Text

/-! ## Dates -/

/-- The year has a day more than others. -/
def isLeapYear (year : Nat) : Bool := year % 4 == 0 && (year % 100 != 0 || year % 400 == 0)

/-- The number of days of a month of a year; zero if there is no such month. -/
def daysIn (year month : Nat) : Nat :=
  if month = 2 then if isLeapYear year then 29 else 28
  else if month = 4 ∨ month = 6 ∨ month = 9 ∨ month = 11 then 30
  else if 1 ≤ month ∧ month ≤ 12 then 31
  else 0

/-- A number of exactly so many decimal digits, and the text after it. -/
def decimal? (count : Nat) (s : List Char) : Option (Nat × List Char) :=
  if (s.take count).length = count then
    (Numeral.natural? 10 (s.take count)).map fun n => (n, s.drop count)
  else none

/-- The text after a mark. -/
def behind? (mark : Char) : List Char → Option (List Char)
  | c :: rest => if c = mark then some rest else none
  | [] => none

/-- A date. -/
structure Date where
  /-- The year. -/
  year : Nat
  /-- The month, from one on. -/
  month : Nat
  /-- The day, from one on. -/
  day : Nat

/-- A date, and the text after it. -/
def date? (s : List Char) : Option (Date × List Char) := do
  let (year, s) ← decimal? 4 s
  let (month, s) ← decimal? 2 (← behind? '-' s)
  let (day, s) ← decimal? 2 (← behind? '-' s)
  if 1 ≤ day ∧ day ≤ daysIn year month then some (⟨year, month, day⟩, s) else none

/-- The text is a date. -/
def isDate (s : List Char) : Bool :=
  match date? s with
  | some (_, []) => true
  | _ => false

/-! ## Times -/

/-- A time of a day. -/
structure Clock where
  /-- The hour. -/
  hour : Nat
  /-- The minute. -/
  minute : Nat
  /-- The second. -/
  second : Nat

/-- A time of a day, and the text after it; the second may be 60. -/
def clock? (s : List Char) : Option (Clock × List Char) := do
  let (hour, s) ← decimal? 2 s
  let (minute, s) ← decimal? 2 (← behind? ':' s)
  let (second, s) ← decimal? 2 (← behind? ':' s)
  if hour < 24 ∧ minute < 60 ∧ second ≤ 60 then some (⟨hour, minute, second⟩, s) else none

/-- An hour and a minute without a sign, in minutes. -/
def shift? (s : List Char) : Option Nat := do
  let (hour, s) ← decimal? 2 s
  let (minute, s) ← decimal? 2 (← behind? ':' s)
  if hour < 24 ∧ minute < 60 ∧ s = [] then some (60 * hour + minute) else none

/-- The distance from universal time in minutes: a `Z`, or a sign with an hour and a minute. -/
def zone? : List Char → Option Int
  | ['Z'] => some 0
  | ['z'] => some 0
  | '+' :: rest => (shift? rest).map fun n => n
  | '-' :: rest => (shift? rest).map fun n => -n
  | _ => none

/-- The text is a time of a day with its distance from universal time. A fraction has six digits;
a bar may stand for the sign of the distance. -/
def isTime (s : List Char) : Bool :=
  match clock? s with
  | none => false
  | some (t, s) =>
    let s := if s.head? = some '.' ∧ (decimal? 6 (s.drop 1)).isSome then s.drop 7 else s
    t.second < 60 &&
      ((zone? s).isSome || (s.head? == some '|' && (shift? (s.drop 1)).isSome))

/-! ## Dates with times -/

/-- The time before the second 60 is the last one of a month in universal time. -/
def isLeapSecond (d : Date) (t : Clock) (zone : Int) : Bool :=
  let minutes : Int := 60 * t.hour + t.minute - zone
  let last := daysIn d.year d.month
  minutes % 1440 == 1439 &&
    (if minutes < 0 then d.day == 1 else if minutes < 1440 then d.day == last
      else d.day + 1 == last)

/-- The text after an optional fraction of any number of digits. -/
def dropFraction? : List Char → Option (List Char)
  | '.' :: rest =>
    if rest.head?.any Char.isDigit then some (rest.dropWhile Char.isDigit) else none
  | s => some s

/-- **The text is a date with a time**, and one character between them. -/
def isDateTime (s : List Char) : Bool :=
  let found? := do
    let (d, s) ← date? s
    let (t, s) ← clock? (s.drop 1)
    let zone ← zone? (← dropFraction? s)
    some (t.second < 60 || isLeapSecond d t zone)
  found?.getD false

example : isDate "2000-02-29".toList = true := by decide
example : isDate "1900-02-29".toList = false := by decide
example : isDateTime "1998-12-31T15:59:60-08:00".toList = true := by decide
example : isDateTime "1998-12-31T22:59:60Z".toList = false := by decide

end Reconfig.Text
