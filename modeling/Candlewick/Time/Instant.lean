/-! # Instants

An instant is a second of the count that starts with 1970 and a fraction of it in billionths. A
fraction of a whole second or more stands for a leap second, so that instants order by second first
and fraction next. Dates are those of the Gregorian calendar, carried on in both directions. -/

namespace Candlewick

/-- A point in time: whole seconds since the start of 1970 and billionths of a second on top. -/
structure Instant where
  seconds : Int
  /-- Below two thousand million; from one thousand million on it lies in a leap second. -/
  nanos : Nat
deriving Repr, DecidableEq, Inhabited

namespace Instant

/-- Earlier second, then smaller fraction. -/
def compare (a b : Instant) : Ordering :=
  (Ord.compare a.seconds b.seconds).then (Ord.compare a.nanos b.nanos)

/-- Strictly earlier. -/
def before (a b : Instant) : Bool := a.compare b = .lt

/-- Not later. -/
def upTo (a b : Instant) : Bool := a.compare b ≠ .gt

/-- The instant a number of milliseconds after the start of 1970. -/
def ofMillis (ms : Int) : Instant :=
  ⟨Int.fdiv ms 1000, (Int.fmod ms 1000).toNat * 1000000⟩

/-- The whole milliseconds since the start of 1970. -/
def toMillis (t : Instant) : Int := t.seconds * 1000 + (t.nanos / 1000000 : Nat)

/-- The first second that has a date. -/
def firstSecond : Int := -8334601228800

/-- The last second that has a date. -/
def lastSecond : Int := 8210266876799

/-- Whether a second has a date. -/
def hasDate (s : Int) : Bool := firstSecond ≤ s && s ≤ lastSecond

/-- The start of a second, if it has a date. -/
def ofSeconds? (s : Int) : Option Instant := if hasDate s then some ⟨s, 0⟩ else none

end Instant

/-- A day of the calendar. -/
structure Date where
  year : Int
  month : Nat
  day : Nat
deriving Repr, DecidableEq

namespace Date

/-- Whether February has 29 days. -/
def leapYear (y : Int) : Bool := y % 4 = 0 && (y % 100 ≠ 0 || y % 400 = 0)

/-- The number of days of a month. -/
def monthLength (y : Int) (m : Nat) : Nat :=
  if m = 2 then (if leapYear y then 29 else 28)
  else if m = 4 ∨ m = 6 ∨ m = 9 ∨ m = 11 then 30 else 31

/-- Whether the calendar has this day. -/
def valid (d : Date) : Bool :=
  1 ≤ d.month && d.month ≤ 12 && 1 ≤ d.day && d.day ≤ monthLength d.year d.month

/-- The days from the start of 1970 to a date. Years count from March, so that the leap day is the
last one, in spans of 400 years of 146097 days. -/
def toDays (d : Date) : Int :=
  let y := if d.month ≤ 2 then d.year - 1 else d.year
  let era := Int.fdiv y 400
  let yearOfEra := Int.fmod y 400
  let month : Int := if d.month > 2 then (d.month : Int) - 3 else d.month + 9
  let dayOfYear := (153 * month + 2) / 5 + d.day - 1
  era * 146097 + (yearOfEra * 365 + yearOfEra / 4 - yearOfEra / 100 + dayOfYear) - 719468

/-- The date a number of days after the start of 1970. -/
def ofDays (n : Int) : Date :=
  let z := n + 719468
  let era := Int.fdiv z 146097
  let dayOfEra := Int.fmod z 146097
  let yearOfEra := (dayOfEra - dayOfEra / 1460 + dayOfEra / 36524 - dayOfEra / 146096) / 365
  let dayOfYear := dayOfEra - (365 * yearOfEra + yearOfEra / 4 - yearOfEra / 100)
  let month := (5 * dayOfYear + 2) / 153
  let day := dayOfYear - (153 * month + 2) / 5 + 1
  let m := if month < 10 then month + 3 else month - 9
  let y := yearOfEra + era * 400 + (if m ≤ 2 then 1 else 0)
  ⟨y, m.toNat, day.toNat⟩

example : ofDays 0 = ⟨1970, 1, 1⟩ ∧ ofDays 19675 = ⟨2023, 11, 14⟩ := by decide
example : (ofDays 19782).toDays = 19782 ∧ ofDays 19782 = ⟨2024, 2, 29⟩ := by decide

end Date

namespace Instant

/-- The date of an instant. -/
def date (t : Instant) : Date := Date.ofDays (Int.fdiv t.seconds 86400)

/-- The second of the day. -/
def secondOfDay (t : Instant) : Nat := (Int.fmod t.seconds 86400).toNat

end Instant

end Candlewick
