import Candlewick.Decimal.Text
import Candlewick.Text.Blank
import Candlewick.Time.Instant

/-! # Written instants

Instants are written to the minute in reports (`2023-11-14 22:13`) and in full in data
(`2023-11-14T22:13:20Z`, RFC 3339), with three, six or nine decimals of the second where there is a
fraction. Reading is lenient about blanks around the numbers, leading zeros, the letter between date
and time, and the way the offset from universal time is written. -/

namespace Candlewick.Instant

/-- A number with at least two digits. -/
def two (n : Nat) : String := if n < 10 then "0" ++ toString n else toString n

/-- A year with four digits from 0 to 9999, else with a sign and at least four digits. -/
def yearText (y : Int) : String :=
  let ds := toString y.natAbs
  let padded := Decimal.zeros (4 - ds.length) ++ ds
  if 0 ≤ y ∧ y ≤ 9999 then padded else if y < 0 then "-" ++ padded else "+" ++ padded

/-- Year, month and day. -/
def dateText (t : Instant) : String :=
  let d := t.date
  yearText d.year ++ "-" ++ two d.month ++ "-" ++ two d.day

/-- Hour and minute. -/
def minuteText (t : Instant) : String :=
  two (t.secondOfDay / 3600) ++ ":" ++ two (t.secondOfDay / 60 % 60)

/-- Date, hour and minute, for reports. -/
def report (t : Instant) : String := t.dateText ++ " " ++ t.minuteText

/-- A number with exactly `n` digits, or more where it is larger. -/
def padded (n k : Nat) : String :=
  let ds := toString k
  Decimal.zeros (n - ds.length) ++ ds

/-- The fraction of the second with as many groups of three decimals as it needs. -/
def fractionText (nanos : Nat) : String :=
  if nanos = 0 then ""
  else if nanos % 1000000 = 0 then "." ++ padded 3 (nanos / 1000000)
  else if nanos % 1000 = 0 then "." ++ padded 6 (nanos / 1000)
  else "." ++ padded 9 nanos

/-- The whole instant in universal time. -/
def stamp (t : Instant) : String :=
  let second := t.secondOfDay % 60 + t.nanos / 1000000000
  t.dateText ++ "T" ++ t.minuteText ++ ":" ++ two second ++
    fractionText (t.nanos % 1000000000) ++ "Z"

/-! ### Reading -/

/-- At least one and at most `width` digits after blanks, as a number, and the rest. -/
def takeNumber (width : Nat) (cs : List Char) : Option (Nat × List Char) :=
  let cs := trimStart cs
  let ds := (cs.takeWhile Char.isDigit).take width
  if ds.isEmpty then none else some (Decimal.natOfDigits ds, cs.drop ds.length)

/-- A year: up to four digits, or a sign and any number of them. -/
def takeYear (cs : List Char) : Option (Int × List Char) :=
  match trimStart cs with
  | '-' :: cs => (digitsOnly cs).map fun (n, cs) => (-(n : Int), cs)
  | '+' :: cs => (digitsOnly cs).map fun (n, cs) => ((n : Int), cs)
  | cs => (takeNumber 4 cs).map fun (n, cs) => ((n : Int), cs)
where
  digitsOnly (cs : List Char) : Option (Nat × List Char) :=
    let ds := cs.takeWhile Char.isDigit
    if ds.isEmpty then none else some (Decimal.natOfDigits ds, cs.drop ds.length)

/-- The rest after blanks and one given character. -/
def takeMark (mark : Char) (cs : List Char) : Option (List Char) :=
  match trimStart cs with
  | c :: cs => if c = mark then some cs else none
  | [] => none

/-- A fraction of a second in billionths: nothing, or a point and digits of which nine count. -/
def takeFraction : List Char → Option (Nat × List Char)
  | '.' :: cs =>
    let ds := cs.takeWhile Char.isDigit
    let kept := ds.take 9
    if ds.isEmpty then none
    else some (Decimal.natOfDigits kept * Nat.pow 10 (9 - kept.length), cs.drop ds.length)
  | cs => some (0, cs)

/-- Hours and minutes of an offset, each of two digits, with colons or blanks between them. -/
def takeOffsetParts : List Char → Option (Nat × List Char)
  | h :: i :: cs =>
    if h.isDigit && i.isDigit then
      match cs.dropWhile fun c => c = ':' || isBlank c with
      | m :: n :: cs =>
        if m.isDigit && n.isDigit && m ≤ '5' then
          some (Decimal.natOfDigits [h, i] * 3600 + Decimal.natOfDigits [m, n] * 60, cs)
        else none
      | _ => none
    else none
  | _ => none

/-- The offset from universal time in seconds: `Z`, `UTC` in any case, or signed hours and
minutes. -/
def takeOffset (cs : List Char) : Option (Int × List Char) :=
  if (cs.take 3).map Char.toUpper = ['U', 'T', 'C'] then some (0, cs.drop 3)
  else
    match cs with
    | c :: cs =>
      if c = 'Z' ∨ c = 'z' then some (0, cs)
      else if c = '+' then (takeOffsetParts cs).map fun (n, cs) => ((n : Int), cs)
      else if c = '-' ∨ c = '−' then (takeOffsetParts cs).map fun (n, cs) => (-(n : Int), cs)
      else none
    | [] => none

/-- Reads date, time of day and offset. The second may be the sixtieth, of a leap second. There has
to be a date where the clock is, and in universal time. -/
def read? (cs : List Char) : Option Instant := do
  let (year, cs) ← takeYear cs
  let (month, cs) ← takeNumber 2 (← takeMark '-' cs)
  let (day, cs) ← takeNumber 2 (← takeMark '-' cs)
  let cs ← match cs with
    | 'T' :: cs | 't' :: cs | ' ' :: cs => some cs
    | _ => none
  let (hour, cs) ← takeNumber 2 cs
  let (minute, cs) ← takeNumber 2 (← takeMark ':' cs)
  let (second, cs) ← takeNumber 2 (← takeMark ':' cs)
  let (nanos, cs) ← takeFraction cs
  let (offset, cs) ← takeOffset (trimStart cs)
  let date : Date := ⟨year, month, day⟩
  if !date.valid || hour > 23 || minute > 59 || second > 60 || !cs.all isBlank ||
      offset.natAbs ≥ 86400 then none
  else
    let leap := second = 60
    let clock := hour * 3600 + minute * 60 + (if leap then 59 else second)
    let there := date.toDays * 86400 + clock
    let seconds := there - offset
    if !hasDate there || !hasDate seconds then none
    else return ⟨seconds, nanos + (if leap then 1000000000 else 0)⟩

/-- Reads a written instant. -/
def ofStamp? (text : String) : Option Instant := read? text.toList

end Candlewick.Instant
