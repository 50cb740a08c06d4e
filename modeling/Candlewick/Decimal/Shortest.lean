import Candlewick.Decimal.Binary64

/-! # The shortest decimal that reads back

`Decimal.shortest m e` is a decimal with as few digits as possible among those that round to the
binary64 number `m` times two to the power `e`, and of these the one closest to it. For one digit,
two digits and so on up to seventeen it tests the two neighbours of the number on the grid of
decimals of that many digits; the first grid with a neighbour in the interval of all values that
round to the number has the shortest decimal. -/

namespace Candlewick

/-- `digits` times ten to the power `exponent`. -/
structure Decimal where
  digits : Nat
  exponent : Int
deriving Repr, DecidableEq

namespace Decimal

/-- A number and the interval of the values that round to it, over one denominator. -/
structure Neighbourhood where
  value : Nat
  low : Nat
  high : Nat
  denominator : Nat
  /-- Whether the ends round to the number too. -/
  closed : Bool

/-- The neighbourhood of `m` times two to the power `e`. The gap below a power of two is half of the
gap above it, except at the least exponent. -/
def Neighbourhood.ofBinary (m : Nat) (e : Int) : Neighbourhood :=
  let unit := if e < 0 then 1 else Nat.pow 2 e.toNat
  let below := if m = Binary64.hidden ∧ e ≠ Binary64.leastExponent then 1 else 2
  { value := 4 * m * unit
    low := (4 * m - below) * unit
    high := (4 * m + 2) * unit
    denominator := if e < 0 then 4 * Nat.pow 2 (-e).toNat else 4
    closed := m % 2 = 0 }

namespace Neighbourhood
variable (v : Neighbourhood)

/-- The same neighbourhood with everything multiplied by ten to the power `-s`, so that the grid of
step ten to the power `s` becomes the whole numbers. -/
def scale (s : Int) : Neighbourhood :=
  if s < 0 then
    let f := Nat.pow 10 (-s).toNat
    { v with value := v.value * f, low := v.low * f, high := v.high * f }
  else { v with denominator := v.denominator * Nat.pow 10 s.toNat }

/-- Whether a whole number lies in the interval. -/
def holds (n : Nat) : Bool :=
  let x := n * v.denominator
  if v.closed then v.low ≤ x && x ≤ v.high else v.low < x && x < v.high

/-- The whole number closest to the value among its two neighbours that lie in the interval; of two
equally close ones the upper. -/
def hit? : Option Nat :=
  let n := v.value / v.denominator
  let r := v.value % v.denominator
  match v.holds n, v.holds (n + 1) with
  | true, true => if 2 * r < v.denominator then some n else some (n + 1)
  | true, false => some n
  | false, true => some (n + 1)
  | false, false => none

/-- Whether ten to the power `e` is at most the value. -/
def tenLe (e : Int) : Bool :=
  if e < 0 then v.denominator ≤ v.value * Nat.pow 10 (-e).toNat
  else v.denominator * Nat.pow 10 e.toNat ≤ v.value

end Neighbourhood

/-- Drops zeros at the end of the digits; `fuel` bounds how many. -/
def trim : Nat → Decimal → Decimal
  | 0, d => d
  | fuel + 1, d =>
    if d.digits ≠ 0 ∧ d.digits % 10 = 0 then trim fuel ⟨d.digits / 10, d.exponent + 1⟩ else d

/-- Searches the grids of `count` digits and more, `fuel` of them; the leading digit stands at the
power `lead` of ten. -/
def search (v : Neighbourhood) (lead : Int) : Nat → Nat → Decimal
  | 0, _ => ⟨0, 0⟩
  | fuel + 1, count =>
    let s := lead + 1 - count
    match (v.scale s).hit? with
    | some n => trim 20 ⟨n, s⟩
    | none => search v lead fuel (count + 1)

/-- The shortest decimal that rounds to `m` times two to the power `e`, for a positive `m`. Thirty
binary digits are a little over nine decimal ones, which gives the power of the leading digit up to
one. -/
def shortest (m : Nat) (e : Int) : Decimal :=
  let v := Neighbourhood.ofBinary m e
  let guess := Int.fdiv (((m.log2 : Int) + e) * 30103) 100000
  let lead := if v.tenLe (guess + 1) then guess + 1 else guess
  search v lead 17 1

end Decimal

end Candlewick
