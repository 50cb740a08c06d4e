/-! # Binary64 numbers as exact fractions

A finite binary64 number is a whole number times a power of two. `Binary64.ofFloat` takes a number
apart into that form and `Binary64.nearest` finds the number closest to a fraction, a tie going to
the even mantissa; both work on whole numbers only. -/

namespace Candlewick

/-- `roundDiv n d` is `n / d` rounded to the nearest whole number, a tie going to the even one. -/
def roundDiv (n d : Nat) : Nat :=
  let q := n / d
  let r := n % d
  if 2 * r < d then q
  else if d < 2 * r then q + 1
  else if q % 2 = 0 then q else q + 1

/-- What the 64 bits of a number say. -/
inductive Binary64 where
  /-- Not a number. -/
  | undefined
  /-- Beyond all finite numbers, on the negative side or not. -/
  | infinite (negative : Bool)
  /-- `mantissa` times two to the power `exponent`, negated or not. -/
  | finite (negative : Bool) (mantissa : Nat) (exponent : Int)
deriving Repr, DecidableEq

namespace Binary64

/-- Two to the power 52, the least mantissa of a normal number. -/
def hidden : Nat := 4503599627370496

/-- Two to the power 63, the bit of the sign. -/
def signBit : Nat := 9223372036854775808

/-- The exponent of the smallest numbers. -/
def leastExponent : Int := -1074

/-- Takes the bits apart: one of sign, eleven of exponent, fifty-two of mantissa. -/
def ofBits (bits : Nat) : Binary64 :=
  let negative := bits / signBit % 2 = 1
  let biased := bits / hidden % 2048
  let fraction := bits % hidden
  if biased = 2047 then
    if fraction = 0 then .infinite negative else .undefined
  else if biased = 0 then .finite negative fraction leastExponent
  else .finite negative (hidden + fraction) (biased + leastExponent - 1)

/-- What a number is. -/
def ofFloat (a : Float) : Binary64 := ofBits a.toBits.toNat

/-- The bits of `mantissa` times two to the power `exponent`, of infinity where that is too large.
The mantissa is below `2 * hidden`, and below `hidden` only at the least exponent. -/
def magnitudeBits (mantissa : Nat) (exponent : Int) : Nat :=
  if mantissa < hidden then mantissa
  else
    let biased := (exponent - leastExponent + 1).toNat
    if biased ≥ 2047 then 2047 * hidden else biased * hidden + (mantissa - hidden)

/-- Whether two to the power `e` is at most `n / d`. -/
def powLe (e : Int) (n d : Nat) : Bool :=
  if e < 0 then d ≤ n * Nat.pow 2 (-e).toNat else d * Nat.pow 2 e.toNat ≤ n

/-- The bits of the number nearest to `n / d`, which is positive. -/
def nearestBits (n d : Nat) : Nat :=
  let guess : Int := (n.log2 : Int) - d.log2
  let top := if powLe guess n d then guess else guess - 1
  let e := if top - 52 < leastExponent then leastExponent else top - 52
  let m :=
    if e < 0 then roundDiv (n * Nat.pow 2 (-e).toNat) d else roundDiv n (d * Nat.pow 2 e.toNat)
  if m = 2 * hidden then magnitudeBits hidden (e + 1) else magnitudeBits m e

/-- The number nearest to `n / d`, negated or not. -/
def nearest (negative : Bool) (n d : Nat) : Float :=
  let magnitude := if n = 0 then 0 else nearestBits n d
  Float.ofBits (UInt64.ofNat (if negative then signBit + magnitude else magnitude))

end Binary64

end Candlewick
