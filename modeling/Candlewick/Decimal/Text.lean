import Candlewick.Decimal.Shortest

/-! # Amounts as texts

Three texts of a binary64 number: `plain` has the fewest digits that read back and never an
exponent, `fixed` has a given number of decimals of the exact value, and `debug` always shows that
the number is not a whole count (`2.0`) and takes an exponent outside a middle range. `toFloat?`
reads a decimal text. -/

namespace Candlewick.Decimal

/-- The digits of a number in base ten. -/
def digitsText (n : Nat) : String := String.ofList (Nat.toDigits 10 n)

/-- A text of `n` zeros. -/
def zeros (n : Nat) : String := String.ofList (List.replicate n '0')

/-- The digits `n` with the last `places` of them after a point. -/
def pointed (n places : Nat) : String :=
  if places = 0 then digitsText n
  else
    let ds := Nat.toDigits 10 n
    let ds := List.replicate (places + 1 - ds.length) '0' ++ ds
    let whole := ds.length - places
    String.ofList (ds.take whole) ++ "." ++ String.ofList (ds.drop whole)

/-- A decimal without an exponent. -/
def positional (d : Decimal) : String :=
  if d.exponent < 0 then pointed d.digits (-d.exponent).toNat
  else digitsText d.digits ++ zeros d.exponent.toNat

/-- A minus sign where one is due. -/
def sign (negative : Bool) : String := if negative then "-" else ""

/-- The fewest digits that read back, never an exponent, and no point for whole numbers. -/
def plain (a : Float) : String :=
  match Binary64.ofFloat a with
  | .undefined => "NaN"
  | .infinite negative => sign negative ++ "inf"
  | .finite negative 0 _ => sign negative ++ "0"
  | .finite negative m e => sign negative ++ positional (shortest m e)

/-- The exact value rounded to `places` decimals, a tie going to the even last digit. A negative
number keeps its sign when it rounds to zero. -/
def fixed (places : Nat) (a : Float) : String :=
  match Binary64.ofFloat a with
  | .undefined => "NaN"
  | .infinite negative => sign negative ++ "inf"
  | .finite negative m e =>
    let n := if e < 0 then roundDiv (m * Nat.pow 10 places) (Nat.pow 2 (-e).toNat)
      else m * Nat.pow 2 e.toNat * Nat.pow 10 places
    sign negative ++ pointed n places

/-- One digit, a point and the remaining digits, then the power of ten. -/
def scientific (d : Decimal) : String :=
  let ds := Nat.toDigits 10 d.digits
  let power := d.exponent + (ds.length - 1 : Nat)
  let head := String.ofList (ds.take 1)
  let tail := if ds.length = 1 then "" else "." ++ String.ofList (ds.drop 1)
  head ++ tail ++ "e" ++ toString power

/-- The fewest digits that read back, with `.0` on whole numbers; with an exponent from `1e16` on
and below `1e-4`. -/
def debug (a : Float) : String :=
  match Binary64.ofFloat a with
  | .undefined => "NaN"
  | .infinite negative => sign negative ++ "inf"
  | .finite negative 0 _ => sign negative ++ "0.0"
  | .finite negative m e =>
    let d := shortest m e
    let top := d.exponent + (Nat.toDigits 10 d.digits).length
    if top > 16 ∨ top < -3 then sign negative ++ scientific d
    else sign negative ++ positional d ++ (if d.exponent < 0 then "" else ".0")

/-! ### Reading -/

/-- The value of a list of decimal digits. -/
def natOfDigits (ds : List Char) : Nat :=
  ds.foldl (fun n c => 10 * n + (c.toNat - '0'.toNat)) 0

/-- The number nearest to `digits` times ten to the power `exponent`. Powers that are out of reach
of every number are not computed. -/
def nearest (negative : Bool) (d : Decimal) : Float :=
  let size : Int := (Nat.toDigits 10 d.digits).length
  if d.digits = 0 ∨ d.exponent + size < -400 then Binary64.nearest negative 0 1
  else if d.exponent + size > 400 then Binary64.nearest negative (Nat.pow 10 400) 1
  else if d.exponent < 0 then
    Binary64.nearest negative d.digits (Nat.pow 10 (-d.exponent).toNat)
  else Binary64.nearest negative (d.digits * Nat.pow 10 d.exponent.toNat) 1

/-- The parts of a decimal numeral: digits before and after the point, and the power of ten if one
is written. -/
structure Numeral where
  negative : Bool
  whole : List Char
  fraction : List Char
  exponent : Option Int
deriving Repr, DecidableEq

namespace Numeral

/-- The numeral of a whole number. -/
def ofInt (n : Int) : Numeral := ⟨n < 0, Nat.toDigits 10 n.natAbs, [], none⟩

/-- The whole number that a numeral without point and power stands for. -/
def toInt? (n : Numeral) : Option Int :=
  match n with
  | ⟨negative, whole, [], none⟩ =>
    some (if negative then -(natOfDigits whole : Int) else natOfDigits whole)
  | _ => none

/-- The number nearest to a numeral. -/
def toFloat (n : Numeral) : Float :=
  nearest n.negative ⟨natOfDigits (n.whole ++ n.fraction), n.exponent.getD 0 - n.fraction.length⟩

/-- A numeral as it is written. -/
def text (n : Numeral) : String :=
  sign n.negative ++ String.ofList n.whole ++
    (if n.fraction.isEmpty then "" else "." ++ String.ofList n.fraction) ++
    (match n.exponent with
      | none => ""
      | some e => "e" ++ toString e)

/-- The numeral with the fewest digits that reads back as a number, its last digit before the point
and the power of ten written. Zero keeps its sign; the infinite and undefined have no numeral. -/
def ofFloat? (a : Float) : Option Numeral :=
  match Binary64.ofFloat a with
  | .undefined | .infinite _ => none
  | .finite negative 0 _ => some ⟨negative, ['0'], ['0'], none⟩
  | .finite negative m e =>
    let d := shortest m e
    some ⟨negative, Nat.toDigits 10 d.digits, [], some d.exponent⟩

end Numeral

/-- An optional sign in front of the rest. -/
def takeSign : List Char → Bool × List Char
  | '-' :: cs => (true, cs)
  | '+' :: cs => (false, cs)
  | cs => (false, cs)

/-- The leading digits and the rest. -/
def takeDigits (cs : List Char) : List Char × List Char :=
  cs.span Char.isDigit

/-- A power of ten at the end of a numeral: nothing, or `e` with a signed whole number. -/
def exponent? : List Char → Option (Option Int)
  | [] => some none
  | c :: cs =>
    if c = 'e' ∨ c = 'E' then
      let (negative, cs) := takeSign cs
      match takeDigits cs with
      | ([], _) | (_, _ :: _) => none
      | (ds, []) => some (some (if negative then -(natOfDigits ds : Int) else natOfDigits ds))
    else none

/-- The numeral after its sign: digits with at most one point and at least one digit, and a power
of ten. -/
def numeral? (negative : Bool) (cs : List Char) : Option Numeral := do
  let (whole, rest) := takeDigits cs
  let (fraction, rest) := match rest with
    | '.' :: rest => takeDigits rest
    | rest => ([], rest)
  if whole.isEmpty && fraction.isEmpty then none
  else return ⟨negative, whole, fraction, ← exponent? rest⟩

/-- Reads a decimal text: an optional sign, then a numeral or one of the words for the infinite and
the undefined in any case. -/
def toFloat? (text : String) : Option Float :=
  let (negative, cs) := takeSign text.toList
  let word := String.ofList (cs.map Char.toLower)
  if word = "inf" ∨ word = "infinity" then
    some (if negative then -1.0 / 0.0 else 1.0 / 0.0)
  else if word = "nan" then some (0.0 / 0.0)
  else (numeral? negative cs).map Numeral.toFloat

/-- The value of a digit in base sixteen. -/
def hexDigit? (c : Char) : Option Nat :=
  if c.isDigit then some (c.toNat - '0'.toNat)
  else if 'a' ≤ c ∧ c ≤ 'f' then some (c.toNat - 'a'.toNat + 10)
  else if 'A' ≤ c ∧ c ≤ 'F' then some (c.toNat - 'A'.toNat + 10)
  else none

/-- Reads a whole number in base ten: digits only, at least one. -/
def nat? (cs : List Char) : Option Nat :=
  if cs.isEmpty || !cs.all Char.isDigit then none else some (natOfDigits cs)

/-- Reads a whole number with an optional sign. -/
def int? (cs : List Char) : Option Int :=
  let (negative, ds) := takeSign cs
  (nat? ds).map fun n => if negative then -(n : Int) else n

end Candlewick.Decimal
