/-! # Ranges of code points

A class of characters that follows no rule is given by the ranges of its code points, in order. The
classes here are those of Unicode 17. -/

namespace Candlewick

/-- A first and a last code point. -/
abbrev CodeRange := Nat × Nat

/-- Whether a code point lies in a range. -/
def CodeRange.covers (r : CodeRange) (n : Nat) : Bool := r.1 ≤ n && n ≤ r.2

/-- Whether a character lies in one of some ranges. -/
def liesIn (ranges : List CodeRange) (c : Char) : Bool :=
  ranges.any fun r => CodeRange.covers r c.toNat

end Candlewick
