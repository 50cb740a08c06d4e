/-! # Amounts

Prices, quantities, fees and values are all amounts. Every rule of the library that computes with
them is written once, over the class `Amount`, so that the same rule runs on binary64 numbers and
can be reasoned about on exact rationals. The operations that a rule does not state itself
(`Amount.max`, `Amount.total`, `Amount.pow`) are fixed here, down to the order of additions. -/

namespace Candlewick

/-- Numbers that prices and quantities are counted in. Comparisons are tests, since on binary64 a
value may fail to compare with itself. -/
class Amount (α : Type) extends Add α, Sub α, Mul α, Div α, Neg α where
  /-- The amount that a count stands for. -/
  ofNat : Nat → α
  /-- Strictly below. -/
  lt : α → α → Bool
  /-- At most. -/
  le : α → α → Bool
  /-- Numerically equal. -/
  same : α → α → Bool
  /-- Neither infinite nor undefined. -/
  finite : α → Bool
  /-- The whole part, none below zero and, where amounts are bounded, none above what 64 bits
  hold. -/
  floor : α → Nat

instance : Amount Float where
  ofNat := Float.ofNat
  lt a b := a < b
  le a b := a ≤ b
  same a b := a == b
  finite := Float.isFinite
  floor a := a.toUInt64.toNat

instance : Amount Rat where
  ofNat n := (n : Rat)
  lt a b := decide (a < b)
  le a b := decide (a ≤ b)
  same a b := decide (a = b)
  finite _ := true
  floor a := a.floor.toNat

namespace Amount
variable {α : Type} [Amount α]

/-- Nothing. -/
abbrev zero : α := ofNat 0

/-- One unit. -/
abbrev one : α := ofNat 1

/-- The larger of two amounts; an undefined one gives way to the other. -/
def max (a b : α) : α :=
  if lt a b then b else if same a a then a else b

/-- The smaller of two amounts; an undefined one gives way to the other. -/
def min (a b : α) : α :=
  if lt b a then b else if same a a then a else b

/-- The amount without its sign. -/
def abs (a : α) : α :=
  if lt a zero then -a else a

/-- The sum of a list from left to right. It starts from the negated zero, which is what adding
nothing at all amounts to. -/
def total (as : List α) : α :=
  as.foldl (· + ·) (-zero)

/-- `powAux fuel r a n` is `r` times `a` to the power `n`, by squaring. -/
def powAux : Nat → α → α → Nat → α
  | 0, r, _, _ => r
  | fuel + 1, r, a, n =>
    let r := if n % 2 = 1 then r * a else r
    if n / 2 = 0 then r else powAux fuel r (a * a) (n / 2)

/-- `a` to the power `n`, by repeated squaring. -/
def pow (a : α) (n : Nat) : α :=
  powAux (n + 1) one a n

end Amount

section Exact
variable (a b : Rat)

@[simp] theorem Amount.lt_rat : Amount.lt a b = decide (a < b) := rfl
@[simp] theorem Amount.le_rat : Amount.le a b = decide (a ≤ b) := rfl
@[simp] theorem Amount.same_rat : Amount.same a b = decide (a = b) := rfl
@[simp] theorem Amount.finite_rat : Amount.finite a = true := rfl
@[simp] theorem Amount.ofNat_rat (n : Nat) : (Amount.ofNat n : Rat) = (n : Rat) := rfl

end Exact

end Candlewick
