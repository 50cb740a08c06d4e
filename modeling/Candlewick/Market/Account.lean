import Candlewick.Amount

/-! # Accounts

What an account holds of each asset, free or locked by resting orders, what it holds on the two
sides of a pair, and the limits that a venue sets for orders on a pair. -/

namespace Candlewick

/-- The free and the locked quantity of one asset. -/
structure Holding (α : Type) where
  /-- What can be spent; below zero for a short position. -/
  free : α
  /-- What resting orders reserve. -/
  lock : α
deriving Repr, DecidableEq, Inhabited

namespace Holding
variable {α : Type} [Amount α]

/-- Nothing free and nothing locked. -/
def zero : Holding α := ⟨Amount.zero, Amount.zero⟩

/-- Free and locked together. -/
def total (h : Holding α) : α := h.free + h.lock

end Holding

/-- The holdings of every asset of an account, by name. -/
structure Account (α : Type) where
  balances : List (String × Holding α)
deriving Inhabited

/-- The holding of one asset, nothing where the account does not list it. -/
def Account.holding {α : Type} [Amount α] (a : Account α) (asset : String) : Holding α :=
  ((a.balances.find? (·.1 = asset)).map (·.2)).getD Holding.zero

/-- The totals held of the asset and of the quote of a pair. -/
structure Position (α : Type) where
  asset : α
  quote : α
deriving Repr, DecidableEq, Inhabited

/-- What a venue demands of orders on a pair. -/
structure PairLimits (α : Type) where
  asset : String
  quote : String
  minQuantity : α
  maxQuantity : α
  minPrice : α
  maxPrice : α
  quantityStep : α
  priceTick : α
  quotePrecision : Nat
  assetPrecision : Nat
deriving Inhabited

/-- The largest finite amount of 64 bits: 53 binary ones followed by 971 zeros. -/
def greatest {α : Type} [Amount α] : α :=
  Amount.ofNat ((Nat.pow 2 53 - 1) * Nat.pow 2 971)

/-- Limits that forbid nothing, with eight decimals on both sides. -/
def PairLimits.unrestricted {α : Type} [Amount α] (asset quote : String) : PairLimits α where
  asset := asset
  quote := quote
  minQuantity := Amount.zero
  maxQuantity := greatest
  minPrice := Amount.zero
  maxPrice := greatest
  quantityStep := Amount.one / Amount.ofNat 100000000
  priceTick := Amount.one / Amount.ofNat 100000000
  quotePrecision := 8
  assetPrecision := 8

end Candlewick
