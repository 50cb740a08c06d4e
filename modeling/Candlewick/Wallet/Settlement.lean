import Candlewick.Wallet.Basic

/-! # Funds and settlement

Whether an account covers an order (`Wallet.cover`), how funds are held back for it and given back
(`Wallet.reserve`, `Wallet.release`), and what its execution does to balances, averages and volume
(`Wallet.execute`).

A sale is covered by what is held of the asset and by the free quote; what goes beyond the holding
opens a short position. Buying covers a short position first, which gives the quote back with the
profit or loss of the short: `cover * (2 * average - price)`. -/

namespace Candlewick

namespace Holding
variable {α : Type} [Amount α]

/-- Moves a quantity from free to locked. -/
def reserve (h : Holding α) (q : α) : Holding α := ⟨h.free - q, h.lock + q⟩

/-- Moves a quantity back; nothing below zero stays locked. -/
def release (h : Holding α) (q : α) : Holding α :=
  ⟨h.free + q, Amount.max (h.lock - q) Amount.zero⟩

/-- Changes what is free. -/
def credit (h : Holding α) (change : α) : Holding α := { h with free := h.free + change }

/-- Takes from what is free. -/
def debit (h : Holding α) (q : α) : Holding α := { h with free := h.free - q }

end Holding

namespace Wallet
variable {α : Type} [Amount α]

/-- Changes what is held of an asset. -/
def updateHolding (w : Wallet α) (asset : String) (f : Holding α → Holding α) : Wallet α :=
  { w with holdings := w.holdings.update asset .zero f }

/-! ### Cover -/

/-- What an order can draw on, what it takes, and what it has to hold back. -/
structure Cover (α : Type) where
  funds : α
  required : α
  assetQuantity : α
  quoteQuantity : α

/-- The cover of a sale: the holding first, the quote for what goes beyond it. -/
def coverSale (asset quote : Holding α) (quantity price fee : α) : Cover α :=
  let held := Amount.max asset.free Amount.zero
  let sold := Amount.min held quantity
  { funds := quote.free + held * price
    required := quantity * price + fee
    assetQuantity := sold
    quoteQuantity := (quantity - sold) * price }

/-- The cover of a purchase: a short position is closed first and sets quote free. -/
def coverPurchase (asset quote : Holding α) (average quantity price fee : α) : Cover α :=
  let short := Amount.max (-asset.free) Amount.zero
  let closed := Amount.min short quantity
  let opened := quantity - closed
  let freed := closed * (Amount.ofNat 2 * average - price)
  { funds := quote.free + freed
    required := opened * price + fee
    assetQuantity := Amount.zero
    quoteQuantity := Amount.max (opened * price - freed) Amount.zero }

/-- What an order has to hold back, or a refusal if the account does not cover it. -/
def cover (w : Wallet α) (side : Side) (name : String) (pair : Pair)
    (quantity price feeRate : α) : Except (BrokerError α) (Reservation α) :=
  let asset := w.holding pair.asset
  let quote := w.holding pair.quote
  let fee := quantity * price * feeRate
  let c := match side with
    | .sell => coverSale asset quote quantity price fee
    | .buy => coverPurchase asset quote (w.shortAverage.getD name price) quantity price fee
  if Amount.lt c.funds c.required then .error (.insufficientFunds name quantity)
  else .ok ⟨pair, c.assetQuantity, c.quoteQuantity⟩

/-- Holds funds back for an owner. -/
def reserve (w : Wallet α) (owner : Int) (r : Reservation α) : Wallet α :=
  let w := w.updateHolding r.pair.asset (·.reserve r.assetQuantity)
  let w := w.updateHolding r.pair.quote (·.reserve r.quoteQuantity)
  { w with reservations := w.reservations.set owner r }

/-- Gives back what is held back for an owner. -/
def release (w : Wallet α) (owner : Int) : Wallet α :=
  match w.reservations.get? owner with
  | none => w
  | some r =>
    let w := { w with reservations := w.reservations.erase owner }
    let w := w.updateHolding r.pair.asset (·.release r.assetQuantity)
    w.updateHolding r.pair.quote (·.release r.quoteQuantity)

/-! ### Execution -/

/-- What an execution adds to the free quote, before the fee. `free` is the free balance of the
asset and `average` the average price of what is owed. -/
def quoteChange (side : Side) (free average quantity price : α) : α :=
  match side with
  | .sell =>
    let closed := Amount.min (Amount.max free Amount.zero) quantity
    closed * price - (quantity - closed) * price
  | .buy =>
    let closed := Amount.min (Amount.max (-free) Amount.zero) quantity
    closed * (Amount.ofNat 2 * average - price) - (quantity - closed) * price

/-- The average of a quantity `held` at one price and a further quantity at another. -/
def blend (average held price quantity : α) : α :=
  (average * held + quantity * price) / (held + quantity)

/-- The average prices of a pair after an execution. A position that grows blends the price in, a
position that is opened takes the price, also when it is opened by what closes the one on the other
side, and a position that shrinks keeps its average. -/
def updateAverages (w : Wallet α) (side : Side) (name : String) (free quantity price : α) :
    Wallet α :=
  let (long, short) := w.averages name
  let setLong (a : α) : Wallet α := { w with longAverage := w.longAverage.set name a }
  let setShort (a : α) : Wallet α := { w with shortAverage := w.shortAverage.set name a }
  if Amount.same free Amount.zero then
    match side with
    | .buy => setLong price
    | .sell => setShort price
  else
    match side, Amount.lt Amount.zero free with
    | .buy, true => setLong (blend long free price quantity)
    | .sell, false => setShort (blend short (-free) price quantity)
    | .sell, true => if Amount.lt free quantity then setShort price else w
    | .buy, false => if Amount.lt (-free) quantity then setLong price else w

/-- Executes a trade against the free balances. -/
def execute (w : Wallet α) (side : Side) (name : String) (pair : Pair)
    (quantity price feeRate : α) : Wallet α :=
  let free := (w.holding pair.asset).free
  let change := quoteChange side free (w.shortAverage.getD name price) quantity price
  let fee := quantity * price * feeRate
  let w := w.updateAverages side name free quantity price
  let w := w.updateHolding pair.quote (·.credit (change - fee))
  let w := w.updateHolding pair.asset fun h =>
    match side with
    | .buy => h.credit quantity
    | .sell => h.debit quantity
  { w with traded := w.traded.update name Amount.zero (· + quantity * price) }

end Wallet

end Candlewick
