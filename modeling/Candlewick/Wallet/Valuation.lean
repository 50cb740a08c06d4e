import Candlewick.Wallet.Orders

/-! # Valuation

What an account is worth at the last closes, the reaction of a wallet to a candle, and the summary
of a run. -/

namespace Candlewick

/-- What is held of an asset at the end, and its value. -/
structure HeldAsset (α : Type) where
  asset : String
  quantity : α
  value : α
deriving Repr, DecidableEq, Inhabited

/-- How a wallet has done. -/
structure WalletSummary (α : Type) where
  base : String
  holdings : List (HeldAsset α)
  /-- What is held of the base coin. -/
  baseBalance : α
  /-- The value at the first closed candle. -/
  initialValue : α
  finalValue : α
  profit : α
  /-- The mean change of the pairs from their first to their last close, as a fraction. -/
  marketChange : α
  drawdown : Option (Drawdown α)
  /-- The value of all that was traded. -/
  volume : α
deriving Inhabited

/-- The profit as a fraction of the value at the start. -/
def WalletSummary.returnRate {α : Type} [Amount α] (s : WalletSummary α) : α :=
  if Amount.same s.initialValue Amount.zero then Amount.zero else s.profit / s.initialValue

namespace Wallet
variable {α : Type} [Amount α]

/-- Adds amounts to nothing, from left to right. -/
def sum (as : List α) : α := as.foldl (· + ·) Amount.zero

/-- The value of a quantity of the asset of a pair. What is owed counts as if it were bought back
at the close. -/
def holdingValue (w : Wallet α) (name : String) (quantity close : α) : α :=
  if Amount.lt quantity Amount.zero then
    let size := Amount.abs quantity
    let average := w.shortAverage.getD name close
    Amount.ofNat 2 * size * average - size * close
  else quantity * close

/-- What is held of the base coin. -/
def baseBalance (w : Wallet α) : α := (w.holding w.base).total

/-- The values of all assets that were seen on a pair against the base coin, by name. -/
def assetValuesNow (w : Wallet α) : List (String × α) :=
  w.holdings.sorted.filterMap fun (asset, h) =>
    if asset = w.base then none
    else do
      let name ← w.marketOf.get? asset
      let close ← w.lastPrice? name
      return (asset, w.holdingValue name h.total close)

/-- Writes down the value of every asset and of the whole account. -/
def markToMarket (w : Wallet α) (time : Instant) : Wallet α :=
  let values := w.assetValuesNow
  let equity := sum (values.map (·.2)) + w.baseBalance
  { w with
    assetMarks := values.foldl (fun t (asset, value) => t.update asset [] (⟨time, value⟩ :: ·))
      w.assetMarks
    marks := ⟨time, equity⟩ :: w.marks }

/-- Takes note of the close of a candle and of the pair it is on. -/
def note (w : Wallet α) (c : Candle α) : Wallet α :=
  { w with
    first := w.first.setNew c.pair c.close
    last := w.last.set c.pair ⟨c.time, c.close⟩
    marketOf := match w.split? c.pair with
      | some p => if p.quote = w.base then w.marketOf.set p.asset c.pair else w.marketOf
      | none => w.marketOf }

/-- Reacts to a candle: notes it, executes the orders that it triggers, and values the account if
it is complete. -/
def observe (w : Wallet α) (c : Candle α) : Wallet α :=
  let w := (w.note c).fillAll c
  if c.complete then w.markToMarket c.time else w

/-- What is held of the asset of a pair, at its last close. -/
def heldAsset? (w : Wallet α) (name : String) (close : α) : Option (HeldAsset α) :=
  (w.split? name).map fun p =>
    let quantity := (w.holding p.asset).total
    ⟨p.asset, quantity, w.holdingValue name quantity close⟩

/-- The change of a pair from its first to its last close, as a fraction. -/
def changeOf (first last : α) : α :=
  if Amount.same first Amount.zero then Amount.zero else (last - first) / first

/-- The mean change of the pairs. -/
def marketChange (w : Wallet α) (pairs : List (String × Mark α)) : α :=
  if pairs.isEmpty then Amount.zero
  else
    sum (pairs.map fun (name, last) => changeOf (w.first.getD name last.value) last.value) /
      Amount.ofNat pairs.length

/-- How the wallet has done so far. -/
def summary (w : Wallet α) : WalletSummary α :=
  let pairs := w.last.sorted
  let holdings := pairs.filterMap fun (name, last) => w.heldAsset? name last.value
  let finalValue := sum (holdings.map (·.value)) + w.baseBalance
  let initialValue := (w.equity.head?.map (·.value)).getD finalValue
  { base := w.base
    holdings
    baseBalance := w.baseBalance
    initialValue
    finalValue
    profit := finalValue - initialValue
    marketChange := w.marketChange pairs
    drawdown := maxDrawdown w.equity
    volume := sum (pairs.map fun (name, _) => w.volume name) }

instance : Broker (Wallet α) α where
  account w := .ok w.account
  position w pair := w.position pair
  order w pair id := (w.order pair id, w)
  place w t :=
    match w.place t with
    | .ok (orders, w) => (.ok orders, w)
    | .error e => (.error e, w)
  cancel w id :=
    match w.cancel id with
    | .ok w => (.ok (), w)
    | .error e => (.error e, w)

end Wallet

end Candlewick
