import Candlewick.Candle.Basic
import Candlewick.Market.Pair
import Candlewick.Order.Broker
import Candlewick.Wallet.Config
import Candlewick.Wallet.Drawdown

/-! # Wallets

The state of one simulated account: what it holds, the orders it was given, the funds that resting
orders reserve, and what the market has shown it. A short position is a free balance below zero;
the price at which it was opened is its average. This module has the lookups; settlement, orders and
valuation are in modules of their own. -/

namespace Candlewick

/-- Funds held back for a resting order, or for two that are linked. -/
structure Reservation (α : Type) where
  pair : Pair
  assetQuantity : α
  quoteQuantity : α
deriving Repr, DecidableEq, Inhabited

/-- The state of a simulated account. -/
structure Wallet (α : Type) where
  /-- The coin that values are reckoned in. -/
  base : String
  makerFee : α
  takerFee : α
  /-- The last identity given out. -/
  lastId : Int
  holdings : Table String (Holding α)
  /-- By pair, the average price at which what is held was bought. -/
  longAverage : Table String α
  /-- By pair, the average price at which what is owed was sold. -/
  shortAverage : Table String α
  /-- By pair, the value of all that was traded. -/
  traded : Table String α
  /-- By pair, the last close and its time. -/
  last : Table String (Mark α)
  /-- By pair, the first close. -/
  first : Table String α
  /-- By asset, the pair that it was last seen on against the base coin. -/
  marketOf : Table String String
  /-- All orders, oldest first. -/
  orders : List (Order α)
  /-- By owner, which is an order or a group of two, what it holds back. -/
  reservations : Table Int (Reservation α)
  /-- By asset, its values at the closed candles, newest first. -/
  assetMarks : Table String (List (Mark α))
  /-- The values of the whole account at the closed candles, newest first. -/
  marks : List (Mark α)
deriving Inhabited

namespace Wallet
variable {α : Type}

section Start
variable [Amount α]

/-- A wallet before any candle and any order. -/
def start (c : WalletConfig α) : Wallet α where
  base := upperName c.base
  makerFee := c.makerFee
  takerFee := c.takerFee
  lastId := 0
  holdings := .ofList (c.assets.entries.map fun (k, a) => (upperName k, ⟨a, Amount.zero⟩))
  longAverage := .empty
  shortAverage := .empty
  traded := .empty
  last := .empty
  first := .empty
  marketOf := .empty
  orders := []
  reservations := .empty
  assetMarks := .empty
  marks := []

end Start

/-! ### Lookups -/

/-- Splits a name without a separator before the base coin if it ends with it, and as any pair
otherwise. -/
def splitBefore? (base name : List Char) : Option (List Char × List Char) :=
  if name.any isSeparator then splitName? name
  else
    match beforeEnding? name base with
    | some asset => some (asset, base)
    | none => splitName? name

/-- The asset and the quote of a named pair, the base coin being the preferred quote. -/
def split? (w : Wallet α) (pair : String) : Option Pair :=
  (splitBefore? w.base.toList (canonicalName pair)).map .ofParts

/-- The asset and the quote of a named pair, or a refusal. -/
def split (w : Wallet α) (pair : String) : Except (BrokerError α) Pair :=
  match w.split? pair with
  | some p => .ok p
  | none => .error (.unknownPair pair)

/-- The time that the market of a pair has reached. -/
def clock (w : Wallet α) (pair : String) : Moment :=
  match w.last.get? pair with
  | some m => .at m.time
  | none => .now

/-- The last close of a pair. -/
def lastPrice? (w : Wallet α) (pair : String) : Option α := (w.last.get? pair).map (·.value)

/-- The values of an asset at the closed candles. -/
def assetValues (w : Wallet α) (asset : String) : List (Mark α) :=
  (w.assetMarks.getD (upperName asset) []).reverse

/-- The values of the whole account at the closed candles. -/
def equity (w : Wallet α) : List (Mark α) := w.marks.reverse

/-- The order with an identity, if it is on the given pair. -/
def order (w : Wallet α) (pair : String) (id : Int) : Except (BrokerError α) (Order α) :=
  match w.orders.find? fun o => o.id = id && o.pair = pair with
  | some o => .ok o
  | none => .error (.orderNotFound id)

section Amounts
variable [Amount α]

/-- What is held of an asset. -/
def holding (w : Wallet α) (asset : String) : Holding α := w.holdings.getD asset .zero

/-- The average prices of a pair, of what is held and of what is owed. -/
def averages (w : Wallet α) (pair : String) : α × α :=
  (w.longAverage.getD pair Amount.zero, w.shortAverage.getD pair Amount.zero)

/-- The value of all that was traded on a pair. -/
def volume (w : Wallet α) (pair : String) : α := w.traded.getD pair Amount.zero

/-- What is held of every asset, by name. -/
def account (w : Wallet α) : Account α := ⟨w.holdings.sorted⟩

/-- The totals held on the two sides of a pair. -/
def position (w : Wallet α) (pair : String) : Except (BrokerError α) (Position α) := do
  let p ← w.split pair
  return ⟨(w.holding p.asset).total, (w.holding p.quote).total⟩

end Amounts

end Wallet

end Candlewick
