import Candlewick.Wallet.Settlement

/-! # Orders of a wallet

Placing and withdrawing orders, and their execution by candles. Every resting order owns one
reservation; two linked orders share that of their group. Placing an order moves its reservation
from free to locked, withdrawing it moves the reservation back, and an execution first gives it back
and then settles the trade. A refusal leaves the wallet as it is, so placing and withdrawing give
either a refusal or the wallet afterwards. -/

namespace Candlewick.Wallet
variable {α : Type} [Amount α]

/-! ### Placing -/

/-- A finite amount above nothing. -/
def isPositive (a : α) : Bool := Amount.finite a && Amount.lt Amount.zero a

/-- Refuses a quantity that is not positive and finite. -/
def checkQuantity (pair : String) (quantity : α) : Except (BrokerError α) Unit :=
  if isPositive quantity then .ok () else .error (.invalidQuantity pair quantity)

/-- Refuses a price that is not positive and finite. -/
def checkPrice (pair : String) (price : α) : Except (BrokerError α) Unit :=
  if isPositive price then .ok () else .error (.invalidPrice pair price)

/-- The last close of a pair, or a refusal where none was seen. -/
def priceNow (w : Wallet α) (pair : String) : Except (BrokerError α) α :=
  match w.lastPrice? pair with
  | some a => .ok a
  | none => .error (.missingPrice pair)

/-- A resting order with a given identity. -/
def newOrder (w : Wallet α) (id : Int) (side : Side) (pair : String) (kind : OrderKind)
    (quantity price : α) : Order α where
  id := id
  group := none
  pair := pair
  side := side
  kind := kind
  status := .new
  price := price
  stop := none
  quantity := quantity
  created := w.clock pair
  updated := w.clock pair

/-- Writes new orders into the log. The last of them has the last identity given out. -/
def log (w : Wallet α) (lastId : Int) (orders : List (Order α)) : Wallet α :=
  { w with lastId, orders := w.orders ++ orders }

/-- The orders that were made, and the wallet that has them. -/
abbrev Placed (α : Type) := List (Order α) × Wallet α

/-- Executes an order at the last close. -/
def placeMarket (w : Wallet α) (side : Side) (name : String) (quantity : α) :
    Except (BrokerError α) (Placed α) := do
  checkQuantity name quantity
  let pair ← w.split name
  let price ← w.priceNow name
  let _ ← w.cover side name pair quantity price w.takerFee
  let id := w.lastId + 1
  let order := { w.newOrder id side name .market quantity price with status := .filled }
  return ([order], (w.execute side name pair quantity price w.takerFee).log id [order])

/-- Executes an order for an amount of the quote at the last close. -/
def placeMarketQuote (w : Wallet α) (side : Side) (name : String) (amount : α) :
    Except (BrokerError α) (Placed α) := do
  checkQuantity name amount
  let price ← w.priceNow name
  w.placeMarket side name (amount / price)

/-- Places one resting order with what it has to hold back. -/
def placeResting (w : Wallet α) (side : Side) (name : String) (quantity price : α)
    (make : Int → Order α) : Except (BrokerError α) (Placed α) := do
  checkQuantity name quantity
  checkPrice name price
  let pair ← w.split name
  let r ← w.cover side name pair quantity price w.makerFee
  let id := w.lastId + 1
  let order := make id
  return ([order], (w.reserve id r).log id [order])

/-- Places an order that executes at a limit price. -/
def placeLimit (w : Wallet α) (side : Side) (name : String) (quantity price : α) :
    Except (BrokerError α) (Placed α) :=
  w.placeResting side name quantity price fun id => w.newOrder id side name .limit quantity price

/-- Places a sale that executes once the price falls to a stop. -/
def placeStop (w : Wallet α) (name : String) (quantity stop : α) :
    Except (BrokerError α) (Placed α) :=
  w.placeResting .sell name quantity stop fun id =>
    { w.newOrder id .sell name .stopLoss quantity stop with stop := some stop }

/-- Places two linked orders, covered at the higher of the two prices they may execute at. -/
def placeOco (w : Wallet α) (side : Side) (name : String) (quantity price stop stopLimit : α) :
    Except (BrokerError α) (Placed α) := do
  checkQuantity name quantity
  checkPrice name price
  checkPrice name stop
  checkPrice name stopLimit
  let pair ← w.split name
  let r ← w.cover side name pair quantity (Amount.max price stop) w.makerFee
  let group := w.lastId + 1
  let limitLeg :=
    { w.newOrder (group + 1) side name .limitMaker quantity price with group := some group }
  let stopLeg := { w.newOrder (group + 2) side name .stopLossLimit quantity stopLimit with
    group := some group, stop := some stop }
  return ([limitLeg, stopLeg], (w.reserve group r).log (group + 2) [limitLeg, stopLeg])

/-- Places what a ticket asks for. -/
def place (w : Wallet α) : Ticket α → Except (BrokerError α) (Placed α)
  | .market side name quantity => w.placeMarket side name quantity
  | .marketQuote side name amount => w.placeMarketQuote side name amount
  | .limit side name quantity price => w.placeLimit side name quantity price
  | .stop name quantity price => w.placeStop name quantity price
  | .oco side name quantity price stop stopLimit =>
    w.placeOco side name quantity price stop stopLimit

/-! ### Withdrawing -/

/-- Whose reservation an order draws on. -/
def owner (o : Order α) : Int := o.group.getD o.id

/-- Whether two orders are linked. -/
def linked (o p : Order α) : Bool := o.group.isSome && o.group = p.group

/-- Withdraws those resting orders that pass a test. -/
def withdrawn (p : Order α → Bool) (time : Moment) (o : Order α) : Order α :=
  if o.resting && p o then { o with status := .canceled, updated := time } else o

/-- Withdraws a resting order and the one that is linked to it. -/
def cancel (w : Wallet α) (id : Int) : Except (BrokerError α) (Wallet α) :=
  match w.orders.find? (·.id = id) with
  | none => .error (.orderNotFound id)
  | some o =>
    if o.resting then
      let w := w.release (owner o)
      .ok { w with
        orders := w.orders.map (withdrawn (fun p => p.id = id || linked o p) (w.clock o.pair)) }
    else .error (.notResting id o.status)

/-! ### Execution by candles -/

/-- The price at which a candle makes a resting order execute. A limit order to buy looks at the
close and one to sell at the high; a stop looks at the low to sell and at the high to buy. -/
def trigger? (o : Order α) (c : Candle α) : Option α :=
  if o.kind.limitLike then
    let hit := match o.side with
      | .buy => Amount.le c.close o.price
      | .sell => Amount.le o.price c.high
    if hit then some o.price else none
  else if o.kind.stopLike then
    let stop := o.stop.getD o.price
    let hit := match o.side with
      | .sell => Amount.le c.low stop
      | .buy => Amount.le stop c.high
    if hit then some stop else none
  else none

/-- The record of an order after its execution, and of the one linked to it. -/
def filled (o : Order α) (price : α) (time : Instant) (p : Order α) : Order α :=
  if p.id = o.id then { p with status := .filled, price, updated := .at time }
  else withdrawn (linked o) (.at time) p

/-- Executes a resting order at a price. -/
def fill (w : Wallet α) (o : Order α) (price : α) (time : Instant) : Wallet α :=
  match w.split? o.pair with
  | none => w
  | some pair =>
    let w := (w.release (owner o)).execute o.side o.pair pair o.quantity price w.makerFee
    { w with orders := w.orders.map (filled o price time) }

/-- Executes an order if a candle triggers it and it still rests: an execution earlier in the same
candle may have withdrawn it. -/
def tryFill (c : Candle α) (w : Wallet α) (o : Order α) : Wallet α :=
  match trigger? o c with
  | none => w
  | some price =>
    if w.orders.any fun p => p.id = o.id && p.resting then w.fill o price c.time else w

/-- Executes all orders on the pair of a candle that it triggers, oldest first. -/
def fillAll (w : Wallet α) (c : Candle α) : Wallet α :=
  (w.orders.filter fun o => o.pair = c.pair && o.resting).foldl (tryFill c) w

end Candlewick.Wallet
