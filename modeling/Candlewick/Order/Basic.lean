import Candlewick.Amount
import Candlewick.Time.Instant

/-! # Orders

An order as a broker reports it: what was asked for, what became of it, and when. The limit price
of an order becomes the price of its execution once it is filled. -/

namespace Candlewick

/-- Whether an order buys or sells the asset. -/
inductive Side where
  | buy | sell
deriving Repr, DecidableEq, Inhabited

namespace Side

/-- The other side. -/
def opposite : Side → Side
  | buy => sell
  | sell => buy

/-- The written form. -/
def name : Side → String
  | buy => "BUY"
  | sell => "SELL"

/-- Reads a written form. -/
def ofName? (s : String) : Option Side := [buy, sell].find? (·.name = s)

end Side

/-- What makes an order execute, and at which price. -/
inductive OrderKind where
  /-- At once, at the market. -/
  | market
  /-- At a limit price or better. -/
  | limit
  /-- At a limit price, only after resting. -/
  | limitMaker
  /-- At the market once a stop is reached. -/
  | stopLoss
  /-- At a limit price once a stop is reached. -/
  | stopLossLimit
  /-- At the market once a profit is reached. -/
  | takeProfit
  /-- At a limit price once a profit is reached. -/
  | takeProfitLimit
deriving Repr, DecidableEq, Inhabited

namespace OrderKind

/-- All kinds. -/
def all : List OrderKind :=
  [market, limit, limitMaker, stopLoss, stopLossLimit, takeProfit, takeProfitLimit]

/-- The written form. -/
def name : OrderKind → String
  | market => "MARKET"
  | limit => "LIMIT"
  | limitMaker => "LIMIT_MAKER"
  | stopLoss => "STOP_LOSS"
  | stopLossLimit => "STOP_LOSS_LIMIT"
  | takeProfit => "TAKE_PROFIT"
  | takeProfitLimit => "TAKE_PROFIT_LIMIT"

/-- Reads a written form. -/
def ofName? (s : String) : Option OrderKind := all.find? (·.name = s)

/-- Whether it executes at its limit price. -/
def limitLike : OrderKind → Bool
  | limit | limitMaker | takeProfit | takeProfitLimit => true
  | market | stopLoss | stopLossLimit => false

/-- Whether its stop triggers it. -/
def stopLike : OrderKind → Bool
  | stopLoss | stopLossLimit => true
  | market | limit | limitMaker | takeProfit | takeProfitLimit => false

end OrderKind

/-- What has become of an order. -/
inductive OrderStatus where
  /-- Resting. -/
  | new
  /-- Executed in part. -/
  | partiallyFilled
  /-- Executed in full. -/
  | filled
  /-- Withdrawn by its owner or by the execution of its partner. -/
  | canceled
  /-- Refused by the venue. -/
  | rejected
deriving Repr, DecidableEq, Inhabited

namespace OrderStatus

/-- All states. -/
def all : List OrderStatus := [new, partiallyFilled, filled, canceled, rejected]

/-- The written form. -/
def name : OrderStatus → String
  | new => "NEW"
  | partiallyFilled => "PARTIALLY_FILLED"
  | filled => "FILLED"
  | canceled => "CANCELED"
  | rejected => "REJECTED"

/-- Reads a written form. -/
def ofName? (s : String) : Option OrderStatus := all.find? (·.name = s)

/-- Whether nothing can become of the order any more. -/
def terminal : OrderStatus → Bool
  | filled | canceled | rejected => true
  | new | partiallyFilled => false

end OrderStatus

/-- When something happened: at an instant of the market, or when the clock of the host was asked
because the market had shown no time yet. -/
inductive Moment where
  | at (t : Instant)
  | now
deriving Repr, DecidableEq, Inhabited

/-- The record of an order. -/
structure Order (α : Type) where
  id : Int
  /-- Shared by two orders of which at most one executes. -/
  group : Option Int
  pair : String
  side : Side
  kind : OrderKind
  status : OrderStatus
  /-- The limit price, or the price of the execution. -/
  price : α
  /-- The price that triggers a stop. -/
  stop : Option α
  quantity : α
  created : Moment
  updated : Moment
deriving Repr, DecidableEq, Inhabited

namespace Order
variable {α : Type}

/-- The value of the order at its price. -/
def notional [Amount α] (o : Order α) : α := o.price * o.quantity

/-- Whether the order still rests. -/
def resting (o : Order α) : Bool := o.status = .new

end Order

end Candlewick
