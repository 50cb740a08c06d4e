import Candlewick.Decimal.Text
import Candlewick.Market.Account
import Candlewick.Order.Basic

/-! # Brokers

What one can ask of a broker and how it may refuse. A broker is a state; asking for an order or for
a change may change it, also when the answer is a refusal. -/

namespace Candlewick

/-- Why a broker refuses. -/
inductive BrokerError (α : Type) where
  /-- A quantity that is not a positive finite one. -/
  | invalidQuantity (pair : String) (quantity : α)
  /-- A price that is not a positive finite one. -/
  | invalidPrice (pair : String) (price : α)
  /-- The account does not cover the order. -/
  | insufficientFunds (pair : String) (quantity : α)
  /-- No order has this identity. -/
  | orderNotFound (id : Int)
  /-- The order rests no longer. -/
  | notResting (id : Int) (status : OrderStatus)
  /-- The pair has shown no price yet. -/
  | missingPrice (pair : String)
  /-- The name is that of no pair. -/
  | unknownPair (pair : String)
  /-- The venue failed. -/
  | exchange (cause : String)
deriving Repr, DecidableEq

/-- What is said of a refusal. -/
def BrokerError.message : BrokerError Float → String
  | .invalidQuantity pair quantity =>
    "Invalid quantity " ++ Decimal.plain quantity ++ " for " ++ pair
  | .invalidPrice pair price => "Invalid price " ++ Decimal.plain price ++ " for " ++ pair
  | .insufficientFunds pair quantity =>
    "Insufficient funds for " ++ pair ++ ": requested quantity " ++ Decimal.plain quantity
  | .orderNotFound id => "Order not found: " ++ toString id
  | .notResting id status =>
    "Order " ++ toString id ++ " cannot be canceled in state " ++ status.name
  | .missingPrice pair => "No market price known for " ++ pair
  | .unknownPair pair => "Unknown pair: " ++ pair
  | .exchange cause => "Exchange error: " ++ cause

/-- What an order to be placed asks for. -/
inductive Ticket (α : Type) where
  /-- At once, at the market. -/
  | market (side : Side) (pair : String) (quantity : α)
  /-- At once, for an amount of the quote. -/
  | marketQuote (side : Side) (pair : String) (amount : α)
  /-- At a limit price. -/
  | limit (side : Side) (pair : String) (quantity price : α)
  /-- A sale once the price falls to a stop. -/
  | stop (pair : String) (quantity price : α)
  /-- Two orders of which the execution of one withdraws the other: at a limit price, and at a
  stop. -/
  | oco (side : Side) (pair : String) (quantity price stop stopLimit : α)
deriving Repr, DecidableEq, Inhabited

/-- The pair of a ticket. -/
def Ticket.pair {α : Type} : Ticket α → String
  | market _ p _ | marketQuote _ p _ | limit _ p _ _ | stop p _ _ | oco _ p _ _ _ _ => p

/-- Whether a ticket makes two orders. -/
def Ticket.isDouble {α : Type} : Ticket α → Bool
  | oco .. => true
  | market .. | marketQuote .. | limit .. | stop .. => false

/-- A state that takes orders. -/
class Broker (β : Type) (α : outParam Type) where
  /-- The holdings of every asset. -/
  account : β → Except (BrokerError α) (Account α)
  /-- The totals held on the two sides of a pair. -/
  position : β → String → Except (BrokerError α) (Position α)
  /-- The order with an identity. -/
  order : β → String → Int → Except (BrokerError α) (Order α) × β
  /-- Places what a ticket asks for: two orders for a double one, else one. -/
  place : β → Ticket α → Except (BrokerError α) (List (Order α)) × β
  /-- Withdraws the order with an identity. -/
  cancel : β → Int → Except (BrokerError α) Unit × β

end Candlewick
