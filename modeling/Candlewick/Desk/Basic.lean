import Candlewick.Candle.Basic
import Candlewick.Desk.Book
import Candlewick.Order.Broker

/-! # Desks

A desk stands between a strategy and a broker. It is a broker itself: it passes every request on,
writes down the orders that were placed, and takes in what the broker reports of them.
`Desk.refresh` asks the broker about every order that was last seen resting. -/

namespace Candlewick

/-- A broker with the book of what was placed through the desk. -/
structure Desk (β α : Type) where
  broker : β
  book : Book α
deriving Inhabited

namespace Desk
variable {α β : Type}

/-- A desk that has placed nothing. -/
def ofBroker (b : β) : Desk β α := ⟨b, .empty⟩

/-- A desk in a diagnostic text. -/
def describe (d : Desk β α) : String :=
  "OrderController \x7b orders: " ++ toString d.book.orders.length ++ ", positions: " ++
    toString d.book.positions.size ++ " \x7d"

variable [Amount α] [Broker β α]

/-- Asks the broker about an order and takes in what it reports. -/
def order (d : Desk β α) (pair : String) (id : Int) :
    Except (BrokerError α) (Order α) × Desk β α :=
  match Broker.order d.broker pair id with
  | (.ok o, broker) => (.ok o, { broker, book := d.book.update o })
  | (.error e, broker) => (.error e, { d with broker })

/-- Asks about every order that was last seen resting. A failure to answer is passed over. -/
def refresh (d : Desk β α) : Desk β α :=
  (d.book.orders.filter (·.resting)).foldl (fun d o => (d.order o.pair o.id).2) d

/-- Reacts to a candle: refreshes if it is complete. -/
def observe (d : Desk β α) (c : Candle α) : Desk β α := if c.complete then d.refresh else d

/-- Refreshes if a timer has ticked. Of several ticks at once one is enough, since right after a
refresh another one finds nothing new. -/
def refreshAfter (d : Desk β α) (ticks : Nat) : Desk β α := if ticks = 0 then d else d.refresh

/-- Places an order and writes it down. -/
def place (d : Desk β α) (t : Ticket α) : Except (BrokerError α) (List (Order α)) × Desk β α :=
  match Broker.place d.broker t with
  | (.ok orders, broker) => (.ok orders, { broker, book := orders.foldl Book.record d.book })
  | (.error e, broker) => (.error e, { d with broker })

/-- Withdraws an order, and refreshes, since a linked order is withdrawn with it. -/
def cancel (d : Desk β α) (id : Int) : Except (BrokerError α) Unit × Desk β α :=
  match Broker.cancel d.broker id with
  | (.ok (), broker) => (.ok (), refresh { d with broker })
  | (.error e, broker) => (.error e, { d with broker })

instance : Broker (Desk β α) α where
  account d := Broker.account d.broker
  position d := Broker.position d.broker
  order := order
  place := place
  cancel := cancel

end Desk

end Candlewick
