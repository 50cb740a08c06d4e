import Candlewick.Order.Broker

/-! # Scripted venues

A broker that answers as it was told to beforehand, for rehearsing what a desk does with reports
that no wallet would give. -/

namespace Candlewick

/-- Answers prepared for a desk. -/
structure Venue (α : Type) where
  /-- What the next requests to place an order are answered with, first one first. -/
  replies : List (List (Order α))
  /-- The orders that can be asked for, one for each identity. -/
  orders : List (Order α)
deriving Inhabited

namespace Venue
variable {α : Type}

/-- Nothing prepared. -/
def empty : Venue α := ⟨[], []⟩

/-- Prepares one more answer. -/
def reply (v : Venue α) (orders : List (Order α)) : Venue α :=
  { v with replies := v.replies ++ [orders] }

/-- Puts an order where it can be asked for. -/
def put (v : Venue α) (o : Order α) : Venue α :=
  { v with orders := v.orders.filter (·.id ≠ o.id) ++ [o] }

/-- The order of an identity. -/
def find (v : Venue α) (id : Int) : Except (BrokerError α) (Order α) :=
  match v.orders.find? (·.id = id) with
  | some o => .ok o
  | none => .error (.orderNotFound id)

/-- The refusal where no answer was prepared. -/
def noReply : BrokerError α := .exchange "no reply"

/-- Takes the next answer, all of it for a double ticket and its first order otherwise. -/
def place (v : Venue α) (t : Ticket α) : Except (BrokerError α) (List (Order α)) × Venue α :=
  match v.replies with
  | [] => (.error noReply, v)
  | orders :: replies =>
    let v := { v with replies }
    if t.isDouble then (.ok orders, v)
    else
      match orders with
      | [] => (.error noReply, v)
      | o :: _ => (.ok [o], v)

/-- Marks the order of an identity as withdrawn. -/
def cancel (v : Venue α) (id : Int) : Except (BrokerError α) Unit × Venue α :=
  match v.find id with
  | .ok o => (.ok (), v.put { o with status := .canceled })
  | .error e => (.error e, v)

instance : Broker (Venue α) α where
  account _ := .ok ⟨[]⟩
  position _ pair := .error (.unknownPair pair)
  order v _ id := (v.find id, v)
  place := place
  cancel := cancel

end Venue

end Candlewick
