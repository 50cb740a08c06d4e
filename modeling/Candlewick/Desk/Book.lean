import Candlewick.Desk.Trades
import Candlewick.Table

/-! # Books

The orders that were placed through a desk as they were last reported, with the positions and trades
that their fills add up to. A fill is folded in when an order is written down as filled, or when a
report says that a recorded order has become filled. -/

namespace Candlewick

/-- Recorded orders, open positions and closed trades. -/
structure Book (α : Type) where
  /-- The orders, oldest first. -/
  orders : List (Order α)
  /-- The open position of each pair. -/
  positions : Table String (OpenPosition α)
  /-- The trades of each pair that had a fill. -/
  trades : Table String (TradeSummary α)
deriving Inhabited

namespace Book
variable {α : Type}

/-- Nothing recorded. -/
def empty : Book α := ⟨[], .empty, .empty⟩

variable [Amount α]

/-- The table with a position or without one. -/
def setPosition (t : Table String (OpenPosition α)) (pair : String) :
    Option (OpenPosition α) → Table String (OpenPosition α)
  | none => t.erase pair
  | some p => t.set pair p

/-- Folds a fill into the position and the trades of its pair. -/
def applyFill (b : Book α) (o : Order α) : Book α :=
  let (position, profit) := foldFill (b.positions.get? o.pair) o
  let summary := (b.trades.getD o.pair (.empty o.pair)).addVolume (o.quantity * o.price)
  let summary := match profit with
    | none => summary
    | some x => summary.addTrade x
  { b with
    positions := setPosition b.positions o.pair position
    trades := b.trades.set o.pair summary }

/-- Folds a fill in if the order is one. -/
def applyIfFilled (b : Book α) (o : Order α) : Book α :=
  if o.status = .filled then b.applyFill o else b

/-- Writes down a new order. -/
def record (b : Book α) (o : Order α) : Book α :=
  let b := b.applyIfFilled o
  { b with orders := b.orders ++ [o] }

/-- The orders with the first one of an identity replaced. -/
def replaceFirst (o : Order α) : List (Order α) → List (Order α)
  | [] => []
  | p :: ps => if p.id = o.id then o :: ps else p :: replaceFirst o ps

/-- Takes in a report of a recorded order. One that brings no other status is ignored. -/
def update (b : Book α) (o : Order α) : Book α :=
  match b.orders.find? (·.id = o.id) with
  | none => b
  | some p =>
    if p.status = o.status then b
    else
      let b := b.applyIfFilled o
      { b with orders := replaceFirst o b.orders }

/-- The pairs of the recorded orders, by name. -/
def pairs (b : Book α) : List String :=
  (Table.ofList (b.orders.map fun o => (o.pair, ()))).sorted.map (·.1)

/-- The trades of all pairs, by name. -/
def summaries (b : Book α) : List (TradeSummary α) := b.trades.sorted.map (·.2)

end Book

end Candlewick
