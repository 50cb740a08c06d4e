import Candlewick.Decimal.Text
import Candlewick.Order.Basic

/-! # Trades

The position that fills open on a pair, and what is won and lost when they close it again. A fill on
the side of the position adds to it at a blended price; a fill on the other side closes as much of
it as it can, which is one trade, and opens a position of its own with what is left. -/

namespace Candlewick

/-- The closed trades of a pair. -/
structure TradeSummary (α : Type) where
  pair : String
  /-- What each trade without a loss gained. -/
  wins : List α
  /-- What each other trade changed, which is below zero. -/
  losses : List α
  /-- The value of all that was traded. -/
  volume : α
deriving Repr, DecidableEq, Inhabited

/-- The position that is open on a pair. -/
structure OpenPosition (α : Type) where
  /-- The side of the fill that opened it. -/
  side : Side
  quantity : α
  /-- The average price of its fills. -/
  average : α
deriving Repr, DecidableEq, Inhabited

namespace TradeSummary
variable {α : Type} [Amount α]

/-- No trades yet. -/
def empty (pair : String) : TradeSummary α := ⟨pair, [], [], Amount.zero⟩

/-- The number of closed trades. -/
def trades (s : TradeSummary α) : Nat := s.wins.length + s.losses.length

/-- What all trades together gained. -/
def profit (s : TradeSummary α) : α := Amount.total s.wins + Amount.total s.losses

/-- The fraction of the trades that are wins. -/
def winRate (s : TradeSummary α) : α :=
  if s.trades = 0 then Amount.zero else Amount.ofNat s.wins.length / Amount.ofNat s.trades

/-- The mean of a list, nothing for an empty one. -/
def mean (as : List α) : α :=
  if as.isEmpty then Amount.zero else Amount.total as / Amount.ofNat as.length

/-- A gain over a loss, nothing where nothing was lost. -/
def ratio (gain loss : α) : α :=
  if Amount.same (Amount.abs loss) Amount.zero then Amount.zero else gain / Amount.abs loss

/-- The mean win over the mean loss. -/
def payoff (s : TradeSummary α) : α := ratio (mean s.wins) (mean s.losses)

/-- All wins over all losses. -/
def profitFactor (s : TradeSummary α) : α := ratio (Amount.total s.wins) (Amount.total s.losses)

/-- Counts the value of a fill. -/
def addVolume (s : TradeSummary α) (value : α) : TradeSummary α :=
  { s with volume := s.volume + value }

/-- Counts a closed trade. -/
def addTrade (s : TradeSummary α) (profit : α) : TradeSummary α :=
  if Amount.le Amount.zero profit then { s with wins := s.wins ++ [profit] }
  else { s with losses := s.losses ++ [profit] }

end TradeSummary

/-- The line that reports show for the trades of a pair. -/
def TradeSummary.report (s : TradeSummary Float) : String :=
  s.pair ++ " | trades " ++ toString s.trades ++
    " | win " ++ Decimal.fixed 1 (s.winRate * 100) ++ "%" ++
    " | payoff " ++ Decimal.fixed 2 s.payoff ++
    " | profit factor " ++ Decimal.fixed 2 s.profitFactor ++
    " | profit " ++ Decimal.fixed 2 s.profit ++
    " | volume " ++ Decimal.fixed 2 s.volume

namespace OpenPosition
variable {α : Type} [Amount α]

/-- The position that a fill opens. -/
def ofFill (o : Order α) : OpenPosition α := ⟨o.side, o.quantity, o.price⟩

/-- The position after a fill on its own side. -/
def grow (p : OpenPosition α) (o : Order α) : OpenPosition α :=
  let quantity := p.quantity + o.quantity
  { p with quantity, average := (p.average * p.quantity + o.price * o.quantity) / quantity }

/-- What closing a quantity at a price gains. -/
def gain (p : OpenPosition α) (closed price : α) : α :=
  match p.side with
  | .buy => (price - p.average) * closed
  | .sell => (p.average - price) * closed

/-- What is open after a fill on the other side, and what the trade gained. -/
def close (p : OpenPosition α) (o : Order α) : Option (OpenPosition α) × α :=
  let closed := Amount.min p.quantity o.quantity
  let remaining := p.quantity - closed
  let excess := o.quantity - closed
  let rest :=
    if Amount.lt Amount.zero remaining then some { p with quantity := remaining }
    else if Amount.lt Amount.zero excess then some ⟨o.side, excess, o.price⟩
    else none
  (rest, p.gain closed o.price)

end OpenPosition

/-- What a fill makes of the position on its pair, and what it gains if it closes a trade. -/
def foldFill {α : Type} [Amount α] (p : Option (OpenPosition α)) (o : Order α) :
    Option (OpenPosition α) × Option α :=
  match p with
  | none => (some (.ofFill o), none)
  | some p =>
    if p.side = o.side then (some (p.grow o), none)
    else
      let (rest, profit) := p.close o
      (rest, some profit)

end Candlewick
