import Candlewick.Market.Timeframe
import Candlewick.Order.Plan
import Candlewick.Strategy.Frame
import Candlewick.Text.Quoted

/-! # Strategies

A strategy computes indicators on the history of a pair and trades by plans. It keeps a state of its
own, one for all pairs. A `Watcher` keeps the history of one pair and calls the strategy: with every
complete candle once the history is long enough, and with every candle, forming or not, on a copy of
the history that has the candle on top. -/

namespace Candlewick

/-- What trades on the bars of a pair. -/
structure Strategy (α σ : Type) where
  /-- The length of the bars it trades on. -/
  timeframe : Timeframe
  /-- The number of closed bars it needs. -/
  warmup : Nat
  /-- Computes indicators on the closed bars; the frame as far as that went, and what went wrong. -/
  indicators : σ → Frame α → (Frame α × Option FrameError) × σ
  /-- Trades on the closed bars. -/
  onClosed : σ → Frame α → Plan α σ
  /-- Trades on the closed bars and one that may still be forming. -/
  onForming : σ → Frame α → Plan α σ

/-- The history of a pair, and whether the strategy is called on it. -/
structure Watcher (α : Type) where
  frame : Frame α
  started : Bool
deriving Inhabited

namespace Watcher
variable {α σ β : Type}

/-- A watcher of a pair that calls nothing yet. -/
def ofPair (pair : String) : Watcher α := ⟨.ofPair pair, false⟩

/-- From now on the strategy is called. -/
def start (w : Watcher α) : Watcher α := { w with started := true }

/-- A watcher in a diagnostic text. -/
def describe (w : Watcher α) : String :=
  "StrategyController \x7b pair: " ++ quoted w.frame.pair ++ ", bars: " ++ toString w.frame.size ++
    ", started: " ++ toString w.started ++ " \x7d"

/-- Whether the history is long enough. -/
def warm (w : Watcher α) (s : Strategy α σ) : Bool := s.warmup ≤ w.frame.size

variable [Broker β α]

/-- Shows the strategy a candle on top of the closed bars. The history stays as it is. -/
def onForming (w : Watcher α) (s : Strategy α σ) (c : Candle α) (state : σ) (broker : β) : σ × β :=
  if w.started && w.warm s then (s.onForming state (w.frame.push c)).run broker
  else (state, broker)

/-- Adds a complete candle to the history, and calls the strategy if that is warm now and the
indicators succeed. -/
def onClosed (w : Watcher α) (s : Strategy α σ) (c : Candle α) (state : σ) (broker : β) :
    Watcher α × σ × β :=
  let w := { w with frame := w.frame.push c }
  if w.warm s then
    let ((frame, failure), state) := s.indicators state w.frame
    let w := { w with frame }
    if failure.isNone && w.started then
      let (state, broker) := (s.onClosed state frame).run broker
      (w, state, broker)
    else (w, state, broker)
  else (w, state, broker)

end Watcher

end Candlewick
