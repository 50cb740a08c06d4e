import Candlewick.Candle.Metadata
import Candlewick.Time.Instant

/-! # Candles

A candle sums up the trades on a pair during one bar. It is told again and again while the bar is
forming and a last time when it is complete. `Candle.replay` orders candles as they are replayed:
by the opening of the bar, then by the time of the telling, then by pair. -/

namespace Candlewick

/-- One telling of one bar of a pair. -/
structure Candle (α : Type) where
  pair : String
  /-- When the bar opens. -/
  time : Instant
  /-- When this was told. -/
  updated : Instant
  opening : α
  high : α
  low : α
  /-- The last price. -/
  close : α
  volume : α
  /-- Whether the bar is closed. -/
  complete : Bool
  metadata : Metadata α
deriving DecidableEq, Inhabited

namespace Candle
variable {α : Type}

/-- The order of replay. -/
def replay (a b : Candle α) : Ordering :=
  (a.time.compare b.time).then ((a.updated.compare b.updated).then (Ord.compare a.pair b.pair))

/-- Strictly earlier in replay. -/
def precedes (a b : Candle α) : Bool := a.replay b = .lt

/-- Not later in replay. -/
def upTo (a b : Candle α) : Bool := a.replay b ≠ .gt

/-- Whether every field is the same, numbers being compared as numbers. -/
def same [Amount α] (a b : Candle α) : Bool :=
  a.pair = b.pair && a.time = b.time && a.updated = b.updated &&
    Amount.same a.opening b.opening && Amount.same a.high b.high && Amount.same a.low b.low &&
    Amount.same a.close b.close && Amount.same a.volume b.volume && a.complete == b.complete &&
    a.metadata.same b.metadata

/-- The candles in replay order; those that replay does not tell apart stay as they are. -/
def sort (cs : List (Candle α)) : List (Candle α) := cs.mergeSort upTo

end Candle

end Candlewick
