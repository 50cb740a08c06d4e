import Candlewick.Candle.Basic
import Candlewick.Feed.Error
import Candlewick.Market.Account
import Candlewick.Market.Timeframe
import Candlewick.Table

/-! # Feeders

A feeder answers questions about the past of a pair and opens streams of candles. What a stream will
bring is known when it is opened; how much of it arrives, and when, is up to those who read it. -/

namespace Candlewick

/-- What an open stream will bring. At most `capacity` candles lie between sender and reader. -/
structure Stream (α : Type) where
  candles : List (Candle α)
  capacity : Nat
deriving Inhabited

/-- Streams hold at least one candle between sender and reader. -/
def Stream.room {α : Type} (s : Stream α) : Nat := max s.capacity 1

/-- A source of candles. Opening a stream may change it. -/
class Feeder (φ : Type) (α : outParam Type) where
  /-- The limits for orders on a pair. -/
  limits : φ → String → Except FeedError (PairLimits α)
  /-- The latest price of a pair. -/
  lastQuote : φ → String → Except FeedError α
  /-- The candles of the bars that open from a first instant to a last one. -/
  byPeriod : φ → FeedKey → Instant → Instant → Except FeedError (List (Candle α))
  /-- The newest candles, oldest first, at most so many. -/
  byLimit : φ → FeedKey → Nat → Except FeedError (List (Candle α))
  /-- Opens a stream. -/
  subscribe : φ → FeedKey → Except FeedError (Stream α) × φ

/-- A feeder that refuses the first requests for a stream. -/
structure Refusing (φ : Type) where
  feeder : φ
  /-- How many requests are refused. -/
  refusals : Table FeedKey Nat
  /-- How many requests there were. -/
  attempts : Table FeedKey Nat
deriving Inhabited

namespace Refusing
variable {φ α : Type} [Feeder φ α]

/-- Counts a request for a stream, and refuses it or passes it on. -/
def subscribe (r : Refusing φ) (key : FeedKey) : Except FeedError (Stream α) × Refusing φ :=
  let attempt := r.attempts.getD key 0 + 1
  let r := { r with attempts := r.attempts.set key attempt }
  if attempt ≤ r.refusals.getD key 0 then
    (.error (.disconnected key.pair ("attempt " ++ toString attempt ++ " refused")), r)
  else
    let (stream, feeder) := Feeder.subscribe r.feeder key
    (stream, { r with feeder })

instance : Feeder (Refusing φ) α where
  limits r := Feeder.limits r.feeder
  lastQuote r := Feeder.lastQuote r.feeder
  byPeriod r := Feeder.byPeriod r.feeder
  byLimit r := Feeder.byLimit r.feeder
  subscribe := subscribe

end Refusing

end Candlewick
