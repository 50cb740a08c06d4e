import Candlewick.Feed.History

/-! # Wires

A source that is still to send: it has the recent candles of some pairs at hand, and its streams are
empty when they open. What it sends later is not known when it is asked. -/

namespace Candlewick

/-- The recent candles of the pairs that have any, oldest first. -/
structure Wire (α : Type) where
  recent : Table String (List (Candle α))
deriving Inhabited

namespace Wire
variable {α : Type}

/-- The last candles of a pair, whatever the length of the bars. -/
def byLimit (w : Wire α) (key : FeedKey) (limit : Nat) : Except FeedError (List (Candle α)) :=
  match w.recent.get? key.pair with
  | some cs => .ok (cs.drop (cs.length - limit))
  | none => .error (.sourceFailed ("no history for " ++ key.pair))

instance [Amount α] : Feeder (Wire α) α where
  limits _ := History.limits
  lastQuote _ _ := .error (.unsupported "last_quote")
  byPeriod _ _ _ _ := .error (.unsupported "candles_by_period")
  byLimit := byLimit
  subscribe w _ := (.ok ⟨[], History.defaultCapacity⟩, w)

end Wire

end Candlewick
