import Candlewick.Feed.Feeder
import Candlewick.Market.Pair

/-! # Histories

Stored candles, one series for each feed, kept in replay order. A history answers questions about
the past and replays a series as a stream. -/

namespace Candlewick

/-- Stored series of candles. -/
structure History (α : Type) where
  /-- How many candles of a replay wait for their reader. -/
  capacity : Nat
  /-- The candles of each feed in replay order. -/
  series : Table FeedKey (List (Candle α))
deriving Inhabited

namespace History
variable {α : Type}

/-- The capacity of replays unless another one is given. -/
def defaultCapacity : Nat := 1024

/-- Nothing stored. -/
def empty (capacity : Nat) : History α := ⟨capacity, .empty⟩

/-- Stores a series in the place of the one before. -/
def insert (h : History α) (key : FeedKey) (candles : List (Candle α)) : History α :=
  { h with series := h.series.set key (Candle.sort candles) }

/-- The series of a feed. -/
def find (h : History α) (key : FeedKey) : Except FeedError (List (Candle α)) :=
  match h.series.get? key with
  | some cs => .ok cs
  | none => .error (.notAvailable key.pair key.timeframe.name)

/-- The later of two candles in replay, the second where replay does not tell them apart. -/
def later (a b : Candle α) : Candle α := if a.replay b = .gt then a else b

/-- The last candle in replay among the ends of all series of a pair. -/
def lastCandle? (h : History α) (pair : String) : Option (Candle α) :=
  (h.series.entries.filterMap fun (key, cs) => if key.pair = pair then cs.getLast? else none).foldl
    (fun best c => some (match best with
      | none => c
      | some b => later b c)) none

/-- The last close of a pair. -/
def lastQuote (h : History α) (pair : String) : Except FeedError α :=
  match h.lastCandle? pair with
  | some c => .ok c.close
  | none => .error (.notAvailable pair "any")

/-- The candles of the bars that open from `first` to `last`. -/
def byPeriod (h : History α) (key : FeedKey) (first last : Instant) :
    Except FeedError (List (Candle α)) :=
  (h.find key).map (·.filter fun c => first.upTo c.time && c.time.upTo last)

/-- The last candles of a series. -/
def byLimit (h : History α) (key : FeedKey) (limit : Nat) : Except FeedError (List (Candle α)) :=
  (h.find key).map fun cs => cs.drop (cs.length - limit)

/-- Unrestricted limits for a pair that can be split. -/
def limits [Amount α] (pair : String) : Except FeedError (PairLimits α) :=
  match splitPair pair with
  | some p => .ok (.unrestricted p.asset p.quote)
  | none => .error (.parse ("cannot split pair " ++ pair))

instance [Amount α] : Feeder (History α) α where
  limits _ := limits
  lastQuote := lastQuote
  byPeriod := byPeriod
  byLimit := byLimit
  subscribe h key := ((h.find key).map fun cs => ⟨cs, h.capacity⟩, h)

end History

end Candlewick
