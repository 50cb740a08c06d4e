import Candlewick.Text.Blank

/-! # Timeframes and feeds

A timeframe is the length of a bar. It is written as exchanges write it (`1m`, `4h`, `1w`). A feed
is what one can subscribe to: the candles of one pair in one timeframe. -/

namespace Candlewick

/-- The length of a bar, shortest first. -/
inductive Timeframe where
  | m1 | m3 | m5 | m15 | m30 | h1 | h2 | h4 | h6 | h12 | d1 | w1
deriving Repr, DecidableEq, Inhabited

namespace Timeframe

/-- All timeframes, shortest first. -/
def all : List Timeframe := [m1, m3, m5, m15, m30, h1, h2, h4, h6, h12, d1, w1]

/-- The written form. -/
def name : Timeframe → String
  | m1 => "1m" | m3 => "3m" | m5 => "5m" | m15 => "15m" | m30 => "30m"
  | h1 => "1h" | h2 => "2h" | h4 => "4h" | h6 => "6h" | h12 => "12h"
  | d1 => "1d" | w1 => "1w"

/-- The length in seconds. -/
def seconds : Timeframe → Nat
  | m1 => 60 | m3 => 180 | m5 => 300 | m15 => 900 | m30 => 1800
  | h1 => 3600 | h2 => 7200 | h4 => 14400 | h6 => 21600 | h12 => 43200
  | d1 => 86400 | w1 => 604800

/-- Reads a written form, blanks around it apart. -/
def ofName? (s : String) : Option Timeframe :=
  all.find? fun t => t.name.toList = trimBlank s.toList

/-- What is said of a text that is no timeframe. -/
def unknown (s : String) : String := "unknown timeframe: " ++ s

/-- Shorter first. -/
def compare (a b : Timeframe) : Ordering := Ord.compare a.seconds b.seconds

end Timeframe

/-- One stream of candles: a pair and a timeframe. -/
structure FeedKey where
  pair : String
  timeframe : Timeframe
deriving Repr, DecidableEq, Inhabited

namespace FeedKey

/-- The text of a feed. -/
def text (k : FeedKey) : String := k.pair ++ "--" ++ k.timeframe.name

/-- The feed that a text names. -/
def ofText? (s : String) : Option FeedKey :=
  Timeframe.all.findSome? fun t =>
    let ending := "--" ++ t.name
    if s.endsWith ending then some ⟨(s.dropEnd ending.length).toString, t⟩ else none

/-- By pair, then by timeframe. -/
def compare (a b : FeedKey) : Ordering :=
  (Ord.compare a.pair b.pair).then (a.timeframe.compare b.timeframe)

/-- Not after, in the order of feeds. -/
def upTo (a b : FeedKey) : Bool := a.compare b ≠ .gt

end FeedKey

end Candlewick
