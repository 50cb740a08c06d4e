import Candlewick.Amount
import Candlewick.Table
import Candlewick.Text.Blank

/-! # Metadata

Numbers that a feed attaches to a candle besides its prices: signals out of a closed list
(`Metric`), and extensions under names of the feed's own. The setters refuse undefined and infinite
values, blank names, and extensions that take the name of a metric; a refused value changes
nothing. -/

namespace Candlewick

/-- The signals with a fixed name, in the order in which they are listed. -/
inductive Metric where
  /-- Volume in the quote. -/
  | quoteVolume
  /-- Number of trades. -/
  | trades
  /-- Volume that takers bought. -/
  | takerBuyBaseVolume
  /-- Volume that takers bought, in the quote. -/
  | takerBuyQuoteVolume
  /-- Open interest at the close. -/
  | openInterest
  /-- Funding rate at the close. -/
  | fundingRate
deriving Repr, DecidableEq, Inhabited

namespace Metric

/-- All metrics in their order. -/
def all : List Metric :=
  [quoteVolume, trades, takerBuyBaseVolume, takerBuyQuoteVolume, openInterest, fundingRate]

/-- The written form. -/
def name : Metric → String
  | quoteVolume => "quote_volume"
  | trades => "trades"
  | takerBuyBaseVolume => "taker_buy_base_volume"
  | takerBuyQuoteVolume => "taker_buy_quote_volume"
  | openInterest => "open_interest"
  | fundingRate => "funding_rate"

/-- Reads a written form. -/
def ofName? (s : String) : Option Metric := all.find? (·.name = s)

end Metric

/-- Why a value is not taken into metadata. -/
inductive MetadataError (α : Type) where
  /-- The value is undefined or infinite. -/
  | nonFinite (name : String) (value : α)
  /-- An extension has the name of a metric. -/
  | reservedName (name : String)
  /-- An extension has no name. -/
  | emptyName
  /-- No metric has this name. -/
  | unknownMetric (name : String)
deriving Repr, DecidableEq

/-- The numbers attached to a candle. -/
structure Metadata (α : Type) where
  metrics : Table Metric α
  extra : Table String α
deriving DecidableEq, Inhabited

namespace Metadata
variable {α : Type}

/-- No numbers. -/
def empty : Metadata α := ⟨.empty, .empty⟩

/-- Whether there are no numbers. -/
def isEmpty (m : Metadata α) : Bool := m.metrics.isEmpty && m.extra.isEmpty

/-- The value of a metric. -/
def get? (m : Metadata α) (k : Metric) : Option α := m.metrics.get? k

/-- The value of an extension. -/
def extra? (m : Metadata α) (name : String) : Option α := m.extra.get? name

/-- Whether the same names have the same values. -/
def same [Amount α] (m n : Metadata α) : Bool :=
  m.metrics.agrees n.metrics Amount.same && m.extra.agrees n.extra Amount.same

section Setters
variable [Amount α]

/-- Sets a metric. -/
def set (m : Metadata α) (k : Metric) (value : α) : Except (MetadataError α) (Metadata α) :=
  if Amount.finite value then .ok { m with metrics := m.metrics.set k value }
  else .error (.nonFinite k.name value)

/-- Sets an extension. The name is looked at before the value. -/
def setExtra (m : Metadata α) (name : String) (value : α) :
    Except (MetadataError α) (Metadata α) :=
  if allBlank name then .error .emptyName
  else if (Metric.ofName? name).isSome then .error (.reservedName name)
  else if Amount.finite value then .ok { m with extra := m.extra.set name value }
  else .error (.nonFinite name value)

end Setters

end Metadata

end Candlewick
