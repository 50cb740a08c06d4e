import Candlewick.Strategy.Basic

/-! # The cross of two moving averages

The strategy buys for all the quote when the fast average of the closes crosses above the slow one,
and sells all of the asset when it crosses below. The averages are computed with a running sum. -/

namespace Candlewick

section Average
variable {α : Type} [Amount α]

/-- Goes on with a running sum after `seen` values. `leaving` holds the values from the oldest one
in the window on. -/
def movingFrom (period : Nat) (seen : Nat) (sum : α) (leaving : List α) : List α → Series α
  | [] => []
  | a :: rest =>
    let sum := sum + a
    let (sum, leaving) :=
      if period ≤ seen then
        match leaving with
        | [] => (sum, [])
        | b :: leaving => (sum - b, leaving)
      else (sum, leaving)
    let mean := if period ≤ seen + 1 then some (sum / Amount.ofNat period) else none
    mean :: movingFrom period (seen + 1) sum leaving rest

/-- The mean of the last `period` values at each value, undefined until there are as many. -/
def movingAverage (values : List α) (period : Nat) : Series α :=
  if period = 0 then values.map fun _ => none
  else movingFrom period 0 Amount.zero values values

/-- The last two values of a series, if both are defined and finite. -/
def lastTwo? (s : Series α) : Option (α × α) :=
  match s.reverse with
  | some last :: some previous :: _ =>
    if Amount.finite previous && Amount.finite last then some (previous, last) else none
  | _ => none

end Average

/-- The periods of a fast and a slow average. -/
structure AverageCross where
  timeframe : Timeframe
  fast : Nat
  slow : Nat
  fast_pos : 0 < fast
  fast_lt_slow : fast < slow

/-- Periods of which the fast one is nothing or not below the slow one. -/
structure PeriodError where
  fast : Nat
  slow : Nat
deriving Repr, DecidableEq

/-- What is said of such periods. -/
def PeriodError.message (e : PeriodError) : String :=
  "fast period " ++ toString e.fast ++ " must be positive and below slow period " ++
    toString e.slow

namespace AverageCross

/-- The strategy of two periods, if they are a fast and a slow one. -/
def ofPeriods (timeframe : Timeframe) (fast slow : Nat) : Except PeriodError AverageCross :=
  if h : 0 < fast ∧ fast < slow then .ok ⟨timeframe, fast, slow, h.1, h.2⟩
  else .error ⟨fast, slow⟩

/-- The name of the fast average. -/
def fastName : String := "sma_fast"

/-- The name of the slow average. -/
def slowName : String := "sma_slow"

variable {α σ : Type} [Amount α]

/-- The order that a cross of the averages asks for, given what is held: the last two values of the
fast average and of the slow one. -/
def ticket? (pair : String) (fast slow : α × α) (held : Position α) : Option (Ticket α) :=
  if Amount.le fast.1 slow.1 && Amount.lt slow.2 fast.2 && Amount.le held.asset Amount.zero then
    some (.marketQuote .buy pair held.quote)
  else if Amount.le slow.1 fast.1 && Amount.lt fast.2 slow.2 &&
      Amount.lt Amount.zero held.asset then
    some (.market .sell pair held.asset)
  else none

/-- Looks at the averages, then at what is held, and places the order that is due. -/
def trade (f : Frame α) (state : σ) : Plan α σ :=
  match (f.indicator? fastName).bind lastTwo?, (f.indicator? slowName).bind lastTwo? with
  | some fast, some slow =>
    .ask (.position f.pair) fun
      | .error _ => .done state
      | .ok held =>
        match ticket? f.pair fast slow held with
        | none => .done state
        | some t => .ask (.place t) fun _ => .done state
  | _, _ => .done state

/-- The strategy. It keeps no state of its own. -/
def strategy (m : AverageCross) : Strategy α σ where
  timeframe := m.timeframe
  warmup := m.slow + 1
  indicators state f :=
    (f.store [(fastName, movingAverage f.closes m.fast), (slowName, movingAverage f.closes m.slow)],
      state)
  onClosed state f := trade f state
  onForming state _ := .done state

end AverageCross

end Candlewick
