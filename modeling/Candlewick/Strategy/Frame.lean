import Candlewick.Candle.Basic

/-! # Frames

The history of closed bars of a pair as strategies see it, kept in columns: a list of times and one
for each price, with an entry for each bar, and beside them series of metrics and of indicators. A
candle of the newest bar overwrites that bar, but a metric that it does not carry stays as it was
told before. The series of a metric begins with the first candle that carries it, undefined at all
earlier bars, and is undefined at later bars that do not carry it. Indicators are series that a
strategy stores; they need a name and one value for each bar. -/

namespace Candlewick

/-- One value for each bar, undefined where there is none. -/
abbrev Series (α : Type) := List (Option α)

/-- The series with a given number of values, cut off or undefined at the end. -/
def Series.resize {α : Type} (s : Series α) (size : Nat) : Series α :=
  s.take size ++ List.replicate (size - s.length) none

/-- What a series tells. -/
inductive SeriesKey where
  /-- A signal that candles carry. -/
  | metric (metric : Metric)
  /-- What a strategy has computed. -/
  | indicator (name : String)
deriving Repr, DecidableEq

/-- Some bars column by column, oldest first. -/
structure Columns (α : Type) where
  time : List Instant
  opening : List α
  high : List α
  low : List α
  close : List α
  volume : List α
deriving Inhabited

/-- The bars of a pair with the series that belong to them. -/
structure Frame (α : Type) where
  pair : String
  bars : Columns α
  /-- When the newest bar was told. -/
  updated : Option Instant
  series : Table SeriesKey (Series α)
deriving Inhabited

/-- Why an indicator is not stored. -/
inductive FrameError where
  /-- It has another number of values than the frame has bars. -/
  | lengthMismatch (name : String) (expected actual : Nat)
  /-- It has no name. -/
  | emptyName
deriving Repr, DecidableEq

/-- What is said of an indicator that is not stored. -/
def FrameError.message : FrameError → String
  | lengthMismatch name expected actual =>
    "Series " ++ name ++ " has " ++ toString actual ++ " values, frame has " ++ toString expected
  | emptyName => "Indicator name must not be empty"

namespace Columns
variable {α : Type}

/-- No bars. -/
def empty : Columns α := ⟨[], [], [], [], [], []⟩

/-- Whether there are no bars. -/
def isEmpty (b : Columns α) : Bool := b.close.isEmpty

/-- One more bar. -/
def append (b : Columns α) (c : Candle α) : Columns α where
  time := b.time ++ [c.time]
  opening := b.opening ++ [c.opening]
  high := b.high ++ [c.high]
  low := b.low ++ [c.low]
  close := b.close ++ [c.close]
  volume := b.volume ++ [c.volume]

/-- Other prices for a bar. Its time stays. -/
def replace (b : Columns α) (index : Nat) (c : Candle α) : Columns α :=
  { b with
    opening := b.opening.set index c.opening
    high := b.high.set index c.high
    low := b.low.set index c.low
    close := b.close.set index c.close
    volume := b.volume.set index c.volume }

end Columns

namespace Frame
variable {α : Type}

/-- A frame without bars. -/
def ofPair (pair : String) : Frame α := ⟨pair, .empty, none, .empty⟩

/-- The number of bars. -/
def size (f : Frame α) : Nat := f.bars.close.length

/-- A column of the bars. -/
def column {τ : Type} (f : Frame α) (g : Columns α → List τ) : List τ := g f.bars

/-- The closes. -/
def closes (f : Frame α) : List α := f.column (·.close)

/-- The newest close. -/
def lastClose? (f : Frame α) : Option α := f.closes.getLast?

/-! ### Candles -/

/-- Extends the series of a metric by a bar, the last one of `size`. A metric that was never told
has no series. -/
def extendMetric (c : Candle α) (size : Nat) (t : Table SeriesKey (Series α)) (m : Metric) :
    Table SeriesKey (Series α) :=
  let value := c.metadata.get? m
  if value.isNone && !t.contains (.metric m) then t
  else t.update (.metric m) [] fun s => s.resize (size - 1) ++ [value]

/-- Tells the value of a metric anew at the last bar of `size`, if the candle carries it. -/
def retellMetric (c : Candle α) (size : Nat) (t : Table SeriesKey (Series α)) (m : Metric) :
    Table SeriesKey (Series α) :=
  match c.metadata.get? m with
  | none => t
  | some a => t.update (.metric m) [] fun s => (s.resize size).set (size - 1) (some a)

/-- Adds a bar. -/
def append (f : Frame α) (c : Candle α) : Frame α :=
  let bars := f.bars.append c
  { f with
    bars
    updated := some c.updated
    series := Metric.all.foldl (extendMetric c bars.close.length) f.series }

/-- Overwrites the newest bar, if there is one. -/
def replaceLast (f : Frame α) (c : Candle α) : Frame α :=
  match f.size with
  | 0 => f
  | index + 1 =>
    { f with
      bars := f.bars.replace index c
      updated := some c.updated
      series := Metric.all.foldl (retellMetric c (index + 1)) f.series }

/-- Takes in a candle. -/
def push (f : Frame α) (c : Candle α) : Frame α :=
  if f.bars.time.getLast? = some c.time then f.replaceLast c else f.append c

/-! ### Series -/

/-- The series of a metric, if it was ever told. -/
def metric? (f : Frame α) (m : Metric) : Option (Series α) := f.series.get? (.metric m)

/-- The series of an indicator. -/
def indicator? (f : Frame α) (name : String) : Option (Series α) :=
  f.series.get? (.indicator name)

/-- Stores an indicator. -/
def setIndicator (f : Frame α) (name : String) (values : Series α) :
    Except FrameError (Frame α) :=
  if allBlank name then .error .emptyName
  else if values.length ≠ f.size then .error (.lengthMismatch name f.size values.length)
  else .ok { f with series := f.series.set (.indicator name) values }

/-- Stores indicators one after the other up to the first that is refused. -/
def store (f : Frame α) : List (String × Series α) → Frame α × Option FrameError
  | [] => (f, none)
  | (name, values) :: rest =>
    match f.setIndicator name values with
    | .ok f => f.store rest
    | .error e => (f, some e)

/-- The metrics that have a series, in their order. -/
def metrics (f : Frame α) : List (Metric × Series α) :=
  Metric.all.filterMap fun m => (f.metric? m).map fun s => (m, s)

/-- The indicators by their names. -/
def indicators (f : Frame α) : Table String (Series α) :=
  .ofList (f.series.entries.filterMap fun
    | (.indicator name, s) => some (name, s)
    | (.metric _, _) => none)

end Frame

end Candlewick
