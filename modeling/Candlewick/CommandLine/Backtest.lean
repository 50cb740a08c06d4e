import Candlewick.CommandLine.Arguments
import Candlewick.CommandLine.Files
import Candlewick.CommandLine.LogFilter
import Candlewick.Feed.Csv
import Candlewick.Feed.History
import Candlewick.Session.Backtest
import Candlewick.Strategy.MovingAverage
import Candlewick.Text.Terminal
import Candlewick.Wallet.Proxy
import Candlewick.Wallet.Report

/-! # The backtest command

A backtest of a moving average cross over candle files. It reads files by name, tells of every file
that it loads, and at the end of the trades of each pair and of the wallet. -/

namespace Candlewick

/-- What a backtest tells. -/
structure BacktestReport where
  /-- A line for each file that was loaded. -/
  loaded : List String
  /-- A line for each pair that was traded. -/
  trades : List String
  wallet : Option String
  /-- Why it ended early. -/
  failure : Option String
deriving Inhabited

namespace BacktestOptions

/-- The configuration with the pairs of the candle files. Whatever it says of pairs and mode does
not count. -/
def sessionConfig (o : BacktestOptions) (files : Files) : Except String (SessionConfig Float) := do
  let c : SessionConfig Float ← match o.config with
    | none => pure (.standard [] .backtest)
    | some path =>
      match (files path).bytes?.bind utf8? with
      | none => .error ("reading " ++ path)
      | some text =>
        match (Json.read? text).bind SessionConfig.read? with
        | none => .error ("parsing " ++ path)
        | some c => pure c
  return { c with pairs := o.sources.map (·.1), mode := .backtest }

/-- The line that tells of a file that was loaded. -/
def loadedLine (pair path : String) (size : Nat) : String :=
  "candles loaded pair=" ++ pair ++ " candles=" ++ toString size ++ " path=" ++ path

/-- The candles of what a path leads to. Where nothing can be read there are none. -/
def candlesOf (pair : String) : Found → Except CandleFileError (List (Candle Float))
  | .nothing => .error .malformed
  | .folder => .ok []
  | .file bytes => Csv.candles bytes pair

/-- Loads candle files, up to the first that fails; tells of those that were loaded. -/
def loadAll (o : BacktestOptions) (files : Files) (h : History Float) :
    List (String × String) → List String × Except String (History Float)
  | [] => ([], .ok h)
  | (pair, path) :: sources =>
    match candlesOf pair (files path) with
    | .ok cs =>
      let (lines, result) := o.loadAll files (h.insert ⟨pair, o.timeframe⟩ cs) sources
      (loadedLine pair path cs.length :: lines, result)
    | .error _ => ([], .error ("loading " ++ pair ++ " from " ++ path))

/-- The wallet at the start. -/
def wallet (o : BacktestOptions) : Wallet Float :=
  .start (((WalletConfig.ofBase o.base).withAsset o.base o.balance).withFees o.makerFee o.takerFee)

/-- Trades on the candles of a history. -/
def trade (o : BacktestOptions) (config : SessionConfig Float) (h : History Float) :
    Except String (Desk (Wallet Float) Float) := do
  let cross ← (AverageCross.ofPeriods o.timeframe o.fast o.slow).mapError PeriodError.message
  (config.check).mapError SessionError.message
  let setup : Setup (Wallet Float) Float Unit := ⟨config, cross.strategy, some Wallet.observe⟩
  let start : Run (Proxy (History Float) Float) (Wallet Float) Float Unit :=
    .ofFeeder setup ⟨o.wallet, some h⟩ o.wallet ()
  let (result, run) := start.backtest setup
  result.mapError SessionError.message
  return run.session.desk

/-- What remains of a report when nothing was traded. -/
def endedEarly (loaded : List String) (failure : String) : BacktestReport :=
  ⟨loaded, [], none, some failure⟩

/-- Runs the command. -/
def run (o : BacktestOptions) (files : Files) : BacktestReport :=
  match o.sessionConfig files with
  | .error failure => endedEarly [] failure
  | .ok config =>
    match o.loadAll files (.empty History.defaultCapacity) o.sources with
    | (loaded, .error failure) => endedEarly loaded failure
    | (loaded, .ok h) =>
      match o.trade config h with
      | .error failure => endedEarly loaded failure
      | .ok desk =>
        { loaded
          trades := desk.book.summaries.map fun s => terminalText s.report
          wallet := some (terminalText desk.broker.summary.report)
          failure := none }

end BacktestOptions

namespace BacktestReport

/-- The target of the entries that a report makes in the log. -/
def logTarget : String := "shrivenq"

/-- The first line of why a backtest ended early. -/
def headline? (r : BacktestReport) : Option String := do
  let line := ((← r.failure).toList).takeWhile (· ≠ '\n')
  return String.ofList (if line.getLast? = some '\r' then line.dropLast else line)

/-- The part of a report that a log filter shows. Lines on files carry fields besides the text. -/
def filtered (r : BacktestReport) (f : LogFilter) : BacktestReport :=
  let shows (fields : List String) : Bool := f.shows .info logTarget ("message" :: fields)
  { r with
    loaded := if shows ["pair", "candles", "path"] then r.loaded else []
    trades := if shows [] then r.trades else []
    wallet := if shows [] then r.wallet else none }

end BacktestReport

/-- A report that tells nothing. -/
def BacktestReport.silent : BacktestReport := ⟨[], [], none, none⟩

/-- What the command tells and the status it ends with: two for a command line that does not read,
one for a backtest that ends early, and one hundred and one for a log filter that cannot be cut into
its parts. -/
def Invocation.run (i : Invocation) (files : Files) : BacktestReport × Nat :=
  match i with
  | .misuse => (.silent, 2)
  | .notice => (.silent, 0)
  | .backtest log options =>
    match LogFilter.ofText? log with
    | none => (.silent, 101)
    | some filter =>
      let r := options.run files
      (r.filtered filter, if r.failure.isSome then 1 else 0)

/-- The files that a command line names. -/
def Invocation.paths : Invocation → List String
  | .misuse | .notice => []
  | .backtest _ options => options.config.toList ++ options.sources.map (·.2)

end Candlewick
