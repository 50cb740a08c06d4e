import Candlewick.CommandLine.Backtest

/-! # The program

Reads the files that the command line names, runs the command and prints what it tells. -/

namespace Candlewick

/-- How the program is used. -/
def usage : String :=
  "Usage: candlewick [--log FILTER] backtest --csv PAIR=PATH [--csv PAIR=PATH]...\n" ++
  "         [--timeframe NAME] [--base-coin COIN] [--balance AMOUNT] [--maker-fee RATE]\n" ++
  "         [--taker-fee RATE] [--config PATH] [--fast PERIOD] [--slow PERIOD]"

/-- What an open file holds. Folders open but cannot be read. -/
def readOpen (file : IO.FS.Handle) : IO Found := do
  try return .file (← file.readBinToEnd).toList
  catch _ => return .folder

/-- What a path leads to on this machine. -/
def readFile (path : String) : IO Found := do
  try readOpen (← IO.FS.Handle.mk path .read)
  catch _ => return .nothing

/-- The files under the given paths. -/
def readFiles (paths : List String) : IO Files := do
  let found ← paths.mapM fun path => do return (path, ← readFile path)
  let table : Table String Found := .ofList found
  return fun path => table.getD path .nothing

/-- Prints what a command tells. -/
def printReport (r : BacktestReport) : IO Unit := do
  for line in r.loaded ++ r.trades ++ r.wallet.toList do
    IO.println line
  if let some failure := r.failure then
    IO.eprintln ("Error: " ++ failure)

end Candlewick

open Candlewick in
def main (args : List String) : IO UInt32 := do
  let i := Invocation.ofArguments args
  let (report, status) := i.run (← readFiles i.paths)
  match i with
  | .misuse => IO.eprintln usage
  | .notice => IO.println usage
  | .backtest .. => printReport report
  return UInt32.ofNat status
