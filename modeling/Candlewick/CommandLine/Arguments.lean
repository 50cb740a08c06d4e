import Candlewick.Decimal.Text
import Candlewick.Market.Timeframe
import Candlewick.Text.Upper

/-! # Arguments

The reading of a command line: options with values, then a command with options of its own. The
value of an option is the argument that follows it, unless that looks like an option, or what stands
after an equals sign. An option is entered when the next one begins or when the arguments end; so a
request for help that comes first is heard first, and one that comes after a fault is not. -/

namespace Candlewick

/-- What an argument looks like. -/
inductive Argument where
  | word (text : String)
  /-- A name after two dashes, with what stands after an equals sign. -/
  | option (name : String) (value : Option String)
  /-- A letter after one dash. What follows it in the same argument is never looked at. -/
  | letter (c : Char)
  /-- Two dashes, after which nothing is an option. -/
  | stop
deriving Repr, DecidableEq, Inhabited

/-- The part before the first equals sign, and the part after it if there is one. -/
def cutAtEquals (cs : List Char) : String × Option String :=
  let rest := cs.dropWhile (· ≠ '=')
  (String.ofList (cs.takeWhile (· ≠ '=')),
    if rest.isEmpty then none else some (String.ofList (rest.drop 1)))

/-- What an argument looks like. -/
def Argument.ofText (s : String) : Argument :=
  match s.toList with
  | ['-', '-'] => .stop
  | '-' :: '-' :: cs =>
    let (name, value) := cutAtEquals cs
    .option name value
  | '-' :: c :: _ => .letter c
  | _ => .word s

/-- An option that was begun and is not entered yet. -/
structure Pending where
  name : String
  value : Option String
deriving Repr, DecidableEq, Inhabited

/-- How arguments are read into a draft `δ`. -/
structure Reader (δ : Type) where
  options : List String
  /-- Whether the version can be asked for. -/
  hasVersion : Bool
  /-- Enters the value of an option, if it is one. -/
  enter : δ → String → String → Option δ

/-- How far the reading of arguments came. -/
inductive Scanned (δ : Type) where
  /-- They do not read. -/
  | misuse
  /-- They ask for help, or for the version. -/
  | notice
  /-- A word stands where no value is due; the arguments after it are not read yet. -/
  | word (draft : δ) (pending : Option Pending) (text : String) (rest : List String)
  /-- They ended. -/
  | ended (draft : δ)

namespace Reader
variable {δ : Type}

/-- Enters an option that was begun. One without a value does not read. -/
def settle (r : Reader δ) (draft : δ) : Option Pending → Option δ
  | none => some draft
  | some p => p.value.bind (r.enter draft p.name)

/-- Whether an option asks for help or for the version. -/
def asksNotice (r : Reader δ) : Argument → Bool
  | .option name none => name = "help" || (r.hasVersion && name = "version")
  | .letter c => c = 'h' || (r.hasVersion && c = 'V')
  | _ => false

/-- The end of the arguments. -/
def finish (r : Reader δ) (draft : δ) (pending : Option Pending) : Scanned δ :=
  match r.settle draft pending with
  | some draft => .ended draft
  | none => .misuse

/-- Reads arguments from left to right. -/
def scan (r : Reader δ) (draft : δ) (pending : Option Pending) : List String → Scanned δ
  | [] => r.finish draft pending
  | text :: rest =>
    match Argument.ofText text, pending with
    | .stop, _ => if rest.isEmpty then r.finish draft pending else .misuse
    | .word text, some ⟨name, none⟩ => scan r draft (some ⟨name, some text⟩) rest
    | .word text, _ => .word draft pending text rest
    | a, _ =>
      match r.settle draft pending with
      | none => .misuse
      | some draft =>
        if r.asksNotice a then .notice
        else match a with
          | .option name none =>
            if r.options.contains name then scan r draft (some ⟨name, none⟩) rest else .misuse
          | .option name (some value) =>
            if r.options.contains name then
              match r.enter draft name value with
              | some draft => scan r draft none rest
              | none => .misuse
            else .misuse
          | _ => .misuse

end Reader

/-! ### The commands -/

/-- The options of a backtest. -/
structure BacktestOptions where
  /-- The pairs with the paths of their candle files. -/
  sources : List (String × String)
  timeframe : Timeframe
  base : String
  balance : Float
  makerFee : Float
  takerFee : Float
  /-- The path of a configuration. -/
  config : Option String
  fast : Nat
  slow : Nat
deriving Inhabited

/-- What a command line asks for. -/
inductive Invocation where
  /-- It does not read. -/
  | misuse
  /-- Help, or the version. -/
  | notice
  | backtest (log : String) (options : BacktestOptions)
deriving Inhabited

/-- The value of an option that may be given once. -/
structure Once (τ : Type) where
  value : τ
  given : Bool

namespace Once
variable {τ : Type}

/-- A value to be used unless another one is given. -/
def standard (value : τ) : Once τ := ⟨value, false⟩

/-- Gives a value, if there is one and none was given before. -/
def give? (o : Once τ) (value : Option τ) : Option (Once τ) :=
  if o.given then none else value.map fun a => ⟨a, true⟩

end Once

namespace BacktestOptions

/-- Options as far as they are entered. -/
structure Draft where
  sources : List (String × String)
  timeframe : Once Timeframe
  base : Once String
  balance : Once Float
  makerFee : Once Float
  takerFee : Once Float
  config : Once (Option String)
  fast : Once Nat
  slow : Once Nat

/-- The options when none is given. -/
def Draft.standard : Draft where
  sources := []
  timeframe := .standard .h1
  base := .standard "USDT"
  balance := .standard 10000
  makerFee := .standard 0
  takerFee := .standard 0
  config := .standard none
  fast := .standard 9
  slow := .standard 21

/-- Reads a pair and a path with an equals sign between them. Neither may be blank. -/
def readSource? (s : String) : Option (String × String) :=
  match cutAtEquals s.toList with
  | (_, none) => none
  | (pair, some path) =>
    let pair := upperCase (trimBlank pair.toList)
    let path := trimBlank path.toList
    if pair.isEmpty || path.isEmpty then none else some (String.ofList pair, String.ofList path)

/-- Reads a count of at most 64 bits. -/
def readCount? (s : String) : Option Nat := do
  let digits := match s.toList with
    | '+' :: ds => ds
    | ds => ds
  let n ← Decimal.nat? digits
  if n < UInt64.size then some n else none

/-- Reads a path. -/
def readPath? (s : String) : Option (Option String) := if s.isEmpty then none else some (some s)

/-- The names of the options. -/
def names : List String :=
  ["csv", "timeframe", "base-coin", "balance", "maker-fee", "taker-fee", "config", "fast", "slow"]

/-- Enters the value of an option. -/
def Draft.enter (d : Draft) (name value : String) : Option Draft :=
  match name with
  | "csv" => (readSource? value).map fun s => { d with sources := d.sources ++ [s] }
  | "timeframe" =>
    (d.timeframe.give? (Timeframe.ofName? value)).map fun timeframe => { d with timeframe }
  | "base-coin" => (d.base.give? (some value)).map fun base => { d with base }
  | "balance" => (d.balance.give? (Decimal.toFloat? value)).map fun balance => { d with balance }
  | "maker-fee" =>
    (d.makerFee.give? (Decimal.toFloat? value)).map fun makerFee => { d with makerFee }
  | "taker-fee" =>
    (d.takerFee.give? (Decimal.toFloat? value)).map fun takerFee => { d with takerFee }
  | "config" => (d.config.give? (readPath? value)).map fun config => { d with config }
  | "fast" => (d.fast.give? (readCount? value)).map fun fast => { d with fast }
  | "slow" => (d.slow.give? (readCount? value)).map fun slow => { d with slow }
  | _ => none

/-- The options of a draft, which has to have a source. -/
def ofDraft? (d : Draft) : Option BacktestOptions :=
  if d.sources.isEmpty then none
  else some {
    sources := d.sources
    timeframe := d.timeframe.value
    base := d.base.value
    balance := d.balance.value
    makerFee := d.makerFee.value
    takerFee := d.takerFee.value
    config := d.config.value
    fast := d.fast.value
    slow := d.slow.value }

/-- How the options of a backtest are read. -/
def reader : Reader Draft := ⟨names, false, Draft.enter⟩

end BacktestOptions

namespace Invocation

/-- How the options in front of the command are read. -/
def reader : Reader (Once String) where
  options := ["log"]
  hasVersion := true
  enter log _ value := log.give? (some value)

/-- Help on a command, or on help itself. -/
def ofTopics : List String → Invocation
  | [] | ["backtest"] | ["help"] => .notice
  | _ => .misuse

/-- Reads the arguments of a backtest. The option before the command is entered last. -/
def ofBacktest (log : Once String) (pending : Option Pending) (args : List String) : Invocation :=
  match BacktestOptions.reader.scan .standard none args with
  | .notice => .notice
  | .misuse | .word .. => .misuse
  | .ended draft =>
    match BacktestOptions.ofDraft? draft, reader.settle log pending with
    | some options, some log => .backtest log.value options
    | _, _ => .misuse

/-- Reads a command line. -/
def ofArguments (args : List String) : Invocation :=
  match reader.scan (.standard "info") none args with
  | .notice => .notice
  | .misuse | .ended _ => .misuse
  | .word log pending text rest =>
    if text = "backtest" then ofBacktest log pending rest
    else if text = "help" then ofTopics rest
    else .misuse

end Invocation

end Candlewick
