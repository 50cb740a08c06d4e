import Candlewick.Decimal.Text
import Candlewick.Feed.Backoff
import Candlewick.Feed.Error
import Candlewick.Text.Blank
import Candlewick.Text.Quoted

/-! # Configurations of sessions

What a session trades and how, and why a session cannot begin. A configuration names at least one
pair, none of them is blank, and none is named twice. -/

namespace Candlewick

/-- Where the candles come from, and whether trades are real. -/
inductive Mode where
  /-- Stored candles, simulated trades. -/
  | backtest
  /-- Live candles, simulated trades. -/
  | paper
  /-- Live candles, real trades. -/
  | live
deriving Repr, DecidableEq, Inhabited

namespace Mode

/-- The name of a mode. -/
def name : Mode → String
  | backtest => "backtest"
  | paper => "paper"
  | live => "live"

/-- The name of a mode in a diagnostic text. -/
def label : Mode → String
  | backtest => "Backtest"
  | paper => "Paper"
  | live => "Live"

/-- All modes. -/
def all : List Mode := [backtest, paper, live]

/-- The mode with a name. -/
def ofName? (s : String) : Option Mode := all.find? (·.name = s)

/-- Whether stored candles are replayed. -/
def isBacktest (m : Mode) : Bool := m = backtest

end Mode

/-- What a session trades and how. -/
structure SessionConfig (α : Type) where
  pairs : List String
  mode : Mode
  /-- The pause after each candle of a backtest, in milliseconds. -/
  drainPause : Nat
  /-- The time between two refreshes of the desk in a live session, in milliseconds. -/
  refreshPeriod : Nat
  /-- How to retry a feed that refuses to open. -/
  backoff : Backoff α
deriving Repr, DecidableEq, Inhabited

/-- Why a configuration is refused. -/
inductive ConfigError where
  | noPairs
  /-- The pair at an index, counted from zero, is blank. -/
  | blankPair (index : Nat)
  | repeatedPair (pair : String)
deriving Repr, DecidableEq, Inhabited

/-- What is said of a refused configuration. -/
def ConfigError.message : ConfigError → String
  | noPairs => "at least one pair is required"
  | blankPair index => "pair #" ++ toString index ++ " is blank"
  | repeatedPair pair => "pair " ++ pair ++ " is listed twice"

/-- Why a session does not begin. -/
inductive SessionError where
  | config (error : ConfigError)
  /-- The history of a pair is not to be had. -/
  | warmUp (pair : String) (error : FeedError)
  /-- A feed does not open. -/
  | feed (error : FeedError)
deriving Repr, DecidableEq

/-- What is said of a session that does not begin. -/
def SessionError.message : SessionError → String
  | config e => "Invalid configuration: " ++ e.message
  | warmUp pair e => "Warm-up failed for " ++ pair ++ ": " ++ e.message
  | feed e => "Feed error: " ++ e.message

namespace SessionConfig

section Generic
variable {α : Type}

/-- What a configuration holds unless something else is said. -/
def standard [Amount α] (pairs : List String) (mode : Mode) : SessionConfig α where
  pairs := pairs
  mode := mode
  drainPause := 0
  refreshPeriod := 10000
  backoff := .standard

/-- The first fault in a list of pairs that follow others. -/
def pairFault? (earlier : List String) : List String → Option ConfigError
  | [] => none
  | pair :: pairs =>
    if allBlank pair then some (.blankPair earlier.length)
    else if earlier.contains pair then some (.repeatedPair pair)
    else pairFault? (earlier ++ [pair]) pairs

/-- The first fault of a configuration. -/
def fault? (c : SessionConfig α) : Option ConfigError :=
  if c.pairs.isEmpty then some .noPairs else pairFault? [] c.pairs

/-- Refuses a configuration with a fault. -/
def check (c : SessionConfig α) : Except SessionError Unit :=
  match c.fault? with
  | some e => .error (.config e)
  | none => .ok ()

end Generic

/-! ### Texts -/

/-- Reads how to retry a feed. Every field may be left out. -/
def readFeed? (v : Json) : Option (Backoff Float) := do
  match ← Json.slots? ["retry"] v with
  | [retry] => retry.default .standard Backoff.read?
  | _ => none

/-- Reads the JSON form. Every field may be left out. -/
def read? (v : Json) : Option (SessionConfig Float) := do
  let names := ["pairs", "mode", "drain_pause_ms", "order_refresh_ms", "feed"]
  match ← Json.slots? names v with
  | [pairs, mode, pause, refresh, feed] =>
    let d : SessionConfig Float := standard [] .backtest
    return {
      pairs := ← pairs.default d.pairs (Json.list? Json.string?)
      mode := ← mode.default d.mode (Json.name? Mode.ofName?)
      drainPause := ← pause.default d.drainPause Json.nat64?
      refreshPeriod := ← refresh.default d.refreshPeriod Json.nat64?
      backoff := ← feed.default d.backoff readFeed? }
  | _ => none

/-- A configuration in a diagnostic text. -/
def describe (c : SessionConfig Float) : String :=
  let pairs := String.intercalate ", " (c.pairs.map quoted)
  "EngineConfig \x7b pairs: [" ++ pairs ++ "], mode: " ++ c.mode.label ++
    ", drain_pause_ms: " ++ toString c.drainPause ++
    ", order_refresh_ms: " ++ toString c.refreshPeriod ++
    ", feed: FeedRouterConfig \x7b retry: " ++ c.backoff.describe ++ " \x7d \x7d"

end SessionConfig

end Candlewick
