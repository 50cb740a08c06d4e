import Candlewick.Desk.Basic
import Candlewick.Feed.Router
import Candlewick.Session.Config
import Candlewick.Strategy.Basic

/-! # Sessions

A session trades one strategy on some pairs through one desk. Every candle takes the same way
(`Session.process`): a broker that is simulated from the candles sees it first, then the strategy
sees it on top of the closed bars; a complete candle then joins the closed bars and the strategy
trades on these, and last the desk is refreshed.

Where candles come from is the matter of `Run`: a session with the router that brings it candles. -/

namespace Candlewick

/-- What a session is to do. -/
structure Setup (β α σ : Type) where
  config : SessionConfig α
  strategy : Strategy α σ
  /-- What a candle does to the broker, if that is a simulated one that follows the market. -/
  paper : Option (β → Candle α → β)

/-- A desk, what the strategy remembers, and the history of every pair. -/
structure Session (β α σ : Type) where
  desk : Desk β α
  memory : σ
  watchers : Table String (Watcher α)
deriving Inhabited

/-- A session with the router that brings it candles. -/
structure Run (φ β α σ : Type) where
  session : Session β α σ
  router : Router φ α
  /-- The queue into which a backtest replays. -/
  queue : Nat
deriving Inhabited

namespace Setup
variable {β α σ : Type}

/-- The feed of a pair that the strategy trades on. -/
def key (e : Setup β α σ) (pair : String) : FeedKey := ⟨pair, e.strategy.timeframe⟩

/-- What a candle does to the broker. -/
def follow (e : Setup β α σ) (b : β) (c : Candle α) : β :=
  match e.paper with
  | some f => f b c
  | none => b

/-- A session in a diagnostic text. -/
def describe (e : Setup β Float σ) : String :=
  "Engine \x7b config: " ++ e.config.describe ++ ", paper_wallet: " ++ toString e.paper.isSome ++
    " \x7d"

end Setup

namespace Session
variable {β α σ : Type}

/-- A session that has seen nothing. -/
def ofBroker (b : β) (memory : σ) : Session β α σ := ⟨.ofBroker b, memory, .empty⟩

/-- Begins to keep the history of a pair. The strategy is not called yet. -/
def watch (s : Session β α σ) (pair : String) : Session β α σ :=
  { s with watchers := s.watchers.set pair (.ofPair pair) }

/-- From now on the strategy is called for a pair. -/
def start (s : Session β α σ) (pair : String) : Session β α σ :=
  { s with watchers := s.watchers.update pair (.ofPair pair) Watcher.start }

variable [Amount α] [Broker β α]

/-- What a candle does that joins the closed bars of a pair. -/
def closeBar (e : Setup β α σ) (s : Session β α σ) (pair : String) (w : Watcher α)
    (c : Candle α) : Session β α σ :=
  let (w, memory, desk) := w.onClosed e.strategy c s.memory s.desk
  { desk := Desk.observe desk c, memory, watchers := s.watchers.set pair w }

/-- Takes a candle the whole way for a pair. A pair without a history is passed over. -/
def process (e : Setup β α σ) (s : Session β α σ) (pair : String) (c : Candle α) :
    Session β α σ :=
  match s.watchers.get? pair with
  | none => s
  | some w =>
    let desk := { s.desk with broker := e.follow s.desk.broker c }
    let (memory, desk) := w.onForming e.strategy c s.memory desk
    let s := { s with memory, desk }
    if c.complete then s.closeBar e pair w c else s

/-- Takes candles the whole way for a pair, one after the other. -/
def processAll (e : Setup β α σ) (s : Session β α σ) (pair : String) (cs : List (Candle α)) :
    Session β α σ :=
  cs.foldl (fun s c => s.process e pair c) s

end Session

namespace Run
variable {φ β α σ : Type}

/-- A run that has seen nothing. -/
def ofFeeder (e : Setup β α σ) (feeder : φ) (b : β) (memory : σ) : Run φ β α σ :=
  ⟨.ofBroker b memory, .ofFeeder feeder e.config.backoff, 0⟩

/-- Adds somebody who looks on at the candles of a pair, and tells the identity. -/
def addChart (r : Run φ β α σ) (e : Setup β α σ) (pair : String) (closedOnly : Bool) :
    Nat × Run φ β α σ :=
  let (id, router) := r.router.subscribe (e.key pair) closedOnly .inbox
  (id, { r with router })

end Run

end Candlewick
