import Candlewick.Session.Basic
import Candlewick.Time.Timer

/-! # Live sessions

A live session first takes in the recent history of every pair (`Run.prime`), then opens the feeds,
and from then on whatever happens is one of the actions of `Action`: a source sends a candle, the
router hands one out, a pair processes one, the timer ticks. `Live.act` says what an action does and
whether it can happen. The parts of a session act in any order; `Live.settle` is the order in which
everything comes to rest after each candle. -/

namespace Candlewick

/-- A connection among those of its feed. -/
structure LineId where
  key : FeedKey
  /-- How many connections of the feed are newer. -/
  age : Nat
deriving Repr, DecidableEq, Inhabited

/-- A feed stands for its newest connection. -/
instance : Coe FeedKey LineId := ⟨fun key => ⟨key, 0⟩⟩

/-- A connection to the source of a feed. -/
structure Line (α : Type) where
  /-- Whether the source may still send candles. -/
  isOpen : Bool
  /-- Whether the source may still report faults. -/
  faultsOpen : Bool
  /-- What the router has not taken yet, oldest first. -/
  waiting : List (Candle α)
deriving Inhabited

namespace Line
variable {α : Type}

/-- A connection that was just opened. -/
def ofReplay (r : Replay α) : Line α := ⟨true, true, r.remaining⟩

/-- One connection for each of some streams, which are given oldest first. A feed with several streams
has as many connections. -/
def ofStreams : List (FeedKey × Replay α) → List (LineId × Line α)
  | [] => []
  | (key, r) :: newer => (⟨key, newer.countP (·.1 = key)⟩, ofReplay r) :: ofStreams newer

/-- A candle is sent. -/
def send? (line : Line α) (c : Candle α) : Option (Line α) :=
  if line.isOpen then some { line with waiting := line.waiting ++ [c] } else none

/-- A fault is reported. -/
def fault? (line : Line α) : Option (Line α) := if line.faultsOpen then some line else none

/-- No more faults will be reported. -/
def closeFaults? (line : Line α) : Option (Line α) :=
  if line.faultsOpen then some { line with faultsOpen := false } else none

/-- The source ends. -/
def close? (line : Line α) : Option (Line α) :=
  if line.isOpen then some { line with isOpen := false, faultsOpen := false } else none

/-- The oldest candle that waits, and the connection without it. -/
def next? (line : Line α) : Option (Candle α × Line α) :=
  match line.waiting with
  | [] => none
  | c :: waiting => some (c, { line with waiting })

end Line

/-- A session with its connections. -/
structure Live (φ β α σ : Type) where
  run : Run φ β α σ
  /-- The subscriber whose inbox holds the candles of a pair. -/
  inboxes : Table String Nat
  lines : Table LineId (Line α)
  /-- The timer that refreshes the desk. -/
  timer : Timer
deriving Inhabited

/-- What may happen in a live session. -/
inductive Action (α : Type) where
  /-- The source of a connection sends a candle. -/
  | send (id : LineId) (candle : Candle α)
  /-- The source of a connection reports a fault, of which nothing follows. -/
  | fault (id : LineId)
  /-- The source of a connection will report no more faults. -/
  | closeFaults (id : LineId)
  /-- The source of a connection ends. -/
  | close (id : LineId)
  /-- The router hands out the oldest candle that waits on a connection. -/
  | route (id : LineId)
  /-- A pair processes the oldest candle in its inbox. -/
  | process (pair : String)
  /-- The timer ticks. -/
  | tick
deriving Inhabited

/-! ### Before the feeds open -/

namespace Run
variable {φ β α σ : Type} [Amount α] [Broker β α]

/-- Takes in the recent history of a pair. Those who look on at it are shown the history too. -/
def warmUp [Feeder φ α] (e : Setup β α σ) (r : Run φ β α σ) (pair : String) :
    Except SessionError Unit × Run φ β α σ :=
  match Feeder.byLimit r.router.feeder (e.key pair) e.strategy.warmup with
  | .error failure => (.error (.warmUp pair failure), r)
  | .ok cs =>
    (.ok (), { r with
      session := r.session.processAll e pair cs
      router := r.router.preload (e.key pair) cs })

/-- Watches pairs, one after the other, up to the first without a history. Each one is called only
after its history, and takes its candles into an inbox of its own. -/
def primeAll [Feeder φ α] (e : Setup β α σ) (r : Run φ β α σ) (inboxes : Table String Nat) :
    List String → Except SessionError (Table String Nat) × Run φ β α σ
  | [] => (.ok inboxes, r)
  | pair :: pairs =>
    match warmUp e { r with session := r.session.watch pair } pair with
    | (.error failure, r) => (.error failure, r)
    | (.ok (), r) =>
      let (id, router) := r.router.subscribe (e.key pair) false .inbox
      primeAll e { r with session := r.session.start pair, router } (inboxes.set pair id) pairs

/-- Watches all pairs of the configuration. -/
def prime [Feeder φ α] (e : Setup β α σ) (r : Run φ β α σ) :
    Except SessionError (Table String Nat) × Run φ β α σ :=
  primeAll e r .empty e.config.pairs

end Run

namespace Live
variable {φ β α σ : Type}

/-- Opens the feeds after all pairs are primed. Streams that are open already stay open. -/
def connect [Amount α] [Feeder φ α] (e : Setup β α σ) (r : Run φ β α σ)
    (inboxes : Table String Nat) : Except SessionError (Live φ β α σ) × Run φ β α σ :=
  match r.router.connect with
  | (.error failure, _, router) => (.error (.feed failure), { r with router })
  | (.ok (), _, router) =>
    let lines := .ofList (Line.ofStreams router.connected)
    let r := { r with router := { router with connected := [] } }
    (.ok ⟨r, inboxes, lines, .set e.config.refreshPeriod⟩, r)

/-! ### While the feeds are open -/

/-- Changes a connection, if it is there and the change is possible. -/
def onLine (l : Live φ β α σ) (id : LineId) (f : Line α → Option (Line α)) :
    Option (Live φ β α σ) := do
  let line ← f (← l.lines.get? id)
  return { l with lines := l.lines.set id line }

/-- Hands out the oldest candle that waits on a connection. -/
def route? (l : Live φ β α σ) (id : LineId) : Option (Live φ β α σ) := do
  let (c, line) ← (← l.lines.get? id).next?
  return { l with
    lines := l.lines.set id line
    run := { l.run with router := l.run.router.dispatch id.key c } }

variable [Amount α] [Broker β α]

/-- Processes the oldest candle in the inbox of a pair. -/
def process? (e : Setup β α σ) (l : Live φ β α σ) (pair : String) : Option (Live φ β α σ) := do
  let (c, router) ← l.run.router.next? (← l.inboxes.get? pair)
  return { l with run := { l.run with session := l.run.session.process e pair c, router } }

/-- Refreshes the desk if the timer has ticked. -/
def refreshAfter (l : Live φ β α σ) (ticks : Nat) : Live φ β α σ :=
  let s := l.run.session
  { l with run := { l.run with session := { s with desk := s.desk.refreshAfter ticks } } }

/-- What an action does, if it can happen. -/
def act (e : Setup β α σ) (l : Live φ β α σ) : Action α → Option (Live φ β α σ)
  | .send id c => l.onLine id (·.send? c)
  | .fault id => l.onLine id (·.fault?)
  | .closeFaults id => l.onLine id (·.closeFaults?)
  | .close id => l.onLine id (·.close?)
  | .route id => l.route? id
  | .process pair => l.process? e pair
  | .tick => some (l.refreshAfter 1)

/-- Repeats an action while it can happen, at most so often. -/
def repeatAction (e : Setup β α σ) (a : Action α) : Nat → Live φ β α σ → Live φ β α σ
  | 0, l => l
  | n + 1, l =>
    match l.act e a with
    | some l => repeatAction e a n l
    | none => l

/-- Hands out everything that waits on connections. -/
def routeAll (e : Setup β α σ) (l : Live φ β α σ) : Live φ β α σ :=
  l.lines.entries.foldl (fun l (id, line) => repeatAction e (.route id) line.waiting.length l) l

/-- Processes everything that is in inboxes. -/
def processAll (e : Setup β α σ) (l : Live φ β α σ) : Live φ β α σ :=
  l.inboxes.entries.foldl (fun l (pair, id) =>
    repeatAction e (.process pair) (l.run.router.pending id) l) l

/-- Lets everything come to rest. -/
def settle (e : Setup β α σ) (l : Live φ β α σ) : Live φ β α σ := (l.routeAll e).processAll e

/-- Lets time pass. -/
def advance (l : Live φ β α σ) (ms : Nat) : Live φ β α σ :=
  let (ticks, timer) := l.timer.advance ms
  refreshAfter { l with timer } ticks

end Live

end Candlewick
