import Candlewick.Feed.Backoff
import Candlewick.Feed.Turns
import Candlewick.Sequencer.Basic

/-! # Routers

A router opens one stream for each feed that somebody subscribed to and hands every candle to the
subscribers of its feed, in the order in which they came. A subscriber may leave out forming candles
and takes its candles into an inbox or into a queue, which is its own or one that others use too.

`Router.dispatch` hands out one candle. Which candle of which connection comes next is up to a
schedule; `Router.start` follows the one of `Turns.deliveries`. -/

namespace Candlewick

/-- Where a subscriber takes its candles. -/
inductive Sink where
  /-- Into its own inbox. -/
  | inbox
  /-- Into an inbox that others may use too. -/
  | shared (inbox : Nat)
  /-- Into a queue that others may use too. -/
  | queue (number : Nat := 0)
deriving Repr, DecidableEq, Inhabited

/-- A subscriber of a feed. -/
structure Subscriber where
  id : Nat
  /-- Whether it leaves out forming candles. -/
  closedOnly : Bool
  sink : Sink
deriving Repr, DecidableEq, Inhabited

/-- The inbox of a subscriber. One of its own is numbered by its identity. -/
def Subscriber.inbox? (s : Subscriber) : Option Nat :=
  match s.sink with
  | .inbox => some s.id
  | .shared inbox => some inbox
  | .queue _ => none

/-- The queue of a subscriber. -/
def Subscriber.queue? (s : Subscriber) : Option Nat :=
  match s.sink with
  | .queue number => some number
  | _ => none

/-- The candles that were received and have not been read, newest first. -/
structure Inbox (α : Type) where
  isOpen : Bool
  candles : List (Candle α)
deriving Inhabited

/-- Whether a subscriber takes a candle. -/
def Subscriber.accepts {α : Type} (s : Subscriber) (c : Candle α) : Bool :=
  c.complete || !s.closedOnly

/-- The inbox with one more candle, if it still takes any. -/
def Inbox.put {α : Type} (i : Inbox α) (c : Candle α) : Inbox α :=
  if i.isOpen then { i with candles := c :: i.candles } else i

/-- Subscribers, connections, and what was delivered. -/
structure Router (φ α : Type) where
  feeder : φ
  backoff : Backoff α
  /-- The subscribers of each feed that has any, in the order in which they came. -/
  subscribers : Table FeedKey (List Subscriber)
  /-- The streams that are open and from which nothing was handed out yet. -/
  connected : List (FeedKey × Replay α)
  /-- The identity of the next subscriber. -/
  nextId : Nat
  inboxes : Table Nat (Inbox α)
  queues : Table Nat (Sequencer (Candle α))
deriving Inhabited

namespace Router
variable {φ α : Type}

/-- A router without subscribers. -/
def ofFeeder (feeder : φ) (backoff : Backoff α) : Router φ α where
  feeder := feeder
  backoff := backoff
  subscribers := .empty
  connected := []
  nextId := 1
  inboxes := .empty
  queues := .empty

/-- Adds a subscriber and tells its identity. -/
def subscribe (r : Router φ α) (key : FeedKey) (closedOnly : Bool) (sink : Sink) :
    Nat × Router φ α :=
  let s : Subscriber := ⟨r.nextId, closedOnly, sink⟩
  (s.id, { r with
    nextId := s.id + 1
    subscribers := r.subscribers.update key [] (· ++ [s])
    inboxes := match s.inbox? with
      | some inbox => r.inboxes.setNew inbox ⟨true, []⟩
      | none => r.inboxes })

/-- Removes a subscriber and tells whether there was one. -/
def unsubscribe (r : Router φ α) (id : Nat) : Bool × Router φ α :=
  let known := r.subscribers.values.any (·.any (·.id = id))
  let kept := r.subscribers.mapValues fun _ subs => subs.filter (·.id ≠ id)
  (known, { r with subscribers := kept.filter fun _ subs => !subs.isEmpty })

/-- The feeds that have subscribers, in order. -/
def feeds (r : Router φ α) : List FeedKey := r.subscribers.keys.mergeSort FeedKey.upTo

/-! ### Delivery -/

/-- Hands a candle to a subscriber. -/
def deliver (c : Candle α) (r : Router φ α) (s : Subscriber) : Router φ α :=
  { r with
    inboxes := match s.inbox? with
      | some inbox => r.inboxes.update inbox ⟨true, []⟩ (·.put c)
      | none => r.inboxes
    queues := match s.queue? with
      | some number => r.queues.update number .empty (·.push c)
      | none => r.queues }

/-- Hands a candle to all subscribers of a feed that take it. -/
def dispatch (r : Router φ α) (key : FeedKey) (c : Candle α) : Router φ α :=
  ((r.subscribers.getD key []).filter (·.accepts c)).foldl (deliver c) r

/-- Hands out candles one after the other. -/
def dispatchAll (r : Router φ α) (cs : List (FeedKey × Candle α)) : Router φ α :=
  cs.foldl (fun r (key, c) => r.dispatch key c) r

/-- Hands out candles of one feed. -/
def preload (r : Router φ α) (key : FeedKey) (cs : List (Candle α)) : Router φ α :=
  r.dispatchAll (cs.map fun c => (key, c))

/-- What came into an inbox since its reader last looked. -/
def receive (r : Router φ α) (id : Nat) : List (Candle α) × Router φ α :=
  match r.inboxes.get? id with
  | none => ([], r)
  | some i => (i.candles.reverse, { r with inboxes := r.inboxes.set id { i with candles := [] } })

/-- How many candles in an inbox have not been read. -/
def pending (r : Router φ α) (id : Nat) : Nat :=
  ((r.inboxes.get? id).map fun i => i.candles.length).getD 0

/-- The oldest candle in an inbox is read. -/
def next? (r : Router φ α) (id : Nat) : Option (Candle α × Router φ α) := do
  let i ← r.inboxes.get? id
  let c ← i.candles.getLast?
  return (c, { r with inboxes := r.inboxes.set id { i with candles := i.candles.dropLast } })

/-- An inbox is thrown away, though its subscribers stay subscribed; tells whether there was one. -/
def discard (r : Router φ α) (id : Nat) : Bool × Router φ α :=
  match r.inboxes.get? id with
  | some ⟨true, _⟩ => (true, { r with inboxes := r.inboxes.set id ⟨false, []⟩ })
  | _ => (false, r)

/-- A queue, empty if nothing came into it yet. -/
def queue (r : Router φ α) (number : Nat) : Sequencer (Candle α) := r.queues.getD number .empty

/-- The number of a queue into which nothing came and which no subscriber uses. -/
def newQueue (r : Router φ α) : Nat :=
  ((r.queues.keys ++ r.subscribers.values.flatten.filterMap (·.queue?)).foldr max 0) + 1

/-- Releases all candles of a queue. -/
def drain (r : Router φ α) (number : Nat := 0) : List (Candle α) × Router φ α :=
  let (cs, queue) := (r.queue number).drain
  (cs, { r with queues := r.queues.set number queue })

/-- A queue in a diagnostic text. -/
def describeQueue (r : Router φ α) (number : Nat := 0) : String :=
  "CandleSink::Sequencer(len=" ++ toString (r.queue number).size ++ ")"

/-! ### Connections -/

/-- Time passes, in which the senders of all open streams go on until they have to wait. -/
def idle (r : Router φ α) (ms : Nat) : Router φ α :=
  if ms = 0 then r
  else { r with connected := r.connected.map fun (key, s) => (key, s.fill) }

/-- Opens a stream for each of some feeds, retrying every one, up to the first that stays closed;
tells the time spent waiting. What was opened stays open. -/
def connectAll [Amount α] [Feeder φ α] (r : Router φ α) (waited : Nat) :
    List FeedKey → Except FeedError Unit × Nat × Router φ α
  | [] => (.ok (), waited, r)
  | key :: keys =>
    match r.backoff.retry (Feeder.subscribe · key) r.feeder with
    | (⟨.ok stream, _, w⟩, feeder) =>
      let r := { r with feeder }.idle w
      connectAll { r with connected := r.connected ++ [(key, .ofStream stream)] } (waited + w) keys
    | (⟨.error e, _, w⟩, feeder) => (.error e, waited + w, { r with feeder }.idle w)

/-- Opens a stream for each feed that has subscribers. -/
def connect [Amount α] [Feeder φ α] (r : Router φ α) : Except FeedError Unit × Nat × Router φ α :=
  r.connectAll 0 r.feeds

/-- Delivers all that the connections bring. -/
def start (r : Router φ α) : Router φ α :=
  { r with connected := [] }.dispatchAll (Turns.deliveries r.connected)

end Router

end Candlewick
