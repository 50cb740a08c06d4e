import Candlewick.Session.Basic

/-! # Backtests

A backtest replays the feeds of all pairs into a queue of its own, and only when all of them have
ended does it take the candles out of the queue, in replay order, and process them. The order in
which the feeds delivered them is forgotten there. -/

namespace Candlewick.Run
variable {φ β α σ : Type}

/-- Watches a pair whose candles go to the queue. -/
def enqueuePair (e : Setup β α σ) (r : Run φ β α σ) (pair : String) : Run φ β α σ :=
  { r with
    router := (r.router.subscribe (e.key pair) false (.queue r.queue)).2
    session := (r.session.watch pair).start pair }

/-- Watches all pairs of the configuration, whose candles go to a new queue. -/
def enqueuePairs (e : Setup β α σ) (r : Run φ β α σ) : Run φ β α σ :=
  e.config.pairs.foldl (enqueuePair e) { r with queue := r.router.newQueue }

variable [Amount α] [Broker β α]

/-- Processes the candles of the queue, each one for the pair that it names. -/
def drain (e : Setup β α σ) (r : Run φ β α σ) : Run φ β α σ :=
  let (cs, router) := r.router.drain r.queue
  { r with router, session := cs.foldl (fun s c => s.process e c.pair c) r.session }

/-- Runs a backtest from its beginning to its end. -/
def backtest [Feeder φ α] (e : Setup β α σ) (r : Run φ β α σ) :
    Except SessionError Unit × Run φ β α σ :=
  let r := r.enqueuePairs e
  match r.router.connect with
  | (.error failure, _, router) => (.error (.feed failure), { r with router })
  | (.ok (), _, router) => (.ok (), drain e { r with router := router.start })

end Candlewick.Run
