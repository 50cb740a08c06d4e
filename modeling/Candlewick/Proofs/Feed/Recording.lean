import Candlewick.Proofs.Feed.Subscriptions

/-! # Feeders that record

What a feeder was asked to open is told by one that records it (`Recording`) and passes everything
on. A router asks its feeder only when it connects, so all else that happens to it is the same with
any feeder (`Router.after_withFeeder`). -/

namespace Candlewick

namespace Router
variable {φ φ' α : Type}

/-- The same with another feeder. -/
def withFeeder (r : Router φ α) (feeder : φ') : Router φ' α where
  feeder := feeder
  backoff := r.backoff
  subscribers := r.subscribers
  connected := r.connected
  nextId := r.nextId
  inboxes := r.inboxes
  queues := r.queues

theorem deliver_withFeeder (r : Router φ α) (f : φ') (c : Candle α) (s : Subscriber) :
    deliver c (r.withFeeder f) s = (deliver c r s).withFeeder f := rfl

theorem dispatch_withFeeder (r : Router φ α) (f : φ') (key : FeedKey) (c : Candle α) :
    (r.withFeeder f).dispatch key c = (r.dispatch key c).withFeeder f := by
  unfold dispatch
  rw [show (r.withFeeder f).subscribers = r.subscribers from rfl]
  generalize (r.subscribers.getD key []).filter (·.accepts c) = subs
  induction subs generalizing r with
  | nil => rfl
  | cons s subs ih => rw [List.foldl_cons, List.foldl_cons, deliver_withFeeder, ih]

/-- Nothing that happens to a router depends on its feeder. -/
theorem happen_withFeeder (r : Router φ α) (f : φ') (x : Event α) :
    (r.withFeeder f).happen x = (r.happen x).withFeeder f := by
  cases x with
  | subscribe key closedOnly sink => rfl
  | unsubscribe id => rfl
  | dispatch key c => exact r.dispatch_withFeeder f key c
  | receive m =>
    simp only [happen, receive, withFeeder]
    cases r.inboxes.get? m <;> rfl
  | next m =>
    simp only [happen, next?, withFeeder]
    cases r.inboxes.get? m with
    | none => rfl
    | some i => cases hlast : i.candles.getLast? <;> simp [hlast]
  | discard m =>
    simp only [happen, discard, withFeeder]
    split <;> rfl
  | drain n => rfl

theorem after_withFeeder (r : Router φ α) (f : φ') (es : List (Event α)) :
    (r.withFeeder f).after es = (r.after es).withFeeder f := by
  induction es generalizing r with
  | nil => rfl
  | cons x es ih =>
    show ((r.withFeeder f).happen x).after es = _
    rw [happen_withFeeder, ih]
    rfl

theorem feeder_after (r : Router φ α) (es : List (Event α)) : (r.after es).feeder = r.feeder := by
  have h : r.after es = (r.after es).withFeeder r.feeder := r.after_withFeeder r.feeder es
  rw [h]
  rfl

end Router

/-- A feeder that notes for which feeds it was asked to open a stream. -/
structure Recording (φ : Type) where
  feeder : φ
  opened : List FeedKey

instance {φ α : Type} [Feeder φ α] : Feeder (Recording φ) α where
  limits r := Feeder.limits r.feeder
  lastQuote r := Feeder.lastQuote r.feeder
  byPeriod r := Feeder.byPeriod r.feeder
  byLimit r := Feeder.byLimit r.feeder
  subscribe r key :=
    let (stream, feeder) := Feeder.subscribe r.feeder key
    (stream, ⟨feeder, r.opened ++ [key]⟩)

end Candlewick
