import Candlewick.Feed.Replay

/-! # Turns

Several replays run at a time, each with a sender that fills it and a reader that hands its candles
on. Only one of these parties acts at a time. It goes on until it has to wait for the other side or
has taken `turnLength` steps; then the next in the queue has its turn. Who took all steps of a turn
rests until nobody else can act, and of those who rest the last one comes back first.

`Turns.deliveries` is the order in which the candles are handed on. The candles of one replay stay
in their order; how they lie between those of others is what the turns decide. -/

namespace Candlewick

/-- The number of steps of a turn. -/
def turnLength : Nat := 128

/-- A replay between its two parties. -/
structure Lane (α : Type) where
  key : FeedKey
  replay : Replay α
  /-- Whether the sender waits for room. -/
  blocked : Bool
  /-- Whether the reader waits for a candle. -/
  starved : Bool
  /-- Whether the reader has noticed that the sender has ended, which takes it a step. -/
  noticed : Bool
deriving Inhabited

namespace Lane
variable {α : Type}

/-- A lane on which nothing has happened, or whose sender has gone on until it had to wait. -/
def ofReplay (key : FeedKey) (replay : Replay α) : Lane α :=
  ⟨key, replay, replay.space = 0 && !replay.ended, false, false⟩

/-- What the sender does in a turn; whether it rests afterwards, and whether the reader waited for
it. -/
def send (l : Lane α) : (Bool × Bool) × Lane α :=
  let n := min turnLength l.replay.space
  let replay := l.replay.send n
  let rests := n = turnLength && !replay.ended
  let heard := n > 0 || replay.ended
  ((rests, l.starved && heard), { l with
    replay
    blocked := !rests && !replay.ended
    starved := l.starved && !heard })

/-- What the reader does in a turn: the candles that it hands on; whether it rests afterwards, and
whether the sender waited for it. -/
def read (l : Lane α) : List (Candle α) × (Bool × Bool) × Lane α :=
  let ended := l.replay.ended
  let steps := if ended && !l.noticed then turnLength - 1 else turnLength
  let (cs, replay) := l.replay.read steps
  let rests := cs.length = steps
  (cs, (rests, l.blocked && !cs.isEmpty), { l with
    replay
    blocked := l.blocked && cs.isEmpty
    starved := !rests && !ended
    noticed := l.noticed || ended })

end Lane

/-- One of the two sides of a lane. -/
inductive Party where
  | sender (lane : Nat)
  | reader (lane : Nat)
deriving Repr, DecidableEq, Inhabited

/-- Who acts next, and who rests, the last one first. -/
structure Turns (α : Type) where
  lanes : List (Lane α)
  queue : List Party
  resting : List Party
deriving Inhabited

namespace Turns
variable {α : Type}

/-- The first turns are those of the senders that have not acted yet, then come the readers. -/
def ofReplays (replays : List (FeedKey × Replay α)) : Turns α :=
  let fresh := replays.zipIdx.filter fun ((_, r), _) => r.waiting.isEmpty
  { lanes := replays.map fun (key, r) => .ofReplay key r
    queue := fresh.map (fun (_, i) => .sender i) ++
      (List.range replays.length).map .reader
    resting := [] }

/-- The turns after a party has acted on a lane: it may rest, and it may wake the other side. -/
def after (t : Turns α) (i : Nat) (l : Lane α) (self other : Party) (rests wakes : Bool) :
    Turns α :=
  { lanes := t.lanes.set i l
    queue := if wakes then t.queue ++ [other] else t.queue
    resting := if rests then self :: t.resting else t.resting }

/-- A turn of a party, with what it hands on. -/
def take (t : Turns α) : Party → List (FeedKey × Candle α) × Turns α
  | .sender i =>
    match t.lanes[i]? with
    | none => ([], t)
    | some l =>
      let ((rests, wakes), l) := l.send
      ([], t.after i l (.sender i) (.reader i) rests wakes)
  | .reader i =>
    match t.lanes[i]? with
    | none => ([], t)
    | some l =>
      let (cs, (rests, wakes), l) := l.read
      (cs.map fun c => (l.key, c), t.after i l (.reader i) (.sender i) rests wakes)

/-- What is handed on in at most so many turns, after `done`, which is in reverse. -/
def run : Nat → List (FeedKey × Candle α) → Turns α → List (FeedKey × Candle α)
  | 0, done, _ => done.reverse
  | fuel + 1, done, t =>
    match t.queue, t.resting with
    | p :: queue, _ =>
      let (cs, t) := { t with queue }.take p
      run fuel (cs.reverse ++ done) t
    | [], [] => done.reverse
    | [], resting => run fuel done { t with queue := resting, resting := [] }

/-- All candles of some replays in the order in which they are handed on. A turn is due to a candle
that was sent or handed on, to the end of a sender or to the beginning, which bounds the number of
turns. -/
def deliveries (replays : List (FeedKey × Replay α)) : List (FeedKey × Candle α) :=
  let candles := (replays.flatMap fun (_, r) => r.remaining).length
  run (8 * (candles + replays.length + 1)) [] (ofReplays replays)

end Turns

end Candlewick
