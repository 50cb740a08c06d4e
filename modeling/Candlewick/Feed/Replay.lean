import Candlewick.Feed.Feeder

/-! # Replays

A stream that replays stored candles: its sender sends as long as there is room between itself and
the reader, and waits where there is none. -/

namespace Candlewick

/-- A replay under way: what is still with the sender, and what waits for the reader. -/
structure Replay (α : Type) where
  unsent : List (Candle α)
  waiting : List (Candle α)
  room : Nat
deriving Inhabited

namespace Replay
variable {α : Type}

/-- The replay of a stream. -/
def ofStream (s : Stream α) : Replay α := ⟨s.candles, [], s.room⟩

/-- How many candles there is room for. -/
def space (r : Replay α) : Nat := r.room - r.waiting.length

/-- Whether the sender has nothing to send any more. -/
def ended (r : Replay α) : Bool := r.unsent.isEmpty

/-- The sender sends at most `n` candles. -/
def send (r : Replay α) (n : Nat) : Replay α :=
  { r with unsent := r.unsent.drop n, waiting := r.waiting ++ r.unsent.take n }

/-- The sender sends while there is room. -/
def fill (r : Replay α) : Replay α := r.send r.space

/-- Reads at most `n` of the candles that wait. -/
def read (r : Replay α) (n : Nat) : List (Candle α) × Replay α :=
  (r.waiting.take n, { r with waiting := r.waiting.drop n })

/-- The sender is told to stop. -/
def stop (r : Replay α) : Replay α := { r with unsent := [] }

/-- Reads at most `n` candles, the sender keeping up. -/
def take (r : Replay α) (n : Nat) : List (Candle α) × Replay α :=
  let all := r.waiting ++ r.unsent
  (all.take n, { r with
    waiting := r.waiting.drop n, unsent := r.unsent.drop (n - r.waiting.length) })

/-- Everything that still arrives. -/
def remaining (r : Replay α) : List (Candle α) := r.waiting ++ r.unsent

end Replay

end Candlewick
