import Candlewick.Candle.Basic
import Candlewick.Sequencer.Heap

/-! # Sequencers

A sequencer takes in events in any order and releases them in theirs: the event that no other
precedes goes first, and of events that the order leaves tied the one that came first. A closed
sequencer still takes in and releases events; being closed only tells a receiver not to wait. -/

namespace Candlewick

/-- Events with an order of release. -/
class Sequenced (τ : Type) where
  /-- Whether the first event is to be released strictly before the second. -/
  precedes : τ → τ → Bool

instance {α : Type} : Sequenced (Candle α) := ⟨Candle.precedes⟩

/-- An event with the number of its arrival. -/
structure Arrival (τ : Type) where
  item : τ
  number : Nat
deriving Inhabited

/-- Whether one arrival is released before another: by the order of the events, then by number. -/
def Arrival.before {τ : Type} [Sequenced τ] (a b : Arrival τ) : Bool :=
  if Sequenced.precedes a.item b.item then true
  else if Sequenced.precedes b.item a.item then false
  else a.number < b.number

/-- A queue of events that releases them in order. -/
structure Sequencer (τ : Type) where
  heap : Heap (Arrival τ)
  /-- The number of the next arrival. -/
  next : Nat
  closed : Bool
deriving Inhabited

namespace Sequencer
variable {τ : Type}

/-- No events yet. -/
def empty : Sequencer τ := ⟨.leaf, 0, false⟩

/-- How many events wait. -/
def size (s : Sequencer τ) : Nat := s.heap.size

/-- Whether no event waits. -/
def isEmpty (s : Sequencer τ) : Bool := s.size = 0

/-- The first event. -/
def peek? (s : Sequencer τ) : Option τ := s.heap.first?.map (·.item)

/-- The sequencer closed. -/
def close (s : Sequencer τ) : Sequencer τ := { s with closed := true }

variable [Sequenced τ]

/-- Takes in an event. -/
def push (s : Sequencer τ) (item : τ) : Sequencer τ :=
  { s with heap := s.heap.insert Arrival.before ⟨item, s.next⟩, next := s.next + 1 }

/-- Releases the first event. -/
def pop? (s : Sequencer τ) : Option (τ × Sequencer τ) :=
  (s.heap.pop? Arrival.before).map fun (a, h) => (a.item, { s with heap := h })

/-- Releases at most `n` events. -/
def release : Nat → Sequencer τ → List τ × Sequencer τ
  | 0, s => ([], s)
  | n + 1, s =>
    match s.pop? with
    | none => ([], s)
    | some (a, s) =>
      let (as, s) := release n s
      (a :: as, s)

/-- Releases all events. -/
def drain (s : Sequencer τ) : List τ × Sequencer τ := release s.size s

end Sequencer

end Candlewick
