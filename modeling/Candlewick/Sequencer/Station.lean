import Candlewick.Sequencer.Basic

/-! # Waiting for events

A station is a sequencer with one receiver that may have to wait. The receiver looks for an event,
then whether the sequencer is closed, and then waits for a signal to look again; others may act
between any two of these steps. Whoever adds an event or closes the sequencer signals afterwards.
A signal wakes a suspended receiver, or else it is kept until the receiver comes to wait; more than
one is not kept. -/

namespace Candlewick

/-- What the receiver does next. -/
inductive Phase (τ : Type) where
  /-- Nobody receives. -/
  | idle
  /-- Look for an event. -/
  | looking
  /-- See whether the sequencer is closed. -/
  | checking
  /-- Wait for a signal. -/
  | waiting
  /-- Nothing until a signal comes. -/
  | suspended
  /-- Nothing more: an event was received, or the sequencer was closed and found empty. -/
  | received (item : Option τ)
deriving Inhabited

/-- A sequencer and its receiver. -/
structure Station (τ : Type) where
  queue : Sequencer τ
  /-- Whether a signal is kept. -/
  signalled : Bool
  phase : Phase τ
deriving Inhabited

namespace Station
variable {τ : Type}

/-- An empty sequencer of which nobody receives. -/
def empty : Station τ := ⟨.empty, false, .idle⟩

/-- Closes the sequencer. -/
def close (s : Station τ) : Station τ := { s with queue := s.queue.close }

/-- Gives a signal. -/
def signal (s : Station τ) : Station τ :=
  match s.phase with
  | .suspended => { s with phase := .looking }
  | _ => { s with signalled := true }

/-- The receiver begins to receive. -/
def begin (s : Station τ) : Station τ := { s with phase := .looking }

/-- The receiver goes away. -/
def leave (s : Station τ) : Station τ := { s with phase := .idle }

variable [Sequenced τ]

/-- Adds an event. -/
def push (s : Station τ) (item : τ) : Station τ := { s with queue := s.queue.push item }

/-- The next step of the receiver. -/
def step (s : Station τ) : Station τ :=
  match s.phase with
  | .looking =>
    match s.queue.pop? with
    | some (item, queue) => { s with queue, phase := .received (some item) }
    | none => { s with phase := .checking }
  | .checking =>
    if s.queue.closed then { s with phase := .received none } else { s with phase := .waiting }
  | .waiting =>
    if s.signalled then { s with signalled := false, phase := .looking }
    else { s with phase := .suspended }
  | .idle | .suspended | .received _ => s

/-- Six steps bring a receiver to rest when nobody else acts: two rounds of looking, checking and
waiting use up the signal that is kept. -/
def rest (s : Station τ) : Station τ := s.step.step.step.step.step.step

/-- What a receiver has come to: an event, the end, or neither as yet. -/
def outcome? (s : Station τ) : Option (Option τ) :=
  match s.phase with
  | .received item => some item
  | _ => none

/-- Receives without waiting. -/
def receive (s : Station τ) : Option (Option τ) × Station τ :=
  let s := s.begin.rest
  (s.outcome?, s.leave)

/-- Receives while another acts as soon as the receiver has come to rest. -/
def receiveDuring (s : Station τ) (act : Station τ → Station τ) :
    Option (Option τ) × Station τ :=
  let s := (act s.begin.rest).signal.rest
  (s.outcome?, s.leave)

end Station

end Candlewick
