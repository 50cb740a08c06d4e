import Candlewick.Strategy.Basic

/-! # Scripted strategies

A strategy that does what a script says at given lengths of the history and keeps a journal of its
calls and of the answers it got. -/

namespace Candlewick

/-- An entry of the journal. -/
inductive Event (α : Type) where
  /-- Called on closed bars. `indicator` is the newest value of the indicator, if it is stored. -/
  | closed (pair : String) (bars : Nat) (time : Option Instant) (close : Option α)
      (indicator : Option (Option α))
  /-- Called on a forming bar. `indicatorSize` is the length of the indicator, if it is stored. -/
  | forming (pair : String) (bars : Nat) (close : Option α) (indicatorSize : Option Nat)
  /-- A request and its answer. -/
  | asked (pair : String) (request : Request α) (outcome : request.Outcome)

/-- A request to be put at a given length of the history. -/
structure Cue (α : Type) where
  bars : Nat
  /-- The pair it is for, or any. -/
  pair : Option String
  /-- What is asked, given the pair of the history. -/
  request : String → Request α

/-- Which indicator the script computes. -/
inductive ScriptedIndicator where
  | none
  /-- Twice the close, one value short at the given lengths. -/
  | double (shortAt : List Nat)
  /-- A series without a name. -/
  | blank
deriving Repr, DecidableEq, Inhabited

/-- A script. -/
structure Script (α : Type) where
  timeframe : Timeframe
  warmup : Nat
  indicator : ScriptedIndicator
  /-- What to ask on closed bars. -/
  cues : List (Cue α)
  /-- What to ask on forming bars; nothing at all is written down where there is no list. -/
  formingCues : Option (List (Cue α))

/-- What a scripted strategy has written down, newest first. -/
abbrev Journal (α : Type) := List (Event α)

namespace Script
variable {α : Type}

/-- The name of the indicator. -/
def doubleName : String := "double"

/-- Puts the requests of those cues that are due. -/
def perform (f : Frame α) (journal : Journal α) : List (Cue α) → Plan α (Journal α)
  | [] => .done journal
  | cue :: cues =>
    if cue.bars = f.size && cue.pair.all (· = f.pair) then
      .ask (cue.request f.pair) fun x =>
        perform f (.asked f.pair (cue.request f.pair) x :: journal) cues
    else perform f journal cues

/-- The closes doubled. -/
def doubled [Amount α] (f : Frame α) : Series α :=
  f.closes.map fun a => some (a * Amount.ofNat 2)

/-- The indicators that a script stores. -/
def series [Amount α] (s : Script α) (f : Frame α) : List (String × Series α) :=
  match s.indicator with
  | .none => []
  | .double shortAt =>
    [(doubleName, if shortAt.contains f.size then (doubled f).dropLast else doubled f)]
  | .blank => [(" ", doubled f)]

/-- What is written down on closed bars. -/
def closedEvent (f : Frame α) : Event α :=
  .closed f.pair f.size f.bars.time.getLast? f.lastClose?
    ((f.indicator? doubleName).bind List.getLast?)

/-- What is written down on a forming bar. -/
def formingEvent (f : Frame α) : Event α :=
  .forming f.pair f.size f.lastClose? ((f.indicator? doubleName).map List.length)

/-- The strategy that follows a script. -/
def strategy [Amount α] (s : Script α) : Strategy α (Journal α) where
  timeframe := s.timeframe
  warmup := s.warmup
  indicators journal f := (f.store (s.series f), journal)
  onClosed journal f := perform f (closedEvent f :: journal) s.cues
  onForming journal f :=
    match s.formingCues with
    | none => .done journal
    | some cues => perform f (formingEvent f :: journal) cues

end Script

end Candlewick
