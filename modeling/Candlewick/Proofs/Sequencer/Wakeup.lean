import Candlewick.Proofs.Sequencer.Heap
import Candlewick.Sequencer.Station
import Mathlib.Data.List.Induction
import Mathlib.Data.List.Perm.Basic
import Mathlib.Data.List.ReduceOption

/-! # No signal is missed

Any number of callers add events to a station or close it while its receiver receives. What a call
does to the queue and the signal that follows are two steps, and so are the receiver's look, its
question whether the queue is closed and its wait; a list of `Move`s is any way in which they can
interleave. `Traffic` keeps, besides the station, how far every call is and what the receiver has
come to each time, and `Takes` says what one move can do.

A receiver that has looked in vain may be overtaken at every step until it is suspended. `Covered`
says why that does no harm: unless nothing is queued and the queue is open, a signal is kept or some
caller has yet to give its own. That the queue loses nothing and hands out nothing twice is
`Traffic.balanced_after`, and `FoundEmpty` traces an end back to the look that found nothing. -/

namespace Candlewick

/-! ### What is queued -/

namespace Sequencer
variable {τ : Type} {s s' : Sequencer τ} {a : τ}

/-- The events that wait, in no order that matters. -/
def items (s : Sequencer τ) : List τ := s.heap.toList.map (·.item)

theorem isEmpty_iff : s.isEmpty = true ↔ s.items = [] := by
  simp [isEmpty, size, items, ← Heap.length_toList]

variable [Sequenced τ]

theorem items_push (s : Sequencer τ) (a : τ) : (s.push a).items.Perm (a :: s.items) :=
  (Heap.toList_insert _ s.heap).map _

theorem items_pop (h : s.pop? = some (a, s')) : s.items.Perm (a :: s'.items) := by
  obtain ⟨⟨b, heap⟩, hheap, heq⟩ := Option.map_eq_some_iff.1 h
  cases heq
  cases hs : s.heap with
  | leaf => simp [hs, Heap.pop?] at hheap
  | node k l c r =>
    rw [hs] at hheap
    cases hheap
    rw [items, hs]
    exact ((Heap.toList_merge l r).symm.map _).cons _

theorem items_of_pop_none (h : s.pop? = none) : s.items = [] := by
  rw [items, (Heap.pop?_eq_none (Option.map_eq_none_iff.1 h)).2, List.map_nil]

end Sequencer

namespace Station
variable {τ : Type}

inductive Request (τ : Type) where
  | push (item : τ)
  | close

/-- How far a call is. -/
inductive Stage where
  | begun
  /-- The queue is changed, but no signal has been given. -/
  | done
  | returned
deriving DecidableEq

structure Caller (τ : Type) where
  request : Request τ
  stage : Stage

/-- The event that a caller has added. -/
def Caller.added? (c : Caller τ) : Option τ :=
  match c.stage, c.request with
  | .begun, _ | _, .close => none
  | _, .push item => some item

@[simp] theorem added?_begun (r : Request τ) : Caller.added? ⟨r, .begun⟩ = none := rfl

@[simp] theorem added?_returned (r : Request τ) :
    Caller.added? ⟨r, .returned⟩ = Caller.added? ⟨r, .done⟩ := by
  cases r <;> rfl

/-- A station with all calls that were begun and what the receiver has come to each time. -/
structure Traffic (τ : Type) where
  station : Station τ
  callers : List (Caller τ)
  outcomes : List (Option τ)

/-- One step of somebody. -/
inductive Move (τ : Type) where
  /-- A call is begun. -/
  | call (request : Request τ)
  /-- The next step of a call. -/
  | caller (i : Nat)
  /-- The receiver begins to receive, unless it is about it. -/
  | receive
  /-- The next step of the receiver. -/
  | receiver

/-- Whether there is nothing to receive and nothing to end for. -/
def Quiet (s : Station τ) : Prop := s.queue.isEmpty = true ∧ s.queue.closed = false

namespace Traffic

def empty : Traffic τ := ⟨.empty, [], []⟩

def added (t : Traffic τ) : List τ := t.callers.filterMap Caller.added?

def delivered (t : Traffic τ) : List τ := t.outcomes.reduceOption

/-- Whether some caller has yet to give the signal for what it did. -/
def Owed (t : Traffic τ) : Prop := ∃ c ∈ t.callers, c.stage = .done

variable [Sequenced τ]

def serve (s : Station τ) : Request τ → Station τ
  | .push item => s.push item
  | .close => s.close

/-- A move; one that nobody can make changes nothing. -/
def move (t : Traffic τ) : Move τ → Traffic τ
  | .call request => { t with callers := t.callers ++ [⟨request, .begun⟩] }
  | .caller i =>
    match t.callers[i]? with
    | some ⟨request, .begun⟩ =>
      { t with station := serve t.station request, callers := t.callers.set i ⟨request, .done⟩ }
    | some ⟨request, .done⟩ =>
      { t with station := t.station.signal, callers := t.callers.set i ⟨request, .returned⟩ }
    | _ => t
  | .receive =>
    match t.station.phase with
    | .idle | .received _ => { t with station := t.station.begin }
    | _ => t
  | .receiver =>
    match t.station.phase with
    | .received _ => t
    | _ =>
      { t with
        station := t.station.step
        outcomes := t.outcomes ++ t.station.step.outcome?.toList }

def after (ms : List (Move τ)) : Traffic τ := ms.foldl move empty

theorem after_concat (ms : List (Move τ)) (m : Move τ) : after (ms ++ [m]) = (after ms).move m := by
  simp [after]

/-! ### One move -/

inductive Takes : Move τ → Traffic τ → Traffic τ → Prop where
  | nothing {m : Move τ} (hm : m ≠ .receiver) (t : Traffic τ) : Takes m t t
  | call (r : Request τ) (t : Traffic τ) :
      Takes (.call r) t { t with callers := t.callers ++ [⟨r, .begun⟩] }
  | serve {i : Nat} {r : Request τ} {t : Traffic τ} (hi : t.callers[i]? = some ⟨r, .begun⟩) :
      Takes (.caller i) t
        { t with station := serve t.station r, callers := t.callers.set i ⟨r, .done⟩ }
  | signal {i : Nat} {r : Request τ} {t : Traffic τ} (hi : t.callers[i]? = some ⟨r, .done⟩) :
      Takes (.caller i) t
        { t with station := t.station.signal, callers := t.callers.set i ⟨r, .returned⟩ }
  | begin (t : Traffic τ) : Takes .receive t { t with station := t.station.begin }
  | rest {t : Traffic τ} (hphase : t.station.phase = .idle ∨ t.station.phase = .suspended ∨
      ∃ outcome, t.station.phase = .received outcome) : Takes .receiver t t
  | deliver {t : Traffic τ} {a : τ} {q : Sequencer τ} (hphase : t.station.phase = .looking)
      (hpop : t.station.queue.pop? = some (a, q)) :
      Takes .receiver t
        ⟨⟨q, t.station.signalled, .received (some a)⟩, t.callers, t.outcomes ++ [some a]⟩
  | miss {t : Traffic τ} (hphase : t.station.phase = .looking)
      (hpop : t.station.queue.pop? = none) :
      Takes .receiver t { t with station := { t.station with phase := .checking } }
  | finish {t : Traffic τ} (hphase : t.station.phase = .checking)
      (hclosed : t.station.queue.closed = true) :
      Takes .receiver t
        ⟨{ t.station with phase := .received none }, t.callers, t.outcomes ++ [none]⟩
  | stay {t : Traffic τ} (hphase : t.station.phase = .checking)
      (hopen : t.station.queue.closed = false) :
      Takes .receiver t { t with station := { t.station with phase := .waiting } }
  | wake {t : Traffic τ} (hphase : t.station.phase = .waiting)
      (hsignal : t.station.signalled = true) :
      Takes .receiver t
        { t with station := { t.station with signalled := false, phase := .looking } }
  | sleep {t : Traffic τ} (hphase : t.station.phase = .waiting)
      (hsignal : t.station.signalled = false) :
      Takes .receiver t { t with station := { t.station with phase := .suspended } }

theorem takes_receiver (t : Traffic τ) : Takes .receiver t (t.move .receiver) := by
  obtain ⟨⟨queue, signalled, phase⟩, callers, outcomes⟩ := t
  cases phase with
  | idle => simpa [move, step, outcome?] using Takes.rest (.inl rfl)
  | suspended => simpa [move, step, outcome?] using Takes.rest (.inr (.inl rfl))
  | received item => exact .rest (.inr (.inr ⟨item, rfl⟩))
  | looking =>
    cases hpop : queue.pop? with
    | none => simpa [move, step, outcome?, hpop] using Takes.miss rfl hpop
    | some r => simpa [move, step, outcome?, hpop] using Takes.deliver rfl hpop
  | checking =>
    cases hclosed : queue.closed with
    | true => simpa [move, step, outcome?, hclosed] using Takes.finish rfl hclosed
    | false => simpa [move, step, outcome?, hclosed] using Takes.stay rfl hclosed
  | waiting =>
    cases signalled with
    | true => simpa [move, step, outcome?] using Takes.wake rfl rfl
    | false => simpa [move, step, outcome?] using Takes.sleep rfl rfl

theorem takes_move (t : Traffic τ) (m : Move τ) : Takes m t (t.move m) := by
  cases m with
  | call r => exact .call r t
  | caller i =>
    rw [move]
    split
    next hi => exact .serve hi
    next hi => exact .signal hi
    next => exact .nothing (by simp) t
  | receive =>
    rw [move]
    split
    · exact .begin t
    · exact .begin t
    · exact .nothing (by simp) t
  | receiver => exact takes_receiver t

/-! ### Why the receiver may wait -/

/-- A receiver that has looked in vain may go on to wait: where there is something for it, it will be
signalled. -/
structure Covered (t : Traffic τ) : Prop where
  checking : t.station.phase = .checking →
    t.station.queue.isEmpty = true ∨ t.station.signalled = true ∨ t.Owed
  waiting : t.station.phase = .waiting → t.station.Quiet ∨ t.station.signalled = true ∨ t.Owed
  suspended : t.station.phase = .suspended → t.station.Quiet ∨ t.Owed

omit [Sequenced τ] in
theorem owed_set {cs : List (Caller τ)} {i : Nat} {c : Caller τ} {r : Request τ}
    (hi : cs[i]? = some c) : ∃ c ∈ cs.set i ⟨r, .done⟩, c.stage = .done :=
  ⟨_, List.mem_set (List.getElem?_eq_some_iff.1 hi).1 _, rfl⟩

theorem Covered.takes {m : Move τ} {t t' : Traffic τ} (h : t.Covered) (ht : Takes m t t') :
    t'.Covered := by
  cases ht with
  | nothing | rest => exact h
  | call r =>
    have howed : t.Owed → Owed { t with callers := t.callers ++ [⟨r, .begun⟩] } :=
      fun ⟨c, hc, hdone⟩ => ⟨c, List.mem_append_left _ hc, hdone⟩
    exact ⟨fun hp => (h.checking hp).imp_right (.imp_right howed),
      fun hp => (h.waiting hp).imp_right (.imp_right howed),
      fun hp => (h.suspended hp).imp_right howed⟩
  | serve hi =>
    -- from now until it signals, the caller itself is the reason
    exact ⟨fun _ => .inr (.inr (owed_set hi)), fun _ => .inr (.inr (owed_set hi)),
      fun _ => .inr (owed_set hi)⟩
  | signal hi =>
    cases hphase : t.station.phase with
    | suspended =>
      -- the receiver is woken and looks again
      constructor <;> simp [signal, hphase]
    | _ => constructor <;> simp [signal, hphase]
  | begin => constructor <;> simp [Station.begin]
  | deliver => constructor <;> simp
  | miss _ hpop =>
    have hempty := Sequencer.isEmpty_iff.2 (Sequencer.items_of_pop_none hpop)
    exact ⟨fun _ => .inl hempty, nofun, nofun⟩
  | finish => constructor <;> simp
  | stay hphase hopen =>
    exact ⟨nofun, fun _ => (h.checking hphase).imp_left fun hempty => ⟨hempty, hopen⟩, nofun⟩
  | wake => constructor <;> simp
  | sleep hphase hsignal =>
    refine ⟨nofun, nofun, fun _ => (h.waiting hphase).imp_right fun hreason => ?_⟩
    rcases hreason with hkept | howed
    · rw [hsignal] at hkept
      cases hkept
    · exact howed

theorem covered_after (ms : List (Move τ)) : (after ms).Covered := by
  induction ms using List.reverseRecOn with
  | nil => constructor <;> simp [after, empty, Station.empty]
  | append_singleton ms m ih =>
    rw [after_concat]
    exact ih.takes (takes_move _ m)

/-! ### What becomes of the events -/

/-- What was added is what was delivered and what is queued. -/
def Balanced (t : Traffic τ) : Prop := (t.delivered ++ t.station.queue.items).Perm t.added

theorem Balanced.serve {i : Nat} {r : Request τ} {t : Traffic τ} (h : t.Balanced)
    (hi : t.callers[i]? = some ⟨r, .begun⟩) :
    Balanced { t with station := serve t.station r, callers := t.callers.set i ⟨r, .done⟩ } := by
  obtain ⟨hlt, hget⟩ := List.getElem?_eq_some_iff.1 hi
  have hbefore := (List.getElem_cons_eraseIdx_perm hlt).filterMap Caller.added?
  have hafter := (List.set_perm_cons_eraseIdx hlt ⟨r, .done⟩).filterMap Caller.added?
  rw [hget, List.filterMap_cons_none (added?_begun r)] at hbefore
  cases r with
  | close =>
    rw [List.filterMap_cons_none rfl] at hafter
    exact h.trans (hbefore.symm.trans hafter.symm)
  | push a =>
    have hadded : Caller.added? ⟨.push a, .done⟩ = some a := rfl
    rw [List.filterMap_cons_some hadded] at hafter
    have hq := (Sequencer.items_push t.station.queue a).append_left t.delivered
    calc t.delivered ++ (t.station.queue.push a).items
      List.Perm _ (t.delivered ++ a :: t.station.queue.items) := hq
      List.Perm _ (a :: (t.delivered ++ t.station.queue.items)) := List.perm_middle
      List.Perm _ (a :: t.added) := h.cons a
      List.Perm _ _ := (hbefore.symm.cons a).trans hafter.symm

omit [Sequenced τ] in
theorem Balanced.signal {i : Nat} {r : Request τ} {t : Traffic τ} (h : t.Balanced)
    (hi : t.callers[i]? = some ⟨r, .done⟩) :
    Balanced { t with station := t.station.signal, callers := t.callers.set i ⟨r, .returned⟩ } := by
  obtain ⟨hlt, hget⟩ := List.getElem?_eq_some_iff.1 hi
  have hbefore := (List.getElem_cons_eraseIdx_perm hlt).filterMap Caller.added?
  have hafter := (List.set_perm_cons_eraseIdx hlt ⟨r, .returned⟩).filterMap Caller.added?
  rw [List.filterMap_cons, added?_returned, ← List.filterMap_cons, ← hget] at hafter
  have hqueue : t.station.signal.queue = t.station.queue := by
    unfold Station.signal
    split <;> rfl
  unfold Balanced
  rw [hqueue]
  exact h.trans (hbefore.symm.trans hafter.symm)

theorem Balanced.takes {m : Move τ} {t t' : Traffic τ} (h : t.Balanced) (ht : Takes m t t') :
    t'.Balanced := by
  cases ht with
  | call r => simpa [Balanced, added, delivered, List.filterMap_cons] using h
  | serve hi => exact h.serve hi
  | signal hi => exact h.signal hi
  | deliver _ hpop =>
    have hq := (Sequencer.items_pop hpop).append_left t.delivered
    simpa [Balanced, added, delivered, List.reduceOption_append] using hq.symm.trans h
  | finish => simpa [Balanced, added, delivered, List.reduceOption_append] using h
  | _ => exact h

theorem balanced_after (ms : List (Move τ)) : (after ms).Balanced := by
  induction ms using List.reverseRecOn with
  | nil => exact .refl _
  | append_singleton ms m ih =>
    rw [after_concat]
    exact ih.takes (takes_move _ m)

/-! ### Why a receiver ends -/

/-- After the moves `before` the receiver looks and finds nothing, and until the end of `ms` it makes
no other step. -/
def FoundEmpty (before ms : List (Move τ)) : Prop :=
  ∃ between, ms = before ++ .receiver :: between ∧ .receiver ∉ between ∧
    (after before).station.phase = .looking ∧ (after before).station.queue.isEmpty = true

theorem FoundEmpty.concat {before ms : List (Move τ)} {m : Move τ} (h : FoundEmpty before ms)
    (hm : m ≠ .receiver) : FoundEmpty before (ms ++ [m]) := by
  obtain ⟨between, rfl, hbetween, hlook⟩ := h
  refine ⟨between ++ [m], by simp, ?_, hlook⟩
  simpa [hbetween] using hm.symm

omit [Sequenced τ] in
theorem signal_checking {s : Station τ} (h : s.signal.phase = .checking) : s.phase = .checking := by
  unfold Station.signal at h
  split at h
  · cases h
  · exact h

/-- A receiver that is between its look and its question has just looked in vain, or it is not the
one who moved. -/
theorem takes_checking {m : Move τ} {t t' : Traffic τ} (ht : Takes m t t')
    (hphase : t'.station.phase = .checking) :
    t'.outcomes = t.outcomes ∧ (m ≠ .receiver ∧ t.station.phase = .checking ∨
      m = .receiver ∧ t.station.phase = .looking ∧ t.station.queue.isEmpty = true) := by
  cases ht with
  | nothing hm => exact ⟨rfl, .inl ⟨hm, hphase⟩⟩
  | call r => exact ⟨rfl, .inl ⟨nofun, hphase⟩⟩
  | @serve i r _ hi => cases r <;> exact ⟨rfl, .inl ⟨nofun, hphase⟩⟩
  | signal hi => exact ⟨rfl, .inl ⟨nofun, signal_checking hphase⟩⟩
  | rest hrest => simp [hphase] at hrest
  | miss hlook hpop =>
    exact ⟨rfl, .inr ⟨rfl, hlook, Sequencer.isEmpty_iff.2 (Sequencer.items_of_pop_none hpop)⟩⟩
  | _ => cases hphase

theorem foundEmpty_of_checking {ms : List (Move τ)} (h : (after ms).station.phase = .checking) :
    ∃ before, FoundEmpty before ms ∧ (after before).outcomes = (after ms).outcomes := by
  induction ms using List.reverseRecOn with
  | nil => simp [after, empty, Station.empty] at h
  | append_singleton ms m ih =>
    rw [after_concat] at h ⊢
    -- either somebody else moved after the look, or this is the look
    obtain ⟨hout, ⟨hm, hphase⟩ | ⟨rfl, hphase, hempty⟩⟩ := takes_checking (takes_move _ m) h
    · obtain ⟨before, hfound, heq⟩ := ih hphase
      exact ⟨before, hfound.concat hm, heq.trans hout.symm⟩
    · exact ⟨ms, ⟨[], rfl, by simp, hphase, hempty⟩, hout.symm⟩

/-- The receiver comes to an end only where it sees the queue closed. -/
theorem takes_ended {m : Move τ} {t t' : Traffic τ} {n : Nat} (ht : Takes m t t')
    (h : t'.outcomes[n]? = some none) : t.outcomes[n]? = some none ∨
      m = .receiver ∧ t.outcomes.length = n ∧ t.station.phase = .checking ∧
        t.station.queue.closed = true := by
  cases ht with
  | deliver =>
    rw [List.getElem?_append] at h
    split at h
    · exact .inl h
    · simp [List.getElem?_singleton] at h
  | finish hphase hclosed =>
    rcases Nat.lt_trichotomy n t.outcomes.length with hn | hn | hn
    · rw [List.getElem?_append_left hn] at h
      exact .inl h
    · exact .inr ⟨rfl, hn.symm, hphase, hclosed⟩
    · rw [List.getElem?_eq_none (by simp; omega)] at h
      cases h
  | _ => exact .inl h

/-- Where the receiver has come to an end, it had found nothing queued and then the queue closed. -/
theorem closed_of_ended {ms : List (Move τ)} {n : Nat} (h : (after ms).outcomes[n]? = some none) :
    ∃ before asked later, ms = asked ++ .receiver :: later ∧ FoundEmpty before asked ∧
      (after before).outcomes.length = n ∧ (after asked).station.queue.closed = true := by
  induction ms using List.reverseRecOn with
  | nil => simp [after, empty] at h
  | append_singleton ms m ih =>
    rw [after_concat] at h
    rcases takes_ended (takes_move _ m) h with h | ⟨rfl, hn, hphase, hclosed⟩
    · obtain ⟨before, asked, later, heq, hrest⟩ := ih h
      exact ⟨before, asked, later ++ [m], by simp [heq], hrest⟩
    · obtain ⟨before, hfound, hout⟩ := foundEmpty_of_checking hphase
      exact ⟨before, ms, [], rfl, hfound, by rw [hout, hn], hclosed⟩

end Traffic

open Traffic

variable [Sequenced τ]

/-- However the steps of calls and of the receiver interleave: where every call has returned and the
receiver is suspended, nothing is queued and the queue is open. What was delivered and what is
queued is what was added, so nothing is delivered twice. And each time the receiver came to an end
it had found nothing queued, and after that, before its next step, the queue closed. -/
theorem no_signal_missed (ms : List (Move τ)) :
    ((∀ c ∈ (after ms).callers, c.stage = .returned) → (after ms).station.phase = .suspended →
      (after ms).station.queue.isEmpty = true ∧ (after ms).station.queue.closed = false) ∧
    ((after ms).delivered ++ (after ms).station.queue.items).Perm (after ms).added ∧
    ∀ n, (after ms).outcomes[n]? = some none →
      ∃ before asked later, ms = asked ++ .receiver :: later ∧ FoundEmpty before asked ∧
        (after before).outcomes.length = n ∧ (after asked).station.queue.closed = true := by
  refine ⟨fun hreturned hphase => ?_, balanced_after ms, fun n => closed_of_ended⟩
  rcases (covered_after ms).suspended hphase with hquiet | ⟨c, hc, hdone⟩
  · exact hquiet
  · rw [hreturned c hc] at hdone
    cases hdone

/-- An event is added just before the receiver is suspended, and it is received after the signal;
then the receiver waits for another one. -/
def overtaken (a : τ) : List (Move τ) :=
  [.receive, .receiver, .receiver, .call (.push a), .caller 0, .receiver, .caller 0, .receiver,
    .receive, .receiver, .receiver, .receiver]

/-- An event is added and the queue is closed between the receiver's look and its question. -/
def closing (a : τ) : List (Move τ) :=
  [.receive, .receiver, .call (.push a), .call .close, .caller 0, .caller 1, .receiver]

/-- Of the two runs the first ends with the receiver suspended, and the second with an end at which
an event is queued that was not when the receiver looked. -/
theorem no_signal_missed_overtaken (a : Candle Unit) :
    (∀ c ∈ (after (overtaken a)).callers, c.stage = .returned) ∧
    (after (overtaken a)).station.phase = .suspended ∧
    (after (overtaken a)).station.queue.isEmpty = true ∧
    (after (overtaken a)).station.queue.closed = false ∧
    (after (closing a)).outcomes[0]? = some none ∧
    (after (closing a)).station.queue.items = [a] ∧
    ∃ before asked later, closing a = asked ++ .receiver :: later ∧ FoundEmpty before asked ∧
      (after before).outcomes.length = 0 ∧ (after asked).station.queue.closed = true := by
  have hreturned : ∀ c ∈ (after (overtaken a)).callers, c.stage = .returned := by
    intro c hc
    obtain rfl := List.mem_singleton.1 hc
    rfl
  have hwait := (no_signal_missed (overtaken a)).1 hreturned rfl
  exact ⟨hreturned, rfl, hwait.1, hwait.2, rfl, rfl,
    (no_signal_missed (closing a)).2.2 0 rfl⟩

end Station
end Candlewick
