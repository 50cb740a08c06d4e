import Candlewick.Proofs.Session.Priming
import Candlewick.Proofs.Table

/-! # What a session processes for a pair

A session processes the candles of a pair that it watches, in the order in which they come
(`Session.processedFor`). While pairs are primed these are the candles of the history of each, once
(`Run.processedFor_priming`). -/

namespace Candlewick

namespace Session
variable {β α σ : Type} [Amount α] [Broker β α]

/-- The candles that a session processes for a pair while something happens to it. -/
def processedFor (e : Setup β α σ) (pair : String) :
    Session β α σ → List (Event α) → List (Candle α)
  | _, [] => []
  | s, .process p c :: es =>
    if p = pair ∧ s.watchers.contains pair = true then
      c :: processedFor e pair (s.process e p c) es
    else processedFor e pair (s.process e p c) es
  | s, x :: es => processedFor e pair (s.after e x) es

variable {e : Setup β α σ} {s : Session β α σ} {pair : String}

theorem processedFor_append (s : Session β α σ) (es es' : List (Event α)) :
    processedFor e pair s (es ++ es') =
      processedFor e pair s es ++ processedFor e pair (s.run e es) es' := by
  induction es generalizing s with
  | nil => rfl
  | cons x es ih =>
    have hrun : s.run e (x :: es) = (s.after e x).run e es := rfl
    rw [hrun]
    cases x with
    | process p c =>
      have hih := ih (s.process e p c)
      simp only [List.cons_append, processedFor]
      split
      · exact congrArg (c :: ·) hih
      · exact hih
    | _ => exact ih _

theorem processedFor_process (s : Session β α σ) (p : String) (c : Candle α) :
    processedFor e pair s [.process p c] =
      if p = pair ∧ s.watchers.contains pair = true then [c] else [] := rfl

theorem processedFor_others {p : String} (hp : p ≠ pair) (s : Session β α σ)
    (cs : List (Candle α)) : processedFor e pair s (cs.map (.process p)) = [] := by
  induction cs generalizing s with
  | nil => rfl
  | cons c cs ih =>
    rw [List.map_cons, processedFor, if_neg fun h => hp h.1]
    exact ih _

theorem processedFor_own (hs : s.watchers.contains pair = true) (cs : List (Candle α)) :
    processedFor e pair s (cs.map (.process pair)) = cs := by
  induction cs generalizing s with
  | nil => rfl
  | cons c cs ih =>
    rw [List.map_cons, processedFor, if_pos ⟨rfl, hs⟩, ih (process_watches hs pair c)]

theorem after_watches (hs : s.watchers.contains pair = true) (x : Event α) :
    (s.after e x).watchers.contains pair = true := by
  cases x with
  | watch p => exact Table.contains_iff.2 (Table.mem_keys_set.2 (.inr (Table.contains_iff.1 hs)))
  | start p => exact Table.contains_iff.2 (Table.mem_keys_set.2 (.inr (Table.contains_iff.1 hs)))
  | process p c => exact process_watches hs p c
  | refresh => exact hs

theorem run_watches (hs : s.watchers.contains pair = true) (es : List (Event α)) :
    (s.run e es).watchers.contains pair = true := by
  induction es generalizing s with
  | nil => exact hs
  | cons x es ih => exact ih (after_watches hs x)

end Session

/-! ### The candles of the priming -/

namespace Run
variable {φ β α σ : Type} [Feeder φ α] [Amount α] [Broker β α]

theorem processedFor_priming_of_not_mem (e : Setup β α σ) (feeder : φ) (s : Session β α σ)
    {pair : String} {pairs : List String} (h : pair ∉ pairs) :
    Session.processedFor e pair s (priming e feeder pairs) = [] := by
  induction pairs generalizing s with
  | nil => rfl
  | cons p pairs ih =>
    rw [List.mem_cons, not_or] at h
    rw [priming]
    split
    · rfl
    next cs hcs =>
      rw [Session.processedFor_append]
      show Session.processedFor e pair (s.watch p) (cs.map (.process p)) ++ _ = []
      rw [Session.processedFor_others (Ne.symm h.1)]
      exact ih _ h.2

/-- While pairs are primed, the history of every one of them is processed once. -/
theorem processedFor_priming {e : Setup β α σ} {feeder : φ} {pair : String} {pairs : List String}
    (hnodup : pairs.Nodup) (hpair : pair ∈ pairs)
    (hrecent : ∀ p ∈ pairs, ∃ cs, e.recent feeder p = .ok cs) (s : Session β α σ) :
    e.recent feeder pair = .ok (Session.processedFor e pair s (priming e feeder pairs)) ∧
      (s.run e (priming e feeder pairs)).watchers.contains pair = true := by
  induction pairs generalizing s with
  | nil => cases hpair
  | cons p pairs ih =>
    obtain ⟨hp, hnodup⟩ := List.nodup_cons.1 hnodup
    obtain ⟨cs, hcs⟩ := hrecent p (List.mem_cons_self ..)
    have hlater : ∀ q ∈ pairs, ∃ cs, e.recent feeder q = .ok cs :=
      fun q hq => hrecent q (List.mem_cons_of_mem _ hq)
    rw [priming, hcs]
    dsimp only
    rw [Session.processedFor_append, Session.run_append]
    have hfirst : ∀ es, Session.processedFor e pair s (.watch p :: es) =
      Session.processedFor e pair (s.watch p) es := fun es => rfl
    rw [hfirst]
    rcases List.mem_cons.1 hpair with rfl | hpair
    · have hwatched : (s.watch pair).watchers.contains pair = true :=
        Table.contains_iff.2 (Table.mem_keys_set.2 (.inl rfl))
      rw [Session.processedFor_own hwatched]
      refine ⟨?_, Session.run_watches (Session.run_watches hwatched _) _⟩
      show _ = Except.ok (cs ++ Session.processedFor e pair _ (priming e feeder pairs))
      rw [processedFor_priming_of_not_mem e feeder _ hp, List.append_nil, hcs]
    · have hne : p ≠ pair := by
        rintro rfl
        exact hp hpair
      rw [Session.processedFor_others hne]
      exact ih hnodup hpair hlater _

end Run

end Candlewick
