import Candlewick.Feed.Backoff
import Candlewick.Proofs.Rational
import Mathlib.Algebra.Order.Floor.Semiring
import Mathlib.Data.Rat.Floor

/-! # Retries end

What comes of an operation that is tried again is told by the outcomes that its calls have one after
the other (`Backoff.outcomeAt`): it is called up to the first success, or one time more often than
there are retries if that does not come before, and between two calls the delay of the failure is
waited for (`Backoff.Tries`). On rationals the delays do not shrink, and lie between the first and
the longest one (`Backoff.retry_bounded`). -/

namespace Candlewick.Backoff

/-! ### Calls -/

section Calls
variable {α σ ε τ : Type} [Amount α] {b : Backoff α} {op : σ → Except ε τ × σ} {s : σ} {n : Nat}

/-- The state after some calls of an operation. -/
def stateAfter (op : σ → Except ε τ × σ) (s : σ) (n : Nat) : σ := (fun s => (op s).2)^[n] s

/-- The outcome of a call, the first one having number zero. -/
def outcomeAt (op : σ → Except ε τ × σ) (s : σ) (n : Nat) : Except ε τ := (op (stateAfter op s n)).1

/-- The calls before some number fail. -/
def FailsBefore (op : σ → Except ε τ × σ) (s : σ) (n : Nat) : Prop :=
  ∀ k < n, ∃ e, outcomeAt op s k = .error e

/-- A call is the first one that succeeds. -/
def FirstSuccess (op : σ → Except ε τ × σ) (s : σ) (n : Nat) : Prop :=
  FailsBefore op s n ∧ ∃ a, outcomeAt op s n = .ok a

/-- What comes of trying an operation as often as a policy allows. -/
structure Tries (b : Backoff α) (op : σ → Except ε τ × σ) (s : σ) (r : Retried ε τ × σ) :
    Prop where
  /-- Up to the first success, if the retries reach so far. -/
  calls_of_success : ∀ n, FirstSuccess op s n → r.1.calls = min n b.maxRetries + 1
  calls_of_failure : (∀ n, FailsBefore op s n) → r.1.calls = b.maxRetries + 1
  outcome_of_success : ∀ n, FirstSuccess op s n → n ≤ b.maxRetries →
    r.1.outcome = outcomeAt op s n
  /-- Otherwise the last failure. -/
  outcome_of_failure : FailsBefore op s (b.maxRetries + 1) →
    r.1.outcome = outcomeAt op s b.maxRetries
  /-- After every call but the last one, the delay of its failure. -/
  waited : r.1.waited = ((List.range (r.1.calls - 1)).map b.delay).sum
  /-- The operation has been called so often, and not more. -/
  state : r.2 = stateAfter op s r.1.calls

theorem outcomeAt_succ : outcomeAt op s (n + 1) = outcomeAt op (op s).2 n := rfl

theorem not_failsBefore {m : Nat} {a : τ} (ha : outcomeAt op s n = .ok a)
    (h : FailsBefore op s m) (hn : n < m) : False := by
  obtain ⟨e, he⟩ := h n hn
  rw [ha] at he
  cases he

section Step
variable {s' : σ} (b : Backoff α) (failures waited : Nat)

theorem retryFrom_ok {a : τ} (h : op s = (.ok a, s')) (retries : Nat) :
    b.retryFrom op retries failures waited s = (⟨.ok a, failures + 1, waited⟩, s') := by
  unfold retryFrom
  rw [h]

theorem retryFrom_of_no_retry {e : ε} (h : op s = (.error e, s')) :
    b.retryFrom op 0 failures waited s = (⟨.error e, failures + 1, waited⟩, s') := by
  unfold retryFrom
  rw [h]

theorem retryFrom_retry {e : ε} (h : op s = (.error e, s')) (retries : Nat) :
    b.retryFrom op (retries + 1) failures waited s =
      b.retryFrom op retries (failures + 1) (waited + b.delay failures) s' := by
  conv_lhs => unfold retryFrom
  rw [h]

end Step

/-- The calls from some state on end with the first success or with the last retry. -/
theorem retryFrom_eq (b : Backoff α) (op : σ → Except ε τ × σ) (retries failures waited : Nat)
    (s : σ) : ∃ n ≤ retries, FailsBefore op s n ∧
      (n < retries → ∃ a, outcomeAt op s n = .ok a) ∧
      b.retryFrom op retries failures waited s =
        (⟨outcomeAt op s n, failures + n + 1,
          waited + ((List.range n).map fun k => b.delay (failures + k)).sum⟩,
        stateAfter op s (n + 1)) := by
  induction retries generalizing failures waited s with
  | zero =>
    refine ⟨0, le_rfl, nofun, nofun, ?_⟩
    rcases hop : op s with ⟨e | a, s'⟩
    · rw [retryFrom_of_no_retry b failures waited hop]
      simp [outcomeAt, stateAfter, hop]
    · rw [retryFrom_ok b failures waited hop]
      simp [outcomeAt, stateAfter, hop]
  | succ retries ih =>
    rcases hop : op s with ⟨e | a, s'⟩
    · obtain ⟨n, hn, hfails, hlast, heq⟩ := ih (failures + 1) (waited + b.delay failures) s'
      have hsnd : (op s).2 = s' := congrArg Prod.snd hop
      have hnext : ∀ k, outcomeAt op s (k + 1) = outcomeAt op s' k := fun k => by
        rw [outcomeAt_succ, hsnd]
      have hstate : stateAfter op s (n + 2) = stateAfter op s' (n + 1) :=
        congrArg (stateAfter op · (n + 1)) hsnd
      refine ⟨n + 1, Nat.succ_le_succ hn, fun k hk => ?_, fun hlt => ?_, ?_⟩
      · cases k with
        | zero => exact ⟨e, congrArg Prod.fst hop⟩
        | succ k =>
          rw [hnext]
          exact hfails k (Nat.lt_of_succ_lt_succ hk)
      · rw [hnext]
        exact hlast (Nat.lt_of_succ_lt_succ hlt)
      · have hdelays : ((List.range (n + 1)).map fun k => b.delay (failures + k)).sum =
            b.delay failures + ((List.range n).map fun k => b.delay (failures + 1 + k)).sum := by
          rw [List.range_succ_eq_map, List.map_cons, List.sum_cons, List.map_map]
          simp [Function.comp_def, Nat.add_assoc, Nat.add_comm 1]
        have hcalls : failures + (n + 1) + 1 = failures + 1 + n + 1 := by omega
        rw [retryFrom_retry b failures waited hop, heq, hnext, hstate, hdelays, hcalls,
          Nat.add_assoc waited]
    · refine ⟨0, Nat.zero_le _, nofun, fun _ => ⟨a, congrArg Prod.fst hop⟩, ?_⟩
      rw [retryFrom_ok b failures waited hop]
      simp [outcomeAt, stateAfter, hop]

theorem tries_retry (b : Backoff α) (op : σ → Except ε τ × σ) (s : σ) :
    b.Tries op s (b.retry op s) := by
  obtain ⟨n, hn, hfails, hlast, heq⟩ := b.retryFrom_eq op b.maxRetries 0 0 s
  have hretry : b.retry op s = (⟨outcomeAt op s n, n + 1, ((List.range n).map b.delay).sum⟩,
      stateAfter op s (n + 1)) := by
    simpa [retry] using heq
  -- the first success is the last call, or it lies beyond the retries
  have hreach : ∀ m, FirstSuccess op s m → n = min m b.maxRetries := by
    rintro m ⟨hbefore, a, ha⟩
    have hle : n ≤ m := not_lt.1 (not_failsBefore ha hfails)
    rcases hn.eq_or_lt with rfl | hlt
    · exact (Nat.min_eq_right hle).symm
    · obtain ⟨a', ha'⟩ := hlast hlt
      have hge : m ≤ n := not_lt.1 (not_failsBefore ha' hbefore)
      obtain rfl := hle.antisymm hge
      exact (Nat.min_eq_left hn).symm
  have hend : FailsBefore op s b.maxRetries → n = b.maxRetries := by
    intro hall
    by_contra hne
    obtain ⟨a, ha⟩ := hlast (lt_of_le_of_ne hn hne)
    exact not_failsBefore ha hall (lt_of_le_of_ne hn hne)
  rw [hretry]
  refine ⟨fun m hm => ?_, fun hall => ?_, fun m hm hle => ?_, fun hall => ?_, rfl, rfl⟩
  · exact congrArg (· + 1) (hreach m hm)
  · exact congrArg (· + 1) (hend (hall _))
  · exact congrArg (outcomeAt op s) ((hreach m hm).trans (Nat.min_eq_left hle))
  · exact congrArg (outcomeAt op s) (hend fun k hk => hall k (Nat.lt_succ_of_lt hk))

end Calls

/-! ### Delays -/

section Delays
variable (b : Backoff Rat) (n : Nat)

theorem exactDelay_rat : b.exactDelay n =
    min (b.baseDelay * max b.multiplier 1 ^ min n 64 : Rat) b.maxDelay := by
  simp [exactDelay]

theorem exactDelay_mono : Monotone b.exactDelay := by
  intro n m hnm
  have hgrows : max b.multiplier 1 ^ min n 64 ≤ max b.multiplier 1 ^ min m 64 :=
    pow_le_pow_right₀ (le_max_right ..) (min_le_min_right 64 hnm)
  rw [exactDelay_rat, exactDelay_rat]
  exact min_le_min_right _ (mul_le_mul_of_nonneg_left hgrows b.baseDelay.cast_nonneg)

theorem exactDelay_le : b.exactDelay n ≤ b.maxDelay := by
  rw [exactDelay_rat]
  exact min_le_right ..

theorem le_exactDelay : ((min b.baseDelay b.maxDelay : Nat) : Rat) ≤ b.exactDelay n := by
  have hfactor : 1 ≤ max b.multiplier 1 ^ min n 64 := one_le_pow₀ (le_max_right ..)
  rw [exactDelay_rat, Nat.cast_min]
  exact min_le_min_right _ (le_mul_of_one_le_right b.baseDelay.cast_nonneg hfactor)

end Delays

/-- Whatever the outcomes of an operation are, it is called up to its first success or until the
retries are used up, and the delays of its failures are waited for. On rationals these grow from the
first delay up to the longest one. -/
theorem retry_bounded {σ ε τ : Type} :
    (∀ (α : Type) [Amount α] (b : Backoff α) (op : σ → Except ε τ × σ) (s : σ),
      b.Tries op s (b.retry op s)) ∧
    ∀ b : Backoff Rat, Monotone b.delay ∧
      ∀ n, b.delay n ≤ b.maxDelay ∧ min b.baseDelay b.maxDelay ≤ b.delay n := by
  refine ⟨fun α _ b op s => b.tries_retry op s, fun b => ⟨fun n m hnm => ?_, fun n => ⟨?_, ?_⟩⟩⟩
  · exact Nat.floor_mono (b.exactDelay_mono hnm)
  · exact Nat.floor_le_of_le (b.exactDelay_le n)
  · exact Nat.le_floor (b.le_exactDelay n)

example : (List.range 8).map (standard : Backoff Rat).delay =
    [100, 200, 400, 800, 1600, 3200, 5000, 5000] := by decide +kernel

end Candlewick.Backoff
