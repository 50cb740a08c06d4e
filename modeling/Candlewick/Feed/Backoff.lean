import Candlewick.Amount
import Candlewick.Decimal.Text
import Candlewick.Json.Record

/-! # Retries

An operation that fails is tried again after a delay that grows from one failure to the next, up to
a limit, for a limited number of times. -/

namespace Candlewick

/-- How often to retry, and how long to wait before. -/
structure Backoff (α : Type) where
  /-- How many tries follow the first one. -/
  maxRetries : Nat
  /-- The delay after the first failure, in milliseconds. -/
  baseDelay : Nat
  /-- The longest delay, in milliseconds. -/
  maxDelay : Nat
  /-- The growth of the delay from one failure to the next. -/
  multiplier : α
deriving Repr, DecidableEq, Inhabited

/-- How a retried operation went. -/
structure Retried (ε τ : Type) where
  /-- The first success, or the last failure. -/
  outcome : Except ε τ
  calls : Nat
  /-- The time spent waiting, in milliseconds. -/
  waited : Nat

namespace Backoff

section Generic
variable {α : Type} [Amount α]

/-- Three retries after 100, 200 and 400 milliseconds. -/
def standard : Backoff α := ⟨3, 100, 5000, Amount.ofNat 2⟩

/-- The delay after a failure before it is cut to whole milliseconds. Delays do not shrink, and
they grow no more after the sixty-fourth failure. -/
def exactDelay (b : Backoff α) (failure : Nat) : α :=
  let factor := Amount.pow (Amount.max b.multiplier Amount.one) (min failure 64)
  Amount.min (Amount.ofNat b.baseDelay * factor) (Amount.ofNat b.maxDelay)

/-- The delay in milliseconds after a failure, the first one having number zero. -/
def delay (b : Backoff α) (failure : Nat) : Nat := Amount.floor (b.exactDelay failure)

/-- Tries an operation that may change a state, with `retries` tries left after the next one. -/
def retryFrom {σ ε τ : Type} (b : Backoff α) (op : σ → Except ε τ × σ) :
    (retries failures waited : Nat) → σ → Retried ε τ × σ
  | retries, failures, waited, s =>
    match op s, retries with
    | (.ok a, s), _ => (⟨.ok a, failures + 1, waited⟩, s)
    | (.error e, s), 0 => (⟨.error e, failures + 1, waited⟩, s)
    | (.error _, s), retries + 1 =>
      retryFrom b op retries (failures + 1) (waited + b.delay failures) s

/-- Tries an operation until it succeeds or the retries are used up. -/
def retry {σ ε τ : Type} (b : Backoff α) (op : σ → Except ε τ × σ) (s : σ) :
    Retried ε τ × σ :=
  retryFrom b op b.maxRetries 0 0 s

end Generic

/-- Reads the JSON form. Every field may be left out. -/
def read? (v : Json) : Option (Backoff Float) := do
  match ← Json.slots? ["max_retries", "base_delay_ms", "max_delay_ms", "backoff_multiplier"] v with
  | [retries, base, longest, multiplier] =>
    let d : Backoff Float := standard
    return {
      maxRetries := ← retries.default d.maxRetries Json.nat32?
      baseDelay := ← base.default d.baseDelay Json.nat64?
      maxDelay := ← longest.default d.maxDelay Json.nat64?
      multiplier := ← multiplier.default d.multiplier Json.float? }
  | _ => none

/-- A policy in a diagnostic text. -/
def describe (b : Backoff Float) : String :=
  "RetryConfig \x7b max_retries: " ++ toString b.maxRetries ++
    ", base_delay_ms: " ++ toString b.baseDelay ++ ", max_delay_ms: " ++ toString b.maxDelay ++
    ", backoff_multiplier: " ++ Decimal.debug b.multiplier ++ " \x7d"

end Backoff

end Candlewick
