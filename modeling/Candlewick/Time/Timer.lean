/-! # Periodic timers

A timer that ticks every so many milliseconds, the first time one period after it was set. -/

namespace Candlewick

/-- A timer and the time left until its next tick. -/
structure Timer where
  /-- At least one millisecond. -/
  period : Nat
  left : Nat
deriving Repr, DecidableEq, Inhabited

namespace Timer

/-- A timer just set. A period of nothing counts as one millisecond. -/
def set (period : Nat) : Timer := ⟨max period 1, max period 1⟩

/-- Lets time pass: the number of ticks, and the timer afterwards. -/
def advance (t : Timer) (ms : Nat) : Nat × Timer :=
  if ms < t.left then (0, { t with left := t.left - ms })
  else
    let late := ms - t.left
    (1 + late / t.period, { t with left := t.period - late % t.period })

example : (set 1000).advance 999 = (0, ⟨1000, 1⟩) := by decide
example : (set 0).advance 3 = (3, ⟨1, 1⟩) := by decide

end Timer

end Candlewick
