import Candlewick.Amount
import Candlewick.Time.Instant

/-! # Drawdowns

The worst decline of a series of values, found in one pass. The pass follows one excursion at a
time: the change since some value of the series. A rising excursion gives way to a new one that
starts at the value before; any other one goes on. The worst excursion is the one with the largest
decline, and the drawdown is that decline as a fraction of the value it started from. -/

namespace Candlewick

/-- A value at a time. -/
structure Mark (α : Type) where
  time : Instant
  value : α
deriving Repr, DecidableEq, Inhabited

/-- A decline as a fraction of the value that it started from, below zero where that is above. -/
structure Drawdown (α : Type) where
  value : α
  /-- When the decline started. -/
  start : Instant
  /-- When it reached its lowest. -/
  stop : Instant
deriving Repr, DecidableEq, Inhabited

/-- A stretch of a series with the change from its first value to its last. -/
structure Excursion (α : Type) where
  change : α
  /-- The first value. -/
  base : α
  start : Instant
  stop : Instant
deriving Repr, DecidableEq, Inhabited

namespace Excursion
variable {α : Type} [Amount α]

/-- The stretch from one value to the next. -/
def ofStep (a b : Mark α) : Excursion α := ⟨b.value - a.value, a.value, a.time, b.time⟩

/-- The stretch that a further step makes of the current one. -/
def advance (current : Option (Excursion α)) (a b : Mark α) : Excursion α :=
  match current with
  | none => ofStep a b
  | some e =>
    if Amount.lt Amount.zero e.change then ofStep a b
    else { e with change := e.change + (b.value - a.value), stop := b.time }

/-- The worse of the worst decline so far and another stretch. -/
def worse (worst : Option (Excursion α)) (e : Excursion α) : Option (Excursion α) :=
  if Amount.lt e.change Amount.zero && worst.all (Amount.lt e.change ·.change) then some e
  else worst

/-- The worst decline from the last value `a` on, given the current stretch and the worst so far. -/
def search (current worst : Option (Excursion α)) (a : Mark α) :
    List (Mark α) → Option (Excursion α)
  | [] => worst
  | b :: rest =>
    let e := advance current a b
    search (some e) (worse worst e) b rest

end Excursion

/-- The worst decline of a series, if its values ever decline and it does not start from zero. -/
def maxDrawdown {α : Type} [Amount α] : List (Mark α) → Option (Drawdown α)
  | [] => none
  | a :: rest =>
    match Excursion.search none none a rest with
    | none => none
    | some e =>
      if Amount.same e.base Amount.zero then none
      else some ⟨e.change / e.base, e.start, e.stop⟩

end Candlewick
