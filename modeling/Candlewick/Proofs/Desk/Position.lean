import Candlewick.Proofs.Desk.Book
import Candlewick.Proofs.Rational
import Candlewick.Proofs.Wallet.Log
import Mathlib.Tactic.Linarith
import Mathlib.Tactic.Ring

/-! # Positions as signed quantities

The position of a pair is counted above zero if it was bought and below if it was sold
(`Book.signed`). A fill of a positive quantity adds its own signed quantity to that, whether it
opens the position, adds to it, closes it in part or turns it round (`foldFill_signed`), so what is
open is what was bought less what was sold (`Book.Adds`). That stays so with every order that is
written down (`Book.Adds.record`) and every report by which an order becomes what it may become
(`Book.Adds.update`), since no such report undoes a fill or repeats it. -/

namespace Candlewick

/-- The quantity of an order, below zero for a sale. -/
def Order.signed (o : Order Rat) : Rat :=
  match o.side with
  | .buy => o.quantity
  | .sell => -o.quantity

/-- The quantity of a position, below zero for a short one; nothing where none is open. -/
def signedOf : Option (OpenPosition Rat) → Rat
  | none => 0
  | some p =>
    match p.side with
    | .buy => p.quantity
    | .sell => -p.quantity

/-- A position that is open is not empty. -/
def NotEmpty (p : Option (OpenPosition Rat)) : Prop := ∀ q, p = some q → 0 < q.quantity

theorem OpenPosition.close_eq (p : OpenPosition Rat) (o : Order Rat) :
    (p.close o).1 =
      if o.quantity < p.quantity then some { p with quantity := p.quantity - o.quantity }
      else if p.quantity < o.quantity then some ⟨o.side, o.quantity - p.quantity, o.price⟩
      else none := by
  simp only [close, Amount.min_rat, Amount.lt_rat, Amount.zero_rat, decide_eq_true_eq]
  rcases lt_trichotomy p.quantity o.quantity with hlt | heq | hlt
  · simp [min_eq_left hlt.le, hlt, hlt.not_gt]
  · simp [heq]
  · simp [min_eq_right hlt.le, hlt]

theorem close_signed {p : OpenPosition Rat} {o : Order Rat} (hside : p.side ≠ o.side) :
    signedOf (p.close o).1 = signedOf (some p) + o.signed ∧ NotEmpty (p.close o).1 := by
  have hopposite : p.side = .buy ∧ o.side = .sell ∨ p.side = .sell ∧ o.side = .buy := by
    rcases hp : p.side with - | - <;> rcases ho : o.side with - | - <;> simp_all
  simp only [OpenPosition.close, Amount.min_rat, Amount.lt_rat, Amount.ofNat_rat, Nat.cast_zero,
    decide_eq_true_eq, Order.signed, NotEmpty]
  rcases lt_trichotomy p.quantity o.quantity with hlt | heq | hlt
  · have hexcess : 0 < o.quantity - p.quantity := sub_pos.2 hlt
    rw [min_eq_left hlt.le]
    rcases hopposite with ⟨hp, ho⟩ | ⟨hp, ho⟩ <;>
      simp [signedOf, hp, ho, hexcess] <;> linarith
  · rw [heq]
    rcases hopposite with ⟨hp, ho⟩ | ⟨hp, ho⟩ <;> simp [signedOf, hp, ho, heq]
  · have hrest : 0 < p.quantity - o.quantity := sub_pos.2 hlt
    rw [min_eq_right hlt.le]
    rcases hopposite with ⟨hp, ho⟩ | ⟨hp, ho⟩ <;>
      simp [signedOf, hp, ho, hrest] <;> linarith

theorem foldFill_signed {p : Option (OpenPosition Rat)} {o : Order Rat} (hp : NotEmpty p)
    (ho : 0 < o.quantity) :
    signedOf (foldFill p o).1 = signedOf p + o.signed ∧ NotEmpty (foldFill p o).1 := by
  cases p with
  | none =>
    refine ⟨?_, fun q hq => ?_⟩
    · simp [foldFill, signedOf, OpenPosition.ofFill, Order.signed]
    · cases hq
      exact ho
  | some p =>
    have hpos := hp p rfl
    by_cases hside : p.side = o.side
    · refine ⟨?_, fun q hq => ?_⟩
      · simp only [foldFill, hside, if_true, signedOf, OpenPosition.grow, Order.signed]
        rcases o.side with - | - <;> dsimp only
        ring
      · simp only [foldFill, hside, if_true] at hq
        cases hq
        exact add_pos hpos ho
    · simpa [foldFill, hside] using close_signed hside

namespace Book
variable {b : Book Rat}

/-- What is open on a pair, below zero for a short position. -/
def signed (b : Book Rat) (pair : String) : Rat := signedOf (b.positions.get? pair)

theorem get?_setPosition (t : Table String (OpenPosition Rat)) (pair : String)
    (p : Option (OpenPosition Rat)) (k : String) :
    (setPosition t pair p).get? k = if k = pair then p else t.get? k := by
  cases p with
  | none => exact Table.get?_erase t pair k
  | some p => exact Table.get?_set t pair k p

theorem applyFill_signed {o : Order Rat} (hb : ∀ pair, NotEmpty (b.positions.get? pair))
    (ho : 0 < o.quantity) :
    (∀ pair, (b.applyFill o).signed pair = b.signed pair + if o.pair = pair then o.signed else 0) ∧
      ∀ pair, NotEmpty ((b.applyFill o).positions.get? pair) := by
  obtain ⟨hsigned, hopen⟩ := foldFill_signed (hb o.pair) ho
  have hget : ∀ pair, (b.applyFill o).positions.get? pair =
      if pair = o.pair then (foldFill (b.positions.get? o.pair) o).1 else b.positions.get? pair :=
    fun pair => get?_setPosition ..
  refine ⟨fun pair => ?_, fun pair => ?_⟩
  · rw [signed, hget]
    by_cases hpair : pair = o.pair
    · subst hpair
      simp [hsigned, signed]
    · simp [hpair, Ne.symm hpair, signed]
  · rw [hget]
    split
    · exact hopen
    · exact hb pair

end Book

/-! ### What the fills add up to -/

/-- What has been filled on one side of a pair. -/
def filledQuantity (side : Side) (pair : String) (os : List (Order Rat)) : Rat :=
  ((os.filter fun o => o.status = .filled && o.side = side && o.pair = pair).map (·.quantity)).sum

/-- What an order has added to the position of a pair so far. -/
def Order.added (pair : String) (o : Order Rat) : Rat :=
  if o.status = .filled ∧ o.pair = pair then o.signed else 0

theorem sum_added (pair : String) (os : List (Order Rat)) :
    (os.map (Order.added pair)).sum =
      filledQuantity .buy pair os - filledQuantity .sell pair os := by
  induction os with
  | nil => simp [filledQuantity]
  | cons o os ih =>
    rw [List.map_cons, List.sum_cons, ih]
    unfold filledQuantity
    by_cases ho : o.status = .filled ∧ o.pair = pair
    · rcases hside : o.side with - | - <;> simp [Order.added, Order.signed, ho, hside] <;> ring
    · have hno : ∀ side, (o.status = .filled && o.side = side && o.pair = pair) = false := by
        intro side
        by_contra h
        simp only [Bool.not_eq_false, Bool.and_eq_true, decide_eq_true_eq] at h
        exact ho ⟨h.1.1, h.2⟩
      simp [Order.added, ho, hno]

theorem Book.sum_replaceFirst {o p : Order Rat} {os : List (Order Rat)} (f : Order Rat → Rat)
    (h : os.find? (·.id = o.id) = some p) :
    ((replaceFirst o os).map f).sum = (os.map f).sum - f p + f o := by
  induction os with
  | nil => cases h
  | cons q os ih =>
    unfold replaceFirst
    by_cases hq : q.id = o.id
    · obtain rfl : q = p := by simpa [hq] using h
      rw [if_pos hq, List.map_cons, List.map_cons, List.sum_cons, List.sum_cons]
      ring
    · have hrest : os.find? (·.id = o.id) = some p := by simpa [hq] using h
      rw [if_neg hq, List.map_cons, List.map_cons, List.sum_cons, List.sum_cons, ih hrest]
      ring

namespace Book
variable {b : Book Rat}

/-- What is open is what the recorded orders have added, and what is open is not empty. -/
structure Adds (b : Book Rat) : Prop where
  signed : ∀ pair, b.signed pair = (b.orders.map (Order.added pair)).sum
  notEmpty : ∀ pair, NotEmpty (b.positions.get? pair)

theorem adds_empty : (empty : Book Rat).Adds :=
  ⟨fun _ => rfl, fun _ _ h => by cases h⟩

theorem applyIfFilled_signed {o : Order Rat} (hb : ∀ pair, NotEmpty (b.positions.get? pair))
    (ho : 0 < o.quantity) :
    (∀ pair, (b.applyIfFilled o).signed pair = b.signed pair + o.added pair) ∧
      ∀ pair, NotEmpty ((b.applyIfFilled o).positions.get? pair) := by
  unfold applyIfFilled
  by_cases hs : o.status = .filled
  · simpa [hs, Order.added] using applyFill_signed hb ho
  · simpa [hs, Order.added] using hb

theorem Adds.record {o : Order Rat} (hb : b.Adds) (ho : 0 < o.quantity) : (b.record o).Adds := by
  obtain ⟨hsigned, hopen⟩ := applyIfFilled_signed hb.notEmpty ho
  refine ⟨fun pair => ?_, hopen⟩
  have hrecord : (b.record o).signed pair = (b.applyIfFilled o).signed pair := rfl
  rw [hrecord, hsigned, hb.signed, record_orders]
  simp

theorem Adds.records {os : List (Order Rat)} (hb : b.Adds) (hos : ∀ o ∈ os, 0 < o.quantity) :
    (os.foldl Book.record b).Adds := by
  induction os generalizing b with
  | nil => exact hb
  | cons o os ih =>
    exact ih (hb.record (hos o (List.mem_cons_self ..)))
      fun p hp => hos p (List.mem_cons_of_mem _ hp)

theorem Adds.update {o : Order Rat} (hb : b.Adds) (ho : 0 < o.quantity)
    (hbecomes : ∀ p ∈ b.orders, p.id = o.id → p.Becomes o) : (b.update o).Adds := by
  rcases hf : b.orders.find? (·.id = o.id) with - | p
  · rwa [update_unknown hf]
  by_cases hs : p.status = o.status
  · rwa [update_same hf hs]
  have hp : p.Becomes o :=
    hbecomes p (List.mem_of_find?_eq_some hf) (by simpa using List.find?_some hf)
  -- the record was resting, so it had added nothing yet
  have hrested : p.status = .new := by
    by_contra hn
    exact hs (congrArg Order.status (hp.settled hn)).symm
  obtain ⟨hsigned, hopen⟩ := applyIfFilled_signed hb.notEmpty ho
  rw [update_other hf hs]
  refine ⟨fun pair => ?_, hopen⟩
  have hupdate : Book.signed { b.applyIfFilled o with orders := replaceFirst o b.orders } pair =
      (b.applyIfFilled o).signed pair := rfl
  have hnone : p.added pair = 0 := by simp [Order.added, hrested]
  rw [hupdate, hsigned, hb.signed, sum_replaceFirst _ hf, hnone, sub_zero]

end Book

end Candlewick
