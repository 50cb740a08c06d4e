import Candlewick.Proofs.Rational
import Candlewick.Proofs.Table
import Mathlib.Tactic.Linarith
import Mathlib.Tactic.Ring

/-! # What settlement does to holdings

Reserving, releasing and executing change few fields of a wallet, and of a holding they change what
the lemmas here say. On rationals a reservation `r` moves `r.heldIn a` between what is free and what
is locked of an asset `a` (`free_reserve`, `lock_reserve`, `free_release`); an execution moves what
is free of the two sides of a pair (`free_execute_quote`, `free_execute_asset`) and never touches
what is locked (`lock_execute`). -/

namespace Candlewick

/-- Takes a quantity in or gives it away. -/
def Holding.trade {α : Type} [Amount α] (h : Holding α) (side : Side) (q : α) : Holding α :=
  match side with
  | .buy => h.credit q
  | .sell => h.debit q

theorem Holding.lock_credit {α : Type} [Amount α] (h : Holding α) (q : α) :
    (h.credit q).lock = h.lock := rfl

theorem Holding.lock_trade {α : Type} [Amount α] (h : Holding α) (side : Side) (q : α) :
    (h.trade side q).lock = h.lock := by
  cases side <;> rfl

/-- What a reservation holds back of an asset. -/
def Reservation.heldIn (r : Reservation Rat) (a : String) : Rat :=
  (if a = r.pair.asset then r.assetQuantity else 0) +
    (if a = r.pair.quote then r.quoteQuantity else 0)

theorem Reservation.heldIn_asset {r : Reservation Rat} (h : r.pair.asset ≠ r.pair.quote) :
    r.heldIn r.pair.asset = r.assetQuantity := by
  simp [heldIn, h]

theorem Reservation.heldIn_quote {r : Reservation Rat} (h : r.pair.asset ≠ r.pair.quote) :
    r.heldIn r.pair.quote = r.quoteQuantity := by
  simp [heldIn, h.symm]

namespace Wallet

section Frames
variable {α : Type} [Amount α] (w : Wallet α)

/-- At the start nothing is locked, and what is free of an asset is an amount of the configuration
or nothing. -/
theorem holding_start (c : WalletConfig α) (a : String) :
    ∃ x, (start c).holding a = ⟨x, Amount.zero⟩ ∧
      (x = Amount.zero ∨ ∃ k, c.assets.get? k = some x) := by
  unfold holding Table.getD
  cases h : (start c).holdings.get? a with
  | none => exact ⟨_, rfl, .inl rfl⟩
  | some x =>
    obtain ⟨e, he, heq⟩ := List.mem_map.1 (Table.mem_of_get?_ofList h)
    cases heq
    exact ⟨e.2, rfl, .inr ⟨e.1, Table.get?_of_mem_entries he⟩⟩

theorem holding_updateHolding (a b : String) (f : Holding α → Holding α) :
    (w.updateHolding a f).holding b = if b = a then f (w.holding a) else w.holding b :=
  Table.getD_update w.holdings a b .zero f

theorem release_frame (k : Int) :
    w.release k = { w with
      holdings := (w.release k).holdings
      reservations := (w.release k).reservations } := by
  unfold release
  split <;> rfl

@[simp] theorem release_orders (k : Int) : (w.release k).orders = w.orders := by
  rw [release_frame]

@[simp] theorem release_lastId (k : Int) : (w.release k).lastId = w.lastId := by
  rw [release_frame]

@[simp] theorem release_base (k : Int) : (w.release k).base = w.base := by
  rw [release_frame]

@[simp] theorem release_makerFee (k : Int) : (w.release k).makerFee = w.makerFee := by
  rw [release_frame]

@[simp] theorem release_takerFee (k : Int) : (w.release k).takerFee = w.takerFee := by
  rw [release_frame]

@[simp] theorem release_last (k : Int) : (w.release k).last = w.last := by
  rw [release_frame]

@[simp] theorem release_marketOf (k : Int) : (w.release k).marketOf = w.marketOf := by
  rw [release_frame]

@[simp] theorem release_shortAverage (k : Int) : (w.release k).shortAverage = w.shortAverage := by
  rw [release_frame]

theorem release_reservations (k : Int) :
    (w.release k).reservations =
      if w.reservations.contains k then w.reservations.erase k else w.reservations := by
  unfold release Table.contains
  cases w.reservations.get? k <;> rfl

theorem release_of_get?_none {w : Wallet α} {k : Int} (h : w.reservations.get? k = none) :
    w.release k = w := by
  unfold release
  rw [h]

variable (side : Side) (name : String) (pair : Pair) (free quantity price feeRate : α)

theorem updateAverages_frame :
    w.updateAverages side name free quantity price = { w with
      longAverage := (w.updateAverages side name free quantity price).longAverage
      shortAverage := (w.updateAverages side name free quantity price).shortAverage } := by
  unfold updateAverages averages
  cases side <;> cases Amount.same free Amount.zero <;> cases Amount.lt Amount.zero free <;>
    simp only [Bool.false_eq_true, ↓reduceIte] <;> split <;> rfl

section Executed
variable (side : Side) (name : String) (pair : Pair) (quantity price feeRate : α)

theorem execute_frame :
    w.execute side name pair quantity price feeRate = { w with
      holdings := (w.execute side name pair quantity price feeRate).holdings
      longAverage := (w.execute side name pair quantity price feeRate).longAverage
      shortAverage := (w.execute side name pair quantity price feeRate).shortAverage
      traded := (w.execute side name pair quantity price feeRate).traded } := by
  unfold execute
  dsimp only
  rw [updateAverages_frame]
  rfl

@[simp] theorem execute_orders :
    (w.execute side name pair quantity price feeRate).orders = w.orders := by
  rw [execute_frame]

@[simp] theorem execute_lastId :
    (w.execute side name pair quantity price feeRate).lastId = w.lastId := by
  rw [execute_frame]

@[simp] theorem execute_base :
    (w.execute side name pair quantity price feeRate).base = w.base := by
  rw [execute_frame]

@[simp] theorem execute_makerFee :
    (w.execute side name pair quantity price feeRate).makerFee = w.makerFee := by
  rw [execute_frame]

@[simp] theorem execute_takerFee :
    (w.execute side name pair quantity price feeRate).takerFee = w.takerFee := by
  rw [execute_frame]

@[simp] theorem execute_last :
    (w.execute side name pair quantity price feeRate).last = w.last := by
  rw [execute_frame]

@[simp] theorem execute_marketOf :
    (w.execute side name pair quantity price feeRate).marketOf = w.marketOf := by
  rw [execute_frame]

@[simp] theorem execute_reservations :
    (w.execute side name pair quantity price feeRate).reservations = w.reservations := by
  rw [execute_frame]

theorem holding_execute (a : String) :
    (w.execute side name pair quantity price feeRate).holding a =
      ((w.updateHolding pair.quote (·.credit (quoteChange side (w.holding pair.asset).free
        (w.shortAverage.getD name price) quantity price - quantity * price * feeRate))).updateHolding
        pair.asset (·.trade side quantity)).holding a := by
  unfold execute
  dsimp only
  rw [updateAverages_frame]
  rfl

end Executed
end Frames

/-! ### What is free and what is locked -/

section Rational
variable (w : Wallet Rat)

theorem free_start_nonneg {c : WalletConfig Rat}
    (hfunds : ∀ k x, c.assets.get? k = some x → 0 ≤ x) (a : String) :
    0 ≤ ((start c).holding a).free := by
  obtain ⟨x, hx, h⟩ := holding_start c a
  rw [hx]
  rcases h with rfl | ⟨k, h⟩
  · exact le_rfl
  · exact hfunds k x h

theorem free_updateHolding {f : Holding Rat → Holding Rat} {x : Rat}
    (hf : ∀ h, (f h).free = h.free + x) (a b : String) :
    ((w.updateHolding a f).holding b).free = (w.holding b).free + if b = a then x else 0 := by
  rw [holding_updateHolding]
  by_cases hb : b = a
  · rw [if_pos hb, if_pos hb, hf, hb]
  · rw [if_neg hb, if_neg hb, add_zero]

theorem lock_updateHolding {f : Holding Rat → Holding Rat} {x : Rat}
    (hf : ∀ h, (f h).lock = h.lock + x) (a b : String) :
    ((w.updateHolding a f).holding b).lock = (w.holding b).lock + if b = a then x else 0 := by
  rw [holding_updateHolding]
  by_cases hb : b = a
  · rw [if_pos hb, if_pos hb, hf, hb]
  · rw [if_neg hb, if_neg hb, add_zero]

theorem lock_updateHolding_of_eq {f : Holding Rat → Holding Rat} (hf : ∀ h, (f h).lock = h.lock)
    (a b : String) : ((w.updateHolding a f).holding b).lock = (w.holding b).lock := by
  rw [holding_updateHolding]
  by_cases hb : b = a
  · rw [if_pos hb, hf, hb]
  · rw [if_neg hb]

theorem free_reserve (k : Int) (r : Reservation Rat) (a : String) :
    ((w.reserve k r).holding a).free = (w.holding a).free - r.heldIn a := by
  have hf : ∀ (q : Rat) (h : Holding Rat), (h.reserve q).free = h.free + -q := fun q h => by
    simp only [Holding.reserve]; ring
  show ((updateHolding _ _ _).holding a).free = _
  rw [free_updateHolding _ (hf _), free_updateHolding _ (hf _)]
  unfold Reservation.heldIn
  split_ifs <;> ring

theorem lock_reserve (k : Int) (r : Reservation Rat) (a : String) :
    ((w.reserve k r).holding a).lock = (w.holding a).lock + r.heldIn a := by
  show ((updateHolding _ _ _).holding a).lock = _
  rw [lock_updateHolding _ (fun _ => rfl), lock_updateHolding _ (fun _ => rfl), add_assoc]
  rfl

theorem free_release {k : Int} {r : Reservation Rat} (h : w.reservations.get? k = some r)
    (a : String) : ((w.release k).holding a).free = (w.holding a).free + r.heldIn a := by
  unfold release
  rw [h]
  dsimp only
  rw [free_updateHolding _ (fun _ => rfl), free_updateHolding _ (fun _ => rfl), add_assoc]
  rfl

variable {w} {side : Side} {name : String} {pair : Pair} {quantity price feeRate : Rat}
  {r : Reservation Rat}

/-- A sale is covered if its value and fee are, by the holding at its price and the free quote. It
holds back what it sells of the holding, and the value of the rest. -/
theorem cover_sell_ok (h : w.cover .sell name pair quantity price feeRate = .ok r) :
    r = ⟨pair, min (max (w.holding pair.asset).free 0) quantity,
      (quantity - min (max (w.holding pair.asset).free 0) quantity) * price⟩ ∧
    quantity * price + quantity * price * feeRate ≤
      (w.holding pair.quote).free + max (w.holding pair.asset).free 0 * price := by
  simp only [cover, coverSale, Amount.max_rat, Amount.min_rat, Amount.zero_rat, Amount.lt_rat,
    decide_eq_true_eq] at h
  split at h
  · cases h
  · cases h
    exact ⟨rfl, not_lt.1 ‹_›⟩

/-- A purchase is covered if the value of what it opens and its fee are, by the free quote and what
closing a short sets free. It holds back what it opens beyond what is set free. -/
theorem cover_buy_ok (h : w.cover .buy name pair quantity price feeRate = .ok r) :
    let closed := min (max (-(w.holding pair.asset).free) 0) quantity
    let freed := closed * (2 * w.shortAverage.getD name price - price)
    r = ⟨pair, 0, max ((quantity - closed) * price - freed) 0⟩ ∧
    (quantity - closed) * price + quantity * price * feeRate ≤
      (w.holding pair.quote).free + freed := by
  simp only [cover, coverPurchase, Amount.max_rat, Amount.min_rat, Amount.zero_rat, Amount.two_rat,
    Amount.lt_rat, decide_eq_true_eq] at h
  split at h
  · cases h
  · cases h
    exact ⟨rfl, not_lt.1 ‹_›⟩

theorem cover_nonneg (hq : 0 < quantity) (hp : 0 < price)
    (h : w.cover side name pair quantity price feeRate = .ok r) :
    0 ≤ r.assetQuantity ∧ 0 ≤ r.quoteQuantity := by
  cases side with
  | sell =>
    obtain ⟨rfl, -⟩ := cover_sell_ok h
    exact ⟨le_min (le_max_right ..) hq.le,
      mul_nonneg (sub_nonneg.2 (min_le_right ..)) hp.le⟩
  | buy =>
    obtain ⟨rfl, -⟩ := cover_buy_ok h
    exact ⟨le_rfl, le_max_right ..⟩

theorem lock_execute (a : String) :
    ((w.execute side name pair quantity price feeRate).holding a).lock = (w.holding a).lock := by
  rw [holding_execute, lock_updateHolding_of_eq _ fun h => h.lock_trade _ _,
    lock_updateHolding_of_eq _ fun h => h.lock_credit _]

/-- A sale earns what it closes and costs what it opens. -/
theorem quoteChange_sell (free average : Rat) :
    quoteChange .sell free average quantity price =
      (2 * min (max free 0) quantity - quantity) * price := by
  simp only [quoteChange, Amount.max_rat, Amount.min_rat, Amount.zero_rat]
  ring

/-- A purchase costs its value, and closing a short gives back the price at which it was opened
twice: as what was received for it and as what was held back for it. -/
theorem quoteChange_buy (free average : Rat) :
    quoteChange .buy free average quantity price =
      2 * average * min (max (-free) 0) quantity - quantity * price := by
  simp only [quoteChange, Amount.max_rat, Amount.min_rat, Amount.zero_rat, Amount.two_rat]
  ring

theorem free_execute_quote (hne : pair.asset ≠ pair.quote) :
    ((w.execute side name pair quantity price feeRate).holding pair.quote).free =
      (w.holding pair.quote).free + (quoteChange side (w.holding pair.asset).free
        (w.shortAverage.getD name price) quantity price - quantity * price * feeRate) := by
  rw [holding_execute, holding_updateHolding, if_neg hne.symm, holding_updateHolding, if_pos rfl]
  rfl

theorem free_execute_asset (hne : pair.asset ≠ pair.quote) :
    ((w.execute side name pair quantity price feeRate).holding pair.asset).free =
      match side with
      | .buy => (w.holding pair.asset).free + quantity
      | .sell => (w.holding pair.asset).free - quantity := by
  rw [holding_execute, holding_updateHolding, if_pos rfl, holding_updateHolding, if_neg hne]
  cases side <;> rfl

end Rational
end Wallet
end Candlewick
