import Candlewick.Proofs.Wallet.Admission

/-! # Orders that execute at once

A limit order that the next candle executes at its limit does what an order at the market does after
that candle, where both pay the same fee. Both are admitted by the same test (`admission`), and the
execution of the first gives back what was held back for it before it settles, so both settle on the
same balances and averages (`SameBooks`). What else rests on the pair would be executed by the
candle too, between the one and the other, so nothing else may. -/

namespace Candlewick.Wallet
variable {w v u : Wallet Rat} {side : Side} {name : String} {pair : Pair}
  {quantity price feeRate : Rat} {k : Candle Rat}

/-! ### What settlement depends on -/

/-- Two wallets have the same balances, averages and volumes. -/
structure SameBooks (w v : Wallet Rat) : Prop where
  holding : ∀ a, v.holding a = w.holding a
  longAverage : v.longAverage = w.longAverage
  shortAverage : v.shortAverage = w.shortAverage
  traded : v.traded = w.traded

namespace SameBooks

theorem refl (w : Wallet Rat) : SameBooks w w := ⟨fun _ => rfl, rfl, rfl, rfl⟩

theorem symm (h : SameBooks w v) : SameBooks v w :=
  ⟨fun a => (h.holding a).symm, h.longAverage.symm, h.shortAverage.symm, h.traded.symm⟩

theorem trans (h : SameBooks w v) (h' : SameBooks v u) : SameBooks w u :=
  ⟨fun a => (h'.holding a).trans (h.holding a), h'.longAverage.trans h.longAverage,
    h'.shortAverage.trans h.shortAverage, h'.traded.trans h.traded⟩

theorem note (w : Wallet Rat) (k : Candle Rat) : SameBooks w (w.note k) :=
  ⟨fun _ => rfl, rfl, rfl, rfl⟩

theorem markToMarket (w : Wallet Rat) (time : Instant) : SameBooks w (w.markToMarket time) :=
  ⟨fun _ => rfl, rfl, rfl, rfl⟩

theorem log (w : Wallet Rat) (id : Int) (os : List (Order Rat)) : SameBooks w (w.log id os) :=
  ⟨fun _ => rfl, rfl, rfl, rfl⟩

theorem orders (w : Wallet Rat) (os : List (Order Rat)) :
    SameBooks w { w with orders := os } :=
  ⟨fun _ => rfl, rfl, rfl, rfl⟩

theorem updateAverages (h : SameBooks w v) (free : Rat) :
    (v.updateAverages side name free quantity price).longAverage =
        (w.updateAverages side name free quantity price).longAverage ∧
      (v.updateAverages side name free quantity price).shortAverage =
        (w.updateAverages side name free quantity price).shortAverage := by
  unfold Wallet.updateAverages averages
  rw [h.longAverage, h.shortAverage]
  dsimp only
  split
  · cases side <;> exact ⟨rfl, rfl⟩
  · split
    · exact ⟨rfl, rfl⟩
    · exact ⟨rfl, rfl⟩
    · split
      · exact ⟨rfl, rfl⟩
      · exact ⟨h.longAverage, h.shortAverage⟩
    · split
      · exact ⟨rfl, rfl⟩
      · exact ⟨h.longAverage, h.shortAverage⟩

theorem execute (h : SameBooks w v) : SameBooks
    (w.execute side name pair quantity price feeRate)
    (v.execute side name pair quantity price feeRate) := by
  have hlong : ∀ w : Wallet Rat, (w.execute side name pair quantity price feeRate).longAverage =
      (w.updateAverages side name (w.holding pair.asset).free quantity price).longAverage :=
    fun _ => rfl
  have hshort : ∀ w : Wallet Rat, (w.execute side name pair quantity price feeRate).shortAverage =
      (w.updateAverages side name (w.holding pair.asset).free quantity price).shortAverage :=
    fun _ => rfl
  have htraded : ∀ w : Wallet Rat, (w.execute side name pair quantity price feeRate).traded =
      w.traded.update name Amount.zero (· + quantity * price) := fun w => by
    unfold Wallet.execute
    dsimp only
    rw [updateAverages_frame]
    rfl
  refine ⟨fun a => ?_, ?_, ?_, ?_⟩
  · simp only [holding_execute, holding_updateHolding, h.holding, h.shortAverage]
  · rw [hlong, hlong, h.holding, (h.updateAverages _).1]
  · rw [hshort, hshort, h.holding, (h.updateAverages _).2]
  · rw [htraded, htraded, h.traded]

end SameBooks

/-! ### Admission -/

/-- Whether an order is admitted at a price, on which pair, and what covers it. -/
def admission (w : Wallet Rat) (side : Side) (name : String) (quantity price feeRate : Rat) :
    Except (BrokerError Rat) (Pair × Reservation Rat) := do
  checkQuantity name quantity
  let pair ← w.split name
  let r ← w.cover side name pair quantity price feeRate
  return (pair, r)

theorem admission_eq_ok {x : Pair × Reservation Rat}
    (h : w.admission side name quantity price feeRate = .ok x) :
    isPositive quantity = true ∧ w.split? name = some x.1 ∧
      w.cover side name x.1 quantity price feeRate = .ok x.2 := by
  obtain ⟨_, hq, h⟩ := bind_eq_ok h
  obtain ⟨pair, hs, h⟩ := bind_eq_ok h
  obtain ⟨r, hc, h⟩ := bind_eq_ok h
  cases h
  exact ⟨checkQuantity_eq_ok hq, split_eq_ok hs, hc⟩

/-- A limit order at a positive price is admitted at that price and the fee of makers. -/
theorem placeLimit_eq (hp : 0 < price) : w.placeLimit side name quantity price =
    (w.admission side name quantity price w.makerFee).map fun x =>
      ([w.newOrder (w.lastId + 1) side name .limit quantity price],
        (w.reserve (w.lastId + 1) x.2).log (w.lastId + 1)
          [w.newOrder (w.lastId + 1) side name .limit quantity price]) := by
  have hprice : checkPrice name price = .ok () := if_pos (by simpa using hp)
  unfold placeLimit placeResting admission
  rw [hprice]
  cases checkQuantity name quantity with
  | error _ => rfl
  | ok _ =>
    cases w.split name with
    | error _ => rfl
    | ok pair =>
      show (w.cover side name pair quantity price w.makerFee >>= _) =
        (w.cover side name pair quantity price w.makerFee >>= _).map _
      cases w.cover side name pair quantity price w.makerFee <;> rfl

/-- An order at the market is admitted at the last close and the fee of takers. -/
theorem placeMarket_eq (hlast : w.lastPrice? name = some price) :
    w.placeMarket side name quantity =
      (w.admission side name quantity price w.takerFee).map fun x =>
        ([{ w.newOrder (w.lastId + 1) side name .market quantity price with status := .filled }],
          (w.execute side name x.1 quantity price w.takerFee).log (w.lastId + 1)
            [{ w.newOrder (w.lastId + 1) side name .market quantity price with
              status := .filled }]) := by
  unfold placeMarket admission
  rw [priceNow_of_lastPrice? hlast]
  cases checkQuantity name quantity with
  | error _ => rfl
  | ok _ =>
    cases w.split name with
    | error _ => rfl
    | ok pair =>
      show (w.cover side name pair quantity price w.takerFee >>= _) =
        (w.cover side name pair quantity price w.takerFee >>= _).map _
      cases w.cover side name pair quantity price w.takerFee <;> rfl

theorem SameBooks.admission (h : SameBooks w v) (hbase : v.base = w.base) :
    v.admission side name quantity price feeRate =
      w.admission side name quantity price feeRate := by
  have hsplit : v.split name = w.split name := by
    unfold split
    rw [split?_congr hbase]
  unfold Wallet.admission cover
  simp only [hsplit, h.holding, h.shortAverage]

/-! ### The candle -/

theorem touched_of_idle (hidle : ∀ o ∈ w.orders, o.pair = k.pair → o.status ≠ .new) :
    w.touched k = [] :=
  List.filter_eq_nil_iff.2 fun o ho h => by
    obtain ⟨hpair, hr⟩ := Bool.and_eq_true_iff.1 h
    exact hidle o ho (by simpa using hpair) (Order.resting_iff.1 hr)

theorem SameBooks.observe (w : Wallet Rat) (k : Candle Rat) :
    SameBooks (w.midway k (w.touched k).length) (w.observe k) := by
  rw [observe_eq]
  dsimp only
  split
  · exact .markToMarket ..
  · exact .refl _

theorem observe_eq_of_idle (hidle : ∀ o ∈ w.orders, o.pair = k.pair → o.status ≠ .new) :
    w.observe k = if k.complete then (w.note k).markToMarket k.time else w.note k := by
  have hmid : w.midway k (w.touched k).length = w.note k := by
    rw [touched_of_idle hidle]
    rfl
  rw [observe_eq]
  dsimp only
  rw [hmid]

theorem orders_observe_of_idle (hidle : ∀ o ∈ w.orders, o.pair = k.pair → o.status ≠ .new) :
    (w.observe k).orders = w.orders := by
  rw [observe_eq_of_idle hidle]
  split <;> rfl

/-- A candle that has nothing to execute is noted and leaves the books as they are. -/
theorem observe_of_idle (hidle : ∀ o ∈ w.orders, o.pair = k.pair → o.status ≠ .new) :
    SameBooks w (w.observe k) ∧ (w.observe k).lastPrice? k.pair = some k.close ∧
      (w.observe k).base = w.base ∧ (w.observe k).takerFee = w.takerFee := by
  have hnoted : (w.note k).lastPrice? k.pair = some k.close := by
    show ((w.last.set k.pair ⟨k.time, k.close⟩).get? k.pair).map _ = _
    rw [Table.get?_set, if_pos rfl]
    rfl
  rw [observe_eq_of_idle hidle]
  split
  · exact ⟨(SameBooks.note w k).trans (.markToMarket ..), hnoted, rfl, rfl⟩
  · exact ⟨.note w k, hnoted, rfl, rfl⟩

/-- A candle that goes through one order, which it triggers, executes that order. -/
theorem midway_of_single {o : Order Rat} (htouched : w.touched k = [o])
    (ht : trigger? o k = some price) :
    w.midway k (w.touched k).length = (w.note k).fill o price k.time := by
  have hmem : o ∈ w.touched k := htouched ▸ List.mem_singleton_self o
  obtain ⟨ho, -, hr⟩ := mem_touched.1 hmem
  rw [htouched]
  show w.midway k (0 + 1) = _
  rw [midway_succ w k (by rw [htouched]; rfl)]
  exact tryFill_of_resting ht ⟨o, ho, rfl, hr⟩

/-- What is given back of a reservation is what was held back. -/
theorem SameBooks.release {j : Int} {r : Reservation Rat} (hv : v.LockOk)
    (hheld : v.reservations.get? j = some r) (h : SameBooks (w.reserve j r) v) :
    SameBooks w (v.release j) where
  holding := fun a => by
    have hfree : ((v.release j).holding a).free = (w.holding a).free := by
      rw [free_release v hheld, h.holding, free_reserve]
      ring
    have hlock : ((v.release j).holding a).lock = (w.holding a).lock := by
      rw [hv.lock_release hheld, h.holding, lock_reserve]
      ring
    exact congrArg₂ Holding.mk hfree hlock
  longAverage := by
    rw [release_frame]
    exact h.longAverage
  shortAverage := by
    rw [release_frame]
    exact h.shortAverage
  traded := by
    rw [release_frame]
    exact h.traded

/-- A limit order that is admitted at the close of the next candle settles there. -/
theorem sameBooks_limit (hlog : w.LogOk) (hlock : w.LockOk)
    (hidle : ∀ o ∈ w.orders, o.pair = k.pair → o.status ≠ .new) (hprice : 0 < k.close)
    (hhigh : k.close ≤ k.high) {x : Pair × Reservation Rat}
    (hx : w.admission side k.pair quantity k.close w.makerFee = .ok x) :
    SameBooks (w.execute side k.pair x.1 quantity k.close w.makerFee)
      (((w.reserve (w.lastId + 1) x.2).log (w.lastId + 1)
        [w.newOrder (w.lastId + 1) side k.pair .limit quantity k.close]).observe k) := by
  obtain ⟨hq, hs, hc⟩ := admission_eq_ok hx
  set o := w.newOrder (w.lastId + 1) side k.pair .limit quantity k.close with ho
  set u := (w.reserve (w.lastId + 1) x.2).log (w.lastId + 1) [o] with hu
  have hstep : Step (.place (.limit side k.pair quantity k.close)) w u :=
    .rest hq (by simpa using hprice) (show (none : Option Rat).getD k.close = k.close from rfl) hs
      hc
  have htouched : u.touched k = [o] := by
    show (w.orders ++ [o]).filter _ = _
    rw [List.filter_append, show w.orders.filter _ = [] from touched_of_idle hidle]
    simp [ho, newOrder, Order.resting]
  have htrigger : trigger? o k = some k.close := by
    cases side <;> simp [ho, trigger?, newOrder, OrderKind.limitLike, hhigh]
  have hlocked : (u.note k).LockOk :=
    Step.lockOk .note (hstep.logOk hlog) (hstep.lockOk hlog hlock)
  have hback : SameBooks w ((u.note k).release (w.lastId + 1)) :=
    .release hlocked ((Table.get?_set ..).trans (if_pos rfl)) ⟨fun _ => rfl, rfl, rfl, rfl⟩
  have hsettled : SameBooks (w.execute side k.pair x.1 quantity k.close w.makerFee)
      (((u.note k).release (w.lastId + 1)).execute side k.pair x.1 quantity k.close w.makerFee) :=
    hback.execute
  refine SameBooks.trans ?_ (.observe u k)
  rw [midway_of_single htouched htrigger,
    fill_eq (show (u.note k).split? o.pair = some x.1 from hs)]
  exact hsettled.trans (.orders ..)

/-- Where nothing rests on a pair and both fees are the same, a limit order at the close of the next
candle is admitted or refused as an order at the market is after that candle, and leaves the same
balances, averages and volumes. -/
theorem limit_at_once (c : WalletConfig Rat) (es : List (Event Rat)) (side : Side) (quantity : Rat)
    (k : Candle Rat) (hfee : ((start c).run es).makerFee = ((start c).run es).takerFee)
    (hidle : ∀ o ∈ ((start c).run es).orders, o.pair = k.pair → o.status ≠ .new)
    (hprice : 0 < k.close) (hhigh : k.close ≤ k.high) :
    let w := (start c).run es
    (w.place (.limit side k.pair quantity k.close)).map (fun _ => ()) =
        ((w.observe k).place (.market side k.pair quantity)).map (fun _ => ()) ∧
      SameBooks ((w.after (.place (.limit side k.pair quantity k.close))).observe k)
        ((w.observe k).after (.place (.market side k.pair quantity))) := by
  intro w
  obtain ⟨hlog, hlock⟩ : w.LogOk ∧ w.LockOk := lockOk_of_run c es
  obtain ⟨hbooks, hlast, hbase, htaker⟩ := observe_of_idle (w := w) hidle
  have hlimit : w.place (.limit side k.pair quantity k.close) = _ := placeLimit_eq hprice
  have hmarket : (w.observe k).place (.market side k.pair quantity) = _ := placeMarket_eq hlast
  rw [htaker, hbooks.admission hbase, ← hfee] at hmarket
  simp only [after, Broker.place, hlimit, hmarket]
  cases hx : w.admission side k.pair quantity k.close w.makerFee with
  | error _ => exact ⟨rfl, .refl _⟩
  | ok x =>
    refine ⟨rfl, ?_⟩
    exact (sameBooks_limit hlog hlock hidle hprice hhigh hx).symm.trans
      (hbooks.execute.trans (.log ..))

/-- A coin is bought at 10, and something is bid for on another pair. -/
def boughtOne : List (Event Rat) :=
  [.candle (bar 10 10), .place (.market .buy "BTCUSDT" 1), .place (.limit .buy "ETHUSDT" 1 5)]

/-- Three coins of which one is held are sold at 20, so two are owed. -/
theorem limit_at_once_turnedShort :
    let w := (start feePaying).run boughtOne
    (∃ x, w.place (.limit .sell "BTCUSDT" 3 20) = .ok x) ∧
      ((((w.observe (bar 20 24)).after (.place (.market .sell "BTCUSDT" 3))).holding "BTC").free =
        -2) ∧
      SameBooks ((w.after (.place (.limit .sell "BTCUSDT" 3 20))).observe (bar 20 24))
        ((w.observe (bar 20 24)).after (.place (.market .sell "BTCUSDT" 3))) := by
  obtain ⟨x, hx, -⟩ := exists_ok_of_any
    (x := ((start feePaying).run boughtOne).place (.limit .sell "BTCUSDT" 3 20))
    (p := fun _ => True) (by decide +kernel)
  exact ⟨⟨x, hx⟩, by decide +kernel, (limit_at_once feePaying boughtOne .sell 3 (bar 20 24)
    (by decide +kernel) (by decide +kernel) (by decide +kernel) (by decide +kernel)).2⟩

end Candlewick.Wallet
