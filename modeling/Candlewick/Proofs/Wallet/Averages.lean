import Candlewick.Proofs.Wallet.Held
import Candlewick.Proofs.Wallet.OneMarket

/-! # The averages of a pair

What an execution does to the two averages of a pair depends on what is free of the asset alone
(`averages_buy`, `averages_sell`). A purchase of an asset that is not owed blends its price into the
average of what is free. What is locked for resting orders is held as well, but a purchase does not
see it: giving back what is held back for a purchase never unlocks any of the asset, so the same
holds where the purchase rested (`Buying`). The new average is that of all that is held exactly if
nothing is locked or the price is the average already (`longAverage_of_buys`). -/

namespace Candlewick.Wallet
variable {w w' : Wallet Rat} {name : String} {pair : Pair} {quantity price : Rat}

@[simp] theorem averages_setLong (w : Wallet Rat) (name : String) (a : Rat) :
    averages { w with longAverage := w.longAverage.set name a } name =
      (a, (w.averages name).2) := by
  simp [averages, Table.getD_set]

@[simp] theorem averages_setShort (w : Wallet Rat) (name : String) (a : Rat) :
    averages { w with shortAverage := w.shortAverage.set name a } name =
      ((w.averages name).1, a) := by
  simp [averages, Table.getD_set]

theorem averages_buy (w : Wallet Rat) (name : String) (free quantity price : Rat) :
    (w.updateAverages .buy name free quantity price).averages name =
      if free = 0 then (price, (w.averages name).2)
      else if 0 < free then (blend (w.averages name).1 free price quantity, (w.averages name).2)
      else if -free < quantity then (price, (w.averages name).2)
      else w.averages name := by
  by_cases hzero : free = 0
  · simp [updateAverages, hzero]
  by_cases hpos : 0 < free
  · simp [updateAverages, hzero, hpos]
  · by_cases hturn : -free < quantity <;> simp [updateAverages, hzero, hpos, hturn]

theorem averages_sell (w : Wallet Rat) (name : String) (free quantity price : Rat) :
    (w.updateAverages .sell name free quantity price).averages name =
      if free = 0 then ((w.averages name).1, price)
      else if 0 < free then
        if free < quantity then ((w.averages name).1, price) else w.averages name
      else ((w.averages name).1, blend (w.averages name).2 (-free) price quantity) := by
  by_cases hzero : free = 0
  · simp [updateAverages, hzero]
  by_cases hpos : 0 < free
  · by_cases hturn : free < quantity <;> simp [updateAverages, hzero, hpos, hturn]
  · simp [updateAverages, hzero, hpos]

/-! ### Blends -/

theorem blend_zero (a : Rat) (hq : 0 < quantity) : blend a 0 price quantity = price := by
  rw [blend, mul_zero, zero_add, zero_add, mul_div_cancel_left₀ _ hq.ne']

/-- A further holding counts only if the price moves the average at all. -/
theorem blend_eq_blend_add_iff {a free lock : Rat} (hfree : 0 ≤ free) (hlock : 0 ≤ lock)
    (hq : 0 < quantity) :
    blend a free price quantity = blend a (free + lock) price quantity ↔ lock = 0 ∨ price = a := by
  have hpart : free + quantity ≠ 0 := (add_pos_of_nonneg_of_pos hfree hq).ne'
  have hwhole : free + lock + quantity ≠ 0 :=
    (add_pos_of_nonneg_of_pos (add_nonneg hfree hlock) hq).ne'
  have hdiff : (a * free + quantity * price) * (free + lock + quantity) -
      (a * (free + lock) + quantity * price) * (free + quantity) =
      quantity * (lock * (price - a)) := by ring
  rw [blend, blend, div_eq_div_iff hpart hwhole, ← sub_eq_zero, hdiff, mul_eq_zero,
    or_iff_right hq.ne', mul_eq_zero, sub_eq_zero]

/-- A purchase blends its price into the average of what was free, which makes it the average of all
that is held exactly if nothing was locked or the price was the average already. -/
structure Blends (name : String) (pair : Pair) (w w' : Wallet Rat) (quantity price : Rat) :
    Prop where
  free : (w'.averages name).1 =
    blend (w.averages name).1 (w.holding pair.asset).free price quantity
  whole : (w'.averages name).1 =
      blend (w.averages name).1 (w.holding pair.asset).total price quantity ↔
    (w.holding pair.asset).lock = 0 ∨ price = (w.averages name).1

theorem blends_of_free (hfree : 0 ≤ (w.holding pair.asset).free)
    (hlock : 0 ≤ (w.holding pair.asset).lock) (hq : 0 < quantity)
    (h : (w'.averages name).1 =
      blend (w.averages name).1 (w.holding pair.asset).free price quantity) :
    Blends name pair w w' quantity price :=
  ⟨h, h ▸ blend_eq_blend_add_iff hfree hlock hq⟩

theorem longAverage_execute (hfree : 0 ≤ (w.holding pair.asset).free) (hq : 0 < quantity)
    (feeRate : Rat) :
    ((w.execute .buy name pair quantity price feeRate).averages name).1 =
      blend (w.averages name).1 (w.holding pair.asset).free price quantity := by
  have hexecute : (w.execute .buy name pair quantity price feeRate).averages name =
      (w.updateAverages .buy name (w.holding pair.asset).free quantity price).averages name := rfl
  rw [hexecute, averages_buy]
  rcases hfree.eq_or_lt with hzero | hpos
  · rw [← hzero, if_pos rfl, blend_zero _ hq]
  · rw [if_neg hpos.ne', if_pos hpos]

/-! ### Purchases in a run -/

/-- The purchases on a pair in a run: the wallet before and after, the quantity and the price. -/
inductive Buys (name : String) (w : Wallet Rat) (es : List (Event Rat)) :
    Wallet Rat → Wallet Rat → Rat → Rat → Prop where
  /-- What is accepted is bought at once. -/
  | market {fs gs : List (Event Rat)} {t : Ticket Rat} {os : List (Order Rat)} {v : Wallet Rat}
      {o : Order Rat} (h : es = fs ++ .place t :: gs) (hp : (w.run fs).place t = .ok (os, v))
      (ho : o ∈ os) (hdone : o.status = .filled) (hside : o.side = .buy) (hn : o.pair = name) :
      Buys name w es (w.run fs) v o.quantity o.price
  /-- A candle executes an order that rested. -/
  | resting {m : Wallet Rat} {o : Order Rat} {price : Rat} (h : w.Executes es m o price)
      (hside : o.side = .buy) (hn : o.pair = name) (time : Instant) :
      Buys name w es m (m.fill o price time) o.quantity price

/-- What holds at every moment of a run: none of the asset is held back for a purchase of it. -/
structure Buying (name : String) (pair : Pair) (w : Wallet Rat) : Prop where
  split : w.split? name = some pair
  log : w.LogOk
  locks : w.LockOk
  sized : Sized w
  bids : Held (fun r o => o.pair = name → o.side = .buy → r.heldIn pair.asset = 0) w

theorem Step.buying {e : Event Rat} (h : Step e w w') (hne : pair.asset ≠ pair.quote)
    (hw : Buying name pair w) : Buying name pair w' := by
  refine ⟨(split?_congr h.terms.1 name).trans hw.split, h.logOk hw.log, h.lockOk hw.log hw.locks,
    h.sized hw.sized, h.held hw.log ?_ hw.bids⟩
  rintro t p r o - hs ho ⟨-, top, -, hc, -⟩ rfl hside
  obtain rfl : p = pair := Option.some.inj ((ho ▸ hs).symm.trans hw.split)
  rw [hside] at hc
  obtain ⟨rfl, -⟩ := cover_buy_ok hc
  exact Reservation.heldIn_asset hne

theorem Buying.run (hne : pair.asset ≠ pair.quote) (hw : Buying name pair w)
    (es : List (Event Rat)) : Buying name pair (w.run es) :=
  run_induction (P := fun _ => True) (fun _ h => h.log.ascending)
    (fun _ _ _ _ hs h => hs.buying hne h) (fun _ _ => trivial) hw

theorem Buying.midway (hne : pair.asset ≠ pair.quote) (hw : Buying name pair w) (c : Candle Rat)
    (n : Nat) : Buying name pair (w.midway c n) :=
  midway_induction (P := fun _ => True) (fun _ h => h.log.ascending)
    (fun _ _ _ _ hs h => hs.buying hne h) trivial hw n

theorem buying_start {c : WalletConfig Rat} (hs : (start c).split? name = some pair) :
    Buying name pair (start c) where
  split := hs
  log := logOk_start c
  locks := lockOk_start c
  sized := fun o ho => by cases ho
  bids := fun o ho => by cases ho

/-- An order that is executed at once is executed on what is free. -/
theorem Buying.blends_place (hw : Buying name pair w) {t : Ticket Rat} {os : List (Order Rat)}
    {o : Order Rat} (h : w.place t = .ok (os, w')) (ho : o ∈ os) (hdone : o.status = .filled)
    (hside : o.side = .buy) (hn : o.pair = name) (hfree : 0 ≤ (w.holding pair.asset).free) :
    Blends name pair w w' o.quantity o.price := by
  obtain ⟨hstep, horders⟩ := step_of_place h
  dsimp only at horders hstep
  cases hstep with
  | @trade _ _ quantity price p r hq hs =>
    rw [Wallet.log, execute_orders] at horders
    obtain rfl := List.append_cancel_left horders
    obtain rfl := List.mem_singleton.1 ho
    have hq : 0 < quantity := by simpa using hq
    have hname : t.pair = name := hn
    have hbuy : t.side = .buy := hside
    obtain rfl : p = pair := Option.some.inj ((hname ▸ hs).symm.trans hw.split)
    have hlong : ((w.execute t.side t.pair p quantity price w.takerFee).averages name).1 =
        blend (w.averages name).1 (w.holding p.asset).free price quantity := by
      rw [hname, hbuy]
      exact longAverage_execute hfree hq _
    exact blends_of_free hfree (hw.locks.lock_nonneg _) hq hlong
  | rest =>
    obtain rfl := List.append_cancel_left horders
    rw [List.mem_singleton.1 ho] at hdone
    cases hdone
  | link =>
    obtain rfl := List.append_cancel_left horders
    rcases List.mem_pair.1 ho with rfl | rfl <;> cases hdone

/-- What is given back for an order that rested leaves what is free of the asset as it was. -/
theorem Buying.blends_fill (hw : Buying name pair w) {o : Order Rat} (ho : o ∈ w.orders)
    (hr : o.resting = true) (hside : o.side = .buy) (hn : o.pair = name)
    (hfree : 0 ≤ (w.holding pair.asset).free) (price : Rat) (time : Instant) :
    Blends name pair w (w.fill o price time) o.quantity price := by
  have hnew := Order.resting_iff.1 hr
  obtain ⟨r, hget⟩ := hw.locks.reserved ho hnew
  have hheld := hw.bids o ho hnew r hget hn hside
  have hback : ((w.release (owner o)).holding pair.asset).free = (w.holding pair.asset).free := by
    rw [free_release w hget, hheld, add_zero]
  have haverages : (w.release (owner o)).averages name = w.averages name := by
    rw [release_frame]
    rfl
  refine blends_of_free hfree (hw.locks.lock_nonneg _) (hw.sized o ho) ?_
  have hfill : (w.fill o price time).averages name = ((w.release (owner o)).execute o.side o.pair
      pair o.quantity price w.makerFee).averages name := by
    rw [fill_eq (hn ▸ hw.split)]
    rfl
  rw [hfill, hside, hn, longAverage_execute (hback ▸ hfree) (hw.sized o ho), hback, haverages]

/-- In whatever state a purchase finds a wallet that owes nothing of the asset, at the market or
rested, it makes the long average that of what was free and of what is bought. -/
theorem longAverage_of_buys {c : WalletConfig Rat} (hs : (start c).split? name = some pair)
    (hne : pair.asset ≠ pair.quote) (es : List (Event Rat)) :
    ∀ m v quantity price, (start c).Buys name es m v quantity price →
      0 ≤ (m.holding pair.asset).free → Blends name pair m v quantity price := by
  intro m v quantity price h hfree
  have hw := buying_start hs
  cases h with
  | market h hp ho hdone hside hn =>
    exact (hw.run hne _).blends_place hp ho hdone hside hn hfree
  | @resting _ o _ h hside hn time =>
    cases h with
    | @intro fs gs k n _ _ h ho ht hr =>
      obtain ⟨p, hp, hid, hpr⟩ := hr
      have hfs := hw.run hne fs
      have hm := hfs.midway hne k n
      obtain rfl := LogOk.eq_of_extends hm.log (hfs.log.midway k n).2
        (mem_touched.1 (List.mem_of_getElem? ho)).1 hp hid (Order.resting_iff.1 hpr)
      exact hm.blends_fill hp hpr hside hn hfree price time

/-- A hundred `USDT`, in which values are reckoned, without fees. -/
def noCoin : WalletConfig Rat := ⟨"USDT", .ofList [("USDT", 100)], 0, 0⟩

/-- A coin is bought at 10 and offered at 20, and the market falls to 5. -/
def boughtOffered : List (Event Rat) :=
  [.candle (bar 10 10), .place (.market .buy "BTCUSDT" 1), .place (.limit .sell "BTCUSDT" 1 20),
    .candle (bar 5 5)]

theorem split?_noCoin : (start noCoin).split? "BTCUSDT" = some ⟨"BTC", "USDT"⟩ := by
  decide +kernel

theorem averages_boughtOffered :
    ((start noCoin).run boughtOffered).averages "BTCUSDT" = (10, 0) ∧
      ((start noCoin).run boughtOffered).holding "BTC" = ⟨0, 1⟩ := by
  decide +kernel

theorem place_boughtOffered :
    ∃ os v, ((start noCoin).run boughtOffered).place (.market .buy "BTCUSDT" 1) = .ok (os, v) ∧
      (v.averages "BTCUSDT").1 = 5 ∧
      (start noCoin).Buys "BTCUSDT" (boughtOffered ++ [.place (.market .buy "BTCUSDT" 1)])
        ((start noCoin).run boughtOffered) v 1 5 := by
  obtain ⟨⟨os, v⟩, h, hlong, o, ho, hdone, hside, hn, hq, hp⟩ := exists_ok_of_any
    (x := ((start noCoin).run boughtOffered).place (.market .buy "BTCUSDT" 1))
    (p := fun x => (x.2.averages "BTCUSDT").1 = 5 ∧ ∃ o ∈ x.1, o.status = .filled ∧
      o.side = .buy ∧ o.pair = "BTCUSDT" ∧ o.quantity = 1 ∧ o.price = 5) (by decide +kernel)
  have hbuys : (start noCoin).Buys "BTCUSDT"
      (boughtOffered ++ [.place (.market .buy "BTCUSDT" 1)]) _ v o.quantity o.price :=
    .market rfl h ho hdone hside hn
  rw [hq, hp] at hbuys
  exact ⟨os, v, h, hlong, hbuys⟩

/-- Another coin is bought at 5, which makes that the average: the coin that is locked for the offer
does not count. -/
theorem longAverage_of_buys_offered :
    ∃ os v, ((start noCoin).run boughtOffered).place (.market .buy "BTCUSDT" 1) = .ok (os, v) ∧
      (v.averages "BTCUSDT").1 = blend 10 0 5 1 ∧
      (v.averages "BTCUSDT").1 ≠ blend 10 1 5 1 := by
  obtain ⟨os, v, h, -, hbuys⟩ := place_boughtOffered
  obtain ⟨havg, hheld⟩ := averages_boughtOffered
  obtain ⟨hfree, hwhole⟩ := longAverage_of_buys split?_noCoin (by decide) _ _ _ _ _ hbuys
    (by rw [hheld])
  dsimp only at hfree hwhole
  rw [havg, hheld] at hfree hwhole
  refine ⟨os, v, h, hfree, fun heq => ?_⟩
  rcases hwhole.1 (heq.trans (by decide +kernel)) with hlock | hprice
  · exact absurd hlock (by decide)
  · exact absurd hprice (by decide)

/-- Two coins bought at 10 and 5 have cost 7.5 on average, which is not the average. -/
theorem longAverage_not_whole :
    (start noCoin).split? "BTCUSDT" = some ⟨"BTC", "USDT"⟩ ∧ noCoin.assets.get? "BTC" = none ∧
    ¬ ∀ es m v quantity price, (∀ e ∈ es, e.On "BTCUSDT" ∧ e.Priced) →
      (start noCoin).Buys "BTCUSDT" es m v quantity price → 0 ≤ (m.holding "BTC").free →
      (v.averages "BTCUSDT").1 =
        blend (m.averages "BTCUSDT").1 (m.holding "BTC").total price quantity := by
  refine ⟨split?_noCoin, by decide +kernel, fun hall => ?_⟩
  obtain ⟨os, v, -, hlong, hbuys⟩ := place_boughtOffered
  obtain ⟨havg, hheld⟩ := averages_boughtOffered
  have hwhole := hall _ _ v 1 5 (by
    simp [boughtOffered, Event.On, Event.Priced, bar, Ticket.pair]) hbuys (by rw [hheld])
  rw [hlong, havg, hheld] at hwhole
  exact absurd hwhole (by decide +kernel)

end Candlewick.Wallet
