import Candlewick.Proofs.Wallet.OneMarket
import Mathlib.Tactic.FieldSimp

/-! # What a trade does to the value of an account

An execution settles against what is free of the asset, and a valuation looks at free and locked
together. `apartValue` keeps the two apart: an execution at the close never changes it
(`apartValue_execute`). The value of the account falls short of it where something of the asset is
locked and something is owed at the same time, by what was received for the part of the short that
the lock covers and by as much again, which was held back for it (`Wallet.netted`). So what a trade
at the market adds to the value is what it takes from `netted`, twice (`finalValue_market`). -/

namespace Candlewick.Wallet

/-! ### Averages of what is owed -/

section Averages
variable {w : Wallet Rat} {name : String} {pair : Pair} {quantity price feeRate : Rat}

theorem shortAverage_execute_buy :
    (w.execute .buy name pair quantity price feeRate).shortAverage = w.shortAverage := by
  show (w.updateAverages .buy name _ quantity price).shortAverage = _
  generalize (w.holding pair.asset).free = free
  rcases lt_trichotomy free 0 with h | rfl | h
  · by_cases hf : -free < quantity <;> simp [updateAverages, h.ne, not_lt.2 h.le, hf]
  · simp [updateAverages]
  · simp [updateAverages, h, h.ne']

/-- A sale blends its price into the average of what is owed already, and is the average of what is
owed from now on. -/
theorem shortAverage_execute_sell (hq : 0 < quantity) :
    (w.execute .sell name pair quantity price feeRate).shortAverage =
      let free := (w.holding pair.asset).free
      if free < 0 then
        w.shortAverage.set name (blend (w.shortAverage.getD name 0) (-free) price quantity)
      else if free < quantity then w.shortAverage.set name price
      else w.shortAverage := by
  show (w.updateAverages .sell name _ quantity price).shortAverage = _
  dsimp only
  generalize (w.holding pair.asset).free = free
  rcases lt_trichotomy free 0 with h | rfl | h
  · simp [updateAverages, averages, h, h.ne, not_lt.2 h.le]
  · simp [updateAverages, hq]
  · by_cases hf : free < quantity
    · simp [updateAverages, h, h.ne', hf, not_lt.2 h.le]
    · simp [updateAverages, h, h.ne', hf, not_lt.2 h.le]

end Averages

/-! ### Values -/

section Values
variable {w : Wallet Rat} {name : String} {pair : Pair} {quantity price : Rat}

theorem holdingValue_of_nonneg (w : Wallet Rat) (name : String) (hq : 0 ≤ quantity) (price : Rat) :
    w.holdingValue name quantity price = quantity * price := by
  simp [holdingValue, not_lt.2 hq]

/-- What is owed is worth what was received for it, and as much again that was held back for it,
less what it costs to buy it back. -/
theorem holdingValue_of_neg {average : Rat} (ha : w.shortAverage.get? name = some average)
    (hq : quantity < 0) (price : Rat) :
    w.holdingValue name quantity price = -quantity * (2 * average - price) := by
  simp only [holdingValue, Amount.abs, Table.getD, ha, Amount.zero_rat, Amount.two_rat,
    Amount.lt_rat, hq, decide_true, if_true, Option.getD_some]
  ring

/-- What is owed of the asset was sold at a known average. -/
def Averaged (name : String) (pair : Pair) (w : Wallet Rat) : Prop :=
  (w.holding pair.asset).free < 0 → ∃ a, w.shortAverage.get? name = some a

/-- The value of the two sides of a pair where what is locked of the asset is not set off against
what is owed of it. -/
def apartValue (w : Wallet Rat) (name : String) (pair : Pair) (close : Rat) : Rat :=
  (w.holding pair.quote).total + (w.holding pair.asset).lock * close +
    w.holdingValue name (w.holding pair.asset).free close

/-- What was received for the part of a short that is locked at the same time. -/
def netted (w : Wallet Rat) (name : String) (pair : Pair) : Rat :=
  w.shortAverage.getD name 0 *
    min (max (-(w.holding pair.asset).free) 0) (w.holding pair.asset).lock

/-- A sale gets for the asset what the asset loses in value. -/
theorem quoteChange_add_holdingValue_sell (price feeRate : Rat) (hq : 0 < quantity)
    (ha : Averaged name pair w) :
    let free := (w.holding pair.asset).free
    let w' := w.execute .sell name pair quantity price feeRate
    quoteChange .sell free (w.shortAverage.getD name price) quantity price +
        w'.holdingValue name (free - quantity) price =
      w.holdingValue name free price := by
  intro free w'
  have hset : w'.shortAverage = _ :=
    shortAverage_execute_sell hq
  dsimp only at hset
  rw [quoteChange_sell]
  -- a short that grows, whose average moves; a holding that turns into a short; a holding that lasts
  by_cases hneg : free < 0
  · obtain ⟨a, hget⟩ := ha hneg
    have hget' : w'.shortAverage.get? name =
        some ((a * -free + quantity * price) / (-free + quantity)) := by
      rw [hset, if_pos hneg, Table.get?_set, if_pos rfl, Table.getD, hget]
      rfl
    rw [holdingValue_of_neg hget' (by linarith), holdingValue_of_neg hget hneg,
      max_eq_right hneg.le, min_eq_left hq.le]
    have hsize : -free + quantity ≠ 0 := by linarith
    field_simp
    ring
  · rw [if_neg hneg] at hset
    have hnonneg : 0 ≤ free := not_lt.1 hneg
    rw [holdingValue_of_nonneg w name hnonneg, max_eq_left hnonneg]
    by_cases hlt : free < quantity
    · have hget' : w'.shortAverage.get? name = some price := by
        rw [hset, if_pos hlt, Table.get?_set, if_pos rfl]
      rw [holdingValue_of_neg hget' (by linarith), min_eq_left hlt.le]
      ring
    · rw [holdingValue_of_nonneg _ name (by linarith), min_eq_right (not_lt.1 hlt)]
      ring

theorem quoteChange_add_holdingValue_buy (price feeRate : Rat) (hq : 0 < quantity)
    (ha : Averaged name pair w) :
    let free := (w.holding pair.asset).free
    let w' := w.execute .buy name pair quantity price feeRate
    quoteChange .buy free (w.shortAverage.getD name price) quantity price +
        w'.holdingValue name (free + quantity) price =
      w.holdingValue name free price := by
  intro free w'
  have hsame : w'.holdingValue name = w.holdingValue name := by
    funext x p
    unfold holdingValue
    rw [shortAverage_execute_buy]
  rw [quoteChange_buy, hsame]
  -- a short that lasts; a short that turns into a holding; a holding that grows
  by_cases hneg : free < 0
  · obtain ⟨a, hget⟩ := ha hneg
    have havg : w.shortAverage.getD name price = a := by simp [Table.getD, hget]
    rw [holdingValue_of_neg hget hneg, havg, max_eq_left (by linarith)]
    by_cases hstill : free + quantity < 0
    · rw [holdingValue_of_neg hget hstill, min_eq_right (by linarith)]
      ring
    · rw [holdingValue_of_nonneg _ name (not_lt.1 hstill), min_eq_left (by linarith)]
      ring
  · have hnonneg : 0 ≤ free := not_lt.1 hneg
    rw [holdingValue_of_nonneg w name hnonneg, holdingValue_of_nonneg w name (by linarith),
      max_eq_right (by linarith), min_eq_left hq.le]
    ring

/-- An execution without a fee changes no value at its own price, as far as what is locked is kept
apart. -/
theorem apartValue_execute (side : Side) (hne : pair.asset ≠ pair.quote) (hq : 0 < quantity)
    (ha : Averaged name pair w) :
    (w.execute side name pair quantity price 0).apartValue name pair price =
      w.apartValue name pair price := by
  unfold apartValue Holding.total
  rw [lock_execute, lock_execute, free_execute_quote hne, free_execute_asset hne]
  cases side with
  | sell =>
    have hv := quoteChange_add_holdingValue_sell price 0 hq ha
    dsimp only at hv ⊢
    linarith
  | buy =>
    have hv := quoteChange_add_holdingValue_buy price 0 hq ha
    dsimp only at hv ⊢
    linarith

/-- What the two sides of a pair are worth when what is locked of the asset and what is owed of it
are set off against each other. -/
theorem total_add_holdingValue (hlock : 0 ≤ (w.holding pair.asset).lock)
    (ha : Averaged name pair w) :
    (w.holding pair.quote).total + w.holdingValue name (w.holding pair.asset).total price =
      w.apartValue name pair price - 2 * w.netted name pair := by
  unfold apartValue netted
  rw [show (w.holding pair.asset).total = _ + _ from rfl]
  set free := (w.holding pair.asset).free
  set lock := (w.holding pair.asset).lock
  -- what is locked covers a part of the short or all of it
  by_cases hneg : free < 0
  · obtain ⟨a, hget⟩ := ha hneg
    have havg : w.shortAverage.getD name 0 = a := by simp [Table.getD, hget]
    rw [holdingValue_of_neg hget hneg, havg, max_eq_left (by linarith)]
    by_cases hshort : free + lock < 0
    · rw [holdingValue_of_neg hget hshort, min_eq_right (by linarith)]
      ring
    · rw [holdingValue_of_nonneg _ name (not_lt.1 hshort), min_eq_left (by linarith)]
      ring
  · have hnonneg : 0 ≤ free := not_lt.1 hneg
    rw [holdingValue_of_nonneg _ name hnonneg, holdingValue_of_nonneg _ name (by linarith),
      max_eq_right (by linarith), min_eq_left hlock]
    ring

end Values

/-! ### Runs -/

section Averaged
variable {w : Wallet Rat} {name : String} {pair : Pair}

theorem averaged_log {id : Int} {os : List (Order Rat)} :
    Averaged name pair (w.log id os) ↔ Averaged name pair w :=
  Iff.rfl

theorem averaged_release (hlock : w.LockOk) (ha : Averaged name pair w) (k : Int) :
    Averaged name pair (w.release k) := by
  intro hneg
  rw [release_shortAverage]
  exact ha ((hlock.free_le_release k pair.asset).trans_lt hneg)

/-- What is held back of the asset is never owed. -/
theorem averaged_reserve {side : Side} {quantity price feeRate : Rat} {r : Reservation Rat}
    (hne : pair.asset ≠ pair.quote) (hc : w.cover side name pair quantity price feeRate = .ok r)
    (ha : Averaged name pair w) (k : Int) : Averaged name pair (w.reserve k r) := by
  intro hneg
  refine ha ?_
  rw [free_reserve] at hneg
  by_contra hnonneg
  have hfree := not_lt.1 hnonneg
  have hheld : r.heldIn pair.asset ≤ (w.holding pair.asset).free := by
    cases side with
    | sell =>
      obtain ⟨rfl, -⟩ := cover_sell_ok hc
      rw [Reservation.heldIn_asset hne, max_eq_left hfree]
      exact min_le_left ..
    | buy =>
      obtain ⟨rfl, -⟩ := cover_buy_ok hc
      rwa [Reservation.heldIn_asset hne]
  linarith

theorem averaged_execute (side : Side) {quantity : Rat} (price feeRate : Rat)
    (hne : pair.asset ≠ pair.quote) (hq : 0 < quantity) (ha : Averaged name pair w) :
    Averaged name pair (w.execute side name pair quantity price feeRate) := by
  intro hneg
  rw [free_execute_asset hne] at hneg
  cases side with
  | sell =>
    rw [shortAverage_execute_sell hq]
    dsimp only at hneg ⊢
    split_ifs with hfree hlt
    · exact ⟨_, by rw [Table.get?_set, if_pos rfl]⟩
    · exact ⟨_, by rw [Table.get?_set, if_pos rfl]⟩
    · linarith
  | buy =>
    rw [shortAverage_execute_buy]
    dsimp only at hneg
    exact ha (by linarith)

end Averaged

/-- What holds at every moment of a run on one pair against the base coin. -/
structure Valued (name : String) (pair : Pair) (w : Wallet Rat) : Prop where
  market : OneMarket name pair w
  base : pair.quote = w.base
  log : w.LogOk
  locks : w.LockOk
  sized : Sized w
  seen : ∀ k ∈ w.last.keys, k = name
  averaged : Averaged name pair w

theorem Step.valued {name : String} {pair : Pair} {e : Event Rat} {w w' : Wallet Rat}
    (he : e.On name) (h : Step e w w') (hw : Valued name pair w) : Valued name pair w' := by
  have hne := hw.market.apart
  have hlast : ∀ k ∈ w'.last.keys, k = name := by
    cases h with
    | trade => simpa [log] using hw.seen
    | rest => exact hw.seen
    | link => exact hw.seen
    | withdraw => simpa using hw.seen
    | note =>
      intro k hk
      rcases Table.mem_keys_set.1 hk with rfl | hk
      · exact he
      · exact hw.seen k hk
    | fill ho hr hn ht hs => simpa [fill_eq hs] using hw.seen
    | mark => exact hw.seen
  refine ⟨h.oneMarket hw.market, hw.base.trans h.terms.1.symm, h.logOk hw.log,
    h.lockOk hw.log hw.locks, h.sized hw.sized, hlast, ?_⟩
  cases h with
  | trade hq hs =>
    obtain rfl : _ = name := he
    obtain rfl := hw.market.pair_eq hs
    refine averaged_log.2 ?_
    exact averaged_execute _ _ _ hne (by simpa using hq) hw.averaged
  | rest hq hp hst hs hc =>
    obtain rfl : _ = name := he
    obtain rfl := hw.market.pair_eq hs
    exact averaged_log.2 (averaged_reserve hne hc hw.averaged (w.lastId + 1))
  | link hq hp hst hs hc =>
    obtain rfl : _ = name := he
    obtain rfl := hw.market.pair_eq hs
    exact averaged_log.2 (averaged_reserve hne hc hw.averaged (w.lastId + 1))
  | withdraw => exact averaged_release hw.locks hw.averaged _
  | note => exact hw.averaged
  | @fill _ c o price p ho hr hn ht hs =>
    obtain rfl : _ = name := hn.trans he
    obtain rfl := hw.market.pair_eq hs
    have ha := averaged_release hw.locks hw.averaged (owner o)
    unfold Averaged
    rw [holding_fill hs, shortAverage_fill hs]
    exact averaged_execute o.side price w.makerFee hne (hw.sized o ho) ha
  | mark => exact hw.averaged

theorem valued_start {c : WalletConfig Rat} {name : String} {pair : Pair}
    (hm : OneMarket name pair (start c)) (hbase : pair.quote = (start c).base)
    (hfunds : ∀ k x, c.assets.get? k = some x → 0 ≤ x) : Valued name pair (start c) where
  market := hm
  base := hbase
  log := logOk_start c
  locks := lockOk_start c
  sized := fun o ho => by cases ho
  seen := fun k hk => by cases hk
  averaged := fun hneg => absurd hneg (not_lt.2 (free_start_nonneg hfunds pair.asset))

theorem Valued.finalValue_eq {name : String} {pair : Pair} {w : Wallet Rat}
    (hw : Valued name pair w) {price : Rat} (hp : w.lastPrice? name = some price) :
    w.summary.finalValue = w.apartValue name pair price - 2 * w.netted name pair := by
  obtain ⟨m, hm, rfl⟩ := Option.map_eq_some_iff.1 hp
  rw [← total_add_holdingValue (hw.locks.lock_nonneg _) hw.averaged]
  simp [summary, sum, baseBalance, Table.sorted_eq_singleton hw.seen hm, heldAsset?,
    hw.market.split, hw.base, add_comm]

theorem netted_of_unlocked {name : String} {pair : Pair} {w : Wallet Rat}
    (h : (w.holding pair.asset).lock = 0) : w.netted name pair = 0 := by
  rw [netted, h, min_eq_right (le_max_right ..), mul_zero]

theorem netted_of_unowed {name : String} {pair : Pair} {w : Wallet Rat}
    (hlock : 0 ≤ (w.holding pair.asset).lock) (h : 0 ≤ (w.holding pair.asset).free) :
    w.netted name pair = 0 := by
  rw [netted, max_eq_right (neg_nonpos.2 h), min_eq_left hlock, mul_zero]

/-- An order at the market at the last close: what is netted afterwards is missing from the value,
twice, and what was netted before is back. -/
theorem Valued.trade {name : String} {pair : Pair} {w w' : Wallet Rat} (hw : Valued name pair w)
    {side : Side} {quantity : Rat} {os : List (Order Rat)}
    (h : w.place (.market side name quantity) = .ok (os, w')) :
    Valued name pair w' ∧ (w'.holding pair.asset).lock = (w.holding pair.asset).lock ∧
      w'.summary.finalValue =
        w.summary.finalValue - 2 * (w'.netted name pair - w.netted name pair) := by
  have hw' : Valued name pair w' :=
    Step.valued (e := .place (.market side name quantity)) rfl (step_of_place h).1 hw
  obtain ⟨p, price, r, hq, hs, hp, hc, hplaced, -⟩ := placeMarket_eq_ok h
  obtain rfl := hw.market.pair_eq hs
  rw [hw.market.takerFee] at hplaced
  dsimp only at hplaced
  have hlock : (w'.holding p.asset).lock = (w.holding p.asset).lock := by
    rw [hplaced, holding_log, lock_execute]
  have hp' : w'.lastPrice? name = some price := by
    rw [hplaced, ← hp]
    simp [lastPrice?, Wallet.log]
  have happart : w'.apartValue name p price = w.apartValue name p price := by
    rw [← apartValue_execute side hw.market.apart (by simpa using hq) hw.averaged, hplaced]
    rfl
  refine ⟨hw', hlock, ?_⟩
  rw [hw'.finalValue_eq hp', hw.finalValue_eq hp, happart]
  ring

/-- An order at the market adds to the value of the account what it takes from `netted`, twice: the
value stays the same exactly where `netted` does, as it does where nothing of the asset is locked
and where nothing of it is owed before or after. -/
theorem finalValue_market {c : WalletConfig Rat} {name : String} {pair : Pair}
    (hm : OneMarket name pair (start c)) (hbase : pair.quote = (start c).base)
    (hfunds : ∀ k x, c.assets.get? k = some x → 0 ≤ x) {es : List (Event Rat)}
    (hes : ∀ e ∈ es, e.On name) {side : Side} {quantity : Rat} {os : List (Order Rat)}
    {w' : Wallet Rat}
    (h : ((start c).run es).place (.market side name quantity) = .ok (os, w')) :
    let w := (start c).run es
    w'.summary.finalValue =
      w.summary.finalValue - 2 * (w'.netted name pair - w.netted name pair) ∧
    (w'.summary.finalValue = w.summary.finalValue ↔ w'.netted name pair = w.netted name pair) ∧
    ((w.holding pair.asset).lock = 0 ∨
      (0 ≤ (w.holding pair.asset).free ∧ 0 ≤ (w'.holding pair.asset).free) →
      w'.summary.finalValue = w.summary.finalValue) := by
  intro w
  have hw : Valued name pair w :=
    run_induction (fun _ h => h.log.ascending) (fun _ _ _ he hs h => hs.valued he h) hes
      (valued_start hm hbase hfunds)
  obtain ⟨hw', hlock, hdiff⟩ := hw.trade h
  have hiff : w'.summary.finalValue = w.summary.finalValue ↔
      w'.netted name pair = w.netted name pair := by
    rw [hdiff]
    constructor <;> intro heq <;> linarith
  refine ⟨hdiff, hiff, ?_⟩
  rintro (hzero | ⟨hfree, hfree'⟩)
  · exact hiff.2 ((netted_of_unlocked (hlock.trans hzero)).trans (netted_of_unlocked hzero).symm)
  · exact hiff.2 ((netted_of_unowed (hw'.locks.lock_nonneg _) hfree').trans
      (netted_of_unowed (hw.locks.lock_nonneg _) hfree).symm)

theorem finalValue_market_offered :
    (∀ e ∈ offered, e.On "BTCUSDT" ∧ e.Priced) ∧ ∃ os w',
      ((start oneCoin).run offered).place (.market .sell "BTCUSDT" 1) = .ok (os, w') ∧
      w'.summary.finalValue = ((start oneCoin).run offered).summary.finalValue -
        2 * (w'.netted "BTCUSDT" ⟨"BTC", "USDT"⟩ -
          ((start oneCoin).run offered).netted "BTCUSDT" ⟨"BTC", "USDT"⟩) ∧
      w'.netted "BTCUSDT" ⟨"BTC", "USDT"⟩ = 100 := by
  obtain ⟨⟨os, w'⟩, h, hn⟩ := exists_ok_of_any
    (x := ((start oneCoin).run offered).place (.market .sell "BTCUSDT" 1))
    (p := fun x => x.2.netted "BTCUSDT" ⟨"BTC", "USDT"⟩ = 100) (by decide +kernel)
  have hvalue := finalValue_market oneMarket_oneCoin (by decide +kernel) oneCoin_nonneg
    (fun e he => (offered_on_priced e he).1) h
  exact ⟨offered_on_priced, os, w', h, hvalue.1, hn⟩

/-- Where the only coin is on offer and one more is sold short, the account loses all it was worth,
at the price at which it was valued. -/
theorem finalValue_not_kept :
    OneMarket "BTCUSDT" ⟨"BTC", "USDT"⟩ (start oneCoin) ∧ "USDT" = (start oneCoin).base ∧
    (∀ k x, oneCoin.assets.get? k = some x → 0 ≤ x) ∧
    (∀ e ∈ offered, e.On "BTCUSDT" ∧ e.Priced) ∧
    ∃ x, ((start oneCoin).run offered).place (.market .sell "BTCUSDT" 1) = .ok x ∧
      ((start oneCoin).run offered).summary.finalValue = 200 ∧ x.2.summary.finalValue = 0 :=
  ⟨oneMarket_oneCoin, by decide +kernel, oneCoin_nonneg, offered_on_priced,
    exists_ok_of_any (by decide +kernel)⟩

end Candlewick.Wallet
