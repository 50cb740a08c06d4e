import Candlewick.Proofs.Wallet.Held
import Candlewick.Proofs.Wallet.OneMarket

/-! # What admission covers

An order is admitted where the account can pay for it and for its fee at one price, which is the
highest that it may execute at. What an execution needs beyond the free quote is a multiple of its
price, so a lower price needs less or frees quote (`quote_nonneg_of_cover`): for a sale the multiple
is the quantity with its fee less what is held, for a purchase the quantity with its fee less twice
what it closes, as far as the average of the short is not known.

So an order that is accepted leaves the free quote at nothing or above, and if it rests and is the
next to execute, so does its execution, whichever price of which of two linked orders it is at
(`place_covers_fill`). -/

namespace Candlewick.Wallet
variable {w w' v : Wallet Rat} {side : Side} {name : String} {pair : Pair}
  {quantity top price feeRate : Rat} {r : Reservation Rat} {o : Order Rat}

theorem mul_le_of_le_top (need : Rat) {funds : Rat} (hfunds : 0 ≤ funds) (htop : need * top ≤ funds)
    (hp : 0 ≤ price) (hle : price ≤ top) : need * price ≤ funds := by
  rcases le_total need 0 with hneed | hneed
  · exact (mul_nonpos_of_nonpos_of_nonneg hneed hp).trans hfunds
  · exact (mul_le_mul_of_nonneg_left hle hneed).trans htop

/-- What covers an order at one price pays for its execution there and at any lower price. -/
theorem quote_nonneg_of_cover (hq : 0 < quantity) (hp : 0 < price) (hle : price ≤ top)
    (hfee : 0 ≤ feeRate ∧ feeRate ≤ 1)
    (hc : w.cover side name pair quantity top feeRate = .ok r)
    (hfree : 0 ≤ (w.holding pair.quote).free) :
    0 ≤ (w.holding pair.quote).free + (quoteChange side (w.holding pair.asset).free
      (w.shortAverage.getD name price) quantity price - quantity * price * feeRate) := by
  have hvalue : 0 ≤ quantity * price := (mul_pos hq hp).le
  cases side with
  | sell =>
    obtain ⟨-, hcover⟩ := cover_sell_ok hc
    rw [quoteChange_sell]
    set held := max (w.holding pair.asset).free 0
    have hheld : 0 ≤ held * price := mul_nonneg (le_max_right ..) hp.le
    rcases le_total held quantity with hsold | hsold
    · have hneed := mul_le_of_le_top (quantity * (1 + feeRate) - held) hfree (by linarith) hp.le
        hle
      rw [min_eq_left hsold]
      linarith
    · have hearned := mul_le_mul_of_nonneg_left hfee.2 hvalue
      rw [min_eq_right hsold]
      linarith
  | buy =>
    obtain ⟨-, hcover⟩ := cover_buy_ok hc
    rw [quoteChange_buy]
    set closed := min (max (-(w.holding pair.asset).free) 0) quantity
    cases haverage : w.shortAverage.get? name with
    | some a =>
      have hknown : ∀ d, w.shortAverage.getD name d = a := fun d => by simp [Table.getD, haverage]
      rw [hknown] at hcover ⊢
      have hmore := mul_le_mul_of_nonneg_left hle hq.le
      have hfees := mul_le_mul_of_nonneg_right hmore hfee.1
      linarith
    | none =>
      -- the short then counts as sold at the price that it is bought back at
      have hunknown : ∀ d, w.shortAverage.getD name d = d := fun d => by
        simp [Table.getD, haverage]
      rw [hunknown] at hcover ⊢
      have hneed := mul_le_of_le_top (quantity * (1 + feeRate) - 2 * closed) hfree (by linarith)
        hp.le hle
      linarith

theorem free_quote_execute (hne : pair.asset ≠ pair.quote) (hq : 0 < quantity) (hp : 0 < price)
    (hfee : 0 ≤ feeRate ∧ feeRate ≤ 1)
    (hc : w.cover side name pair quantity price feeRate = .ok r)
    (hfree : 0 ≤ (w.holding pair.quote).free) :
    0 ≤ ((w.execute side name pair quantity price feeRate).holding pair.quote).free := by
  rw [free_execute_quote hne]
  exact quote_nonneg_of_cover hq hp le_rfl hfee hc hfree

theorem free_quote_reserve (hne : pair.asset ≠ pair.quote) (hq : 0 < quantity) (hp : 0 < price)
    (hfee : 0 ≤ feeRate) (hc : w.cover side name pair quantity price feeRate = .ok r)
    (hfree : 0 ≤ (w.holding pair.quote).free) (k : Int) :
    0 ≤ ((w.reserve k r).holding pair.quote).free := by
  have hcost : 0 ≤ quantity * price * feeRate := mul_nonneg (mul_pos hq hp).le hfee
  rw [free_reserve, sub_nonneg]
  cases side with
  | sell =>
    obtain ⟨rfl, hle⟩ := cover_sell_ok hc
    rw [Reservation.heldIn_quote hne]
    rcases le_total (max (w.holding pair.asset).free 0) quantity with hsold | hsold
    · rw [min_eq_left hsold]
      linarith
    · rw [min_eq_right hsold]
      linarith
  | buy =>
    obtain ⟨rfl, hle⟩ := cover_buy_ok hc
    rw [Reservation.heldIn_quote hne]
    exact max_le (by linarith) hfree

/-- All that tells what an execution leaves of the quote is in `v` as it is in `w`. -/
structure SameFunds (w v : Wallet Rat) : Prop where
  base : v.base = w.base
  makerFee : v.makerFee = w.makerFee
  holding : ∀ a, v.holding a = w.holding a
  shortAverage : v.shortAverage = w.shortAverage
  reservations : v.reservations = w.reservations

/-- An execution gives back what was held back for the order, so it settles on what was free when
the order was admitted. -/
theorem free_quote_fill (hne : pair.asset ≠ pair.quote) (hs : w.split? o.pair = some pair)
    (hfee : 0 ≤ w.makerFee ∧ w.makerFee ≤ 1) (hfree : 0 ≤ (w.holding pair.quote).free)
    (hadmits : w.Admits pair r o) {id : Int} {os : List (Order Rat)}
    (hv : SameFunds ((w.reserve (owner o) r).log id os) v) {c : Candle Rat}
    (ht : trigger? o c = some price) (time : Instant) :
    0 ≤ ((v.fill o price time).holding pair.quote).free := by
  obtain ⟨hq, top, -, hc, htop⟩ := hadmits
  obtain ⟨hp, hle⟩ := htop c price ht
  have hsplit : v.split? o.pair = some pair := (split?_congr hv.base o.pair).trans hs
  have hheld : v.reservations.get? (owner o) = some r := by
    rw [hv.reservations]
    exact (Table.get?_set ..).trans (if_pos rfl)
  have hback : ∀ a, ((v.release (owner o)).holding a).free = (w.holding a).free := by
    intro a
    rw [free_release v hheld, hv.holding, holding_log, free_reserve]
    ring
  have haverage : v.shortAverage = w.shortAverage := hv.shortAverage
  have hrate : v.makerFee = w.makerFee := hv.makerFee
  rw [holding_fill hsplit, free_execute_quote hne, hback, hback, release_shortAverage, haverage,
    hrate]
  exact quote_nonneg_of_cover hq hp hle hfee hc hfree

theorem Step.free_quote_placed {t : Ticket Rat} (h : Step (.place t) w w')
    (hs : w.split? t.pair = some pair) (hne : pair.asset ≠ pair.quote) (hmaker : 0 ≤ w.makerFee)
    (htaker : 0 ≤ w.takerFee ∧ w.takerFee ≤ 1)
    (hlast : ∀ p, w.lastPrice? t.pair = some p → 0 < p)
    (hfree : 0 ≤ (w.holding pair.quote).free) : 0 ≤ (w'.holding pair.quote).free := by
  rcases h.placed hs with ⟨quantity, price, r, hq, hp, hc, rfl⟩ | ⟨r, id, os, hany, rfl, hadmits⟩
  · rw [holding_log]
    exact free_quote_execute hne hq (hlast _ hp) htaker hc hfree
  · obtain ⟨o, ho⟩ := List.exists_mem_of_ne_nil os hany
    obtain ⟨-, -, -, hq, top, htop, hc, -⟩ := hadmits o ho
    exact free_quote_reserve hne hq htop hmaker hc hfree (w.lastId + 1)

/-- Whatever is accepted leaves no debt, and neither does its execution if it rests and is the next
one, at any price that a candle executes it at. -/
theorem place_covers_fill {t : Ticket Rat} {os : List (Order Rat)}
    (hs : w.split? t.pair = some pair) (hne : pair.asset ≠ pair.quote)
    (hmaker : 0 ≤ w.makerFee ∧ w.makerFee ≤ 1) (htaker : 0 ≤ w.takerFee ∧ w.takerFee ≤ 1)
    (hlast : ∀ p, w.lastPrice? t.pair = some p → 0 < p)
    (hfree : 0 ≤ (w.holding pair.quote).free) (h : w.place t = .ok (os, w')) :
    0 ≤ (w'.holding pair.quote).free ∧
    ∀ v, SameFunds w' v → ∀ o ∈ os, ∀ c price, trigger? o c = some price →
      0 ≤ ((v.fill o price c.time).holding pair.quote).free := by
  obtain ⟨hstep, horders⟩ := step_of_place h
  refine ⟨hstep.free_quote_placed hs hne hmaker.1 htaker hlast hfree, ?_⟩
  intro v hv o ho c price ht
  dsimp only at horders hstep
  rcases hstep.placed hs with ⟨_, _, _, -, -, -, rfl⟩ | ⟨r, id, os', -, rfl, hadmits⟩
  · -- an order that has traded is never triggered again
    rw [log, execute_orders] at horders
    obtain rfl := List.append_cancel_left horders
    obtain rfl := List.mem_singleton.1 ho
    simp [trigger?, newOrder, OrderKind.limitLike, OrderKind.stopLike] at ht
  · obtain rfl := List.append_cancel_left (show w.orders ++ os' = w.orders ++ os from horders)
    obtain ⟨-, howner, hpair, hadm⟩ := hadmits o ho
    rw [← howner] at hv
    exact free_quote_fill hne (hpair ▸ hs) hmaker hfree hadm hv ht c.time

/-- A hundred `USDT` in which values are reckoned, and a tenth of every trade as its fee. -/
def feePaying : WalletConfig Rat := ⟨"USDT", .ofList [("USDT", 100)], 1 / 10, 1 / 10⟩

/-- Nine tenths of a coin are asked for at 90 or, once the market rises to it, at 100. That leaves
10 of the quote free, and the execution at the stop, which costs 90 and a fee of 9, leaves 1. -/
theorem place_covers_fill_stopLeg :
    ∃ os w', (start feePaying).place (.oco .buy "BTCUSDT" (9 / 10) 90 100 101) = .ok (os, w') ∧
      0 ≤ (w'.holding "USDT").free ∧ ∃ o ∈ os, trigger? o (bar 95 100) = some 100 ∧
        0 ≤ (((w'.note (bar 95 100)).fill o 100 (bar 95 100).time).holding "USDT").free := by
  have hs : (start feePaying).split? "BTCUSDT" = some ⟨"BTC", "USDT"⟩ := by decide +kernel
  have hmaker : 0 ≤ (start feePaying).makerFee ∧ (start feePaying).makerFee ≤ 1 := by
    decide +kernel
  have htaker : 0 ≤ (start feePaying).takerFee ∧ (start feePaying).takerFee ≤ 1 := by
    decide +kernel
  have hlast : ∀ p, (start feePaying).lastPrice? "BTCUSDT" = some p → 0 < p :=
    fun p hp => by cases hp
  have hfree : 0 ≤ ((start feePaying).holding "USDT").free := by decide +kernel
  obtain ⟨⟨os, w'⟩, h, o, ho, ht⟩ := exists_ok_of_any
    (x := (start feePaying).place (.oco .buy "BTCUSDT" (9 / 10) 90 100 101))
    (p := fun x => ∃ o ∈ x.1, trigger? o (bar 95 100) = some 100) (by decide +kernel)
  obtain ⟨hafter, hfill⟩ := place_covers_fill (t := .oco .buy "BTCUSDT" (9 / 10) 90 100 101) hs
    (by decide) hmaker htaker hlast hfree h
  refine ⟨os, w', h, hafter, o, ho, ht, ?_⟩
  exact hfill (w'.note (bar 95 100)) ⟨rfl, rfl, fun _ => rfl, rfl, rfl⟩ o ho (bar 95 100) 100 ht

end Candlewick.Wallet
