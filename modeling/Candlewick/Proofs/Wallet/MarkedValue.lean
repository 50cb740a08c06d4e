import Candlewick.Proofs.Wallet.TradeValue

/-! # Settlement at every mark

`valueAt` is what the free balances of a pair are worth where the asset is marked at any price. What
is owed counts as `2 * average - mark` for each unit, which is what closing the short at the mark
would give back. Between two marks the value moves by the free balance times their difference,
whatever the sign of the balance (`holdingValue_sub`), and at its own price an execution moves
nothing but the fee (`quoteChange_add_holdingValue_buy` and `_sell`). So an execution moves the
value at every mark by its quantity times what the mark is off its price, less the fee
(`valueAt_execute`), whether it opens, adds to, closes or turns a position. -/

namespace Candlewick.Wallet
variable {w : Wallet Rat} {name : String} {pair : Pair} {quantity : Rat}

/-- What is free of the two sides of a pair is worth, with the asset at a mark and what is owed of
it bought back there. -/
def valueAt (w : Wallet Rat) (name : String) (pair : Pair) (mark : Rat) : Rat :=
  let free := (w.holding pair.asset).free
  (w.holding pair.quote).free +
    if 0 ≤ free then free * mark else -free * (2 * (w.averages name).2 - mark)

theorem valueAt_eq (ha : Averaged name pair w) (mark : Rat) :
    w.valueAt name pair mark =
      (w.holding pair.quote).free + w.holdingValue name (w.holding pair.asset).free mark := by
  unfold valueAt
  dsimp only
  by_cases hneg : (w.holding pair.asset).free < 0
  · obtain ⟨a, hget⟩ := ha hneg
    have havg : (w.averages name).2 = a := by simp [averages, Table.getD, hget]
    rw [holdingValue_of_neg hget hneg, if_neg (not_le.2 hneg), havg]
  · rw [holdingValue_of_nonneg w name (not_lt.1 hneg), if_pos (not_lt.1 hneg)]

theorem holdingValue_sub (ha : quantity < 0 → ∃ a, w.shortAverage.get? name = some a)
    (mark price : Rat) :
    w.holdingValue name quantity mark - w.holdingValue name quantity price =
      quantity * (mark - price) := by
  by_cases hneg : quantity < 0
  · obtain ⟨a, hget⟩ := ha hneg
    rw [holdingValue_of_neg hget hneg, holdingValue_of_neg hget hneg]
    ring
  · have hfree := not_lt.1 hneg
    rw [holdingValue_of_nonneg w name hfree, holdingValue_of_nonneg w name hfree]
    ring

theorem valueAt_sub (ha : Averaged name pair w) (mark price : Rat) :
    w.valueAt name pair mark - w.valueAt name pair price =
      (w.holding pair.asset).free * (mark - price) := by
  rw [valueAt_eq ha, valueAt_eq ha, ← holdingValue_sub ha]
  ring

/-- At its own price an execution costs its fee. -/
theorem valueAt_execute_own (side : Side) (hne : pair.asset ≠ pair.quote) (hq : 0 < quantity)
    (ha : Averaged name pair w) (price feeRate : Rat) :
    (w.execute side name pair quantity price feeRate).valueAt name pair price =
      w.valueAt name pair price - quantity * price * feeRate := by
  rw [valueAt_eq (averaged_execute side price feeRate hne hq ha), valueAt_eq ha,
    free_execute_quote hne, free_execute_asset hne]
  cases side with
  | buy =>
    have hvalue := quoteChange_add_holdingValue_buy price feeRate hq ha
    dsimp only at hvalue ⊢
    linarith
  | sell =>
    have hvalue := quoteChange_add_holdingValue_sell price feeRate hq ha
    dsimp only at hvalue ⊢
    linarith

/-- Whatever position an execution meets, it moves the value at every mark by its quantity times
what the mark is above the price of a purchase, or below that of a sale, less the fee. -/
theorem valueAt_execute (hne : pair.asset ≠ pair.quote)
    (ha : 0 ≤ (w.holding pair.asset).free ∨ ∃ a, w.shortAverage.get? name = some a)
    (hq : 0 < quantity) (price feeRate mark : Rat) :
    (w.execute .buy name pair quantity price feeRate).valueAt name pair mark =
      w.valueAt name pair mark + (quantity * (mark - price) - quantity * price * feeRate) ∧
    (w.execute .sell name pair quantity price feeRate).valueAt name pair mark =
      w.valueAt name pair mark + (-quantity * (mark - price) - quantity * price * feeRate) := by
  have ha : Averaged name pair w := fun hneg => ha.resolve_left (not_le.2 hneg)
  have hbefore := valueAt_sub ha mark price
  constructor
  · have hown := valueAt_execute_own .buy hne hq ha price feeRate
    have hafter := valueAt_sub (averaged_execute .buy price feeRate hne hq ha) mark price
    rw [free_execute_asset hne] at hafter
    dsimp only at hafter
    linarith
  · have hown := valueAt_execute_own .sell hne hq ha price feeRate
    have hafter := valueAt_sub (averaged_execute .sell price feeRate hne hq ha) mark price
    rw [free_execute_asset hne] at hafter
    dsimp only at hafter
    linarith

/-- The coin that is on offer is sold a second time, which leaves one owed. -/
def owedOne : Wallet Rat := (start oneCoin).run (offered ++ [.place (.market .sell "BTCUSDT" 1)])

/-- At a mark of 120 the account loses 30 on each of two coins that it buys at 150, of which the
first one closes its short, and a fee of 75. -/
theorem valueAt_execute_owedOne :
    (owedOne.holding "BTC").free = -1 ∧ owedOne.shortAverage.get? "BTCUSDT" = some 100 ∧
    owedOne.valueAt "BTCUSDT" ⟨"BTC", "USDT"⟩ 120 = 80 ∧
    (owedOne.execute .buy "BTCUSDT" ⟨"BTC", "USDT"⟩ 2 150 (1 / 4)).valueAt
      "BTCUSDT" ⟨"BTC", "USDT"⟩ 120 = -55 := by
  have haverage : owedOne.shortAverage.get? "BTCUSDT" = some 100 := by decide +kernel
  have hvalue : owedOne.valueAt "BTCUSDT" ⟨"BTC", "USDT"⟩ 120 = 80 := by decide +kernel
  have hne : (⟨"BTC", "USDT"⟩ : Pair).asset ≠ (⟨"BTC", "USDT"⟩ : Pair).quote := by decide
  have hq : (0 : Rat) < 2 := by decide
  have hbuy := (valueAt_execute (w := owedOne) hne (.inr ⟨100, haverage⟩) hq 150 (1 / 4) 120).1
  refine ⟨by decide +kernel, haverage, hvalue, hbuy.trans ?_⟩
  rw [hvalue]
  norm_num

end Candlewick.Wallet
