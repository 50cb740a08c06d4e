import Candlewick.Proofs.Strategy.AverageCross
import Candlewick.Proofs.Wallet.AtOnce

/-! # Round trips

Somebody buys for all the quote, sells all that was bought, buys again, and so on, always at the
market (`Wallet.RoundTrips`). Nothing rests then and nothing is locked, so a candle changes neither
orders nor balances, and what is held of the asset is what was bought last and not sold yet. Trading
on the cross of two averages keeps to that (`Wallet.RoundTrips.trade`). A purchase for all the quote
has nothing left for a fee, so it is accepted exactly if there is none
(`Wallet.RoundTrips.trade_of_rises`). -/

namespace Candlewick

/-! ### Purchases and sales by turns -/

namespace Order
variable {os : List (Order Rat)} {o : Order Rat}

/-- The first order buys, the next one sells what was bought, the one after that buys, and so on. -/
structure TakeTurns (os : List (Order Rat)) : Prop where
  side : ∀ i, ∀ (hi : i < os.length), os[i].side = if i % 2 = 0 then .buy else .sell
  quantity : ∀ i, ∀ (hi : i + 1 < os.length), i % 2 = 0 → os[i + 1].quantity = os[i].quantity

/-- What was bought and not sold yet if orders take turns: the quantity of the last one, if it is a
purchase. -/
def unsold (os : List (Order Rat)) : Rat :=
  if os.length % 2 = 0 then 0 else (os.getLast?.map (·.quantity)).getD 0

theorem takeTurns_nil : TakeTurns [] := ⟨nofun, nofun⟩

theorem unsold_concat :
    unsold (os ++ [o]) = if os.length % 2 = 0 then o.quantity else 0 := by
  rcases Nat.mod_two_eq_zero_or_one os.length with h | h
  · simp [unsold, Nat.add_mod, h]
  · simp [unsold, Nat.add_mod, h]

theorem unsold_pos (hos : ∀ p ∈ os, 0 < p.quantity) (hodd : os.length % 2 = 1) :
    0 < unsold os := by
  have hne : os ≠ [] := by
    rintro rfl
    cases hodd
  have hlast : unsold os = (os.getLast hne).quantity := by
    simp [unsold, hodd, List.getLast?_eq_some_getLast hne]
  rw [hlast]
  exact hos _ (List.getLast_mem hne)

theorem unsold_eq_zero (heven : os.length % 2 = 0) : unsold os = 0 := if_pos heven

theorem unsold_nonneg (hos : ∀ p ∈ os, 0 < p.quantity) : 0 ≤ unsold os := by
  rcases Nat.mod_two_eq_zero_or_one os.length with h | h
  · exact (unsold_eq_zero h).ge
  · exact (unsold_pos hos h).le

theorem TakeTurns.concat (h : TakeTurns os)
    (hside : o.side = if os.length % 2 = 0 then .buy else .sell)
    (hquantity : os.length % 2 = 1 → o.quantity = unsold os) : TakeTurns (os ++ [o]) := by
  refine ⟨fun i hi => ?_, fun i hi heven => ?_⟩
  · rcases Nat.lt_or_ge i os.length with hlt | hge
    · rw [List.getElem_append_left hlt]
      exact h.side i hlt
    · obtain rfl : i = os.length := by
        rw [List.length_append, List.length_singleton] at hi
        omega
      rw [List.getElem_concat_length rfl]
      exact hside
  · rw [List.length_append, List.length_singleton] at hi
    have hbefore : i < os.length := by omega
    rw [List.getElem_append_left hbefore]
    rcases Nat.lt_or_ge (i + 1) os.length with hlt | hge
    · rw [List.getElem_append_left hlt]
      exact h.quantity i hlt heven
    · have hlast : os.length = i + 1 := by omega
      have hodd : os.length % 2 = 1 := by omega
      rw [List.getElem_concat_length hlast.symm, hquantity hodd, unsold, if_neg (by omega),
        List.getLast?_eq_getElem?]
      simp [hlast]

end Order

open Candlewick.Order (TakeTurns unsold)

namespace Wallet
variable {w v : Wallet Rat} {side : Side} {name : String} {pair : Pair} {quantity price x : Rat}

/-! ### Executions at the market -/

/-- The order that is written down when one executes at the market. -/
def dealt (w : Wallet Rat) (side : Side) (name : String) (quantity price : Rat) : Order Rat :=
  { w.newOrder (w.lastId + 1) side name .market quantity price with status := .filled }

/-- A wallet after an execution at the market. -/
def deal (w : Wallet Rat) (side : Side) (name : String) (pair : Pair) (quantity price : Rat) :
    Wallet Rat :=
  (w.execute side name pair quantity price w.takerFee).log (w.lastId + 1)
    [w.dealt side name quantity price]

theorem orders_deal : (w.deal side name pair quantity price).orders =
    w.orders ++ [w.dealt side name quantity price] :=
  congrArg (· ++ [_]) (execute_orders ..)

theorem after_market (hs : w.split? name = some pair) (hlast : w.lastPrice? name = some price)
    (hq : 0 < quantity) : w.after (.place (.market side name quantity)) =
      match w.cover side name pair quantity price w.takerFee with
      | .ok _ => w.deal side name pair quantity price
      | .error _ => w := by
  have hquantity : checkQuantity name quantity = .ok () := if_pos (by simpa using hq)
  have hadmission : w.admission side name quantity price w.takerFee =
      (w.cover side name pair quantity price w.takerFee).map (pair, ·) := by
    unfold admission
    rw [hquantity, split_of_split? hs]
    rfl
  simp only [after, Broker.place, place, placeMarket_eq hlast, hadmission]
  cases w.cover side name pair quantity price w.takerFee <;> rfl

theorem after_marketQuote (hlast : w.lastPrice? name = some price) (hx : 0 < x) :
    w.after (.place (.marketQuote side name x)) =
      w.after (.place (.market side name (x / price))) := by
  have hamount : checkQuantity name x = .ok () := if_pos (by simpa using hx)
  simp only [after, Broker.place, place, placeMarketQuote, hamount, priceNow_of_lastPrice? hlast]
  rfl

theorem after_marketQuote_zero : w.after (.place (.marketQuote side name 0)) = w := by
  have hamount : checkQuantity name (0 : Rat) = .error (.invalidQuantity name 0) :=
    if_neg (by simp)
  simp only [after, Broker.place, place, placeMarketQuote, hamount]
  rfl

/-- Where nothing is held or owed of the asset, a purchase is executed if the quote pays for it and
its fee. -/
theorem after_buy (hs : w.split? name = some pair) (hlast : w.lastPrice? name = some price)
    (hq : 0 < quantity) (hflat : (w.holding pair.asset).free = 0) :
    w.after (.place (.market .buy name quantity)) =
      if quantity * price + quantity * price * w.takerFee ≤ (w.holding pair.quote).free then
        w.deal .buy name pair quantity price
      else w := by
  rw [after_market hs hlast hq]
  simp only [cover, coverPurchase, hflat, Amount.max_rat, Amount.min_rat, Amount.zero_rat,
    Amount.lt_rat, neg_zero, max_self, min_eq_left hq.le, sub_zero, zero_mul, add_zero,
    decide_eq_true_eq]
  split
  next heq =>
    split at heq
    · cases heq
    next hnot => rw [if_pos (not_lt.1 hnot)]
  next heq =>
    split at heq
    next hlt => rw [if_neg (not_le.2 hlt)]
    · cases heq

/-- A sale of all that is held is executed if the quote pays for its fee. -/
theorem after_sell (hs : w.split? name = some pair) (hlast : w.lastPrice? name = some price)
    (hq : 0 < quantity) (hheld : (w.holding pair.asset).free = quantity) :
    w.after (.place (.market .sell name quantity)) =
      if quantity * price * w.takerFee ≤ (w.holding pair.quote).free then
        w.deal .sell name pair quantity price
      else w := by
  rw [after_market hs hlast hq]
  simp only [cover, coverSale, hheld, Amount.max_rat, Amount.min_rat, Amount.zero_rat,
    Amount.lt_rat, max_eq_left hq.le, min_self, decide_eq_true_eq]
  split
  next heq =>
    split at heq
    · cases heq
    next hnot => rw [if_pos (by linarith)]
  next heq =>
    split at heq
    next hlt => rw [if_neg (by linarith)]
    · cases heq

theorem holding_deal (a : String) : (w.deal side name pair quantity price).holding a =
    (w.execute side name pair quantity price w.takerFee).holding a :=
  holding_log ..

theorem holding_eq {h : Holding Rat} {free lock : Rat} (hfree : h.free = free)
    (hlock : h.lock = lock) : h = ⟨free, lock⟩ := by
  rw [← hfree, ← hlock]

section Sides
variable (hne : pair.asset ≠ pair.quote)
include hne

theorem asset_deal_buy (h : w.holding pair.asset = ⟨0, 0⟩) :
    (w.deal .buy name pair quantity price).holding pair.asset = ⟨quantity, 0⟩ := by
  rw [holding_deal]
  refine holding_eq ?_ ?_
  · rw [free_execute_asset hne, h, zero_add]
  · rw [lock_execute, h]

theorem asset_deal_sell (h : w.holding pair.asset = ⟨quantity, 0⟩) :
    (w.deal .sell name pair quantity price).holding pair.asset = ⟨0, 0⟩ := by
  rw [holding_deal]
  refine holding_eq ?_ ?_
  · rw [free_execute_asset hne, h, sub_self]
  · rw [lock_execute, h]

theorem quote_deal_buy (hq : 0 < quantity) (hasset : w.holding pair.asset = ⟨0, 0⟩)
    (hquote : w.holding pair.quote = ⟨x, 0⟩) :
    (w.deal .buy name pair quantity price).holding pair.quote =
      ⟨x - (quantity * price + quantity * price * w.takerFee), 0⟩ := by
  rw [holding_deal]
  refine holding_eq ?_ ?_
  · rw [free_execute_quote hne, hquote, hasset, quoteChange_buy, neg_zero, max_self,
      min_eq_left hq.le]
    ring
  · rw [lock_execute, hquote]

theorem quote_deal_sell (hq : 0 < quantity) (hasset : w.holding pair.asset = ⟨quantity, 0⟩)
    (hquote : w.holding pair.quote = ⟨x, 0⟩) :
    (w.deal .sell name pair quantity price).holding pair.quote =
      ⟨x + (quantity * price - quantity * price * w.takerFee), 0⟩ := by
  rw [holding_deal]
  refine holding_eq ?_ ?_
  · rw [free_execute_quote hne, hquote, hasset, quoteChange_sell, max_eq_left hq.le, min_self]
    ring
  · rw [lock_execute, hquote]

end Sides

theorem terms_place (w : Wallet Rat) (t : Ticket Rat) : (w.after (.place t)).base = w.base ∧
    (w.after (.place t)).takerFee = w.takerFee := by
  have hplace : ∀ c, Event.place t ≠ .candle c := fun _ h => by cases h
  rcases after_eq_or_step w hplace with heq | hstep
  · rw [heq]
    exact ⟨rfl, rfl⟩
  · exact ⟨hstep.terms.1, hstep.terms.2.2⟩

theorem terms_trade {σ : Type} (w : Wallet Rat) (f : Frame Rat) (state : σ) :
    ((AverageCross.trade f state).run w).2.base = w.base ∧
      ((AverageCross.trade f state).run w).2.takerFee = w.takerFee := by
  rw [AverageCross.run_trade]
  split
  · exact terms_place w _
  · exact ⟨rfl, rfl⟩

/-- One wallet comes of another by a purchase at a price for all the quote. -/
structure SpendsAll (name : String) (pair : Pair) (price : Rat) (o : Order Rat)
    (w w' : Wallet Rat) : Prop where
  orders : w'.orders = w.orders ++ [o]
  market : o.pair = name
  side : o.side = .buy
  status : o.status = .filled
  quantity : o.quantity = (w.holding pair.quote).total / price
  price : o.price = price
  asset : w'.holding pair.asset = ⟨o.quantity, 0⟩
  quote : w'.holding pair.quote = ⟨0, 0⟩

theorem SpendsAll.of_sameBooks {o : Order Rat} {u : Wallet Rat}
    (h : v.SpendsAll name pair price o u) (hbooks : SameBooks w v) (horders : v.orders = w.orders) :
    w.SpendsAll name pair price o u :=
  { h with
    orders := horders ▸ h.orders
    quantity := hbooks.holding pair.quote ▸ h.quantity }

/-- A purchase for all the quote leaves none, if there is no fee. -/
theorem spendsAll_deal (hne : pair.asset ≠ pair.quote) (hx : 0 < x) (hprice : 0 < price)
    (hfee : w.takerFee = 0) (hasset : w.holding pair.asset = ⟨0, 0⟩)
    (hquote : w.holding pair.quote = ⟨x, 0⟩) :
    w.SpendsAll name pair price (w.dealt .buy name (x / price) price)
      (w.deal .buy name pair (x / price) price) where
  orders := orders_deal
  market := rfl
  side := rfl
  status := rfl
  quantity := by
    rw [hquote, Holding.total, add_zero]
    rfl
  price := rfl
  asset := asset_deal_buy hne hasset
  quote := by
    rw [quote_deal_buy hne (div_pos hx hprice) hasset hquote, hfee, div_mul_cancel₀ x hprice.ne',
      mul_zero, add_zero, sub_self]

/-! ### Round trips of a wallet -/

/-- All that a wallet was given are executed orders on one pair, purchases and sales by turns. What
is held of the asset is what was bought and not sold yet, and the quote is not below zero. -/
structure RoundTrips (name : String) (pair : Pair) (w : Wallet Rat) : Prop where
  executed : ∀ o ∈ w.orders, o.pair = name ∧ o.status = .filled ∧ 0 < o.quantity
  turns : TakeTurns w.orders
  asset : w.holding pair.asset = ⟨unsold w.orders, 0⟩
  quote : ∃ x, 0 ≤ x ∧ w.holding pair.quote = ⟨x, 0⟩

namespace RoundTrips

theorem start {c : WalletConfig Rat} (hasset : ((Wallet.start c).holding pair.asset).total = 0)
    (hquote : 0 ≤ ((Wallet.start c).holding pair.quote).total) :
    (Wallet.start c).RoundTrips name pair := by
  obtain ⟨a, ha, -⟩ := holding_start c pair.asset
  obtain ⟨x, hx, -⟩ := holding_start c pair.quote
  have ha₀ : a = 0 := by simpa [ha, Holding.total] using hasset
  refine ⟨fun o ho => absurd ho List.not_mem_nil, Order.takeTurns_nil, ?_, x, ?_, hx⟩
  · rw [ha, ha₀, Order.unsold_eq_zero rfl, Amount.zero_rat]
  · simpa [hx, Holding.total] using hquote

variable (h : w.RoundTrips name pair)
include h

theorem quantities : ∀ o ∈ w.orders, 0 < o.quantity := fun o ho => (h.executed o ho).2.2

theorem idle (k : Candle Rat) : ∀ o ∈ w.orders, o.pair = k.pair → o.status ≠ .new := by
  intro o ho _
  rw [(h.executed o ho).2.1]
  decide

theorem observe (k : Candle Rat) : (w.observe k).RoundTrips name pair := by
  obtain ⟨hbooks, -⟩ := observe_of_idle (h.idle k)
  obtain ⟨x, hx, hquote⟩ := h.quote
  have horders : (w.observe k).orders = w.orders := orders_observe_of_idle (h.idle k)
  exact ⟨horders ▸ h.executed, horders ▸ h.turns, horders ▸ (hbooks.holding _).trans h.asset,
    x, hx, (hbooks.holding _).trans hquote⟩

theorem nonneg : 0 ≤ (w.holding pair.asset).free ∧ 0 ≤ (w.holding pair.quote).free := by
  obtain ⟨x, hx, hquote⟩ := h.quote
  rw [h.asset, hquote]
  exact ⟨Order.unsold_nonneg h.quantities, hx⟩

theorem asset_of_sold {o : Order Rat} (ho : w.orders.getLast? = some o) (hside : o.side = .sell) :
    w.holding pair.asset = ⟨0, 0⟩ := by
  have heven : w.orders.length % 2 = 0 := by
    by_contra hodd
    rw [List.getLast?_eq_getElem?] at ho
    obtain ⟨hlt, rfl⟩ := List.getElem?_eq_some_iff.1 ho
    rw [h.turns.side, if_pos (by omega)] at hside
    cases hside
  rw [h.asset, Order.unsold_eq_zero heven]

/-- One more executed order keeps to round trips if it is the one whose turn it is. -/
theorem deal (hne : pair.asset ≠ pair.quote) (hq : 0 < quantity)
    (hside : side = if w.orders.length % 2 = 0 then .buy else .sell)
    (hquantity : w.orders.length % 2 = 1 → quantity = unsold w.orders)
    (hquote : ∃ x, 0 ≤ x ∧
      (w.deal side name pair quantity price).holding pair.quote = ⟨x, 0⟩) :
    (w.deal side name pair quantity price).RoundTrips name pair := by
  refine ⟨?_, ?_, ?_, hquote⟩
  · rw [orders_deal]
    intro o ho
    rcases List.mem_append.1 ho with ho | ho
    · exact h.executed o ho
    · rw [List.mem_singleton.1 ho]
      exact ⟨rfl, rfl, hq⟩
  · rw [orders_deal]
    exact h.turns.concat hside hquantity
  · rw [orders_deal, Order.unsold_concat]
    rcases Nat.mod_two_eq_zero_or_one w.orders.length with heven | hodd
    · rw [if_pos heven] at hside ⊢
      rw [hside]
      exact asset_deal_buy hne (Order.unsold_eq_zero heven ▸ h.asset)
    · have hodd' : ¬ w.orders.length % 2 = 0 := by omega
      rw [if_neg hodd'] at hside ⊢
      rw [hside]
      exact asset_deal_sell hne (hquantity hodd ▸ h.asset)

/-! ### Trading on the cross of two averages -/

section Trade
variable (hs : w.split? name = some pair) (hquote : w.holding pair.quote = ⟨x, 0⟩)
include hs hquote

theorem position : Broker.position w name = .ok ⟨unsold w.orders, x⟩ := by
  have htotals : w.position name =
      .ok ⟨(w.holding pair.asset).total, (w.holding pair.quote).total⟩ := by
    unfold Wallet.position
    rw [split_of_split? hs]
    rfl
  show w.position name = _
  rw [htotals, h.asset, hquote, Holding.total, Holding.total, add_zero, add_zero]

variable (hne : pair.asset ≠ pair.quote) (hlast : w.lastPrice? name = some price)
  (hprice : 0 < price)
include hne hlast hprice

theorem buy (hx : 0 ≤ x) (hflat : unsold w.orders ≤ 0) :
    (w.after (.place (.marketQuote .buy name x))).RoundTrips name pair := by
  have heven : w.orders.length % 2 = 0 := by
    by_contra hodd
    exact hflat.not_gt (Order.unsold_pos h.quantities (by omega))
  have hasset : w.holding pair.asset = ⟨0, 0⟩ := Order.unsold_eq_zero heven ▸ h.asset
  rcases hx.eq_or_lt with rfl | hx
  · rw [after_marketQuote_zero]
    exact h
  · have hq : 0 < x / price := div_pos hx hprice
    rw [after_marketQuote hlast hx, after_buy hs hlast hq (by rw [hasset]), hquote]
    split
    next hpaid =>
      exact h.deal hne hq (if_pos heven).symm (fun hodd => by omega)
        ⟨_, sub_nonneg.2 hpaid, quote_deal_buy hne hq hasset hquote⟩
    next => exact h

theorem sell (hheld : 0 < unsold w.orders) :
    (w.after (.place (.market .sell name (unsold w.orders)))).RoundTrips name pair := by
  have hodd : ¬ w.orders.length % 2 = 0 := fun heven =>
    hheld.ne' (Order.unsold_eq_zero heven)
  rw [after_sell hs hlast hheld (by rw [h.asset]), hquote]
  split
  next hpaid =>
    refine h.deal hne hheld (if_neg hodd).symm (fun _ => rfl)
      ⟨_, ?_, quote_deal_sell hne hheld h.asset hquote⟩
    have hvalue : 0 < unsold w.orders * price := mul_pos hheld hprice
    linarith
  next => exact h

end Trade

theorem trade {σ : Type} (hs : w.split? name = some pair) (hne : pair.asset ≠ pair.quote)
    (hlast : w.lastPrice? name = some price) (hprice : 0 < price) {f : Frame Rat}
    (hf : f.pair = name) (state : σ) :
    ((AverageCross.trade f state).run w).2.RoundTrips name pair := by
  obtain ⟨x, hx, hquote⟩ := h.quote
  rw [AverageCross.run_trade, hf, h.position hs hquote]
  split
  next t hdue =>
    rcases AverageCross.due?_cases hdue with ⟨hflat, rfl⟩ | ⟨hheld, rfl⟩
    · exact hf ▸ h.buy hs hquote hne hlast hprice hx hflat
    · exact hf ▸ h.sell hs hquote hne hlast hprice hheld
  next => exact h

/-- All the quote pays for a purchase and for no fee beside it. -/
theorem trade_of_rises {σ : Type} (hs : w.split? name = some pair) (hne : pair.asset ≠ pair.quote)
    (hlast : w.lastPrice? name = some price) (hprice : 0 < price) {f : Frame Rat}
    (hf : f.pair = name) (hrises : AverageCross.Rises f)
    (hflat : (w.holding pair.asset).total = 0) (hfunds : 0 < (w.holding pair.quote).total)
    (state : σ) :
    (w.takerFee = 0 → ∃ o, w.SpendsAll name pair price o ((AverageCross.trade f state).run w).2) ∧
      (0 < w.takerFee → ((AverageCross.trade f state).run w).2 = w) := by
  obtain ⟨x, -, hquote⟩ := h.quote
  rw [hquote, Holding.total, add_zero] at hfunds
  have hnone : unsold w.orders = 0 := by simpa [h.asset, Holding.total] using hflat
  have hasset : w.holding pair.asset = ⟨0, 0⟩ := hnone ▸ h.asset
  have hq : 0 < x / price := div_pos hfunds hprice
  have hcost : x / price * price = x := div_mul_cancel₀ x hprice.ne'
  have hdue : AverageCross.due? f (.ok ⟨unsold w.orders, x⟩) = some (.marketQuote .buy f.pair x) :=
    AverageCross.due?_of_rises hrises hnone.le
  rw [AverageCross.run_trade, hf, h.position hs hquote, hdue, hf]
  show (_ → ∃ o, w.SpendsAll name pair price o (w.after (.place (.marketQuote .buy name x)))) ∧
    (_ → w.after (.place (.marketQuote .buy name x)) = w)
  rw [after_marketQuote hlast hfunds, after_buy hs hlast hq (by rw [hasset]), hquote, hcost]
  refine ⟨fun hfee => ?_, fun hfee => ?_⟩
  · rw [hfee, mul_zero, add_zero, if_pos le_rfl]
    exact ⟨_, spendsAll_deal hne hfunds hprice hfee hasset hquote⟩
  · have hmore : 0 < x * w.takerFee := mul_pos hfunds hfee
    exact if_neg (by linarith)

end RoundTrips

end Wallet

end Candlewick
