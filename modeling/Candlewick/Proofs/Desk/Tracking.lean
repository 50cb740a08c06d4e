import Candlewick.Proofs.Desk.Agreement
import Candlewick.Proofs.Wallet.Averages

/-! # The position of a desk and the balance of its wallet

A desk has one position for a pair, with a side and a positive quantity. The wallet behind it has a
free balance, which is below zero while something is owed, and an average for each side, of which
the one of the other side is out of date. `openAt` reads a position off the balance and the
averages. An execution does to what is read what a fill does to the position (`foldFill_openAt`),
whether it opens, adds, closes in part or exactly, or turns round. So while all that is traded are
executions at the market on one pair, nothing rests, the position is what is read
(`Tracks`, `Tracks.step`), and each of the two can be told from the other
(`position_iff_of_run`). -/

namespace Candlewick

/-- The position that a free balance of an asset amounts to, at the average prices of what is held
and of what is owed. -/
def openAt (free : Rat) (averages : Rat × Rat) : Option (OpenPosition Rat) :=
  if 0 < free then some ⟨.buy, free, averages.1⟩
  else if free < 0 then some ⟨.sell, -free, averages.2⟩
  else none

section OpenAt
variable {free : Rat} (averages : Rat × Rat)

theorem openAt_pos (h : 0 < free) : openAt free averages = some ⟨.buy, free, averages.1⟩ :=
  if_pos h

theorem openAt_neg (h : free < 0) : openAt free averages = some ⟨.sell, -free, averages.2⟩ := by
  rw [openAt, if_neg h.not_gt, if_pos h]

theorem openAt_zero : openAt 0 averages = none := rfl

theorem openAt_iff (free : Rat) :
    (openAt free averages = none ↔ free = 0) ∧
    (openAt free averages = some ⟨.buy, free, averages.1⟩ ↔ 0 < free) ∧
    (openAt free averages = some ⟨.sell, -free, averages.2⟩ ↔ free < 0) := by
  rcases lt_trichotomy free 0 with h | rfl | h
  · simp [openAt_neg averages h, h, h.ne, h.not_gt]
  · simp [openAt_zero]
  · simp [openAt_pos averages h, h, h.ne', h.not_gt]

end OpenAt

namespace Wallet
variable {w : Wallet Rat} {name : String} {quantity : Rat}

/-- What is accepted at the market is one order, which is executed. -/
theorem trade_of_placeMarket {side : Side} {pair : Pair} {x : Placed Rat}
    (hs : w.split? name = some pair) (h : w.placeMarket side name quantity = .ok x) :
    ∃ o : Order Rat, o.pair = name ∧ o.status = .filled ∧ o.side = side ∧ 0 < o.quantity ∧
      x.1 = [o] ∧ x.2 = (w.execute o.side name pair o.quantity o.price w.takerFee).log
        (w.lastId + 1) [o] := by
  obtain ⟨p, price, r, hq, hsplit, -, -, hx, horders⟩ := placeMarket_eq_ok h
  obtain rfl : p = pair := Option.some.inj (hsplit.symm.trans hs)
  refine ⟨{ w.newOrder (w.lastId + 1) side name .market quantity price with status := .filled },
    rfl, rfl, rfl, by simpa [newOrder] using hq, ?_, hx⟩
  have hlog := congrArg Wallet.orders hx
  rw [horders, log, execute_orders] at hlog
  exact List.append_cancel_left hlog

end Wallet

theorem Book.position_record (b : Book Rat) {o : Order Rat} (ho : o.status = .filled) :
    (b.record o).positions.get? o.pair = (foldFill (b.positions.get? o.pair) o).1 := by
  have hfill : (b.record o).positions =
      setPosition b.positions o.pair (foldFill (b.positions.get? o.pair) o).1 := by
    simp only [record, applyIfFilled, ho, if_true]
    rfl
  rw [hfill, get?_setPosition, if_pos rfl]

/-! ### One execution -/

section Fill
variable {o : Order Rat} (w : Wallet Rat) (free : Rat) (hq : 0 < o.quantity)
include hq

theorem foldFill_buy (hside : o.side = .buy) :
    (foldFill (openAt free (w.averages o.pair)) o).1 =
      openAt (free + o.quantity)
        ((w.updateAverages .buy o.pair free o.quantity o.price).averages o.pair) := by
  rw [Wallet.averages_buy]
  rcases lt_trichotomy free 0 with hneg | rfl | hpos
  · rw [openAt_neg _ hneg, if_neg hneg.ne, if_neg hneg.not_gt]
    simp only [foldFill, hside, reduceCtorEq, if_false, OpenPosition.close_eq]
    rcases lt_trichotomy (-free) o.quantity with hturn | hexact | hpart
    · have hopen : 0 < free + o.quantity := by linarith
      rw [if_neg hturn.not_gt, if_pos hturn, if_pos hturn, openAt_pos _ hopen]
      simp [add_comm]
    · have hclosed : free + o.quantity = 0 := by linarith
      simp [hexact, hclosed, openAt_zero]
    · have hopen : free + o.quantity < 0 := by linarith
      rw [if_pos hpart, if_neg hpart.not_gt, openAt_neg _ hopen]
      simp [sub_eq_add_neg, add_comm]
  · rw [if_pos rfl, zero_add, openAt_pos _ hq]
    simp [openAt_zero, foldFill, OpenPosition.ofFill, hside]
  · have hopen : 0 < free + o.quantity := by linarith
    rw [openAt_pos _ hpos, if_neg hpos.ne', if_pos hpos, openAt_pos _ hopen]
    simp [foldFill, hside, OpenPosition.grow, Wallet.blend, mul_comm]

theorem foldFill_sell (hside : o.side = .sell) :
    (foldFill (openAt free (w.averages o.pair)) o).1 =
      openAt (free - o.quantity)
        ((w.updateAverages .sell o.pair free o.quantity o.price).averages o.pair) := by
  rw [Wallet.averages_sell]
  rcases lt_trichotomy free 0 with hneg | rfl | hpos
  · have hopen : free - o.quantity < 0 := by linarith
    rw [openAt_neg _ hneg, if_neg hneg.ne, if_neg hneg.not_gt, openAt_neg _ hopen]
    simp [foldFill, hside, OpenPosition.grow, Wallet.blend, mul_comm, sub_eq_add_neg, add_comm]
  · have hopen : 0 - o.quantity < 0 := by linarith
    rw [if_pos rfl, openAt_neg _ hopen]
    simp [openAt_zero, foldFill, OpenPosition.ofFill, hside]
  · rw [openAt_pos _ hpos, if_neg hpos.ne', if_pos hpos]
    simp only [foldFill, hside, reduceCtorEq, if_false, OpenPosition.close_eq]
    rcases lt_trichotomy free o.quantity with hturn | hexact | hpart
    · have hopen : free - o.quantity < 0 := by linarith
      rw [if_neg hturn.not_gt, if_pos hturn, if_pos hturn, openAt_neg _ hopen, neg_sub]
    · simp [hexact, openAt_zero]
    · have hopen : 0 < free - o.quantity := by linarith
      rw [if_pos hpart, if_neg hpart.not_gt, openAt_pos _ hopen]

/-- A fill does to the position that is read off a balance what the execution does to the balance
and its averages. -/
theorem foldFill_openAt :
    (foldFill (openAt free (w.averages o.pair)) o).1 =
      openAt (free + o.signed)
        ((w.updateAverages o.side o.pair free o.quantity o.price).averages o.pair) := by
  cases hside : o.side with
  | buy => rw [foldFill_buy w free hq hside, Order.signed, hside]
  | sell => rw [foldFill_sell w free hq hside, Order.signed, hside, sub_eq_add_neg]

end Fill

namespace Desk

/-- What trades on one pair, at the market and through the desk: it may be asked for, and the
market may move, and everything may be asked of the desk and the wallet that places no other
order. -/
def Move.AtMarket {α : Type} (name : String) : Move α → Prop
  | .call (.place (.market _ pair _)) => pair = name
  | .call (.place (.marketQuote _ pair _)) => pair = name
  | .call (.place _) => False
  | .wallet (.place _) => False
  | _ => True

theorem placeMarket_of_place {w : Wallet Rat} {name : String} {t : Ticket Rat}
    {x : Wallet.Placed Rat} (ht : Move.AtMarket name (.call (.place t))) (h : w.place t = .ok x) :
    ∃ side quantity, w.placeMarket side name quantity = .ok x := by
  cases t with
  | market side other quantity =>
    obtain rfl : other = name := ht
    exact ⟨side, quantity, h⟩
  | marketQuote side other amount =>
    obtain rfl : other = name := ht
    rw [Wallet.place, Wallet.placeMarketQuote] at h
    obtain ⟨_, -, h⟩ := Wallet.bind_eq_ok h
    obtain ⟨price, -, h⟩ := Wallet.bind_eq_ok h
    exact ⟨side, _, h⟩
  | limit => exact ht.elim
  | stop => exact ht.elim
  | oco => exact ht.elim

/-- The position of a pair is what the balance of its asset amounts to, and no order rests. -/
structure Tracks (name : String) (pair : Pair) (d : Desk (Wallet Rat) Rat) : Prop where
  split : d.broker.split? name = some pair
  apart : pair.asset ≠ pair.quote
  executed : ∀ o ∈ d.broker.orders, o.status = .filled
  recorded : ∀ o ∈ d.book.orders, o.status = .filled
  position : d.book.positions.get? name =
    openAt (d.broker.holding pair.asset).free (d.broker.averages name)

namespace Tracks
variable {name : String} {pair : Pair} {d : Desk (Wallet Rat) Rat}

theorem start {c : WalletConfig Rat} (hsplit : (Wallet.start c).split? name = some pair)
    (hapart : pair.asset ≠ pair.quote) (hfree : ((Wallet.start c).holding pair.asset).free = 0) :
    (ofBroker (Wallet.start c)).Tracks name pair where
  split := hsplit
  apart := hapart
  executed := by simp [ofBroker, Wallet.start]
  recorded := by simp [ofBroker, Book.empty]
  position := by
    show _ = openAt ((Wallet.start c).holding pair.asset).free _
    rw [hfree]
    rfl

/-- Reports of executed orders change nothing, since they are recorded as executed already. -/
theorem update (h : d.Tracks name pair) {o : Order Rat} (ho : o ∈ d.broker.orders) :
    d.book.update o = d.book := by
  cases hf : d.book.orders.find? (·.id = o.id) with
  | none => exact Book.update_unknown hf
  | some p =>
    have hp : p.status = .filled := h.recorded p (List.mem_of_find?_eq_some hf)
    exact Book.update_same hf (hp.trans (h.executed o ho).symm)

theorem order (h : d.Tracks name pair) (other : String) (id : Int) : (d.order other id).2 = d := by
  unfold Desk.order
  simp only [Broker.order]
  cases ho : d.broker.order other id with
  | error _ => rfl
  | ok o =>
    dsimp only
    rw [h.update (Wallet.mem_of_order_eq_ok ho)]

theorem refresh (h : d.Tracks name pair) : d.refresh = d := by
  have hnone : d.book.orders.filter (·.resting) = [] := by
    refine List.filter_eq_nil_iff.2 fun o ho => ?_
    simp [Order.resting, h.recorded o ho]
  rw [Desk.refresh, hnone]
  rfl

theorem observe (h : d.Tracks name pair) (c : Candle Rat) : d.observe c = d := by
  unfold Desk.observe
  split
  · exact h.refresh
  · rfl

theorem cancel_eq (h : d.Tracks name pair) (id : Int) : ∃ e, d.broker.cancel id = .error e := by
  cases hc : d.broker.cancel id with
  | error e => exact ⟨e, rfl⟩
  | ok w =>
    obtain ⟨o, ho, -, hr, -⟩ := Wallet.cancel_eq_ok hc
    simp [Order.resting, h.executed o ho] at hr

theorem cancel (h : d.Tracks name pair) (id : Int) : (d.cancel id).2 = d := by
  obtain ⟨e, he⟩ := h.cancel_eq id
  simp only [Desk.cancel, Broker.cancel, he]

/-- A market that moves executes nothing, since nothing rests. -/
theorem candle (h : d.Tracks name pair) (c : Candle Rat) :
    Tracks name pair { d with broker := d.broker.observe c } := by
  have hnone : d.broker.touched c = [] := by
    refine List.filter_eq_nil_iff.2 fun o ho => ?_
    simp [Order.resting, h.executed o ho]
  rw [Wallet.observe_eq, hnone]
  dsimp only [List.length_nil]
  split
  · exact ⟨h.split, h.apart, h.executed, h.recorded, h.position⟩
  · exact ⟨h.split, h.apart, h.executed, h.recorded, h.position⟩

theorem place (h : d.Tracks name pair) {t : Ticket Rat}
    (ht : Move.AtMarket name (.call (.place t))) : (d.place t).2.Tracks name pair := by
  unfold Desk.place
  simp only [Broker.place]
  cases hp : d.broker.place t with
  | error _ => exact h
  | ok x =>
    obtain ⟨side, quantity, hmarket⟩ := placeMarket_of_place ht hp
    obtain ⟨o, ho, hstatus, hside, hq, hx, hbroker⟩ := Wallet.trade_of_placeMarket h.split hmarket
    dsimp only
    rw [hx, hbroker, List.foldl_cons, List.foldl_nil]
    refine ⟨?_, h.apart, ?_, ?_, ?_⟩
    · have hbase := Wallet.execute_base d.broker o.side name pair o.quantity o.price
        d.broker.takerFee
      exact (Wallet.split?_congr hbase name).trans h.split
    · intro p hmem
      rcases List.mem_append.1 hmem with hmem | hmem
      · exact h.executed p (by rwa [Wallet.execute_orders] at hmem)
      · rwa [List.mem_singleton.1 hmem]
    · intro p hmem
      rw [Book.record_orders] at hmem
      rcases List.mem_append.1 hmem with hmem | hmem
      · exact h.recorded p hmem
      · rwa [List.mem_singleton.1 hmem]
    · have hfree : ((d.broker.execute o.side name pair o.quantity o.price
          d.broker.takerFee).holding pair.asset).free =
          (d.broker.holding pair.asset).free + o.signed := by
        rw [Wallet.free_execute_asset h.apart, Order.signed]
        cases o.side <;> simp [sub_eq_add_neg]
      rw [← ho, Book.position_record _ hstatus, ho, h.position, ← ho, foldFill_openAt _ _ hq, ho,
        ← hfree]
      rfl

theorem step (h : d.Tracks name pair) {m : Move Rat} (hm : m.AtMarket name) :
    (d.after m.event).Tracks name pair := by
  cases m with
  | call c =>
    cases c with
    | place t => exact h.place hm
    | cancel id =>
      show (d.cancel id).2.Tracks name pair
      rwa [h.cancel id]
    | order other id =>
      show (d.order other id).2.Tracks name pair
      rwa [h.order other id]
    | refresh =>
      show d.refresh.Tracks name pair
      rwa [h.refresh]
    | observe c =>
      show (d.observe c).Tracks name pair
      rwa [h.observe c]
  | wallet e =>
    cases e with
    | place t => exact hm.elim
    | cancel id =>
      obtain ⟨e, he⟩ := h.cancel_eq id
      have hsame : d.broker.after (.cancel id) = d.broker := by
        simp only [Wallet.after, Broker.cancel, he]
      show Tracks name pair { d with broker := d.broker.after (.cancel id) }
      rwa [hsame]
    | candle c => exact h.candle c

theorem run (h : d.Tracks name pair) {ms : List (Move Rat)} (hms : ∀ m ∈ ms, m.AtMarket name) :
    (d.run (ms.map Move.event)).Tracks name pair := by
  induction ms generalizing d with
  | nil => exact h
  | cons m ms ih =>
    exact ih (h.step (hms m (List.mem_cons_self ..))) fun n hn => hms n (List.mem_cons_of_mem _ hn)

end Tracks

/-- Over a wallet that starts without the asset, the position of the pair is none exactly if the
free balance of the asset is nothing, it is long with that quantity at the long average exactly if
the balance is positive, and short with what is owed at the short average exactly if it is below
zero. -/
theorem position_iff_of_run {c : WalletConfig Rat} {name : String} {pair : Pair}
    (hsplit : (Wallet.start c).split? name = some pair) (hapart : pair.asset ≠ pair.quote)
    (hfree : ((Wallet.start c).holding pair.asset).free = 0) {ms : List (Move Rat)}
    (hms : ∀ m ∈ ms, m.AtMarket name) :
    let d := (ofBroker (Wallet.start c)).run (ms.map Move.event)
    let free := (d.broker.holding pair.asset).free
    let position := d.book.positions.get? name
    (position = none ↔ free = 0) ∧
    (position = some ⟨.buy, free, (d.broker.averages name).1⟩ ↔ 0 < free) ∧
    (position = some ⟨.sell, -free, (d.broker.averages name).2⟩ ↔ free < 0) := by
  intro d free position
  have h : d.Tracks name pair := (Tracks.start hsplit hapart hfree).run hms
  have hposition : position = openAt free (d.broker.averages name) := h.position
  rw [hposition]
  exact openAt_iff _ free

/-- Two coins are bought at 100 and two at 200, one is sold at 400, a thousand more are refused, and
for 2000 of the quote the three that are left are sold with two that are owed. -/
def turned : List (Move Rat) :=
  [.wallet (.candle (Wallet.bar 100 100)), .call (.place (.market .buy "BTCUSDT" 2)),
    .wallet (.candle (Wallet.bar 200 200)), .call (.place (.market .buy "BTCUSDT" 2)),
    .wallet (.candle (Wallet.bar 400 400)), .call (.place (.market .sell "BTCUSDT" 1)),
    .call (.place (.market .buy "BTCUSDT" 1000)), .call (.place (.marketQuote .sell "BTCUSDT" 2000))]

/-- A thousand `USDT`, in which values are reckoned, and nothing else. -/
def noCoin : WalletConfig Rat := ⟨"USDT", .ofList [("USDT", 1000)], 0, 0⟩

theorem position_iff_of_run_turned :
    let d := (ofBroker (Wallet.start noCoin)).run (turned.map Move.event)
    d.book.positions.get? "BTCUSDT" =
      some ⟨.sell, -(d.broker.holding "BTC").free, (d.broker.averages "BTCUSDT").2⟩ ∧
    (d.broker.holding "BTC").free = -2 ∧ d.broker.averages "BTCUSDT" = (150, 400) := by
  have hsplit : (Wallet.start noCoin).split? "BTCUSDT" = some ⟨"BTC", "USDT"⟩ := by decide +kernel
  have hnone : ((Wallet.start noCoin).holding "BTC").free = 0 := by decide +kernel
  have hmarket : ∀ m ∈ turned, m.AtMarket "BTCUSDT" := by simp [turned, Move.AtMarket]
  obtain ⟨-, -, hshort⟩ := position_iff_of_run hsplit (by decide) hnone hmarket
  intro d
  have hd : (ofBroker (Wallet.start noCoin)).run (turned.map Move.event) = d := rfl
  rw [hd] at hshort
  have hfree : (d.broker.holding "BTC").free = -2 := by decide +kernel
  have hneg : (d.broker.holding "BTC").free < 0 := by
    rw [hfree]
    norm_num
  exact ⟨hshort.2 hneg, hfree, by decide +kernel⟩

end Desk

end Candlewick
