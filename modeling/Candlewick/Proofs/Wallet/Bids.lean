import Candlewick.Proofs.Wallet.Admission

/-! # Standing bids and their fees

A bid is accepted where the free quote covers its value and its fee, but what it holds back is its
value alone. While nothing but bids is placed nothing is ever owed, so the execution of a bid spends
what it held back, and its fee on top of that. `spare` is what would be free if every bid were
filled. A fill does not change it and a withdrawal raises it (`Step.spare_le`), and once a candle
has filled all bids it is what is free (`free_quote_of_low`). So a wallet can pay for its bids,
whichever of them the market fills and in whatever order, exactly if what is free pays the fees of
what is locked; and it can after whatever bids it is given exactly if there is no fee or nothing to
bid with (`bids_payable_iff`). -/

namespace Candlewick.Wallet
variable {w w' : Wallet Rat} {name : String} {pair : Pair} {c : Candle Rat}
  {quantity price feeRate : Rat} {o : Order Rat} {r : Reservation Rat} {e : Event Rat}

/-- Nothing new is asked for, and candles are on one pair. -/
def Event.Waits (name : String) : Event Rat → Prop
  | .place _ => False
  | .cancel _ => True
  | .candle c => c.pair = name

/-- Nothing but limit orders to buy is asked for on one pair. -/
def Event.Bids (name : String) : Event Rat → Prop
  | .place t => ∃ quantity price, t = .limit .buy name quantity price
  | e => e.Waits name

/-- A bid and what is held back for it, which is its value without the fee. -/
structure Bid (name : String) (pair : Pair) (r : Reservation Rat) (o : Order Rat) : Prop where
  held : r = ⟨pair, 0, o.quantity * o.price⟩
  pair : o.pair = name
  side : o.side = .buy
  kind : o.kind = .limit
  quantity : 0 < o.quantity

/-- What holds of a wallet that nothing but bids on one pair is asked of. -/
structure Bidding (name : String) (pair : Pair) (w : Wallet Rat) : Prop where
  split : w.split? name = some pair
  apart : pair.asset ≠ pair.quote
  fee : 0 ≤ w.makerFee
  log : w.LogOk
  locks : w.LockOk
  unowed : 0 ≤ (w.holding pair.asset).free
  bids : Held (Bid name pair) w

/-- What is free of the quote, less the fees of all that is locked of it. -/
def spare (w : Wallet Rat) (pair : Pair) : Rat :=
  (w.holding pair.quote).free - w.makerFee * (w.holding pair.quote).lock

theorem Bidding.spare_le_free (hw : Bidding name pair w) :
    w.spare pair ≤ (w.holding pair.quote).free :=
  sub_le_self _ (mul_nonneg hw.fee (hw.locks.lock_nonneg _))

theorem Bidding.bid (hw : Bidding name pair w) (ho : o ∈ w.orders) (hr : o.resting = true) :
    ∃ r, w.reservations.get? (owner o) = some r ∧ Bid name pair r o := by
  have hn := Order.resting_iff.1 hr
  obtain ⟨r, hget⟩ := hw.locks.reserved ho hn
  exact ⟨r, hget, hw.bids o ho hn r hget⟩

/-! ### A new bid -/

/-- Where nothing is owed, a bid holds back its value. -/
theorem cover_bid (hunowed : 0 ≤ (w.holding pair.asset).free) (hvalue : 0 ≤ quantity * price)
    (hq : 0 < quantity) :
    w.cover .buy name pair quantity price feeRate =
      if (w.holding pair.quote).free < quantity * price + quantity * price * feeRate then
        .error (.insufficientFunds name quantity)
      else .ok ⟨pair, 0, quantity * price⟩ := by
  have hshort : max (-(w.holding pair.asset).free) 0 = 0 := max_eq_right (neg_nonpos.2 hunowed)
  simp only [cover, coverPurchase, Amount.max_rat, Amount.min_rat, Amount.zero_rat, Amount.lt_rat,
    hshort, min_eq_left hq.le, zero_mul, sub_zero, add_zero, max_eq_left hvalue, decide_eq_true_eq]

/-- The wallet with a further bid. -/
def withBid (w : Wallet Rat) (name : String) (pair : Pair) (quantity price : Rat) : Wallet Rat :=
  (w.reserve (w.lastId + 1) ⟨pair, 0, quantity * price⟩).log (w.lastId + 1)
    [w.newOrder (w.lastId + 1) .buy name .limit quantity price]

/-- A bid is taken if its value and its fee are free. -/
theorem after_bid (hw : Bidding name pair w) (quantity price : Rat) :
    w.after (.place (.limit .buy name quantity price)) =
      if 0 < quantity ∧ 0 < price ∧
          quantity * price + quantity * price * w.makerFee ≤ (w.holding pair.quote).free then
        w.withBid name pair quantity price
      else w := by
  simp only [after, Broker.place, place]
  by_cases hsize : 0 < quantity ∧ 0 < price
  · obtain ⟨hq, hp⟩ := hsize
    have hvalue : 0 ≤ quantity * price := (mul_pos hq hp).le
    have hsplit : w.split name = .ok pair := split_of_split? hw.split
    have hchecked : checkQuantity name quantity = .ok () ∧ checkPrice name price = .ok () := by
      simp [checkQuantity, checkPrice, hq, hp]
    simp only [placeLimit, placeResting, hchecked, hsplit, cover_bid hw.unowed hvalue hq, hq, hp,
      true_and, bind, Except.bind]
    by_cases hfunds : (w.holding pair.quote).free < quantity * price + quantity * price * w.makerFee
    · rw [if_pos hfunds, if_neg (not_le.2 hfunds)]
    · rw [if_neg hfunds, if_pos (not_lt.1 hfunds)]
      rfl
  · rw [if_neg fun h => hsize ⟨h.1, h.2.1⟩]
    cases hplace : w.placeLimit .buy name quantity price with
    | error => rfl
    | ok x =>
      obtain ⟨_, _, hq, hp, -⟩ := placeResting_eq_ok hplace
      exact absurd ⟨by simpa using hq, by simpa using hp⟩ hsize

theorem mem_withBid : o ∈ (w.withBid name pair quantity price).orders ↔
    o ∈ w.orders ∨ o = w.newOrder (w.lastId + 1) .buy name .limit quantity price := by
  show o ∈ w.orders ++ [_] ↔ _
  simp

theorem holding_withBid (w : Wallet Rat) (name : String) (hne : pair.asset ≠ pair.quote)
    (quantity price : Rat) :
    ((w.withBid name pair quantity price).holding pair.asset).free = (w.holding pair.asset).free ∧
    ((w.withBid name pair quantity price).holding pair.quote).free =
      (w.holding pair.quote).free - quantity * price ∧
    ((w.withBid name pair quantity price).holding pair.quote).lock =
      (w.holding pair.quote).lock + quantity * price := by
  unfold withBid
  rw [holding_log, holding_log, free_reserve, free_reserve, lock_reserve]
  simp [Reservation.heldIn, hne, hne.symm]

theorem Bidding.placed (hw : Bidding name pair w) (quantity price : Rat) :
    Bidding name pair (w.after (.place (.limit .buy name quantity price))) := by
  rcases after_eq_or_step w (e := .place (.limit .buy name quantity price)) (by simp)
    with heq | hstep
  · rwa [heq]
  obtain ⟨hbase, hmaker, -⟩ := hstep.terms
  refine ⟨(split?_congr hbase name).trans hw.split, hw.apart, hmaker ▸ hw.fee,
    hstep.logOk hw.log, hstep.lockOk hw.log hw.locks, ?_, ?_⟩
  all_goals
    rw [after_bid hw]
    split
  · rw [(holding_withBid w name hw.apart ..).1]
    exact hw.unowed
  · exact hw.unowed
  next hok =>
    refine hw.bids.reserve (fun _ => hw.log.owner_ne_next) fun o ho => ?_
    obtain rfl := List.mem_singleton.1 ho
    exact ⟨rfl, rfl, rfl, rfl, rfl, hok.1⟩
  · exact hw.bids

theorem Bidding.withBid (hw : Bidding name pair w) (hq : 0 < quantity) (hp : 0 < price)
    (hfunds : quantity * price + quantity * price * w.makerFee ≤ (w.holding pair.quote).free) :
    w.after (.place (.limit .buy name quantity price)) = w.withBid name pair quantity price ∧
      Bidding name pair (w.withBid name pair quantity price) := by
  have hafter := after_bid hw quantity price
  rw [if_pos ⟨hq, hp, hfunds⟩] at hafter
  exact ⟨hafter, hafter ▸ hw.placed quantity price⟩

theorem spare_withBid (w : Wallet Rat) (hne : pair.asset ≠ pair.quote) :
    (w.withBid name pair quantity price).spare pair =
      w.spare pair - (1 + w.makerFee) * (quantity * price) := by
  obtain ⟨-, hfree, hlock⟩ := holding_withBid w name hne quantity price
  rw [spare, spare, hfree, hlock]
  show _ - w.makerFee * _ = _
  ring

/-! ### Fills and withdrawals -/

/-- What is given back for a bid is its value. -/
theorem Bidding.release (hw : Bidding name pair w) (ho : o ∈ w.orders) (hr : o.resting = true) :
    ((w.release (owner o)).holding pair.asset).free = (w.holding pair.asset).free ∧
    ((w.release (owner o)).holding pair.quote).free =
      (w.holding pair.quote).free + o.quantity * o.price ∧
    ((w.release (owner o)).holding pair.quote).lock =
      (w.holding pair.quote).lock - o.quantity * o.price := by
  obtain ⟨r, hget, hbid⟩ := hw.bid ho hr
  obtain rfl := hbid.held
  rw [free_release w hget, free_release w hget, hw.locks.lock_release hget]
  simp [Reservation.heldIn, hw.apart, hw.apart.symm]

/-- A bid that executes takes its fee from what is free, and what it held back is spent. -/
theorem Bidding.fill (hw : Bidding name pair w) (ho : o ∈ w.orders) (hr : o.resting = true)
    (ht : trigger? o c = some price) :
    let v := w.fill o price c.time
    (w.holding pair.asset).free ≤ (v.holding pair.asset).free ∧
    (v.holding pair.quote).free =
      (w.holding pair.quote).free - w.makerFee * (o.quantity * o.price) ∧
    (v.holding pair.quote).lock = (w.holding pair.quote).lock - o.quantity * o.price := by
  obtain ⟨r, -, hbid⟩ := hw.bid ho hr
  have hsplit : w.split? o.pair = some pair := hbid.pair ▸ hw.split
  have hprice : price = o.price := by
    rcases price_of_trigger ht with ⟨-, h⟩ | ⟨h, -⟩
    · exact h
    · rw [hbid.kind] at h
      cases h
  obtain ⟨hasset, hfree, hlock⟩ := hw.release ho hr
  dsimp only
  rw [holding_fill hsplit, holding_fill hsplit, free_execute_asset hw.apart,
    free_execute_quote hw.apart, lock_execute, hasset, hfree, hlock, hbid.side, quoteChange_buy,
    max_eq_right (neg_nonpos.2 hw.unowed), min_eq_left hbid.quantity.le, hprice]
  exact ⟨le_add_of_nonneg_right hbid.quantity.le, by ring, rfl⟩

theorem Step.bidding (h : Step e w w') (hplace : ∀ t, e ≠ .place t) (hw : Bidding name pair w) :
    Bidding name pair w' := by
  obtain ⟨hbase, hmaker, -⟩ := h.terms
  have hunowed : 0 ≤ (w'.holding pair.asset).free := by
    cases h with
    | trade => exact absurd rfl (hplace _)
    | rest => exact absurd rfl (hplace _)
    | link => exact absurd rfl (hplace _)
    | withdraw => exact hw.unowed.trans (hw.locks.free_le_release ..)
    | note => exact hw.unowed
    | fill ho hr hn ht hs => exact hw.unowed.trans (hw.fill ho hr ht).1
    | mark => exact hw.unowed
  exact ⟨(split?_congr hbase name).trans hw.split, hw.apart, hmaker ▸ hw.fee, h.logOk hw.log,
    h.lockOk hw.log hw.locks, hunowed,
    h.held hw.log (fun t _ _ _ ht => absurd ht (hplace t)) hw.bids⟩

theorem Step.spare_of_candle (h : Step (.candle c) w w') (hw : Bidding name pair w) :
    w'.spare pair = w.spare pair := by
  cases h with
  | note => rfl
  | fill ho hr hn ht hs =>
    obtain ⟨-, hfree, hlock⟩ := hw.fill ho hr ht
    unfold spare
    rw [hfree, hlock, (Step.fill ho hr hn ht hs).terms.2.1]
    ring
  | mark => rfl

theorem Step.spare_le (h : Step e w w') (hplace : ∀ t, e ≠ .place t) (hw : Bidding name pair w) :
    w.spare pair ≤ w'.spare pair := by
  cases e with
  | place t => exact absurd rfl (hplace t)
  | cancel =>
    cases h with
    | @withdraw _ o ho hr =>
      obtain ⟨_, hget, hbid⟩ := hw.bid ho hr
      obtain rfl := hbid.held
      obtain ⟨-, hvalue⟩ := hw.locks.nonneg _ _ hget
      obtain ⟨-, hfree, hlock⟩ := hw.release ho hr
      have hfees := mul_nonneg hw.fee hvalue
      show _ ≤ (((w.release (owner o)).holding pair.quote).free -
        (w.release (owner o)).makerFee * ((w.release (owner o)).holding pair.quote).lock)
      rw [hfree, hlock, release_makerFee]
      unfold spare
      linarith
  | candle c => exact (h.spare_of_candle hw).ge

/-- While nothing new is asked for, what is free never falls below what is spare. -/
theorem Bidding.waits {es : List (Event Rat)} (hw : Bidding name pair w)
    (hes : ∀ e ∈ es, e.Waits name) :
    ∀ m, w.Passes es m → Bidding name pair m ∧ w.spare pair ≤ m.spare pair := by
  have hasc : ∀ v, Bidding name pair v ∧ w.spare pair ≤ v.spare pair → v.Ascending :=
    fun v hv => hv.1.log.ascending
  have hstep : ∀ e v v', (∀ t, e ≠ .place t) → Step e v v' →
      Bidding name pair v ∧ w.spare pair ≤ v.spare pair →
      Bidding name pair v' ∧ w.spare pair ≤ v'.spare pair :=
    fun e v v' he hs h => ⟨hs.bidding he h.1, h.2.trans (hs.spare_le he h.1)⟩
  refine passes_of_events (P := Event.Waits name) (fun e v he hv => ?_) (fun c v n _ hv => ?_)
    hes ⟨hw, le_rfl⟩
  · refine induction_of_steps hstep ?_ (steps_of_after (hasc v hv) e) hv
    rintro t rfl
    exact he
  · exact midway_induction hasc hstep (by simp) hv n

/-! ### When all bids are filled -/

theorem Bidding.midway (hw : Bidding name pair w) (c : Candle Rat) (n : Nat) :
    Bidding name pair (w.midway c n) ∧ (w.midway c n).spare pair = w.spare pair := by
  refine midway_induction (P := (· = .candle c))
    (I := fun v => Bidding name pair v ∧ v.spare pair = w.spare pair)
    (fun _ h => h.1.log.ascending) ?_ rfl ⟨hw, rfl⟩ n
  rintro _ v v' rfl hs ⟨hv, heq⟩
  exact ⟨hs.bidding (by simp) hv, (hs.spare_of_candle hv).trans heq⟩

theorem trigger?_bid (hbid : Bid name pair r o) (hlow : c.close ≤ o.price) :
    trigger? o c = some o.price := by
  simp [trigger?, hbid.kind, hbid.side, hlow, OrderKind.limitLike]

/-- An order that a candle triggers does not rest once the candle has gone through it. -/
theorem of_resting_tryFill {p : Order Rat} (hs : w.split? p.pair = some pair)
    (ht : trigger? p c = some price) (ho : o ∈ (tryFill c w p).orders) (hr : o.resting = true) :
    o ∈ w.orders ∧ o ≠ p := by
  by_cases hrest : ∃ q ∈ w.orders, q.id = p.id ∧ q.resting = true
  · rw [tryFill_of_resting ht hrest, orders_fill hs] at ho
    obtain ⟨q, hq, rfl⟩ := List.mem_map.1 ho
    have hkept := filled_eq_of_resting hr
    rw [hkept] at hr ⊢
    refine ⟨hq, fun heq => ?_⟩
    rw [heq] at hkept hr
    have hdone := status_filled_self p price c.time
    rw [hkept, Order.resting_iff.1 hr] at hdone
    cases hdone
  · have hsame : tryFill c w p = w := by simp [tryFill, ht, hrest]
    rw [hsame] at ho
    exact ⟨ho, fun heq => hrest ⟨o, ho, heq ▸ rfl, hr⟩⟩

/-- A candle below all bids leaves only those resting that it has not gone through yet. -/
theorem mem_drop_of_resting (hw : Bidding name pair w) (hn : c.pair = name)
    (hlow : ∀ o ∈ w.orders, o.resting = true → c.close ≤ o.price) (n : Nat) :
    ∀ o ∈ (w.midway c n).orders, o.resting = true → o ∈ (w.touched c).drop n := by
  induction n with
  | zero =>
    intro o ho hr
    obtain ⟨_, -, hbid⟩ := hw.bid ho hr
    exact mem_touched.2 ⟨ho, hbid.pair.trans hn.symm, hr⟩
  | succ n ih =>
    intro o ho hr
    cases hget : (w.touched c)[n]? with
    | none =>
      rw [midway_succ_of_none w c hget] at ho
      have hmem := ih o ho hr
      rw [List.drop_eq_nil_of_le (List.getElem?_eq_none_iff.1 hget)] at hmem
      cases hmem
    | some p =>
      obtain ⟨hp, -, hpr⟩ := mem_touched.1 (List.mem_of_getElem? hget)
      obtain ⟨_, -, hbid⟩ := hw.bid hp hpr
      rw [midway_succ w c hget] at ho
      obtain ⟨ho, hne⟩ := of_resting_tryFill (hbid.pair ▸ (hw.midway c n).1.split)
        (trigger?_bid hbid (hlow p hp hpr)) ho hr
      obtain ⟨hlt, heq⟩ := List.getElem?_eq_some_iff.1 hget
      have hmem := ih o ho hr
      rw [List.drop_eq_getElem_cons hlt, heq] at hmem
      exact (List.mem_cons.1 hmem).resolve_left hne

/-- Once a candle has filled all bids, what is free is what was spare. -/
theorem free_quote_of_low (hw : Bidding name pair w) (hn : c.pair = name)
    (hlow : ∀ o ∈ w.orders, o.resting = true → c.close ≤ o.price) :
    ((w.observe c).holding pair.quote).free = w.spare pair := by
  obtain ⟨hm, hspare⟩ := hw.midway c (w.touched c).length
  have hidle : ∀ o ∈ (w.midway c (w.touched c).length).orders, o.resting = false := by
    refine fun o ho => Bool.eq_false_iff.2 fun hr => ?_
    have hmem := mem_drop_of_resting hw hn hlow _ o ho hr
    rw [List.drop_length] at hmem
    cases hmem
  have hsame : ((w.observe c).holding pair.quote).free =
      ((w.midway c (w.touched c).length).holding pair.quote).free := by
    rw [observe_eq]
    dsimp only
    split <;> rfl
  rw [hsame, ← hspare, spare, hm.locks.lock_of_idle hidle, mul_zero, sub_zero]

/-! ### Runs -/

theorem bidding_start {c : WalletConfig Rat} (hs : (start c).split? name = some pair)
    (hne : pair.asset ≠ pair.quote) (hfee : 0 ≤ c.makerFee)
    (hfunds : ∀ k x, c.assets.get? k = some x → 0 ≤ x) : Bidding name pair (start c) where
  split := hs
  apart := hne
  fee := hfee
  log := logOk_start c
  locks := lockOk_start c
  unowed := free_start_nonneg hfunds _
  bids := fun o ho => by cases ho

/-- What new bids and all other steps keep holds at every moment of a run. -/
theorem bids_induction {I : Wallet Rat → Prop} {es : List (Event Rat)}
    (hbidding : ∀ v, I v → Bidding name pair v)
    (hplaced : ∀ v quantity price, I v → I (v.after (.place (.limit .buy name quantity price))))
    (hstep : ∀ e v v', (∀ t, e ≠ .place t) → Step e v v' → I v → I v')
    (hes : ∀ e ∈ es, e.Bids name) (hw : I w) : ∀ m, w.Passes es m → I m := by
  have hasc : ∀ v, I v → v.Ascending := fun v hv => (hbidding v hv).log.ascending
  refine passes_of_events (P := Event.Bids name) (fun e v he hv => ?_) (fun c v n _ hv => ?_)
    hes hw
  · cases e with
    | place t =>
      obtain ⟨quantity, price, rfl⟩ := he
      exact hplaced v quantity price hv
    | _ => exact induction_of_steps hstep (by simp) (steps_of_after (hasc v hv) _) hv
  · exact midway_induction hasc hstep (by simp) hv n

theorem Bidding.run {es : List (Event Rat)} (hw : Bidding name pair w)
    (hes : ∀ e ∈ es, e.Bids name) : Bidding name pair (w.run es) :=
  bids_induction (fun _ h => h) (fun _ quantity price h => h.placed quantity price)
    (fun _ _ _ he hs h => hs.bidding he h) hes hw _ (.between (List.append_nil es).symm)

theorem free_nonneg_of_no_fee {es : List (Event Rat)} (hw : Bidding name pair w)
    (hfee : w.makerFee = 0) (hfree : 0 ≤ (w.holding pair.quote).free)
    (hes : ∀ e ∈ es, e.Bids name) :
    ∀ m, w.Passes es m → 0 ≤ (m.holding pair.quote).free := by
  have hspare : ∀ v : Wallet Rat, v.makerFee = 0 → v.spare pair = (v.holding pair.quote).free :=
    fun v hv => by rw [spare, hv, zero_mul, sub_zero]
  have hbidding : ∀ v : Wallet Rat,
      Bidding name pair v ∧ v.makerFee = 0 ∧ 0 ≤ (v.holding pair.quote).free →
      Bidding name pair v := fun _ h => h.1
  intro m hm
  refine (bids_induction hbidding ?_ ?_ hes ⟨hw, hfee, hfree⟩ m hm).2.2
  · rintro v quantity price ⟨hv, hfee, hfree⟩
    refine ⟨hv.placed quantity price, ?_⟩
    rw [after_bid hv]
    split
    next h =>
      obtain ⟨-, -, hfunds⟩ := h
      rw [hfee] at hfunds
      refine ⟨hfee, ?_⟩
      rw [(holding_withBid v name hv.apart ..).2.1]
      linarith
    · exact ⟨hfee, hfree⟩
  · rintro e v v' he hs ⟨hv, hfee, hfree⟩
    have hfee' : v'.makerFee = 0 := hs.terms.2.1.trans hfee
    have hle := hs.spare_le he hv
    rw [hspare v hfee, hspare v' hfee'] at hle
    exact ⟨hs.bidding he hv, hfee', hfree.trans hle⟩

theorem free_nonneg_of_no_funds {es : List (Event Rat)} (hw : Bidding name pair w)
    (horders : w.orders = []) (hfree : (w.holding pair.quote).free = 0)
    (hes : ∀ e ∈ es, e.Bids name) :
    ∀ m, w.Passes es m → 0 ≤ (m.holding pair.quote).free := by
  have hbidding : ∀ v : Wallet Rat,
      Bidding name pair v ∧ v.orders = [] ∧ (v.holding pair.quote).free = 0 →
      Bidding name pair v := fun _ h => h.1
  intro m hm
  refine (bids_induction hbidding ?_ ?_ hes ⟨hw, horders, hfree⟩ m hm).2.2.ge
  · rintro v quantity price ⟨hv, horders, hfree⟩
    refine ⟨hv.placed quantity price, ?_⟩
    rw [after_bid hv, if_neg]
    · exact ⟨horders, hfree⟩
    · rintro ⟨hq, hp, hfunds⟩
      have hvalue := mul_pos hq hp
      have hcost := mul_nonneg hvalue.le hv.fee
      linarith
  · rintro e v v' he hs ⟨hv, horders, hfree⟩
    refine ⟨hs.bidding he hv, ?_⟩
    have hnone : ∀ {o}, o ∉ v.orders := fun {o} ho => by
      rw [horders] at ho
      cases ho
    cases hs with
    | trade => exact absurd rfl (he _)
    | rest => exact absurd rfl (he _)
    | link => exact absurd rfl (he _)
    | withdraw ho => exact absurd ho hnone
    | note => exact ⟨horders, hfree⟩
    | fill ho => exact absurd ho hnone
    | mark => exact ⟨horders, hfree⟩

/-- Where there is a fee and something to bid with, two bids can be placed that it does not pay for:
the first one leaves free no more than its fee, and the second one takes that. -/
theorem exists_unpayable_bids (hw : Bidding name pair w) (horders : w.orders = [])
    (hfee : 0 < w.makerFee) (hfree : 0 < (w.holding pair.quote).free) :
    ∃ es, (∀ e ∈ es, e.Bids name) ∧ ((w.run es).holding pair.quote).free < 0 := by
  have hrate : 0 < 1 + w.makerFee := by linarith
  obtain ⟨high, hhigh⟩ : ∃ high, (1 + w.makerFee) * high = (w.holding pair.quote).free :=
    ⟨_, mul_div_cancel₀ _ hrate.ne'⟩
  obtain ⟨low, hlow⟩ : ∃ low, (1 + w.makerFee) * low = w.makerFee * high :=
    ⟨_, mul_div_cancel₀ _ hrate.ne'⟩
  have hhigh0 : 0 < high := (mul_pos_iff_of_pos_left hrate).1 (hhigh ▸ hfree)
  have hlow0 : 0 < low := (mul_pos_iff_of_pos_left hrate).1 (hlow ▸ mul_pos hfee hhigh0)
  have hspare : w.spare pair = (w.holding pair.quote).free := by
    rw [spare, hw.locks.lock_of_idle (by simp [horders]), mul_zero, sub_zero]
  obtain ⟨hfirst, hv⟩ := hw.withBid one_pos hhigh0 (by linarith)
  have hleft := (holding_withBid w name hw.apart 1 high).2.1
  obtain ⟨hsecond, hu⟩ := hv.withBid one_pos hlow0 (by
    rw [hleft]
    show _ + _ * w.makerFee ≤ _
    linarith)
  have hle : low ≤ high := le_of_mul_le_mul_left (by linarith) hrate
  have hbelow : ∀ o ∈ ((w.withBid name pair 1 high).withBid name pair 1 low).orders,
      o.resting = true → low ≤ o.price := by
    intro o ho _
    rw [mem_withBid, mem_withBid, horders] at ho
    rcases ho with (ho | rfl) | rfl
    · cases ho
    · exact hle
    · exact le_rfl
  refine ⟨[.place (.limit .buy name 1 high), .place (.limit .buy name 1 low),
    .candle { (default : Candle Rat) with pair := name, close := low }],
    by simp [Event.Bids, Event.Waits], ?_⟩
  simp only [run, List.foldl_cons, List.foldl_nil]
  rw [hfirst, hsecond, after, free_quote_of_low hu rfl hbelow, spare_withBid _ hw.apart,
    spare_withBid _ hw.apart, hspare]
  show _ - (1 + w.makerFee) * _ < 0
  have hpaid := mul_pos hfee hhigh0
  linarith

/-- In a wallet that nothing but bids on one pair is asked of, what is free of the quote never falls
below nothing, whatever the bids are, exactly if there is no fee or nothing to bid with. While the
bids of a run are left to the market, no less than what is spare is ever free, and a candle below
all of them leaves just that. -/
theorem bids_payable_iff {c : WalletConfig Rat} (hs : (start c).split? name = some pair)
    (hne : pair.asset ≠ pair.quote) (hfee : 0 ≤ c.makerFee)
    (hfunds : ∀ k x, c.assets.get? k = some x → 0 ≤ x) :
    ((∀ es, (∀ e ∈ es, e.Bids name) → ∀ m, (start c).Passes es m →
        0 ≤ (m.holding pair.quote).free) ↔
      c.makerFee = 0 ∨ ((start c).holding pair.quote).free = 0) ∧
    ∀ es, (∀ e ∈ es, e.Bids name) →
      (∀ fs, (∀ e ∈ fs, e.Waits name) → ∀ m, ((start c).run es).Passes fs m →
        ((start c).run es).spare pair ≤ (m.holding pair.quote).free) ∧
      ∀ bar : Candle Rat, bar.pair = name →
        (∀ o ∈ ((start c).run es).orders, o.resting = true → bar.close ≤ o.price) →
        ((((start c).run es).observe bar).holding pair.quote).free =
          ((start c).run es).spare pair := by
  have hw := bidding_start hs hne hfee hfunds
  have hfree := free_start_nonneg hfunds pair.quote
  refine ⟨⟨fun h => ?_, fun h es hes => ?_⟩, fun es hes => ⟨fun fs hfs m hm => ?_, ?_⟩⟩
  · by_contra hnot
    obtain ⟨hpaid, hfunded⟩ := not_or.1 hnot
    obtain ⟨es, hes, hneg⟩ := exists_unpayable_bids hw rfl (lt_of_le_of_ne hfee (Ne.symm hpaid))
      (lt_of_le_of_ne hfree (Ne.symm hfunded))
    exact absurd (h es hes _ (.between (List.append_nil es).symm)) (not_le.2 hneg)
  · rcases h with h | h
    · exact free_nonneg_of_no_fee hw h hfree hes
    · exact free_nonneg_of_no_funds hw rfl h hes
  · obtain ⟨hm, hle⟩ := (hw.run hes).waits hfs m hm
    exact hle.trans hm.spare_le_free
  · exact fun bar hn hlow => free_quote_of_low (hw.run hes) hn hlow

/-- A coin is bid for at 50, which leaves 50 free, and another one at 45, which takes 45 of that. -/
def twoBids : List (Event Rat) :=
  [.place (.limit .buy "BTCUSDT" 1 50), .place (.limit .buy "BTCUSDT" 1 45)]

theorem twoBids_bids : ∀ e ∈ twoBids, e.Bids "BTCUSDT" := by
  simp [twoBids, Event.Bids]

theorem split?_feePaying : (start feePaying).split? "BTCUSDT" = some ⟨"BTC", "USDT"⟩ := by
  decide +kernel

theorem feePaying_nonneg : ∀ k x, feePaying.assets.get? k = some x → 0 ≤ x := by
  intro k x hx
  have hmem := Table.mem_of_get?_ofList hx
  simp only [List.mem_singleton, Prod.mk.injEq] at hmem
  rw [hmem.2]
  decide

/-- The 5 that are left do not pay the fee of the 95 that are locked. -/
theorem bids_payable_twoBids :
    ((((start feePaying).run twoBids).observe (bar 45 45)).holding "USDT").free = -9 / 2 := by
  have hiff := bids_payable_iff split?_feePaying (by decide)
    (by decide +kernel) feePaying_nonneg
  have hbelow : ∀ o ∈ ((start feePaying).run twoBids).orders, o.resting = true →
      (bar 45 45).close ≤ o.price := by decide +kernel
  rw [(hiff.2 twoBids twoBids_bids).2 (bar 45 45) rfl hbelow]
  decide +kernel

theorem bids_not_payable :
    (start feePaying).split? "BTCUSDT" = some ⟨"BTC", "USDT"⟩ ∧ 0 ≤ feePaying.makerFee ∧
    (∀ k x, feePaying.assets.get? k = some x → 0 ≤ x) ∧
    ¬ ∀ es, (∀ e ∈ es, e.Bids "BTCUSDT") → ∀ m, (start feePaying).Passes es m →
      0 ≤ (m.holding "USDT").free := by
  refine ⟨split?_feePaying, by decide +kernel, feePaying_nonneg, fun h => ?_⟩
  have hes : ∀ e ∈ twoBids ++ [.candle (bar 45 45)], e.Bids "BTCUSDT" := by
    simp [twoBids, Event.Bids, Event.Waits, bar]
  exact absurd (h _ hes _ (.between (List.append_nil _).symm)) (by decide +kernel)

end Candlewick.Wallet
