import Candlewick.Proofs.Wallet.Admission

/-! # Solvency

Whether the free quote stays above nothing. Orders are covered when they are placed: what executes
at once is paid for there and then (`free_quote_execute`), and for what rests its cover is held back
(`free_quote_reserve`). An order that rests is not covered again when a candle executes it, and by
then the short that its cover counted may be gone, or a new one may be open. So the free quote can
fall below nothing at the execution of a resting order and nowhere else, and it does where the order
is not `Affordable` (`free_quote_run`, `affordable_of_free_quote`). Where the asset is never owed,
what an order holds back pays for it on its own (`Backs`). -/

namespace Candlewick.Wallet
variable {name : String} {pair : Pair} {w w' : Wallet Rat}

/-- Whether the account can pay for the execution of a resting order: what it opens costs no more
than the free quote, with what the order holds back, and what it closes sets free. -/
def Affordable (w : Wallet Rat) (pair : Pair) (o : Order Rat) (price : Rat) : Prop :=
  let v := w.release (owner o)
  let free := (v.holding pair.asset).free
  match o.side with
  | .sell =>
    let closed := min (max free 0) o.quantity
    (o.quantity - closed) * price ≤ (v.holding pair.quote).free + closed * price
  | .buy =>
    let closed := min (max (-free) 0) o.quantity
    (o.quantity - closed) * price ≤
      (v.holding pair.quote).free + closed * (2 * v.shortAverage.getD o.pair price - price)

/-- What holds at every moment of a run on one pair that closes at positive prices. -/
structure Funded (name : String) (pair : Pair) (w : Wallet Rat) : Prop where
  market : OneMarket name pair w
  log : w.LogOk
  locks : w.LockOk
  sized : Sized w
  priced : ∀ k p, w.lastPrice? k = some p → 0 < p

theorem Step.funded {e : Event Rat} (he : e.Priced) (h : Step e w w') (hw : Funded name pair w) :
    Funded name pair w' := by
  refine ⟨h.oneMarket hw.market, h.logOk hw.log, h.lockOk hw.log hw.locks, h.sized hw.sized, ?_⟩
  cases h with
  | trade => simpa [lastPrice?, log] using hw.priced
  | rest => exact hw.priced
  | link => exact hw.priced
  | withdraw => simpa [lastPrice?] using hw.priced
  | @note _ c =>
    intro k p hp
    have hp : ((w.last.set c.pair ⟨c.time, c.close⟩).get? k).map (·.value) = some p := hp
    rw [Table.get?_set] at hp
    split at hp
    · cases hp
      exact he
    · exact hw.priced k p hp
  | fill ho hr hn ht hs => simpa [lastPrice?, fill_eq hs] using hw.priced
  | mark => exact hw.priced

theorem Funded.midway {c : Candle Rat} (hw : Funded name pair w) (hc : 0 < c.close) (n : Nat) :
    Funded name pair (w.midway c n) :=
  midway_induction (fun _ h => h.log.ascending) (fun _ _ _ he hs h => hs.funded he h)
    (P := Event.Priced) hc hw n

theorem Funded.run {es : List (Event Rat)} (hw : Funded name pair w)
    (hes : ∀ e ∈ es, e.Priced) : Funded name pair (w.run es) :=
  run_induction (fun _ h => h.log.ascending) (fun _ _ _ he hs h => hs.funded he h) hes hw

theorem Funded.run_prefix {es fs gs : List (Event Rat)} (hw : Funded name pair w)
    (hes : ∀ e ∈ es, e.On name ∧ e.Priced) (h : es = fs ++ gs) : Funded name pair (w.run fs) :=
  hw.run fun e he => (hes e (h ▸ List.mem_append_left _ he)).2

/-- An execution of a resting order leaves no debt exactly if the account can pay for it. -/
theorem free_quote_fill_iff {o : Order Rat} (hw : OneMarket name pair w) (hn : o.pair = name)
    (price : Rat) (time : Instant) :
    0 ≤ ((w.fill o price time).holding pair.quote).free ↔ w.Affordable pair o price := by
  subst hn
  rw [holding_fill hw.split, hw.makerFee, free_execute_quote hw.apart, mul_zero, sub_zero]
  unfold Affordable
  cases o.side with
  | sell =>
    rw [quoteChange_sell]
    dsimp only
    constructor <;> intro h <;> linarith
  | buy =>
    rw [quoteChange_buy]
    dsimp only
    constructor <;> intro h <;> linarith

/-! ### Runs -/

theorem Step.free_quote_nonneg {e : Event Rat} (he : e.On name) (hbroker : ∀ c, e ≠ .candle c)
    (h : Step e w w') (hw : Funded name pair w) (hfree : 0 ≤ (w.holding pair.quote).free) :
    0 ≤ (w'.holding pair.quote).free := by
  cases e with
  | place t =>
    obtain rfl : t.pair = name := he
    exact h.free_quote_placed hw.market.split hw.market.apart hw.market.makerFee.ge
      ⟨hw.market.takerFee.ge, hw.market.takerFee.trans_le zero_le_one⟩ (hw.priced _) hfree
  | cancel =>
    cases h with
    | withdraw => exact hfree.trans (hw.locks.free_le_release ..)
  | candle c => exact absurd rfl (hbroker c)

theorem free_quote_midway {c : Candle Rat} (hw : Funded name pair w) (hn : c.pair = name)
    (hc : 0 < c.close) (hfree : 0 ≤ (w.holding pair.quote).free)
    (hafford : ∀ n o price, (w.touched c)[n]? = some o → trigger? o c = some price →
      (∃ p ∈ (w.midway c n).orders, p.id = o.id ∧ p.resting = true) →
      0 ≤ ((w.midway c n).holding pair.quote).free → (w.midway c n).Affordable pair o price)
    (n : Nat) :
    0 ≤ ((w.midway c n).holding pair.quote).free := by
  induction n with
  | zero => exact hfree
  | succ n ih =>
    cases ho : (w.touched c)[n]? with
    | none => rwa [midway_succ_of_none w c ho]
    | some o =>
      have htouched := (mem_touched.1 (List.mem_of_getElem? ho)).2.1
      rw [midway_succ w c ho]
      rcases tryFill_eq_or (w.midway c n) c o with heq | ⟨price, ht, hr, heq⟩
      · rwa [heq]
      · rw [heq, free_quote_fill_iff (hw.midway hc n).market (htouched.trans hn)]
        exact hafford n o price ho ht hr ih

/-- At no moment of a run is there a debt if each execution of a resting order can be paid for. -/
theorem free_quote_run {es : List (Event Rat)} (hw : Funded name pair w)
    (hes : ∀ e ∈ es, e.On name ∧ e.Priced) (hfree : 0 ≤ (w.holding pair.quote).free)
    (hafford : ∀ m o price, w.Executes es m o price → 0 ≤ (m.holding pair.quote).free →
      m.Affordable pair o price) :
    ∀ m, w.Passes es m → 0 ≤ (m.holding pair.quote).free := by
  refine passes_induction hfree (fun fs e gs h hcandle hfs => ?_) (fun fs c gs h hfs n => ?_)
    fun _ _ hm => hm
  all_goals
    have he := hes _ (h ▸ List.mem_append_cons_self)
    have hfunded := hw.run_prefix hes h
  · rcases after_eq_or_step (w.run fs) hcandle with heq | hs
    · rwa [heq]
    · exact hs.free_quote_nonneg he.1 hcandle hfunded hfs
  · exact free_quote_midway hfunded he.1 he.2 hfs
      (fun n o price ho ht hr => hafford _ o price (.intro h ho ht hr)) n

theorem affordable_of_free_quote {es : List (Event Rat)} (hw : Funded name pair w)
    (hes : ∀ e ∈ es, e.On name ∧ e.Priced)
    (hfree : ∀ m, w.Passes es m → 0 ≤ (m.holding pair.quote).free) {m : Wallet Rat}
    {o : Order Rat} {price : Rat} (h : w.Executes es m o price) : m.Affordable pair o price := by
  cases h with
  | @intro fs gs c n _ _ h ho ht hr =>
    obtain ⟨hn, hc⟩ := hes (.candle c) (h ▸ List.mem_append_cons_self)
    have hfs := hw.run_prefix hes h
    have htouched := (mem_touched.1 (List.mem_of_getElem? ho)).2.1
    have hnext := hfree _ (.midway h (n + 1))
    rw [midway_succ _ c ho, tryFill_of_resting ht hr] at hnext
    exact (free_quote_fill_iff (hfs.midway hc n).market (htouched.trans hn) price c.time).1 hnext

/-! ### Accounts that owe nothing of the asset -/

/-- What is held back for an order pays for its execution on its own, at whatever price a candle
executes it. -/
structure Backs (pair : Pair) (r : Reservation Rat) (o : Order Rat) : Prop where
  pair : r.pair = pair
  sold : r.assetQuantity ≤ o.quantity
  pays : ∀ c price, trigger? o c = some price → 0 < price ∧
    match o.side with
    | .sell => (o.quantity - r.assetQuantity) * price ≤ r.quoteQuantity
    | .buy => o.quantity * price ≤ r.quoteQuantity

/-- Every resting order is backed. -/
def Backed (pair : Pair) (w : Wallet Rat) : Prop :=
  ∀ o ∈ w.orders, o.status = .new → ∀ r, w.reservations.get? (owner o) = some r → Backs pair r o

/-- What covers an order backs it where nothing of the asset is owed. -/
theorem backs_of_cover {side : Side} {quantity top : Rat} {r : Reservation Rat} {o : Order Rat}
    (hq : 0 < quantity) (hc : w.cover side name pair quantity top 0 = .ok r)
    (hfree : 0 ≤ (w.holding pair.asset).free) (hside : o.side = side)
    (hquantity : o.quantity = quantity)
    (htop : ∀ c price, trigger? o c = some price → 0 < price ∧ price ≤ top) : Backs pair r o := by
  cases side with
  | sell =>
    obtain ⟨rfl, -⟩ := cover_sell_ok hc
    refine ⟨rfl, hquantity ▸ min_le_right .., fun c price ht => ⟨(htop c price ht).1, ?_⟩⟩
    rw [hside, hquantity]
    exact mul_le_mul_of_nonneg_left (htop c price ht).2 (sub_nonneg.2 (min_le_right ..))
  | buy =>
    obtain ⟨rfl, -⟩ := cover_buy_ok hc
    refine ⟨rfl, hquantity ▸ hq.le, fun c price ht => ⟨(htop c price ht).1, ?_⟩⟩
    rw [hside, hquantity, max_eq_right (neg_nonpos.2 hfree), min_eq_left hq.le]
    have hle := mul_le_mul_of_nonneg_left (htop c price ht).2 hq.le
    exact le_max_of_le_left (by linarith)

/-- An order that is backed can be paid for where neither side is owed. -/
theorem affordable_of_backs {o : Order Rat} {r : Reservation Rat} {c : Candle Rat} {price : Rat}
    (hw : Funded name pair w) (hr : w.reservations.get? (owner o) = some r) (hb : Backs pair r o)
    (hq : 0 < o.quantity) (ht : trigger? o c = some price)
    (hasset : 0 ≤ (w.holding pair.asset).free) (hquote : 0 ≤ (w.holding pair.quote).free) :
    w.Affordable pair o price := by
  obtain ⟨hp, hpays⟩ := hb.pays c price ht
  obtain ⟨hsold, hheld⟩ := hw.locks.nonneg _ _ hr
  obtain rfl := hb.pair
  unfold Affordable
  dsimp only
  rw [free_release w hr, free_release w hr, Reservation.heldIn_asset hw.market.apart,
    Reservation.heldIn_quote hw.market.apart]
  set free := (w.holding r.pair.asset).free + r.assetQuantity with hfree
  cases hs : o.side with
  | sell =>
    rw [hs] at hpays
    dsimp only at hpays ⊢
    set closed := min (max free 0) o.quantity with hclosed
    -- what is given back is closed at least, so no more is opened than was held back for
    have hmore : r.assetQuantity ≤ closed :=
      le_min (le_max_of_le_left (by linarith)) hb.sold
    have hless : (o.quantity - closed) * price ≤ (o.quantity - r.assetQuantity) * price :=
      mul_le_mul_of_nonneg_right (by linarith) hp.le
    have hgain : 0 ≤ closed * price := mul_nonneg (hsold.trans hmore) hp.le
    linarith
  | buy =>
    rw [hs] at hpays
    dsimp only at hpays ⊢
    rw [max_eq_right (by linarith), min_eq_left hq.le]
    linarith

/-- A step keeps every resting order backed, as long as nothing of the asset is owed when orders are
placed. -/
theorem Step.backed {e : Event Rat} (he : e.On name) (h : Step e w w') (hw : Funded name pair w)
    (hfree : ∀ t, e = .place t → 0 ≤ (w.holding pair.asset).free) (hb : Backed pair w) :
    Backed pair w' := by
  refine h.held (P := Backs pair) hw.log (fun t p r o ht hs _ hadmits => ?_) hb
  subst ht
  obtain rfl : t.pair = name := he
  obtain rfl := hw.market.pair_eq hs
  obtain ⟨hq, top, -, hc, htop⟩ := hadmits
  rw [hw.market.makerFee] at hc
  exact backs_of_cover hq hc (hfree t rfl) rfl rfl htop

theorem backed_run {es : List (Event Rat)} (hw : Funded name pair w)
    (hes : ∀ e ∈ es, e.On name ∧ e.Priced) (hb : Backed pair w)
    (hasset : ∀ m, w.Passes es m → 0 ≤ (m.holding pair.asset).free) :
    ∀ m, w.Passes es m → Backed pair m := by
  refine passes_induction hb (fun fs e gs h hcandle hfs => ?_) (fun fs c gs h hfs n => ?_)
    fun _ _ hm => hm
  all_goals
    have he := hes _ (h ▸ List.mem_append_cons_self)
    have hfunded := hw.run_prefix hes h
  · rcases after_eq_or_step (w.run fs) hcandle with heq | hs
    · rwa [heq]
    · exact hs.backed he.1 hfunded (fun _ _ => hasset _ (.between h)) hfs
  · have hstep : ∀ e v v', e = .candle c → Step e v v' → Funded name pair v ∧ Backed pair v →
        Funded name pair v' ∧ Backed pair v' := by
      rintro _ v v' rfl hs ⟨hv, hbv⟩
      exact ⟨hs.funded he.2 hv, hs.backed he.1 hv (fun t ht => by cases ht) hbv⟩
    exact (midway_induction (P := (· = .candle c)) (fun _ h => h.1.log.ascending) hstep rfl
      ⟨hfunded, hfs⟩ n).2

theorem affordable_of_executes {es : List (Event Rat)} (hw : Funded name pair w)
    (hes : ∀ e ∈ es, e.On name ∧ e.Priced) {m : Wallet Rat} {o : Order Rat} {price : Rat}
    (h : w.Executes es m o price) (hb : Backed pair m)
    (hasset : 0 ≤ (m.holding pair.asset).free) (hquote : 0 ≤ (m.holding pair.quote).free) :
    m.Affordable pair o price := by
  cases h with
  | @intro fs gs c n _ _ h ho ht hr =>
    obtain ⟨p, hp, hid, hpr⟩ := hr
    have hfs := hw.run_prefix hes h
    have hm := hfs.midway (hes (.candle c) (h ▸ List.mem_append_cons_self)).2 n
    have hn := Order.resting_iff.1 hpr
    obtain rfl := LogOk.eq_of_extends hm.log (hfs.log.midway c n).2
      (mem_touched.1 (List.mem_of_getElem? ho)).1 hp hid hn
    obtain ⟨r, hr⟩ := hm.locks.reserved hp hn
    exact affordable_of_backs hm hr (hb p hp hn r hr) (hm.sized p hp) ht hasset hquote

theorem funded_start {c : WalletConfig Rat} (hm : OneMarket name pair (start c)) :
    Funded name pair (start c) where
  market := hm
  log := logOk_start c
  locks := lockOk_start c
  sized := fun o ho => by cases ho
  priced := fun k p hp => by cases hp

/-- On one market without fees that closes at positive prices, the free quote is never below nothing
exactly if every resting order can be paid for at the moment of its execution; and it never is where
the asset is never owed. -/
theorem free_quote_nonneg_iff {c : WalletConfig Rat} (hm : OneMarket name pair (start c))
    (hfunds : ∀ k x, c.assets.get? k = some x → 0 ≤ x) {es : List (Event Rat)}
    (hes : ∀ e ∈ es, e.On name ∧ e.Priced) :
    ((∀ m, (start c).Passes es m → 0 ≤ (m.holding pair.quote).free) ↔
      ∀ m o price, (start c).Executes es m o price → m.Affordable pair o price) ∧
    ((∀ m, (start c).Passes es m → 0 ≤ (m.holding pair.asset).free) →
      ∀ m, (start c).Passes es m → 0 ≤ (m.holding pair.quote).free) := by
  have hw := funded_start hm
  have hstart := free_start_nonneg hfunds pair.quote
  refine ⟨⟨fun hfree m o price h => affordable_of_free_quote hw hes hfree h, fun hafford =>
    free_quote_run hw hes hstart fun m o price h _ => hafford m o price h⟩, fun hasset => ?_⟩
  have hbacked : ∀ m, (start c).Passes es m → Backed pair m :=
    backed_run hw hes (fun o ho => by cases ho) hasset
  exact free_quote_run hw hes hstart fun m o price h hquote =>
    affordable_of_executes hw hes h (hbacked m h.passes) (hasset m h.passes) hquote

/-- Another coin is sold short, for all the quote there is, and then the market reaches the price at
which the first one is offered. -/
def soldTwice : List (Event Rat) :=
  offered ++ [.place (.market .sell "BTCUSDT" 1), .candle (bar 200 200)]

theorem soldTwice_on_priced : ∀ e ∈ soldTwice, e.On "BTCUSDT" ∧ e.Priced := by
  simp [soldTwice, offered, Event.On, Event.Priced, bar, Ticket.pair]

theorem free_quote_soldTwice : (((start oneCoin).run soldTwice).holding "USDT").free = -200 := by
  decide +kernel

theorem not_affordable_soldTwice :
    (∀ e ∈ soldTwice, e.On "BTCUSDT" ∧ e.Priced) ∧
    ¬ ∀ m o price, (start oneCoin).Executes soldTwice m o price →
      m.Affordable ⟨"BTC", "USDT"⟩ o price := by
  refine ⟨soldTwice_on_priced, fun hafford => ?_⟩
  have hiff := (free_quote_nonneg_iff oneMarket_oneCoin oneCoin_nonneg soldTwice_on_priced).1
  have hfree := hiff.2 hafford _ (.between (List.append_nil _).symm)
  rw [free_quote_soldTwice] at hfree
  exact absurd hfree (by decide)

/-- The offer opens another short, which nothing pays for: the coin that it held back closes the
first one as soon as it is given back. -/
theorem free_quote_not_kept :
    OneMarket "BTCUSDT" ⟨"BTC", "USDT"⟩ (start oneCoin) ∧
    (∀ k x, oneCoin.assets.get? k = some x → 0 ≤ x) ∧
    (∀ e ∈ soldTwice, e.On "BTCUSDT" ∧ e.Priced) ∧
    (((start oneCoin).run soldTwice).holding "USDT").free < 0 :=
  ⟨oneMarket_oneCoin, oneCoin_nonneg, soldTwice_on_priced, free_quote_soldTwice ▸ by decide⟩

end Candlewick.Wallet
