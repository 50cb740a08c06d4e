import Candlewick.Proofs.Wallet.OneMarket

/-! # What a candle executes

A candle goes through the log once, the oldest order first. It executes an order that rests on its
pair and whose price or stop it reaches (`Reaches`), unless it has executed the order that is linked
to it before. `Takes` says this of a place in the log by the log and the candle alone: what the
account holds plays no part in it. `Outcome` says what becomes of the order at a place, when it is
known which places are taken.

The log in the middle of a candle is the one before with the outcomes of the places that were taken
so far (`Partway`). An execution adds a place (`Outcome.execute`), and what is gone past without one
is no place of those (`Partway.visit`). That no execution is given up for want of a pair is due to
how orders come into the log (`fillable_run`). -/

namespace Candlewick.Wallet
variable {α : Type} [Amount α] {c : Candle α} {o p q : Order α} {price : α}

/-! ### Triggers -/

/-- A candle reaches an order at a price. -/
inductive Reaches (c : Candle α) (o : Order α) : α → Prop where
  /-- The close is down at the limit of a purchase. -/
  | bid (hk : o.kind.limitLike = true) (hs : o.side = .buy) (h : Amount.le c.close o.price = true) :
    Reaches c o o.price
  /-- The high is up at the limit of a sale. -/
  | offer (hk : o.kind.limitLike = true) (hs : o.side = .sell)
    (h : Amount.le o.price c.high = true) : Reaches c o o.price
  /-- The low is down at the stop of a sale. -/
  | stopSale {stop : α} (hk : o.kind.stopLike = true) (hstop : o.stop = some stop)
    (hs : o.side = .sell) (h : Amount.le c.low stop = true) : Reaches c o stop
  /-- The high is up at the stop of a purchase. -/
  | stopPurchase {stop : α} (hk : o.kind.stopLike = true) (hstop : o.stop = some stop)
    (hs : o.side = .buy) (h : Amount.le stop c.high = true) : Reaches c o stop

theorem not_limitLike_of_stopLike {k : OrderKind} (h : k.stopLike = true) :
    k.limitLike = false := by
  cases k <;> first | rfl | cases h

theorem trigger?_of_reaches (h : Reaches c o price) : trigger? o c = some price := by
  cases h with
  | bid hk hs h => simp [trigger?, hk, hs, h]
  | offer hk hs h => simp [trigger?, hk, hs, h]
  | stopSale hk hstop hs h => simp [trigger?, not_limitLike_of_stopLike hk, hk, hstop, hs, h]
  | stopPurchase hk hstop hs h => simp [trigger?, not_limitLike_of_stopLike hk, hk, hstop, hs, h]

theorem reaches_of_trigger? (hstop : o.kind.stopLike = true → o.stop.isSome = true)
    (h : trigger? o c = some price) : Reaches c o price := by
  unfold trigger? at h
  by_cases hl : o.kind.limitLike = true
  · rw [if_pos hl] at h
    cases hs : o.side with
    | buy =>
      simp only [hs, Option.ite_none_right_eq_some] at h
      obtain ⟨hle, heq⟩ := h
      exact Option.some.inj heq ▸ .bid hl hs hle
    | sell =>
      simp only [hs, Option.ite_none_right_eq_some] at h
      obtain ⟨hle, heq⟩ := h
      exact Option.some.inj heq ▸ .offer hl hs hle
  · rw [if_neg hl, Option.ite_none_right_eq_some] at h
    obtain ⟨hk, h⟩ := h
    obtain ⟨stop, hst⟩ := Option.isSome_iff_exists.1 (hstop hk)
    cases hs : o.side with
    | buy =>
      simp only [hs, hst, Option.getD_some, Option.ite_none_right_eq_some] at h
      obtain ⟨hle, heq⟩ := h
      exact Option.some.inj heq ▸ .stopPurchase hk hst hs hle
    | sell =>
      simp only [hs, hst, Option.getD_some, Option.ite_none_right_eq_some] at h
      obtain ⟨hle, heq⟩ := h
      exact Option.some.inj heq ▸ .stopSale hk hst hs hle

theorem Reaches.unique {price' : α} (h : Reaches c o price) (h' : Reaches c o price') :
    price = price' :=
  Option.some.inj ((trigger?_of_reaches h).symm.trans (trigger?_of_reaches h'))

/-! ### Places in the log -/

/-- A candle executes the order at a place of the log: it rests on the pair of the candle, which
reaches it, and none that it is linked to and that stands earlier is executed by the candle. -/
def Takes (c : Candle α) (os : List (Order α)) (i : Nat) : Prop :=
  ∃ o, os[i]? = some o ∧ o.status = .new ∧ o.pair = c.pair ∧ (∃ price, Reaches c o price) ∧
    ∀ j, (_ : j < i) → ∀ p, os[j]? = some p → linked p o = true → ¬ Takes c os j
termination_by i

/-- What becomes of the order `o` at the place `i` of a log when a candle takes the places `T`. -/
inductive Outcome (c : Candle α) (os : List (Order α)) (T : Nat → Prop) (i : Nat) (o : Order α) :
    Order α → Prop where
  /-- It is executed. -/
  | filled {price : α} (hi : T i) (hr : Reaches c o price) :
    Outcome c os T i o { o with status := .filled, price, updated := .at c.time }
  /-- An order that it is linked to is executed. -/
  | withdrawn {j : Nat} {p : Order α} (hi : ¬ T i) (hn : o.status = .new) (hj : T j)
    (hp : os[j]? = some p) (hl : linked p o = true) :
    Outcome c os T i o { o with status := .canceled, updated := .at c.time }
  /-- Neither. -/
  | kept (hi : ¬ T i)
    (hl : o.status = .new → ∀ j p, T j → os[j]? = some p → linked p o = false) :
    Outcome c os T i o o

namespace Outcome
variable {os : List (Order α)} {T : Nat → Prop} {i n : Nat}

theorem unique (hp : Outcome c os T i o p) (hq : Outcome c os T i o q) : p = q := by
  cases hp with
  | filled hi hr =>
    cases hq with
    | filled _ hr' => rw [hr.unique hr']
    | withdrawn hi' => exact absurd hi hi'
    | kept hi' => exact absurd hi hi'
  | withdrawn hi hn hj hp hl =>
    cases hq with
    | filled hi' => exact absurd hi' hi
    | withdrawn => rfl
    | kept _ hl' => rw [hl' hn _ _ hj hp] at hl; cases hl
  | kept hi hl =>
    cases hq with
    | filled hi' => exact absurd hi' hi
    | withdrawn _ hn hj hp hl' => rw [hl hn _ _ hj hp] at hl'; cases hl'
    | kept => rfl

theorem id_eq (h : Outcome c os T i o p) : p.id = o.id := by
  cases h <;> rfl

/-- What still rests is what it was, and none that is linked to it is taken. -/
theorem of_resting (h : Outcome c os T i o p) (hr : p.resting = true) :
    p = o ∧ ∀ j q, T j → os[j]? = some q → linked q o = false := by
  cases h with
  | filled => cases hr
  | withdrawn => cases hr
  | kept _ hl => exact ⟨rfl, hl (Order.resting_iff.1 hr)⟩

/-- What is not taken rests as long as nothing is taken that it is linked to. -/
theorem eq_of_free (h : Outcome c os T i o p) (hi : ¬ T i)
    (hl : ∀ j q, T j → os[j]? = some q → linked q o = false) : p = o := by
  cases h with
  | filled hi' => exact absurd hi' hi
  | withdrawn _ _ hj hq hl' => rw [hl _ _ hj hq] at hl'; cases hl'
  | kept => rfl

/-- An execution at another place withdraws what rests and is linked to it. -/
theorem execute (h : Outcome c os T i o p) (hi : i ≠ n) (hq : os[n]? = some q) :
    Outcome c os (fun j => T j ∨ j = n) i o (Wallet.withdrawn (linked q) (.at c.time) p) := by
  have hnot : ¬ T i → ¬ (T i ∨ i = n) := fun h => not_or.2 ⟨h, hi⟩
  cases h with
  | filled hT hr => exact .filled (.inl hT) hr
  | withdrawn hT hn hj hp hl => exact .withdrawn (hnot hT) hn (.inl hj) hp hl
  | kept hT hl =>
    by_cases hw : o.resting = true ∧ linked q o = true
    · have heq : Wallet.withdrawn (linked q) (.at c.time) o =
          { o with status := .canceled, updated := .at c.time } := by simp [Wallet.withdrawn, hw]
      rw [heq]
      exact .withdrawn (hnot hT) (Order.resting_iff.1 hw.1) (.inr rfl) hq hw.2
    · have heq : Wallet.withdrawn (linked q) (.at c.time) o = o := by
        unfold Wallet.withdrawn
        exact if_neg (by simpa using hw)
      rw [heq]
      refine .kept (hnot hT) fun hn j p hj hp => ?_
      rcases hj with hj | rfl
      · exact hl hn j p hj hp
      · obtain rfl := Option.some.inj (hp.symm.trans hq)
        exact Bool.eq_false_iff.2 fun hlink => hw ⟨Order.resting_iff.2 hn, hlink⟩

end Outcome

/-! ### One candle -/

/-- What lets every execution of the log go through: it is known what an order trades, and a stop
order has a stop. -/
structure Fillable (w : Wallet α) : Prop where
  ascending : w.Ascending
  split : ∀ o ∈ w.orders, (w.split? o.pair).isSome = true
  stop : ∀ o ∈ w.orders, o.kind.stopLike = true → o.stop.isSome = true

omit [Amount α] in
theorem Fillable.congr {w v : Wallet α} (hw : w.Fillable) (horders : v.orders = w.orders)
    (hbase : v.base = w.base) : v.Fillable where
  ascending := by unfold Ascending; rw [horders]; exact hw.ascending
  split := fun o ho => by rw [split?_congr hbase]; exact hw.split o (horders ▸ ho)
  stop := fun o ho => hw.stop o (horders ▸ ho)

omit [Amount α] in
theorem Ascending.index_eq {w : Wallet α} (h : w.Ascending) {i j : Nat}
    (hi : w.orders[i]? = some o) (hj : w.orders[j]? = some p) (hid : o.id = p.id) : i = j := by
  obtain ⟨hi', rfl⟩ := List.getElem?_eq_some_iff.1 hi
  obtain ⟨hj', rfl⟩ := List.getElem?_eq_some_iff.1 hj
  have hlt := List.pairwise_iff_getElem.1 h
  rcases Nat.lt_trichotomy i j with hij | hij | hij
  · have := hlt i j hi' hj' hij
    omega
  · exact hij
  · have := hlt j i hj' hi' hij
    omega

/-- Goes past an order of the log: tries to execute it if it rests on the pair of the candle. -/
def visit (c : Candle α) (w : Wallet α) (o : Order α) : Wallet α :=
  if o.pair = c.pair && o.resting then tryFill c w o else w

theorem fillAll_eq_foldl (w : Wallet α) (c : Candle α) :
    w.fillAll c = w.orders.foldl (visit c) w := by
  unfold fillAll
  rw [List.foldl_filter]
  rfl

/-- The places before `n` that a candle takes. -/
def takenBefore (c : Candle α) (os : List (Order α)) (n i : Nat) : Prop := i < n ∧ Takes c os i

/-- The log when a candle has gone past its first `n` orders. -/
structure Partway (c : Candle α) (w : Wallet α) (n : Nat) (v : Wallet α) : Prop where
  base : v.base = w.base
  length : v.orders.length = w.orders.length
  outcome : ∀ i o, w.orders[i]? = some o →
    ∃ p, v.orders[i]? = some p ∧ Outcome c w.orders (takenBefore c w.orders n) i o p

namespace Partway
variable {w v : Wallet α} {n : Nat}

theorem start (c : Candle α) (horders : v.orders = w.orders) (hbase : v.base = w.base) :
    Partway c w 0 v where
  base := hbase
  length := by rw [horders]
  outcome := fun i o ho => by
    have hnone : ∀ j, ¬ takenBefore c w.orders 0 j := fun j hj => Nat.not_lt_zero j hj.1
    exact ⟨o, horders ▸ ho, .kept (hnone i) fun _ j _ hj => absurd hj (hnone j)⟩

/-- Every order of the log is the outcome of one of the log before. -/
theorem of_mem (h : Partway c w n v) (hp : p ∈ v.orders) :
    ∃ i o, w.orders[i]? = some o ∧ Outcome c w.orders (takenBefore c w.orders n) i o p := by
  obtain ⟨i, hi⟩ := List.getElem?_of_mem hp
  have hlt : i < w.orders.length := by
    obtain ⟨hlt, -⟩ := List.getElem?_eq_some_iff.1 hi
    exact h.length ▸ hlt
  obtain ⟨q, hq, hout⟩ := h.outcome i _ (List.getElem?_eq_getElem hlt)
  obtain rfl := Option.some.inj (hq.symm.trans hi)
  exact ⟨i, _, List.getElem?_eq_getElem hlt, hout⟩

theorem skip (h : Partway c w n v) (hn : ¬ Takes c w.orders n) : Partway c w (n + 1) v := by
  have hset : takenBefore c w.orders (n + 1) = takenBefore c w.orders n := by
    funext i
    refine propext ⟨fun hi => ⟨?_, hi.2⟩, fun hi => ⟨Nat.lt_succ_of_lt hi.1, hi.2⟩⟩
    rcases Nat.lt_succ_iff_lt_or_eq.1 hi.1 with hlt | rfl
    · exact hlt
    · exact absurd hi.2 hn
  exact ⟨h.base, h.length, by rw [hset]; exact h.outcome⟩

/-- The execution of the next place, whose order rests. -/
theorem fill (h : Partway c w n v) (hw : w.Fillable) (hn : Takes c w.orders n)
    (ho : w.orders[n]? = some o) (hr : Reaches c o price) (hrests : v.orders[n]? = some o) :
    Partway c w (n + 1) (v.fill o price c.time) := by
  obtain ⟨pair, hs⟩ := Option.isSome_iff_exists.1 (hw.split o (List.mem_of_getElem? ho))
  have hs : v.split? o.pair = some pair := (split?_congr h.base o.pair).trans hs
  have hset : takenBefore c w.orders (n + 1) = fun i => takenBefore c w.orders n i ∨ i = n := by
    funext i
    refine propext ⟨fun hi => ?_, ?_⟩
    · exact (Nat.lt_succ_iff_lt_or_eq.1 hi.1).imp (⟨·, hi.2⟩) id
    · rintro (hi | rfl)
      · exact ⟨Nat.lt_succ_of_lt hi.1, hi.2⟩
      · exact ⟨Nat.lt_succ_self i, hn⟩
  refine ⟨?_, ?_, fun i q hq => ?_⟩
  · rw [fill_eq hs]
    simpa using h.base
  · rw [orders_fill hs, List.length_map, h.length]
  · obtain ⟨p, hp, hout⟩ := h.outcome i q hq
    refine ⟨Wallet.filled o price c.time p, by rw [orders_fill hs, List.getElem?_map, hp]; rfl, ?_⟩
    rw [hset]
    by_cases hi : i = n
    · subst hi
      obtain rfl := Option.some.inj (hq.symm.trans ho)
      obtain rfl := Option.some.inj (hp.symm.trans hrests)
      rw [Wallet.filled, if_pos rfl]
      exact .filled (.inr rfl) hr
    · rw [Wallet.filled, if_neg fun hid => hi (hw.ascending.index_eq hq ho (hout.id_eq ▸ hid))]
      exact hout.execute hi ho

/-- Going past an order executes it just where the candle takes its place. -/
theorem visit (h : Partway c w n v) (hw : w.Fillable) (ho : w.orders[n]? = some o) :
    Partway c w (n + 1) (visit c v o) := by
  by_cases hn : Takes c w.orders n
  · have htakes := hn
    rw [Takes] at hn
    obtain ⟨o', ho', hnew, hpair, ⟨price, hr⟩, hfree⟩ := hn
    obtain rfl := Option.some.inj (ho.symm.trans ho')
    have hresting := Order.resting_iff.2 hnew
    obtain ⟨p, hp, hout⟩ := h.outcome n o ho
    obtain rfl := hout.eq_of_free (fun hlt => Nat.lt_irrefl n hlt.1) fun j q hj hq =>
      Bool.eq_false_iff.2 fun hl => hfree j hj.1 q hq hl hj.2
    rw [Wallet.visit, if_pos (by simp [hpair, hresting]), tryFill_of_resting
      (trigger?_of_reaches hr) ⟨p, List.mem_of_getElem? hp, rfl, hresting⟩]
    exact h.fill hw htakes ho hr hp
  · have heq : Wallet.visit c v o = v := by
      unfold Wallet.visit
      split
      next hmine =>
        obtain ⟨hpair, hresting⟩ := Bool.and_eq_true_iff.1 hmine
        rcases tryFill_eq_or v c o with heq | ⟨price, ht, ⟨p, hp, hid, hpr⟩, -⟩
        · exact heq
        -- what rests under its identity is the order itself, and then the candle takes its place
        · obtain ⟨i, q, hq, hout⟩ := h.of_mem hp
          obtain ⟨rfl, hl⟩ := hout.of_resting hpr
          have ho' := List.mem_of_getElem? ho
          obtain rfl := hw.ascending.eq_of_id ho' (List.mem_of_getElem? hq) hid
          refine absurd ?_ hn
          rw [Takes]
          refine ⟨p, ho, Order.resting_iff.1 hresting, by simpa using hpair, ⟨price, ?_⟩, ?_⟩
          · exact reaches_of_trigger? (hw.stop p ho') ht
          · exact fun j hj s hs hlink htaken =>
              Bool.eq_false_iff.1 (hl j s ⟨hj, htaken⟩ hs) hlink
      next => rfl
    rw [heq]
    exact h.skip hn

theorem foldl_take (h : Partway c w 0 v) (hw : w.Fillable) :
    Partway c w n ((w.orders.take n).foldl (Wallet.visit c) v) := by
  induction n with
  | zero => exact h
  | succ n ih =>
    rw [List.take_add_one, List.foldl_append]
    cases ho : w.orders[n]? with
    | some o => exact ih.visit hw ho
    | none =>
      refine ih.skip fun hn => ?_
      rw [Takes] at hn
      obtain ⟨o, ho', -⟩ := hn
      rw [ho] at ho'
      cases ho'

end Partway

theorem partway_observe {w : Wallet α} (hw : w.Fillable) (c : Candle α) :
    Partway c w w.orders.length (w.observe c) := by
  have h := (Partway.start (w := w) c (v := w.note c) rfl rfl).foldl_take
    (n := w.orders.length) hw
  have hfill : (w.note c).fillAll c = w.orders.foldl (visit c) (w.note c) := fillAll_eq_foldl ..
  rw [List.take_length, ← hfill] at h
  unfold observe
  dsimp only
  split
  · exact ⟨h.base, h.length, h.outcome⟩
  · exact h

/-- The log after a candle has the outcomes of the places that the candle takes. -/
theorem outcome_observe {w : Wallet α} (hw : w.Fillable) (c : Candle α) {i : Nat}
    (ho : w.orders[i]? = some o) :
    ∃ p, (w.observe c).orders[i]? = some p ∧ Outcome c w.orders (Takes c w.orders) i o p := by
  obtain ⟨p, hp, hout⟩ := (partway_observe hw c).outcome i o ho
  have hset : takenBefore c w.orders w.orders.length = Takes c w.orders := by
    funext j
    refine propext ⟨(·.2), fun hj => ⟨?_, hj⟩⟩
    rw [Takes] at hj
    obtain ⟨q, hq, -⟩ := hj
    exact (List.getElem?_eq_some_iff.1 hq).1
  exact ⟨p, hp, hset ▸ hout⟩

/-! ### What comes into the log -/

/-- An order comes into the log under a name that splits, and a stop order with its stop. -/
theorem fillable_of_place {w : Wallet α} {t : Ticket α} {x : Placed α} (h : w.place t = .ok x)
    (ho : o ∈ x.1) :
    (w.split? o.pair).isSome = true ∧ (o.kind.stopLike = true → o.stop.isSome = true) := by
  have hmarket : ∀ {side name quantity}, w.placeMarket side name quantity = .ok x →
      (w.split? o.pair).isSome = true ∧ (o.kind.stopLike = true → o.stop.isSome = true) := by
    intro side name quantity h
    obtain ⟨pair, price, r, -, hs, -, -, hx, horders⟩ := placeMarket_eq_ok h
    obtain rfl := List.mem_singleton.1 (eq_of_log (execute_orders ..) hx horders ▸ ho)
    exact ⟨Option.isSome_of_eq_some hs, fun hk => by cases hk⟩
  cases t with
  | market side name quantity => exact hmarket h
  | marketQuote side name amount =>
    rw [Wallet.place, placeMarketQuote] at h
    obtain ⟨_, -, h⟩ := bind_eq_ok h
    obtain ⟨price, -, h⟩ := bind_eq_ok h
    exact hmarket h
  | limit side name quantity price =>
    rw [Wallet.place, placeLimit] at h
    obtain ⟨pair, r, -, -, hs, -, hx, horders⟩ := placeResting_eq_ok h
    obtain rfl := List.mem_singleton.1 (eq_of_log rfl hx horders ▸ ho)
    exact ⟨Option.isSome_of_eq_some hs, fun hk => by cases hk⟩
  | stop name quantity price =>
    rw [Wallet.place, placeStop] at h
    obtain ⟨pair, r, -, -, hs, -, hx, horders⟩ := placeResting_eq_ok h
    obtain rfl := List.mem_singleton.1 (eq_of_log rfl hx horders ▸ ho)
    exact ⟨Option.isSome_of_eq_some hs, fun _ => rfl⟩
  | oco side name quantity price stop stopLimit =>
    rw [Wallet.place] at h
    obtain ⟨pair, r, -, -, -, hs, -, hx, horders⟩ := placeOco_eq_ok h
    rcases List.mem_pair.1 (eq_of_log rfl hx horders ▸ ho) with rfl | rfl
    · exact ⟨Option.isSome_of_eq_some hs, fun hk => by cases hk⟩
    · exact ⟨Option.isSome_of_eq_some hs, fun _ => rfl⟩

namespace Fillable
variable {w w' : Wallet α}

theorem place (hw : w.Fillable) {t : Ticket α} {x : Placed α} (h : w.place t = .ok x)
    (hasc : x.2.Ascending) : x.2.Fillable := by
  obtain ⟨hstep, horders⟩ := step_of_place h
  have hsplit : ∀ name, x.2.split? name = w.split? name := split?_congr hstep.terms.1
  refine ⟨hasc, fun o ho => ?_, fun o ho => ?_⟩
  all_goals rw [horders] at ho
  · rw [hsplit]
    exact (List.mem_append.1 ho).elim (hw.split o) fun ho => (fillable_of_place h ho).1
  · exact (List.mem_append.1 ho).elim (hw.stop o) fun ho => (fillable_of_place h ho).2

theorem step (hw : w.Fillable) {e : Event α} (h : Step e w w') (he : ∀ t, e ≠ .place t)
    (hasc : w'.Ascending) : w'.Fillable := by
  refine ⟨hasc, fun p hp => ?_, fun p hp => ?_⟩
  all_goals obtain ⟨o, ho, hop⟩ := h.exists_becomes hw.ascending he hp
  · rw [split?_congr h.terms.1, hop.pair]
    exact hw.split o ho
  · rw [hop.kind, hop.stop]
    exact hw.stop o ho

theorem after (hlog : w.LogOk) (hw : w.Fillable) (e : Event α) :
    (w.after e).LogOk ∧ (w.after e).Fillable := by
  have hsteps : (∀ t, e ≠ .place t) → (w.after e).LogOk ∧ (w.after e).Fillable := fun he =>
    induction_of_steps (P := fun e => ∀ t, e ≠ .place t) (I := fun v => v.LogOk ∧ v.Fillable)
      (fun _ _ _ he hs h => ⟨hs.logOk h.1, h.2.step hs he (hs.logOk h.1).ascending⟩) he
      (steps_of_after hlog.ascending e) ⟨hlog, hw⟩
  cases e with
  | place t =>
    simp only [Wallet.after, Broker.place]
    cases hp : w.place t with
    | error _ => exact ⟨hlog, hw⟩
    | ok x =>
      have hlog' := (step_of_place hp).1.logOk hlog
      exact ⟨hlog', hw.place hp hlog'.ascending⟩
  | cancel id => exact hsteps fun _ he => by cases he
  | candle c => exact hsteps fun _ he => by cases he

end Fillable

theorem fillable_run (a : WalletConfig α) (es : List (Event α)) :
    ((start a).run es).Fillable := by
  have hstart : (start a).Fillable := by
    have ho : (start a).orders = [] := rfl
    constructor <;> simp [Ascending, ho]
  suffices h : ((start a).run es).LogOk ∧ ((start a).run es).Fillable from h.2
  induction es using List.reverseRecOn with
  | nil => exact ⟨logOk_start a, hstart⟩
  | append_singleton es e ih =>
    rw [run_append]
    exact ih.2.after ih.1 e

/-- Whatever a wallet has been through, a candle executes the orders of the places that it takes, at
the prices that it reaches them at, and withdraws the orders that rest and are linked to those. It
changes no other order. The outcome is the same whatever the account holds. -/
theorem outcomes_of_run (a : WalletConfig α) (es : List (Event α)) (c : Candle α) :
    let w := (start a).run es
    (w.observe c).orders.length = w.orders.length ∧
    (∀ i o, w.orders[i]? = some o → ∃ p, (w.observe c).orders[i]? = some p ∧
      Outcome c w.orders (Takes c w.orders) i o p) ∧
    ∀ v : Wallet α, v.orders = w.orders → v.base = w.base →
      (v.observe c).orders = (w.observe c).orders := by
  intro w
  have hw : w.Fillable := fillable_run a es
  refine ⟨(partway_observe hw c).length, fun i o ho => outcome_observe hw c ho, ?_⟩
  intro v horders hbase
  have hv := hw.congr horders hbase
  refine List.ext_getElem? fun i => ?_
  cases ho : w.orders[i]? with
  | some o =>
    obtain ⟨p, hp, hout⟩ := outcome_observe hw c ho
    obtain ⟨q, hq, hout'⟩ := outcome_observe hv c (horders ▸ ho)
    rw [horders] at hout'
    rw [hp, hq, hout'.unique hout]
  | none =>
    have hlen := List.getElem?_eq_none_iff.1 ho
    rw [List.getElem?_eq_none_iff.2 ((partway_observe hw c).length.trans_le hlen),
      List.getElem?_eq_none_iff.2 ((partway_observe hv c).length.trans_le (horders ▸ hlen))]

-- The candle reaches both of two linked orders, and the one at the limit stands earlier.
example :
    (((start oneCoin).run [.candle (bar 100 100),
      .place (.oco .sell "BTCUSDT" 1 120 90 89)]).observe { bar 100 130 with low := 80 }).orders.map
        (·.status) = [.filled, .canceled] := by decide +kernel

end Candlewick.Wallet
