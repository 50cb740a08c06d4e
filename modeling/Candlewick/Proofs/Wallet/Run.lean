import Candlewick.Proofs.Wallet.Funds
import Candlewick.Wallet.Valuation
import Mathlib.Data.List.Induction
import Mathlib.Data.List.Nodup
import Mathlib.Logic.Relation

/-! # Runs of a wallet

A run is a list of events: orders placed and withdrawn, accepted or refused, and candles
(`Wallet.run`). An event is made of steps (`Wallet.Step`), each of which changes the wallet in one
way: a trade at the market, a new order or two linked ones, a withdrawal, or one of the three things
a candle does, which are to be noted, to execute an order and to have the account valued.

`run_induction` is how everything about runs is proved: what every step keeps, every run keeps. It
needs the identities of orders to ascend along the log (`Ascending`), since a candle looks orders up
by their identities. -/

namespace Candlewick

/-- What the order that a ticket asks for does. -/
def Ticket.side {α : Type} : Ticket α → Side
  | .market s _ _ | .marketQuote s _ _ | .limit s _ _ _ | .oco s _ _ _ _ _ => s
  | .stop .. => .sell

namespace Wallet

/-- What happens to a wallet. -/
inductive Event (α : Type) where
  /-- Somebody asks for an order. -/
  | place (ticket : Ticket α)
  /-- Somebody withdraws an order. -/
  | cancel (id : Int)
  /-- The market shows a candle. -/
  | candle (c : Candle α)

variable {α : Type} [Amount α]

/-- The wallet after an event. -/
def after (w : Wallet α) : Event α → Wallet α
  | .place t => (Broker.place w t).2
  | .cancel id => (Broker.cancel w id).2
  | .candle c => w.observe c

/-- The wallet after a list of events. -/
def run (w : Wallet α) (es : List (Event α)) : Wallet α := es.foldl after w

theorem run_append (w : Wallet α) (es fs : List (Event α)) :
    w.run (es ++ fs) = (w.run es).run fs :=
  List.foldl_append

/-- The orders that a candle goes through, oldest first. -/
def touched (w : Wallet α) (c : Candle α) : List (Order α) :=
  w.orders.filter fun o => o.pair = c.pair && o.resting

omit [Amount α] in
theorem mem_touched {w : Wallet α} {c : Candle α} {o : Order α} :
    o ∈ w.touched c ↔ o ∈ w.orders ∧ o.pair = c.pair ∧ o.resting = true := by
  simp [touched]

/-- The wallet in the middle of its reaction to a candle, when it has gone through the first `n`
orders. -/
def midway (w : Wallet α) (c : Candle α) (n : Nat) : Wallet α :=
  ((w.touched c).take n).foldl (tryFill c) (w.note c)

theorem midway_succ (w : Wallet α) (c : Candle α) {n : Nat} {o : Order α}
    (h : (w.touched c)[n]? = some o) : w.midway c (n + 1) = tryFill c (w.midway c n) o := by
  unfold midway
  rw [List.take_add_one, h, Option.toList_some, List.foldl_append]
  rfl

theorem midway_of_length_le (w : Wallet α) (c : Candle α) {n : Nat}
    (h : (w.touched c).length ≤ n) : w.midway c n = (w.note c).fillAll c := by
  unfold midway
  rw [List.take_of_length_le h]
  rfl

theorem observe_eq (w : Wallet α) (c : Candle α) :
    w.observe c = let m := w.midway c (w.touched c).length
      if c.complete then m.markToMarket c.time else m := by
  rw [midway_of_length_le w c le_rfl]
  rfl

theorem midway_succ_of_none (w : Wallet α) (c : Candle α) {n : Nat}
    (h : (w.touched c)[n]? = none) : w.midway c (n + 1) = w.midway c n := by
  have hlen := List.getElem?_eq_none_iff.1 h
  rw [midway_of_length_le w c hlen, midway_of_length_le w c (Nat.le_succ_of_le hlen)]

/-- The moments of a run: before, between and after its events, and in the middle of a candle. -/
inductive Passes (w : Wallet α) (es : List (Event α)) : Wallet α → Prop where
  | between {fs gs : List (Event α)} (h : es = fs ++ gs) : Passes w es (w.run fs)
  | midway {fs gs : List (Event α)} {c : Candle α} (h : es = fs ++ .candle c :: gs) (n : Nat) :
    Passes w es ((w.run fs).midway c n)

/-- The executions of resting orders in a run: the moment, the order, and the price. -/
inductive Executes (w : Wallet α) (es : List (Event α)) : Wallet α → Order α → α → Prop where
  | intro {fs gs : List (Event α)} {c : Candle α} {n : Nat} {o : Order α} {price : α}
    (h : es = fs ++ .candle c :: gs) (ho : ((w.run fs).touched c)[n]? = some o)
    (ht : trigger? o c = some price)
    (hr : ∃ p ∈ ((w.run fs).midway c n).orders, p.id = o.id ∧ p.resting = true) :
    Executes w es ((w.run fs).midway c n) o price

theorem Executes.passes {w m : Wallet α} {es : List (Event α)} {o : Order α} {price : α}
    (h : w.Executes es m o price) : w.Passes es m := by
  cases h with
  | @intro _ _ _ n _ _ h => exact .midway h n

/-! ### What executions and entries in the log change -/

section Fill
variable {w : Wallet α} {o : Order α} {pair : Pair} (hs : w.split? o.pair = some pair) (price : α)
  (time : Instant)
include hs

theorem fill_eq : w.fill o price time =
    { (w.release (owner o)).execute o.side o.pair pair o.quantity price w.makerFee with
      orders := w.orders.map (filled o price time) } := by
  unfold fill
  rw [hs]
  dsimp only
  rw [execute_orders, release_orders]

theorem holding_fill (a : String) : (w.fill o price time).holding a =
    ((w.release (owner o)).execute o.side o.pair pair o.quantity price w.makerFee).holding a := by
  rw [fill_eq hs]
  rfl

theorem shortAverage_fill : (w.fill o price time).shortAverage =
    ((w.release (owner o)).execute o.side o.pair pair o.quantity price
      w.makerFee).shortAverage := by
  rw [fill_eq hs]

theorem reservations_fill :
    (w.fill o price time).reservations = (w.release (owner o)).reservations := by
  simp [fill_eq hs]

theorem orders_fill : (w.fill o price time).orders = w.orders.map (filled o price time) := by
  rw [fill_eq hs]

end Fill

@[simp] theorem holding_log (w : Wallet α) (id : Int) (os : List (Order α)) (a : String) :
    (w.log id os).holding a = w.holding a :=
  rfl

omit [Amount α] in
/-- Where a log is what it was and some entries, these are what was entered. -/
theorem eq_of_log {w v w' : Wallet α} {id : Int} {os ps : List (Order α)}
    (hv : v.orders = w.orders) (hw : w' = v.log id os) (horders : w'.orders = w.orders ++ ps) :
    ps = os := by
  subst hw
  exact (List.append_cancel_left ((congrArg (· ++ os) hv).symm.trans horders)).symm

/-! ### What accepted orders do -/

theorem bind_eq_ok {ε σ τ : Type} {x : Except ε σ} {f : σ → Except ε τ} {b : τ}
    (h : (x >>= f) = .ok b) : ∃ a, x = .ok a ∧ f a = .ok b := by
  cases x with
  | error e => cases h
  | ok a => exact ⟨a, rfl, h⟩

/-- What is found by computing a result that could be refused. -/
theorem exists_ok_of_any {ε σ : Type} {x : Except ε σ} {p : σ → Prop} [DecidablePred p]
    (h : x.toOption.any (fun a => decide (p a)) = true) : ∃ a, x = .ok a ∧ p a := by
  cases x with
  | error e => cases h
  | ok a => exact ⟨a, rfl, of_decide_eq_true h⟩

omit [Amount α] in
theorem split_eq_ok {w : Wallet α} {name : String} {pair : Pair} (h : w.split name = .ok pair) :
    w.split? name = some pair := by
  unfold split at h
  cases hs : w.split? name with
  | none => rw [hs] at h; cases h
  | some p => rw [hs] at h; cases h; rfl

omit [Amount α] in
theorem split_of_split? {w : Wallet α} {name : String} {pair : Pair}
    (h : w.split? name = some pair) : w.split name = .ok pair := by
  unfold split
  rw [h]

omit [Amount α] in
theorem priceNow_eq_ok {w : Wallet α} {name : String} {price : α}
    (h : w.priceNow name = .ok price) : w.lastPrice? name = some price := by
  unfold priceNow at h
  cases hp : w.lastPrice? name with
  | none => rw [hp] at h; cases h
  | some p => rw [hp] at h; cases h; rfl

omit [Amount α] in
theorem priceNow_of_lastPrice? {w : Wallet α} {name : String} {price : α}
    (h : w.lastPrice? name = some price) : w.priceNow name = .ok price := by
  unfold priceNow
  rw [h]

theorem checkQuantity_eq_ok {name : String} {q : α} {u : Unit}
    (h : checkQuantity name q = .ok u) : isPositive q = true := by
  unfold checkQuantity at h
  split at h
  · assumption
  · cases h

theorem checkPrice_eq_ok {name : String} {p : α} {u : Unit}
    (h : checkPrice name p = .ok u) : isPositive p = true := by
  unfold checkPrice at h
  split at h
  · assumption
  · cases h

variable {w : Wallet α} {side : Side} {name : String} {quantity price stop stopLimit : α}
  {x : Placed α}

theorem placeMarket_eq_ok (h : w.placeMarket side name quantity = .ok x) :
    ∃ pair price r, isPositive quantity = true ∧ w.split? name = some pair ∧
      w.lastPrice? name = some price ∧
      w.cover side name pair quantity price w.takerFee = .ok r ∧
      x.2 = (w.execute side name pair quantity price w.takerFee).log (w.lastId + 1)
        [{ w.newOrder (w.lastId + 1) side name .market quantity price with
          status := .filled }] ∧
      x.2.orders = w.orders ++ x.1 := by
  obtain ⟨_, hq, h⟩ := bind_eq_ok h
  obtain ⟨pair, hs, h⟩ := bind_eq_ok h
  obtain ⟨price, hp, h⟩ := bind_eq_ok h
  obtain ⟨r, hc, h⟩ := bind_eq_ok h
  cases h
  exact ⟨pair, price, r, checkQuantity_eq_ok hq, split_eq_ok hs, priceNow_eq_ok hp, hc, rfl,
    congrArg (· ++ [_]) (execute_orders ..)⟩

/-- An accepted order that rests was covered at its price, and what covers it is held back. -/
theorem placeResting_eq_ok {make : Int → Order α}
    (h : w.placeResting side name quantity price make = .ok x) :
    ∃ pair r, isPositive quantity = true ∧ isPositive price = true ∧ w.split? name = some pair ∧
      w.cover side name pair quantity price w.makerFee = .ok r ∧
      x.2 = (w.reserve (w.lastId + 1) r).log (w.lastId + 1) [make (w.lastId + 1)] ∧
      x.2.orders = w.orders ++ x.1 := by
  obtain ⟨_, hq, h⟩ := bind_eq_ok h
  obtain ⟨_, hp, h⟩ := bind_eq_ok h
  obtain ⟨pair, hs, h⟩ := bind_eq_ok h
  obtain ⟨r, hc, h⟩ := bind_eq_ok h
  cases h
  exact ⟨pair, r, checkQuantity_eq_ok hq, checkPrice_eq_ok hp, split_eq_ok hs, hc, rfl, rfl⟩

/-- Two accepted linked orders were covered once, at the higher price, for both of them. -/
theorem placeOco_eq_ok (h : w.placeOco side name quantity price stop stopLimit = .ok x) :
    ∃ pair r, isPositive quantity = true ∧ isPositive price = true ∧ isPositive stop = true ∧
      w.split? name = some pair ∧
      w.cover side name pair quantity (Amount.max price stop) w.makerFee = .ok r ∧
      x.2 = (w.reserve (w.lastId + 1) r).log (w.lastId + 1 + 2)
        [{ w.newOrder (w.lastId + 1 + 1) side name .limitMaker quantity price with
            group := some (w.lastId + 1) },
          { w.newOrder (w.lastId + 1 + 2) side name .stopLossLimit quantity stopLimit with
            group := some (w.lastId + 1), stop := some stop }] ∧
      x.2.orders = w.orders ++ x.1 := by
  obtain ⟨_, hq, h⟩ := bind_eq_ok h
  obtain ⟨_, hp, h⟩ := bind_eq_ok h
  obtain ⟨_, hs, h⟩ := bind_eq_ok h
  obtain ⟨_, -, h⟩ := bind_eq_ok h
  obtain ⟨pair, hn, h⟩ := bind_eq_ok h
  obtain ⟨r, hc, h⟩ := bind_eq_ok h
  cases h
  exact ⟨pair, r, checkQuantity_eq_ok hq, checkPrice_eq_ok hp, checkPrice_eq_ok hs, split_eq_ok hn,
    hc, rfl, rfl⟩

/-- An accepted withdrawal gives back what the order that it names holds back, and withdraws that
order and the one that is linked to it. -/
theorem cancel_eq_ok {id : Int} {w' : Wallet α} (h : w.cancel id = .ok w') :
    ∃ o, o ∈ w.orders ∧ o.id = id ∧ o.resting = true ∧
      w' = { w.release (owner o) with
        orders := w.orders.map (withdrawn (fun p => p.id = id || linked o p)
          ((w.release (owner o)).clock o.pair)) } := by
  unfold cancel at h
  cases hf : w.orders.find? (·.id = id) with
  | none => rw [hf] at h; cases h
  | some o =>
    rw [hf] at h
    dsimp only at h
    split at h
    next hr =>
      cases h
      rw [release_orders]
      exact ⟨o, List.mem_of_find?_eq_some hf, by simpa using List.find?_some hf, hr, rfl⟩
    next => cases h

/-! ### Steps -/

/-- One change of a wallet in the course of an event. -/
inductive Step : Event α → Wallet α → Wallet α → Prop where
  /-- An order executes at the last close. -/
  | trade {w : Wallet α} {t : Ticket α} {quantity price : α} {pair : Pair} {r : Reservation α}
      (hq : isPositive quantity = true) (hs : w.split? t.pair = some pair)
      (hp : w.lastPrice? t.pair = some price)
      (hc : w.cover t.side t.pair pair quantity price w.takerFee = .ok r) :
      Step (.place t) w
        ((w.execute t.side t.pair pair quantity price w.takerFee).log (w.lastId + 1)
          [{ w.newOrder (w.lastId + 1) t.side t.pair .market quantity price with
            status := .filled }])
  /-- An order is covered and rests. Its stop, if it has one, is its price. -/
  | rest {w : Wallet α} {t : Ticket α} {kind : OrderKind} {quantity price : α} {stop : Option α}
      {pair : Pair} {r : Reservation α}
      (hq : isPositive quantity = true) (hp : isPositive price = true)
      (hst : stop.getD price = price) (hs : w.split? t.pair = some pair)
      (hc : w.cover t.side t.pair pair quantity price w.makerFee = .ok r) :
      Step (.place t) w ((w.reserve (w.lastId + 1) r).log (w.lastId + 1)
        [{ w.newOrder (w.lastId + 1) t.side t.pair kind quantity price with stop }])
  /-- Two linked orders are covered together and rest. -/
  | link {w : Wallet α} {t : Ticket α} {quantity price stop stopLimit : α} {pair : Pair}
      {r : Reservation α} (hq : isPositive quantity = true) (hp : isPositive price = true)
      (hst : isPositive stop = true) (hs : w.split? t.pair = some pair)
      (hc : w.cover t.side t.pair pair quantity (Amount.max price stop) w.makerFee = .ok r) :
      Step (.place t) w ((w.reserve (w.lastId + 1) r).log (w.lastId + 1 + 2)
        [{ w.newOrder (w.lastId + 1 + 1) t.side t.pair .limitMaker quantity price with
            group := some (w.lastId + 1) },
          { w.newOrder (w.lastId + 1 + 2) t.side t.pair .stopLossLimit quantity stopLimit with
            group := some (w.lastId + 1), stop := some stop }])
  /-- A resting order is withdrawn, and the one linked to it. -/
  | withdraw {w : Wallet α} {o : Order α} (ho : o ∈ w.orders) (hr : o.resting = true) :
      Step (.cancel o.id) w { w.release (owner o) with
        orders := w.orders.map (withdrawn (fun p => p.id = o.id || linked o p)
          ((w.release (owner o)).clock o.pair)) }
  /-- A candle is noted. -/
  | note {w : Wallet α} {c : Candle α} : Step (.candle c) w (w.note c)
  /-- A candle executes a resting order. -/
  | fill {w : Wallet α} {c : Candle α} {o : Order α} {price : α} {pair : Pair}
      (ho : o ∈ w.orders) (hr : o.resting = true) (hn : o.pair = c.pair)
      (ht : trigger? o c = some price) (hs : w.split? o.pair = some pair) :
      Step (.candle c) w (w.fill o price c.time)
  /-- A complete candle has the account valued. -/
  | mark {w : Wallet α} {c : Candle α} (hc : c.complete = true) :
      Step (.candle c) w (w.markToMarket c.time)

/-- What places an order is one step, and logs just the orders that are reported. -/
theorem step_of_place {t : Ticket α} (h : w.place t = .ok x) :
    Step (.place t) w x.2 ∧ x.2.orders = w.orders ++ x.1 := by
  have hmarket : ∀ {side name quantity}, w.placeMarket side name quantity = .ok x →
      t.side = side → t.pair = name → Step (.place t) w x.2 ∧ x.2.orders = w.orders ++ x.1 := by
    rintro side name quantity h rfl rfl
    obtain ⟨pair, price, r, hq, hs, hp, hc, hx, horders⟩ := placeMarket_eq_ok h
    exact ⟨hx ▸ .trade hq hs hp hc, horders⟩
  cases t with
  | market side name quantity =>
    rw [place] at h
    exact hmarket h rfl rfl
  | marketQuote side name amount =>
    rw [place, placeMarketQuote] at h
    obtain ⟨_, -, h⟩ := bind_eq_ok h
    obtain ⟨price, -, h⟩ := bind_eq_ok h
    exact hmarket h rfl rfl
  | limit side name quantity price =>
    rw [place, placeLimit] at h
    obtain ⟨pair, r, hq, hp, hs, hc, hx, horders⟩ := placeResting_eq_ok h
    exact ⟨hx ▸ .rest hq hp rfl hs hc, horders⟩
  | stop name quantity price =>
    rw [place, placeStop] at h
    obtain ⟨pair, r, hq, hp, hs, hc, hx, horders⟩ := placeResting_eq_ok h
    exact ⟨hx ▸ .rest hq hp rfl hs hc, horders⟩
  | oco side name quantity price stop stopLimit =>
    rw [place] at h
    obtain ⟨pair, r, hq, hp, hst, hs, hc, hx, horders⟩ := placeOco_eq_ok h
    exact ⟨hx ▸ .link hq hp hst hs hc, horders⟩

/-! ### Events as chains of steps -/

/-- The identities of orders ascend along the log. -/
def Ascending (w : Wallet α) : Prop := w.orders.Pairwise fun a b => a.id < b.id

omit [Amount α] in
theorem Ascending.eq_of_id {w : Wallet α} (h : w.Ascending) {o p : Order α} (ho : o ∈ w.orders)
    (hp : p ∈ w.orders) (hid : p.id = o.id) : p = o := by
  have hd : (w.orders.map (·.id)).Nodup := List.pairwise_map.2 (h.imp fun hab => Int.ne_of_lt hab)
  exact List.inj_on_of_nodup_map hd hp ho hid

omit [Amount α] in
theorem Ascending.find?_eq {w : Wallet α} (h : w.Ascending) {o : Order α}
    (ho : o ∈ w.orders) {p : Order α → Bool} (hself : p o = true)
    (hid : ∀ q, p q = true → q.id = o.id) : w.orders.find? p = some o := by
  cases hf : w.orders.find? p with
  | none => exact absurd hself (List.find?_eq_none.1 hf o ho)
  | some q => rw [h.eq_of_id ho (List.mem_of_find?_eq_some hf) (hid q (List.find?_some hf))]

omit [Amount α] in
theorem withdrawn_eq_of_resting {p : Order α → Bool} {time : Moment} {o : Order α}
    (h : (withdrawn p time o).resting = true) : withdrawn p time o = o := by
  unfold withdrawn at h ⊢
  split at h
  · cases h
  · rw [if_neg ‹_›]

omit [Amount α] in
theorem filled_eq_of_resting {o p : Order α} {price : α} {time : Instant}
    (h : (filled o price time p).resting = true) : filled o price time p = p := by
  unfold filled at h ⊢
  split at h
  · cases h
  · rw [if_neg ‹_›]
    exact withdrawn_eq_of_resting h

/-- An order executes at its price or at its stop. -/
theorem price_of_trigger {o : Order α} {c : Candle α} {price : α}
    (h : trigger? o c = some price) :
    (o.kind.limitLike = true ∧ price = o.price) ∨
      (o.kind.limitLike = false ∧ price = o.stop.getD o.price) := by
  unfold trigger? at h
  dsimp only at h
  by_cases hl : o.kind.limitLike = true
  · rw [if_pos hl, Option.ite_none_right_eq_some] at h
    exact .inl ⟨hl, (Option.some.inj h.2).symm⟩
  · rw [if_neg hl, Option.ite_none_right_eq_some, Option.ite_none_right_eq_some] at h
    exact .inr ⟨Bool.eq_false_iff.2 hl, (Option.some.inj h.2.2).symm⟩

theorem tryFill_of_resting {w : Wallet α} {c : Candle α} {o : Order α} {price : α}
    (ht : trigger? o c = some price) (hr : ∃ p ∈ w.orders, p.id = o.id ∧ p.resting = true) :
    tryFill c w o = w.fill o price c.time := by
  have hany : (w.orders.any fun p => p.id = o.id && p.resting) = true := by simpa using hr
  unfold tryFill
  rw [ht]
  dsimp only
  rw [if_pos hany]

theorem tryFill_eq_or (w : Wallet α) (c : Candle α) (o : Order α) :
    tryFill c w o = w ∨ ∃ price, trigger? o c = some price ∧
      (∃ p ∈ w.orders, p.id = o.id ∧ p.resting = true) ∧
      tryFill c w o = w.fill o price c.time := by
  cases ht : trigger? o c with
  | none => exact .inl (by simp [tryFill, ht])
  | some price =>
    by_cases hr : ∃ p ∈ w.orders, p.id = o.id ∧ p.resting = true
    · exact .inr ⟨price, rfl, hr, tryFill_of_resting ht hr⟩
    · exact .inl (by simp [tryFill, ht, hr])

/-- Going through an order either changes nothing or executes it, where no other resting order of
the log has its identity. -/
theorem tryFill_cases {w : Wallet α} {c : Candle α} {o : Order α}
    (h : ∀ p ∈ w.orders, p.id = o.id → p.resting = true → p = o) :
    tryFill c w o = w ∨ ∃ price pair, o ∈ w.orders ∧ o.resting = true ∧
      trigger? o c = some price ∧ w.split? o.pair = some pair ∧
      tryFill c w o = w.fill o price c.time := by
  rcases tryFill_eq_or w c o with heq | ⟨price, ht, ⟨p, hp, hid, hr⟩, heq⟩
  · exact .inl heq
  · obtain rfl := h p hp hid hr
    cases hs : w.split? p.pair with
    | none => exact .inl (heq.trans (by simp [fill, hs]))
    | some pair => exact .inr ⟨price, pair, hp, hr, ht, rfl, heq⟩

/-- What a candle does to a list of orders of its pair is a chain of executions. The resting orders
of the log stay what they were when the list was made. -/
theorem steps_of_foldl {c : Candle α} {os : List (Order α)} {w : Wallet α}
    (h : ∀ o ∈ os, o.pair = c.pair ∧ ∀ p ∈ w.orders, p.id = o.id → p.resting = true → p = o) :
    Relation.ReflTransGen (Step (.candle c)) w (os.foldl (tryFill c) w) := by
  induction os generalizing w with
  | nil => exact .refl
  | cons o os ih =>
    obtain ⟨hn, hst⟩ := h o (List.mem_cons_self ..)
    rw [List.foldl_cons]
    -- an execution changes the log, so the orders still to come have to be found in it again
    rcases tryFill_cases hst with heq | ⟨price, pair, ho, hr, ht, hs, heq⟩
    · rw [heq]
      exact ih fun p hp => h p (List.mem_cons_of_mem _ hp)
    · rw [heq]
      refine .head (.fill ho hr hn ht hs) (ih fun q hq => ?_)
      obtain ⟨hqn, hqs⟩ := h q (List.mem_cons_of_mem _ hq)
      refine ⟨hqn, fun p hp hid hpr => ?_⟩
      rw [orders_fill hs] at hp
      obtain ⟨p', hp', rfl⟩ := List.mem_map.1 hp
      have heq := filled_eq_of_resting hpr
      rw [heq] at hid hpr ⊢
      exact hqs p' hp' hid hpr

theorem steps_of_midway {w : Wallet α} (h : w.Ascending) (c : Candle α) (n : Nat) :
    Relation.ReflTransGen (Step (.candle c)) w (w.midway c n) := by
  refine .head .note (steps_of_foldl fun o ho => ?_)
  obtain ⟨ho, hn, -⟩ := mem_touched.1 (List.mem_of_mem_take ho)
  exact ⟨hn, fun p hp hid _ => h.eq_of_id ho hp hid⟩

theorem after_eq_or_step (w : Wallet α) {e : Event α} (he : ∀ c, e ≠ .candle c) :
    w.after e = w ∨ Step e w (w.after e) := by
  cases e with
  | place t =>
    simp only [after, Broker.place]
    cases hp : w.place t with
    | error _ => exact .inl rfl
    | ok x => exact .inr (step_of_place hp).1
  | cancel id =>
    simp only [after, Broker.cancel]
    cases hc : w.cancel id with
    | error _ => exact .inl rfl
    | ok w' =>
      obtain ⟨o, ho, rfl, hr, hw⟩ := cancel_eq_ok hc
      dsimp only
      rw [hw]
      exact .inr (.withdraw ho hr)
  | candle c => exact absurd rfl (he c)

theorem steps_of_after {w : Wallet α} (h : w.Ascending) (e : Event α) :
    Relation.ReflTransGen (Step e) w (w.after e) := by
  by_cases he : ∃ c, e = .candle c
  · obtain ⟨c, rfl⟩ := he
    have hm := steps_of_midway h c (w.touched c).length
    rw [after, observe_eq]
    dsimp only
    split
    next hc => exact hm.tail (.mark hc)
    next => exact hm
  · rcases after_eq_or_step w (not_exists.1 he) with heq | hs
    · rw [heq]
    · exact .single hs

/-! ### Induction over runs -/

section Induction
variable {P : Event α → Prop} {I : Wallet α → Prop} {w : Wallet α}
  (hasc : ∀ w, I w → w.Ascending) (hstep : ∀ e w w', P e → Step e w w' → I w → I w')

include hstep in
theorem induction_of_steps {e : Event α} {w' : Wallet α} (he : P e)
    (h : Relation.ReflTransGen (Step e) w w') (hw : I w) : I w' := by
  induction h with
  | refl => exact hw
  | tail _ hs ih => exact hstep e _ _ he hs ih

include hasc hstep

/-- What every step keeps, every run keeps. -/
theorem run_induction {es : List (Event α)} (hes : ∀ e ∈ es, P e) (hw : I w) : I (w.run es) := by
  induction es generalizing w with
  | nil => exact hw
  | cons e es ih =>
    have he := hes e (List.mem_cons_self ..)
    exact ih (fun f hf => hes f (List.mem_cons_of_mem _ hf))
      (induction_of_steps hstep he (steps_of_after (hasc w hw) e) hw)

theorem midway_induction {c : Candle α} (hc : P (.candle c)) (hw : I w) (n : Nat) :
    I (w.midway c n) :=
  induction_of_steps hstep hc (steps_of_midway (hasc w hw) c n) hw

end Induction

/-- What holds at the start and is kept by what is asked of a wallet, by candles up to any of their
orders, and by valuations, holds at every moment of a run. -/
theorem passes_induction {I : Wallet α → Prop} {w : Wallet α} {es : List (Event α)} (hw : I w)
    (hbroker : ∀ fs e gs, es = fs ++ e :: gs → (∀ c, e ≠ .candle c) → I (w.run fs) →
      I ((w.run fs).after e))
    (hmidway : ∀ fs c gs, es = fs ++ .candle c :: gs → I (w.run fs) →
      ∀ n, I ((w.run fs).midway c n))
    (hmark : ∀ m time, I m → I (m.markToMarket time)) : ∀ m, w.Passes es m → I m := by
  have hrun : ∀ fs gs, es = fs ++ gs → I (w.run fs) := by
    intro fs
    induction fs using List.reverseRecOn with
    | nil => exact fun _ _ => hw
    | append_singleton fs e ih =>
      intro gs h
      have h : es = fs ++ e :: gs := by simpa using h
      rw [run_append]
      show I ((w.run fs).after e)
      by_cases hcandle : ∃ c, e = .candle c
      · obtain ⟨c, rfl⟩ := hcandle
        have hm := hmidway fs c gs h (ih _ h) ((w.run fs).touched c).length
        rw [after, observe_eq]
        dsimp only
        split
        · exact hmark _ _ hm
        · exact hm
      · exact hbroker fs e gs h (not_exists.1 hcandle) (ih _ h)
  intro m hm
  cases hm with
  | between h => exact hrun _ _ h
  | midway h n => exact hmidway _ _ _ h (hrun _ _ h) n

/-- What every event keeps, and every candle up to any of its orders, holds at every moment of a
run. -/
theorem passes_of_events {P : Event α → Prop} {I : Wallet α → Prop} {w : Wallet α}
    {es : List (Event α)} (hafter : ∀ e v, P e → I v → I (v.after e))
    (hmidway : ∀ c v n, P (.candle c) → I v → I (v.midway c n)) (hes : ∀ e ∈ es, P e) (hw : I w) :
    ∀ m, w.Passes es m → I m := by
  have hrun : ∀ fs v, (∀ e ∈ fs, P e) → I v → I (v.run fs) := by
    intro fs
    induction fs with
    | nil => exact fun _ _ hv => hv
    | cons e fs ih =>
      intro v hfs hv
      exact ih _ (fun f hf => hfs f (List.mem_cons_of_mem _ hf))
        (hafter e v (hfs e (List.mem_cons_self ..)) hv)
  have hpast : ∀ fs gs, es = fs ++ gs → I (w.run fs) := fun fs gs h =>
    hrun fs w (fun e he => hes e (h ▸ List.mem_append_left _ he)) hw
  intro m hm
  cases hm with
  | between h => exact hpast _ _ h
  | midway h n => exact hmidway _ _ n (hes _ (h ▸ List.mem_append_cons_self)) (hpast _ _ h)

end Wallet
end Candlewick
