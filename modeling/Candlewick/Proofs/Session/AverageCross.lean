import Candlewick.Proofs.Session.Timeline
import Candlewick.Proofs.Session.Watching
import Candlewick.Proofs.Wallet.RoundTrips

/-! # Backtests on the cross of two averages

A plan that runs over a desk does to the wallet behind it what it would do to the wallet itself
(`Desk.broker_run`). So a candle that a session processes is seen by the wallet first, and then the
strategy trades on the closed bars, if it is called for them (`AverageCross.process_broker`), which
is told by the watcher of the pair alone (`AverageCross.tradesOn?`).

Each candle keeps the wallet on round trips (`Session.Trading.process`), and so does a whole backtest
(`averageCross_roundTrips`). Where the fast average rises above the slow one the strategy asks for all
that the quote can buy, which a fee makes more than the quote pays for (`averageCross_buys`). -/

namespace Candlewick

/-! ### A desk in front of a wallet -/

namespace Desk
variable {α τ : Type} [Amount α] (d : Desk (Wallet α) α)

theorem broker_order (pair : String) (id : Int) : (d.order pair id).2.broker = d.broker := by
  simp only [Desk.order, Broker.order]
  cases d.broker.order pair id <;> rfl

theorem broker_refresh : d.refresh.broker = d.broker := by
  unfold refresh
  generalize d.book.orders.filter (·.resting) = os
  induction os generalizing d with
  | nil => rfl
  | cons o os ih => exact (ih _).trans (d.broker_order o.pair o.id)

theorem broker_observe (c : Candle α) : (d.observe c).broker = d.broker := by
  unfold observe
  split
  · exact d.broker_refresh
  · rfl

theorem broker_answer (r : Request α) :
    (Broker.answer d r).1 = (Broker.answer d.broker r).1 ∧
      (Broker.answer d r).2.broker = (Broker.answer d.broker r).2 := by
  cases r with
  | place t =>
    simp only [Broker.answer, Broker.place, place]
    cases d.broker.place t <;> exact ⟨rfl, rfl⟩
  | cancel id =>
    simp only [Broker.answer, Broker.cancel, cancel]
    cases d.broker.cancel id with
    | error e => exact ⟨rfl, rfl⟩
    | ok w => exact ⟨rfl, broker_refresh _⟩
  | order pair id =>
    simp only [Broker.answer, Broker.order, order]
    cases d.broker.order pair id <;> exact ⟨rfl, rfl⟩
  | position pair => exact ⟨rfl, rfl⟩
  | account => exact ⟨rfl, rfl⟩

/-- A plan over a desk does to the wallet behind it what it does to the wallet itself. -/
theorem broker_run (p : Plan α τ) :
    (p.run d).1 = (p.run d.broker).1 ∧ (p.run d).2.broker = (p.run d.broker).2 := by
  induction p generalizing d with
  | done a => exact ⟨rfl, rfl⟩
  | ask r next ih =>
    obtain ⟨hanswer, hbroker⟩ := d.broker_answer r
    have hrest := ih (Broker.answer d r).1 (Broker.answer d r).2
    rw [hbroker, hanswer] at hrest
    simp only [Plan.run]
    rwa [hanswer]

end Desk

/-! ### What a candle comes to -/

namespace AverageCross
variable {α σ β : Type} [Amount α] [Broker β α] {m : AverageCross} {v : Watcher α} {c : Candle α}

/-- The frame that the strategy trades on when a watcher takes in a candle, if it is called. -/
def tradesOn? (m : AverageCross) (v : Watcher α) (c : Candle α) : Option (Frame α) :=
  if c.complete ∧ m.slow < (v.frame.push c).size ∧ v.started then
    some (m.measured (v.frame.push c))
  else none

theorem pair_of_tradesOn? {f : Frame α} (h : m.tradesOn? v c = some f) : f.pair = v.frame.pair := by
  unfold tradesOn? at h
  split at h
  · cases h
    exact v.frame.pair_push c
  · cases h

theorem onForming_strategy (memory : σ) (b : β) :
    v.onForming m.strategy c memory b = (memory, b) := by
  unfold Watcher.onForming
  split <;> rfl

theorem onClosed_strategy (memory : σ) (b : β) : v.onClosed m.strategy c memory b =
    if m.slow < (v.frame.push c).size then
      (⟨m.measured (v.frame.push c), v.started⟩, memory,
        if v.started then ((trade (m.measured (v.frame.push c)) memory).run b).2 else b)
    else (⟨v.frame.push c, v.started⟩, memory, b) := by
  have hwarm : Watcher.warm ⟨v.frame.push c, v.started⟩ (m.strategy (α := α) (σ := σ)) =
      decide (m.slow < (v.frame.push c).size) := rfl
  simp only [Watcher.onClosed, hwarm, indicators_strategy, decide_eq_true_eq]
  refine if_congr .rfl ?_ rfl
  cases v.started
  · rfl
  · simp [strategy, run_trade]

theorem feed_strategy (memory : σ) (b : β) :
    (v.feed m.strategy c memory b).1.frame.pair = v.frame.pair ∧
      (v.feed m.strategy c memory b).2.2 = match m.tradesOn? v c with
        | some f => ((trade f memory).run b).2
        | none => b := by
  simp only [Watcher.feed, tradesOn?, onForming_strategy, onClosed_strategy]
  by_cases hcomplete : c.complete = true
  · by_cases hwarm : m.slow < (v.frame.push c).size
    · simp only [hcomplete, hwarm, if_true, true_and]
      refine ⟨v.frame.pair_push c, ?_⟩
      cases v.started <;> rfl
    · simp only [hcomplete, hwarm, if_true, if_false, false_and, and_false]
      exact ⟨v.frame.pair_push c, trivial⟩
  · simp [hcomplete]

/-- It is told by the watcher whether the strategy is called for closed bars, and for which. -/
theorem calls_feed (memory : σ × List (Callback α)) (b : β) :
    ∃ told, (v.feed m.strategy.noted c memory b).2.1.2 = memory.2 ++ told ∧
      ∀ f, .closed f ∈ told ↔ m.tradesOn? v c = some f := by
  obtain ⟨first, hfirst, hforming⟩ := v.onForming_told m.strategy c memory b
  have hnone : ∀ f, .closed f ∉ first := fun f hf => by cases hforming _ hf
  have hcalls := v.onClosed_calls m.strategy c (v.onForming m.strategy.noted c memory b).1
    (v.onForming m.strategy.noted c memory b).2
  rw [indicators_strategy, hfirst, List.append_assoc] at hcalls
  unfold Watcher.feed tradesOn?
  dsimp only
  by_cases hcomplete : c.complete = true
  · rw [if_pos hcomplete]
    refine ⟨_, hcalls, fun f => ?_⟩
    have hwarm : (m.strategy (α := α) (σ := σ)).warmup ≤ (v.frame.push c).size ↔
        m.slow < (v.frame.push c).size := .rfl
    by_cases hlong : m.slow < (v.frame.push c).size
    · cases v.started <;> simp [hnone, hcomplete, hwarm, hlong, eq_comm]
    · simp [hnone, hwarm, hlong]
  · rw [if_neg hcomplete]
    exact ⟨first, hfirst, fun f => by simp [hnone, hcomplete]⟩

section Session
variable {e : Setup (Wallet α) α σ} {s : Session (Wallet α) α σ} {pair : String}
  (hstrategy : e.strategy = m.strategy) (hv : s.watchers.get? pair = some v)
include hstrategy hv

/-- The wallet sees a candle first, and then the strategy trades, if it is called. -/
theorem process_broker (hpaper : e.paper = some Wallet.observe) (c : Candle α) :
    (s.process e pair c).desk.broker = match m.tradesOn? v c with
      | some f => ((trade f s.memory).run (s.desk.broker.observe c)).2
      | none => s.desk.broker.observe c := by
  have hfollow : e.follow s.desk.broker c = s.desk.broker.observe c := by
    unfold Setup.follow
    rw [hpaper]
  rw [Session.process_eq_feed e hv, hstrategy, hfollow]
  dsimp only
  rw [Desk.broker_observe, (feed_strategy s.memory _).2]
  split
  · exact (Desk.broker_run _ _).2
  · rfl

theorem pair_process (c : Candle α) {p : String} {u : Watcher α}
    (hu : (s.process e pair c).watchers.get? p = some u) :
    (p = pair ∧ u.frame.pair = v.frame.pair) ∨ s.watchers.get? p = some u := by
  rw [Session.process_eq_feed e hv, hstrategy] at hu
  dsimp only at hu
  split at hu
  · rw [Table.get?_set] at hu
    split at hu
    next hp =>
      cases hu
      exact .inl ⟨hp, (feed_strategy s.memory _).1⟩
    next => exact .inr hu
  · exact .inr hu

end Session

end AverageCross

namespace Session

/-- The strategy is called for some closed bars while a candle is processed after some others. -/
def CalledOn {β α σ : Type} [Amount α] [Broker β α] (e : Setup β α σ) (s : Session β α σ)
    (xs : List (Candle α)) (k : Candle α) (f : Frame α) : Prop :=
  ∃ told, s.callbacks e (xs ++ [k]) = s.callbacks e xs ++ told ∧ .closed f ∈ told

theorem calledOn_iff {β α σ : Type} [Amount α] [Broker β α] {e : Setup β α σ}
    {s : Session β α σ} {m : AverageCross} {xs : List (Candle α)} {k : Candle α} {f : Frame α}
    {v : Watcher α} (hstrategy : e.strategy = m.strategy)
    (hv : (s.replay e xs).watchers.get? k.pair = some v) :
    s.CalledOn e xs k f ↔ m.tradesOn? v k = some f := by
  have hsame : (s.noted.replay e.noted xs).plain = s.replay e xs := replay_noted e s.noted xs
  have hv' : (s.noted.replay e.noted xs).watchers.get? k.pair = some v :=
    (congrArg (fun s : Session β α σ => s.watchers.get? k.pair) hsame).trans hv
  have hnoted : e.noted.strategy = (m.strategy (α := α) (σ := σ)).noted :=
    congrArg Strategy.noted hstrategy
  obtain ⟨told, htold, hclosed⟩ := AverageCross.calls_feed (m := m) (v := v) (c := k)
    (s.noted.replay e.noted xs).memory { (s.noted.replay e.noted xs).desk with
      broker := e.noted.follow (s.noted.replay e.noted xs).desk.broker k }
  have hcalls : s.callbacks e (xs ++ [k]) = s.callbacks e xs ++ told := by
    rw [callbacks, replay_concat, process_eq_feed e.noted hv', hnoted]
    exact htold
  rw [← hclosed]
  constructor
  · rintro ⟨told', htold', hmem⟩
    rwa [List.append_cancel_left (hcalls.symm.trans htold')]
  · exact fun hmem => ⟨told, hcalls, hmem⟩

/-- Only a pair that is watched calls for anything. -/
theorem CalledOn.exists_watcher {β α σ : Type} [Amount α] [Broker β α] {e : Setup β α σ}
    {s : Session β α σ} {m : AverageCross} {xs : List (Candle α)} {k : Candle α} {f : Frame α}
    (hstrategy : e.strategy = m.strategy) (h : s.CalledOn e xs k f) :
    ∃ v, (s.replay e xs).watchers.get? k.pair = some v ∧ m.tradesOn? v k = some f := by
  cases hv : (s.replay e xs).watchers.get? k.pair with
  | some v => exact ⟨v, rfl, (calledOn_iff hstrategy hv).1 h⟩
  | none =>
    obtain ⟨told, htold, hmem⟩ := h
    have hsame : (s.noted.replay e.noted xs).plain = s.replay e xs := replay_noted e s.noted xs
    have hunwatched : (s.noted.replay e.noted xs).watchers.contains k.pair = false := by
      show ((s.noted.replay e.noted xs).plain).watchers.contains k.pair = false
      rw [hsame, Table.contains, hv]
      rfl
    rw [callbacks, replay_concat, process_of_unwatched hunwatched] at htold
    rw [List.append_right_eq_self.1 htold.symm] at hmem
    cases hmem

/-! ### Round trips of a session -/

/-- The wallet of a session is on round trips on one pair, and every watcher has the frame of its
pair. -/
structure Trading {σ : Type} (name : String) (pair : Pair) (fee : Rat)
    (s : Session (Wallet Rat) Rat σ) : Prop where
  split : s.desk.broker.split? name = some pair
  fee : s.desk.broker.takerFee = fee
  trips : s.desk.broker.RoundTrips name pair
  frames : ∀ p v, s.watchers.get? p = some v → v.frame.pair = p

namespace Trading
variable {σ : Type} {e : Setup (Wallet Rat) Rat σ} {s : Session (Wallet Rat) Rat σ}
  {m : AverageCross} {name : String} {pair : Pair} {fee : Rat} {k : Candle Rat}

theorem observe (h : s.Trading name pair fee) (hk : k.pair = name) :
    (s.desk.broker.observe k).split? name = some pair ∧
      (s.desk.broker.observe k).takerFee = fee ∧
      (s.desk.broker.observe k).lastPrice? name = some k.close := by
  obtain ⟨-, hlast, hbase, hfee⟩ := Wallet.observe_of_idle (h.trips.idle k)
  exact ⟨(Wallet.split?_congr hbase name).trans h.split, hfee.trans h.fee, hk ▸ hlast⟩

variable (hstrategy : e.strategy = m.strategy) (hpaper : e.paper = some Wallet.observe)
  (hne : pair.asset ≠ pair.quote)
include hstrategy hpaper hne

theorem process (h : s.Trading name pair fee) (hk : k.pair = name) (hclose : 0 < k.close) :
    (s.process e k.pair k).Trading name pair fee := by
  cases hv : s.watchers.get? k.pair with
  | none =>
    rw [process_of_unwatched (by rw [Table.contains, hv]; rfl)]
    exact h
  | some v =>
    obtain ⟨hsplit, hfee, hlast⟩ := h.observe hk
    have hpair : v.frame.pair = name := (h.frames _ v hv).trans hk
    have hbroker := AverageCross.process_broker hstrategy hv hpaper k
    refine ⟨?_, ?_, ?_, fun p u hu => ?_⟩
    · rw [hbroker]
      split
      next f _ =>
        exact (Wallet.split?_congr (Wallet.terms_trade _ f s.memory).1 name).trans hsplit
      next => exact hsplit
    · rw [hbroker]
      split
      next f _ => exact (Wallet.terms_trade _ f s.memory).2.trans hfee
      next => exact hfee
    · rw [hbroker]
      split
      next f hf =>
        have hname : f.pair = name := (AverageCross.pair_of_tradesOn? hf).trans hpair
        exact (h.trips.observe k).trade hsplit hne hlast hclose hname s.memory
      next => exact h.trips.observe k
    · rcases AverageCross.pair_process hstrategy hv k hu with ⟨rfl, hsame⟩ | hold
      · exact hsame.trans (h.frames _ v hv)
      · exact h.frames p u hold

theorem replay {cs : List (Candle Rat)} (h : s.Trading name pair fee)
    (hcs : ∀ k ∈ cs, k.pair = name ∧ 0 < k.close) : (s.replay e cs).Trading name pair fee := by
  induction cs generalizing s with
  | nil => exact h
  | cons k cs ih =>
    obtain ⟨hk, hclose⟩ := hcs k (List.mem_cons_self ..)
    exact ih (h.process hstrategy hpaper hne hk hclose)
      fun k' hk' => hcs k' (List.mem_cons_of_mem _ hk')

/-- Where the fast average rises above the slow one, all the quote buys, if there is no fee. -/
theorem process_of_rises (h : s.Trading name pair fee) (hk : k.pair = name)
    (hclose : 0 < k.close) {v : Watcher Rat} (hv : s.watchers.get? k.pair = some v)
    {f : Frame Rat} (hf : m.tradesOn? v k = some f) (hrises : AverageCross.Rises f)
    (hflat : (s.desk.broker.holding pair.asset).total = 0)
    (hfunds : 0 < (s.desk.broker.holding pair.quote).total) :
    (fee = 0 → ∃ o, s.desk.broker.SpendsAll name pair k.close o
      (s.process e k.pair k).desk.broker) ∧
    (0 < fee → (s.process e k.pair k).desk.broker = s.desk.broker.observe k) := by
  obtain ⟨hsplit, hfee, hlast⟩ := h.observe hk
  obtain ⟨hbooks, -⟩ := Wallet.observe_of_idle (h.trips.idle k)
  have hname : f.pair = name :=
    (AverageCross.pair_of_tradesOn? hf).trans ((h.frames _ v hv).trans hk)
  obtain ⟨hbuys, hrefused⟩ := (h.trips.observe k).trade_of_rises hsplit hne hlast hclose hname hrises
    (by rwa [hbooks.holding]) (by rwa [hbooks.holding]) s.memory
  rw [AverageCross.process_broker hstrategy hv hpaper k, hf]
  refine ⟨fun hfree => ?_, fun hpaid => hrefused (hfee ▸ hpaid)⟩
  obtain ⟨o, ho⟩ := hbuys (hfee.trans hfree)
  exact ⟨o, ho.of_sameBooks hbooks (Wallet.orders_observe_of_idle (h.trips.idle k))⟩

end Trading

end Session

/-! ### From the beginning to the end -/

namespace Run
variable {φ σ : Type} {m : AverageCross} {c : WalletConfig Rat} {name : String} {pair : Pair}
  {e : Setup (Wallet Rat) Rat σ} {r : Run φ (Wallet Rat) Rat σ}

/-- Before a backtest of the strategy on one pair with two different sides: the wallet follows the
market, nobody else trades on it, and it holds nothing of the asset. -/
structure TradesCross (m : AverageCross) (c : WalletConfig Rat) (name : String) (pair : Pair)
    (e : Setup (Wallet Rat) Rat σ) (r : Run φ (Wallet Rat) Rat σ) : Prop where
  strategy : e.strategy = m.strategy
  paper : e.paper = some Wallet.observe
  pairs : e.config.pairs = [name]
  ready : r.Ready e
  start : r.session.desk = .ofBroker (Wallet.start c)
  split : (Wallet.start c).split? name = some pair
  apart : pair.asset ≠ pair.quote
  asset : ((Wallet.start c).holding pair.asset).total = 0
  quote : 0 ≤ ((Wallet.start c).holding pair.quote).total

namespace TradesCross
variable [Feeder φ Rat] (h : r.TradesCross m c name pair e) (ds : List (FeedKey × Candle Rat))
include h

theorem processed_pair : ∀ k ∈ ((r.opened e).handOn ds).processed e, k.pair = name := by
  intro k hk
  rw [processed, Session.processed_eq_filter] at hk
  have henq := enqueues_enqueuePairs e r
  have hmem : k.pair ∈ e.config.pairs :=
    ((henq.watches _).1 (List.mem_filter.1 hk).2).elim id (h.ready.watches _)
  rw [h.pairs] at hmem
  exact List.mem_singleton.1 hmem

theorem trading : ((r.opened e).handOn ds).session.Trading name pair c.takerFee := by
  have hbroker : ((r.opened e).handOn ds).session.desk.broker = Wallet.start c :=
    congrArg Desk.broker ((r.enqueuePairs_desk e).trans h.start)
  refine ⟨?_, ?_, ?_, fun p v hv => (h.ready.keeps p v hv).1⟩
  · rw [hbroker]
    exact h.split
  · rw [hbroker]
    rfl
  · rw [hbroker]
    exact .start h.asset h.quote

variable {ds}

theorem replay (hclose : ∀ k ∈ ((r.opened e).handOn ds).processed e, 0 < k.close)
    {cs : List (Candle Rat)} (hcs : cs <+: ((r.opened e).handOn ds).processed e) :
    (((r.opened e).handOn ds).session.replay e cs).Trading name pair c.takerFee :=
  (h.trading ds).replay h.strategy h.paper h.apart fun k hk =>
    ⟨h.processed_pair ds k (hcs.subset hk), hclose k (hcs.subset hk)⟩

end TradesCross

end Run

section Backtest
variable {φ σ : Type} [Feeder φ Rat] {m : AverageCross} {e : Setup (Wallet Rat) Rat σ}
  {r : Run φ (Wallet Rat) Rat σ} {c : WalletConfig Rat} {name : String} {pair : Pair}

/-- A backtest of the strategy buys and sells by turns, each time selling all that was bought last.
Neither balance is below zero after any candle, and nothing is held of the asset after a sale. -/
theorem averageCross_roundTrips (h : r.TradesCross m c name pair e) :
    ((∃ ds, r.backtest e = (.ok (), ((r.opened e).handOn ds).drain e)) ∨
      (∃ failure, (r.backtest e).1 = .error failure) ∧
        (r.backtest e).2.session = (r.enqueuePairs e).session) ∧
    ∀ ds, let q := (r.opened e).handOn ds
      (∀ k ∈ q.processed e, 0 < k.close) →
      (q.drain e).session = q.session.replay e (q.processed e) ∧
      ∀ cs, cs <+: q.processed e →
        let w := (q.session.replay e cs).desk.broker
        w.RoundTrips name pair ∧
        0 ≤ (w.holding pair.asset).free ∧ 0 ≤ (w.holding pair.quote).free ∧
        ∀ o, w.orders.getLast? = some o → o.side = .sell → w.holding pair.asset = ⟨0, 0⟩ := by
  refine ⟨r.backtest_ends e, fun ds hclose => ⟨?_, fun cs hcs => ?_⟩⟩
  · rw [Run.drain_session, Run.processed, Session.replay_processed]
  · have htrips := (h.replay hclose hcs).trips
    obtain ⟨hasset, hquote⟩ := htrips.nonneg
    exact ⟨htrips, hasset, hquote, fun o => htrips.asset_of_sold⟩

/-- The cross of the averages of one bar and of two. -/
def oneAndTwo : AverageCross := ⟨.m1, 1, 2, by decide, by decide⟩

/-- This cross is traded on one pair, over a wallet that follows the market. -/
def crossing : Setup (Wallet Rat) Rat Unit where
  config := .standard ["BTCUSDT"] .backtest
  strategy := oneAndTwo.strategy
  paper := some Wallet.observe

/-- A hundred `USDT`, and a fee rate. -/
def hundred (fee : Rat) : WalletConfig Rat := ⟨"USDT", .ofList [("USDT", 100)], fee, fee⟩

/-- A bar at 10 and one at 8. -/
def dip : List (Candle Rat) :=
  [{ minute "BTCUSDT" 0 with close := 10 }, { minute "BTCUSDT" 1 with close := 8 }]

/-- The bar after these, at 10 again. -/
def rise : Candle Rat := { minute "BTCUSDT" 2 with close := 10 }

/-- The bar after that, at 6. -/
def fall : Candle Rat := { minute "BTCUSDT" 3 with close := 6 }

/-- The history of these bars. -/
def dipAndRise : History Rat :=
  (History.empty 1).insert ⟨"BTCUSDT", .m1⟩ (dip ++ [rise, fall])

/-- A backtest over this history. -/
def crossingRun (fee : Rat) : Run (History Rat) (Wallet Rat) Rat Unit :=
  .ofFeeder crossing dipAndRise (Wallet.start (hundred fee)) ()

theorem tradesCross_crossing {fee : Rat} (hfee : fee ∈ [0, 1 / 4]) :
    (crossingRun fee).TradesCross oneAndTwo (hundred fee) "BTCUSDT" ⟨"BTC", "USDT"⟩ crossing := by
  have hchecked : ∀ fee ∈ [(0 : Rat), 1 / 4],
      (Wallet.start (hundred fee)).split? "BTCUSDT" = some ⟨"BTC", "USDT"⟩ ∧
      ((Wallet.start (hundred fee)).holding "BTC").total = 0 ∧
      0 ≤ ((Wallet.start (hundred fee)).holding "USDT").total := by
    decide +kernel
  obtain ⟨hsplit, hasset, hquote⟩ := hchecked fee hfee
  exact ⟨rfl, rfl, rfl, Run.ready_ofFeeder .., rfl, hsplit, by decide, hasset, hquote⟩

theorem backtest_crossing (fee : Rat) : let r := crossingRun fee
    ∃ ds, r.backtest crossing = (.ok (), ((r.opened crossing).handOn ds).drain crossing) ∧
      ((r.opened crossing).handOn ds).processed crossing = dip ++ rise :: [fall] := by
  intro r
  have hfresh : r.Fresh dipAndRise := Run.fresh_ofFeeder ..
  have hnamed : Run.Named dipAndRise := (Run.named_empty 1).insert (by simp [dip, rise, fall, minute])
  have hstored : ∀ pair ∈ crossing.config.pairs,
      dipAndRise.series.contains (crossing.key pair) = true := by decide
  obtain ⟨q, ⟨ts, hend, rfl⟩, hbacktest⟩ := hfresh.backtest_loads hstored
  have hdrain := hfresh.loads (by decide) hnamed hstored ⟨ts, hend, rfl⟩
  have hsorted : (dip ++ [rise, fall]).Pairwise fun a b => Candle.upTo a b = true := by decide
  have hcandles : Run.stored crossing dipAndRise crossing.config.pairs =
      Candle.sort (dip ++ [rise, fall]) ++ [] := rfl
  refine ⟨_, hbacktest, ?_⟩
  rw [hcandles, List.append_nil, Candle.sort, Candle.sort, List.mergeSort_of_pairwise hsorted,
    List.mergeSort_of_pairwise hsorted] at hdrain
  have hpairs : ∀ c ∈ dip ++ [rise, fall], c.pair ∈ crossing.config.pairs := by decide
  have henq := Run.enqueues_enqueuePairs crossing r
  rw [Run.processed, hdrain]
  exact Session.processed_eq fun c hc => (henq.watches c.pair).2 (.inl (hpairs c hc))

theorem close_crossing : ∀ k ∈ dip ++ rise :: [fall], 0 < k.close := by decide +kernel

/-- Without fees ten coins are bought at the third bar and sold at the fourth one. -/
theorem averageCross_roundTrips_crossing :
    let r := crossingRun 0
    r.TradesCross oneAndTwo (hundred 0) "BTCUSDT" ⟨"BTC", "USDT"⟩ crossing ∧
    ∃ ds, let q := (r.opened crossing).handOn ds
      let w := (q.drain crossing).session.desk.broker
      r.backtest crossing = (.ok (), q.drain crossing) ∧
      (∀ k ∈ q.processed crossing, 0 < k.close) ∧
      w.RoundTrips "BTCUSDT" ⟨"BTC", "USDT"⟩ ∧
      w.orders.map (fun o => (o.side, o.quantity, o.price)) = [(.buy, 10, 10), (.sell, 10, 6)] ∧
      w.holding "USDT" = ⟨60, 0⟩ := by
  intro r
  have hcross : r.TradesCross oneAndTwo (hundred 0) "BTCUSDT" ⟨"BTC", "USDT"⟩ crossing :=
    tradesCross_crossing (by simp)
  obtain ⟨ds, hbacktest, hprocessed⟩ := backtest_crossing 0
  have hclose : ∀ k ∈ ((r.opened crossing).handOn ds).processed crossing, 0 < k.close :=
    hprocessed ▸ close_crossing
  obtain ⟨hdrain, htrips⟩ := (averageCross_roundTrips hcross).2 ds hclose
  have hsession : ((r.opened crossing).handOn ds).session = (r.enqueuePairs crossing).session := rfl
  refine ⟨hcross, ds, hbacktest, hclose, ?_, ?_, ?_⟩
  · rw [hdrain]
    exact (htrips _ (List.prefix_refl _)).1
  · rw [hdrain, hprocessed, hsession]
    decide +kernel
  · rw [hdrain, hprocessed, hsession]
    decide +kernel

/-! ### Crosses -/

/-- When the strategy is shown that the fast average rises above the slow one while nothing is held
of the asset, it buys for all the quote if takers pay no fee. If they pay any, its order is refused
and nothing changes. -/
theorem averageCross_buys (h : r.TradesCross m c name pair e) :
    ((∃ ds, r.backtest e = (.ok (), ((r.opened e).handOn ds).drain e)) ∨
      (∃ failure, (r.backtest e).1 = .error failure) ∧
        (r.backtest e).2.session = (r.enqueuePairs e).session) ∧
    ∀ ds, let q := (r.opened e).handOn ds
      (∀ k ∈ q.processed e, 0 < k.close) →
      (q.drain e).session = q.session.replay e (q.processed e) ∧
      ∀ xs k ys f, q.processed e = xs ++ k :: ys → q.session.CalledOn e xs k f →
        AverageCross.Rises f →
        let w := (q.session.replay e xs).desk.broker
        let w' := (q.session.replay e (xs ++ [k])).desk.broker
        (w.holding pair.asset).total = 0 → 0 < (w.holding pair.quote).total →
        (c.takerFee = 0 → ∃ o, w.SpendsAll name pair k.close o w') ∧
        (0 < c.takerFee → w'.orders = w.orders ∧ ∀ a, w'.holding a = w.holding a) := by
  refine ⟨r.backtest_ends e, fun ds hclose => ⟨?_, ?_⟩⟩
  · rw [Run.drain_session, Run.processed, Session.replay_processed]
  intro xs k ys f hprocessed hcalled hrises w w' hflat hfunds
  have htrading := h.replay hclose (hprocessed ▸ List.prefix_append xs (k :: ys))
  have hk : k ∈ ((r.opened e).handOn ds).processed e := by simp [hprocessed]
  obtain ⟨v, hv, hf⟩ := hcalled.exists_watcher h.strategy
  obtain ⟨hbuys, hrefused⟩ := htrading.process_of_rises h.strategy h.paper h.apart
    (h.processed_pair ds k hk) (hclose k hk) hv hf hrises hflat hfunds
  rw [← Session.replay_concat] at hbuys hrefused
  refine ⟨hbuys, fun hpaid => ?_⟩
  have hidle := htrading.trips.idle k
  have hsame : w' = w.observe k := hrefused hpaid
  rw [hsame]
  exact ⟨Wallet.orders_observe_of_idle hidle, (Wallet.observe_of_idle hidle).1.holding⟩

end Backtest

/-- The third bar is a cross, with a fee or without one, and finds the wallet as it was. -/
theorem rises_crossing (fee : Rat) (hfee : fee ∈ [0, 1 / 4])
    (ds : List (FeedKey × Candle Rat)) :
    let s := (((crossingRun fee).opened crossing).handOn ds).session
    let w := (s.replay crossing dip).desk.broker
    (∃ f, s.CalledOn crossing dip rise f ∧ AverageCross.Rises f) ∧
      (w.holding "BTC").total = 0 ∧ (w.holding "USDT").total = 100 := by
  intro s w
  have hchecked : ∀ fee ∈ [(0 : Rat), 1 / 4],
      let s := ((crossingRun fee).enqueuePairs crossing).session.replay crossing dip
      ((s.watchers.get? rise.pair).any fun v =>
        (oneAndTwo.tradesOn? v rise).any fun f => decide (AverageCross.Rises f)) = true ∧
      (s.desk.broker.holding "BTC").total = 0 ∧ (s.desk.broker.holding "USDT").total = 100 := by
    decide +kernel
  obtain ⟨hcross, hholdings⟩ := hchecked fee hfee
  obtain ⟨v, hv, hcross⟩ := (Option.any_eq_true ..).1 hcross
  obtain ⟨f, hf, hrises⟩ := (Option.any_eq_true ..).1 hcross
  exact ⟨⟨f, (Session.calledOn_iff rfl hv).2 hf, of_decide_eq_true hrises⟩, hholdings⟩

theorem averageCross_buys_crossing :
    let r := crossingRun 0
    r.TradesCross oneAndTwo (hundred 0) "BTCUSDT" ⟨"BTC", "USDT"⟩ crossing ∧
    ∃ ds f, let q := (r.opened crossing).handOn ds
      let w := (q.session.replay crossing dip).desk.broker
      r.backtest crossing = (.ok (), q.drain crossing) ∧
      (∀ k ∈ q.processed crossing, 0 < k.close) ∧
      q.processed crossing = dip ++ rise :: [fall] ∧ q.session.CalledOn crossing dip rise f ∧
      AverageCross.Rises f ∧ (w.holding "BTC").total = 0 ∧ 0 < (w.holding "USDT").total ∧
      ∃ o, w.SpendsAll "BTCUSDT" ⟨"BTC", "USDT"⟩ 10 o
        (q.session.replay crossing (dip ++ [rise])).desk.broker := by
  intro r
  have hcross : r.TradesCross oneAndTwo (hundred 0) "BTCUSDT" ⟨"BTC", "USDT"⟩ crossing :=
    tradesCross_crossing (by simp)
  obtain ⟨ds, hbacktest, hprocessed⟩ := backtest_crossing 0
  have hclose : ∀ k ∈ ((r.opened crossing).handOn ds).processed crossing, 0 < k.close :=
    hprocessed ▸ close_crossing
  obtain ⟨⟨f, hcalled, hrises⟩, hflat, htotal⟩ := rises_crossing 0 (by simp) ds
  have hfunds : 0 < ((((r.opened crossing).handOn ds).session.replay crossing
      dip).desk.broker.holding "USDT").total := by
    rw [htotal]
    norm_num
  exact ⟨hcross, ds, f, hbacktest, hclose, hprocessed, hcalled, hrises, hflat, hfunds,
    (((averageCross_buys hcross).2 ds hclose).2 dip rise [fall] f hprocessed hcalled hrises hflat
      hfunds).1 rfl⟩

/-- Where takers pay a quarter, the same cross is not traded, and neither is anything after it. -/
theorem averageCross_rise_not_bought :
    let r := crossingRun (1 / 4)
    r.TradesCross oneAndTwo (hundred (1 / 4)) "BTCUSDT" ⟨"BTC", "USDT"⟩ crossing ∧
    ∃ ds f, let q := (r.opened crossing).handOn ds
      let w := (q.session.replay crossing dip).desk.broker
      r.backtest crossing = (.ok (), q.drain crossing) ∧
      (∀ k ∈ q.processed crossing, 0 < k.close) ∧
      q.processed crossing = dip ++ rise :: [fall] ∧ q.session.CalledOn crossing dip rise f ∧
      AverageCross.Rises f ∧ (w.holding "BTC").total = 0 ∧ 0 < (w.holding "USDT").total ∧
      (q.drain crossing).session.desk.broker.orders = [] := by
  intro r
  obtain ⟨ds, hbacktest, hprocessed⟩ := backtest_crossing (1 / 4)
  obtain ⟨⟨f, hcalled, hrises⟩, hflat, htotal⟩ := rises_crossing (1 / 4) (by simp) ds
  have hsession : ((r.opened crossing).handOn ds).session = (r.enqueuePairs crossing).session := rfl
  refine ⟨tradesCross_crossing (by simp), ds, f, hbacktest, hprocessed ▸ close_crossing, hprocessed,
    hcalled, hrises, hflat, ?_, ?_⟩
  · rw [htotal]
    norm_num
  · rw [Run.drain_session, ← Session.replay_processed]
    show ((((r.opened crossing).handOn ds).session.replay crossing
      (((r.opened crossing).handOn ds).processed crossing)).desk.broker.orders) = []
    rw [hprocessed, hsession]
    decide +kernel

end Candlewick
