import Candlewick.Proofs.Session.Backtest

/-! # Backtests do not look ahead

Up to an instant a backtest knows nothing of the candles after it (`backtest_causal`): over two
histories that have the same candles up to there, whatever comes later and whatever the schedules
are, the same candles are processed first, and after each one of them the two sessions are the same,
with all that the broker, the book and the strategy remember.

What the strategy is called for is told by a strategy that notes it (`Strategy.noted`). That changes
nothing else (`Session.process_noted`). -/

namespace Candlewick

open Schedule (actAll Finished)

/-! ### What a strategy is called for -/

/-- A call of a strategy, with the frame that it is shown. -/
inductive Callback (α : Type) where
  | indicators (frame : Frame α)
  | closed (frame : Frame α)
  | forming (frame : Frame α)

/-- A strategy that remembers its calls as well. -/
def Strategy.noted {α σ : Type} (s : Strategy α σ) : Strategy α (σ × List (Callback α)) where
  timeframe := s.timeframe
  warmup := s.warmup
  indicators := fun (m, calls) f =>
    let (x, m) := s.indicators m f
    (x, m, calls ++ [.indicators f])
  onClosed := fun (m, calls) f => (s.onClosed m f).bind fun m => .done (m, calls ++ [.closed f])
  onForming := fun (m, calls) f => (s.onForming m f).bind fun m => .done (m, calls ++ [.forming f])

/-- The same with a strategy that remembers its calls. -/
def Setup.noted {β α σ : Type} (e : Setup β α σ) : Setup β α (σ × List (Callback α)) :=
  ⟨e.config, e.strategy.noted, e.paper⟩

namespace Watcher
variable {α β σ : Type} [Broker β α]

theorem onForming_noted (w : Watcher α) (s : Strategy α σ) (c : Candle α)
    (m : σ × List (Callback α)) (b : β) :
    (w.onForming s.noted c m b).1.1 = (w.onForming s c m.1 b).1 ∧
      (w.onForming s.noted c m b).2 = (w.onForming s c m.1 b).2 := by
  unfold onForming
  rw [show w.warm s.noted = w.warm s from rfl]
  split
  · simp [Strategy.noted, Plan.run_bind, Plan.run]
  · exact ⟨rfl, rfl⟩

theorem onClosed_noted (w : Watcher α) (s : Strategy α σ) (c : Candle α)
    (m : σ × List (Callback α)) (b : β) :
    (w.onClosed s.noted c m b).1 = (w.onClosed s c m.1 b).1 ∧
      (w.onClosed s.noted c m b).2.1.1 = (w.onClosed s c m.1 b).2.1 ∧
        (w.onClosed s.noted c m b).2.2 = (w.onClosed s c m.1 b).2.2 := by
  rcases m with ⟨m, calls⟩
  rcases hind : s.indicators m (w.frame.push c) with ⟨⟨frame, failure⟩, m'⟩
  have hnoted : s.noted.indicators (m, calls) (w.frame.push c) =
      ((frame, failure), m', calls ++ [.indicators (w.frame.push c)]) := by
    simp [Strategy.noted, hind]
  have hwarm : ∀ v : Watcher α, v.warm s.noted = v.warm s := fun _ => rfl
  simp only [onClosed, hwarm, hind, hnoted]
  split
  · split
    · simp [Strategy.noted, Plan.run_bind, Plan.run]
    · exact ⟨rfl, rfl, rfl⟩
  · exact ⟨rfl, rfl, rfl⟩

theorem onForming_calls (w : Watcher α) (s : Strategy α σ) (c : Candle α)
    (m : σ × List (Callback α)) (b : β) : (w.onForming s.noted c m b).1.2 =
      m.2 ++ if w.started && w.warm s then [.forming (w.frame.push c)] else [] := by
  unfold onForming
  rw [show w.warm s.noted = w.warm s from rfl]
  split
  · simp [Strategy.noted, Plan.run_bind, Plan.run]
  · exact (List.append_nil _).symm

/-- The indicators are computed on the closed bars once these are enough, and the strategy trades on
what comes of it, if it succeeds. -/
theorem onClosed_calls (w : Watcher α) (s : Strategy α σ) (c : Candle α)
    (m : σ × List (Callback α)) (b : β) : (w.onClosed s.noted c m b).2.1.2 = m.2 ++
      if s.warmup ≤ (w.frame.push c).size then
        .indicators (w.frame.push c) ::
          if (s.indicators m.1 (w.frame.push c)).1.2.isNone && w.started then
            [.closed (s.indicators m.1 (w.frame.push c)).1.1] else []
      else [] := by
  obtain ⟨m, calls⟩ := m
  rcases hind : s.indicators m (w.frame.push c) with ⟨⟨frame, failure⟩, m'⟩
  simp only [onClosed, warm, decide_eq_true_eq]
  rw [show s.noted.warmup = s.warmup from rfl]
  split
  · simp only [Strategy.noted, hind]
    split
    · simp [Plan.run_bind, Plan.run]
    · rfl
  · exact (List.append_nil _).symm

theorem onForming_told (w : Watcher α) (s : Strategy α σ) (c : Candle α)
    (m : σ × List (Callback α)) (b : β) : ∃ told, (w.onForming s.noted c m b).1.2 = m.2 ++ told ∧
      ∀ call ∈ told, call = .forming (w.frame.push c) := by
  refine ⟨_, w.onForming_calls s c m b, fun call hcall => ?_⟩
  split at hcall
  · exact List.mem_singleton.1 hcall
  · cases hcall

theorem frame_onClosed (w : Watcher α) (s : Strategy α σ) (c : Candle α) (m : σ) (b : β) :
    (w.onClosed s c m b).1.frame = if s.warmup ≤ (w.frame.push c).size then
      (s.indicators m (w.frame.push c)).1.1 else w.frame.push c := by
  simp only [onClosed, warm, decide_eq_true_eq]
  split
  · split
    · rfl
    · rfl
  · rfl

/-- The strategy trades on the closed bars as they are from then on, if it is called at all. -/
theorem onClosed_told (w : Watcher α) (s : Strategy α σ) (c : Candle α)
    (m : σ × List (Callback α)) (b : β) : ∃ told, (w.onClosed s.noted c m b).2.1.2 = m.2 ++ told ∧
      ∀ call ∈ told, (∃ frame, call = .indicators frame) ∨
        w.started = true ∧ call = .closed (w.onClosed s.noted c m b).1.frame := by
  refine ⟨_, w.onClosed_calls s c m b, fun call hcall => ?_⟩
  rw [(w.onClosed_noted s c m b).1, frame_onClosed]
  split at hcall
  next hwarm =>
    rw [if_pos hwarm]
    rcases List.mem_cons.1 hcall with rfl | hcall
    · exact .inl ⟨_, rfl⟩
    · split at hcall
      next hcalled => exact .inr ⟨(Bool.and_eq_true_iff.1 hcalled).2, List.mem_singleton.1 hcall⟩
      next => cases hcall
  next => cases hcall

theorem started_onClosed (w : Watcher α) (s : Strategy α σ) (c : Candle α) (m : σ) (b : β) :
    (w.onClosed s c m b).1.started = w.started := by
  unfold onClosed
  dsimp only
  split
  · split
    · rfl
    · rfl
  · rfl

end Watcher

namespace Session
variable {β α σ : Type}

/-- A session whose strategy has not been called. -/
def noted (s : Session β α σ) : Session β α (σ × List (Callback α)) :=
  ⟨s.desk, (s.memory, []), s.watchers⟩

/-- A session without the calls of its strategy. -/
def plain (s : Session β α (σ × List (Callback α))) : Session β α σ :=
  ⟨s.desk, s.memory.1, s.watchers⟩

variable [Amount α] [Broker β α]

theorem closeBar_noted (e : Setup β α σ) (s : Session β α (σ × List (Callback α))) (pair : String)
    (w : Watcher α) (c : Candle α) :
    (s.closeBar e.noted pair w c).plain = s.plain.closeBar e pair w c := by
  obtain ⟨hwatcher, hmemory, hdesk⟩ := w.onClosed_noted e.strategy c s.memory s.desk
  simp only [closeBar, plain, Setup.noted, hwatcher, hmemory, hdesk]

/-- To remember the calls changes nothing else. -/
theorem process_noted (e : Setup β α σ) (s : Session β α (σ × List (Callback α))) (pair : String)
    (c : Candle α) : (s.process e.noted pair c).plain = s.plain.process e pair c := by
  unfold process
  rw [show s.plain.watchers = s.watchers from rfl]
  cases s.watchers.get? pair with
  | none => rfl
  | some w =>
    obtain ⟨hmemory, hdesk⟩ := w.onForming_noted e.strategy c s.memory
      { s.desk with broker := e.follow s.desk.broker c }
    have hshown : plain { s with
        memory := (w.onForming e.strategy.noted c s.memory
          { s.desk with broker := e.follow s.desk.broker c }).1
        desk := (w.onForming e.strategy.noted c s.memory
          { s.desk with broker := e.follow s.desk.broker c }).2 } =
        { s.plain with
          memory := (w.onForming e.strategy c s.memory.1
            { s.desk with broker := e.follow s.desk.broker c }).1
          desk := (w.onForming e.strategy c s.memory.1
            { s.desk with broker := e.follow s.desk.broker c }).2 } := by
      simp only [plain, hmemory, hdesk]
    dsimp only
    split
    · exact (closeBar_noted ..).trans (congrArg (closeBar e · pair w c) hshown)
    · exact hshown

/-- What the strategy is called for in a replay. -/
def callbacks (e : Setup β α σ) (s : Session β α σ) (cs : List (Candle α)) : List (Callback α) :=
  (s.noted.replay e.noted cs).memory.2

theorem replay_noted (e : Setup β α σ) (s : Session β α (σ × List (Callback α)))
    (cs : List (Candle α)) : (s.replay e.noted cs).plain = s.plain.replay e cs := by
  induction cs generalizing s with
  | nil => rfl
  | cons c cs ih =>
    have hcons : s.replay e.noted (c :: cs) = (s.process e.noted c.pair c).replay e.noted cs := rfl
    rw [hcons, ih, process_noted]
    rfl

end Session

namespace Run

/-! ### Backtests before they are drained -/

section Feeds
variable {φ φ' β α σ : Type} {e : Setup β α σ}

theorem foldl_enqueuePair_session (r : Run φ β α σ) (r' : Run φ' β α σ)
    (h : r'.session = r.session) (pairs : List String) :
    (pairs.foldl (enqueuePair e) r').session = (pairs.foldl (enqueuePair e) r).session := by
  induction pairs generalizing r r' with
  | nil => exact h
  | cons pair pairs ih =>
    refine ih _ _ ?_
    simp only [enqueuePair, h]

theorem enqueuePairs_session {r : Run φ β α σ} {r' : Run φ' β α σ} (h : r'.session = r.session) :
    (r'.enqueuePairs e).session = (r.enqueuePairs e).session :=
  foldl_enqueuePair_session { r with queue := r.router.newQueue }
    { r' with queue := r'.router.newQueue } h e.config.pairs

end Feeds

variable {β α σ : Type} [Amount α] {e : Setup β α σ} {h h' : History α}
  {r r' : Run (History α) β α σ}

/-! ### The past -/

/-- Two backtests go the same way up to an instant: the queues release the same candles of bars up
to there before any other, and after each of these the sessions are the same and the strategy has
been called for the same. -/
structure SameUpTo [Broker β α] (e : Setup β α σ) (t : Instant) (q q' : Run (History α) β α σ)
    (past : List (Candle α)) : Prop where
  upTo : ∀ c ∈ past, c.time.upTo t = true
  first : ∃ later, q.queued = past ++ later ∧ ∀ c ∈ later, c.time.upTo t = false
  first' : ∃ later, q'.queued = past ++ later ∧ ∀ c ∈ later, c.time.upTo t = false
  session : ∀ n ≤ past.length, q'.session.replay e (q'.queued.take n) =
    q.session.replay e (q.queued.take n)
  callbacks : ∀ n ≤ past.length, q'.session.callbacks e (q'.queued.take n) =
    q.session.callbacks e (q.queued.take n)

theorem SameUpTo.filter_drain [Broker β α] {t : Instant} {q q' : Run (History α) β α σ}
    {past : List (Candle α)} (h : SameUpTo e t q q' past) :
    q.queued.filter (·.time.upTo t) = past := by
  obtain ⟨later, hdrain, hlater⟩ := h.first
  have hnone : later.filter (·.time.upTo t) = [] :=
    List.filter_eq_nil_iff.2 fun c hc => by simp [hlater c hc]
  rw [hdrain, List.filter_append, hnone, List.filter_eq_self.2 h.upTo, List.append_nil]

omit [Amount α] in
theorem filter_stored_upTo (hnamed : Named h) (hnodup : e.config.pairs.Nodup) (t : Instant)
    (pair : String) :
    ((stored e h e.config.pairs).filter (·.time.upTo t)).filter (·.pair = pair) =
      if pair ∈ e.config.pairs then (h.stored (e.key pair)).filter (·.time.upTo t) else [] := by
  rw [List.filter_comm, filter_stored hnamed hnodup]
  split <;> rfl

omit [Amount α] in
theorem sort_stored_upTo (hnamed : Named h) (hnamed' : Named h') (hnodup : e.config.pairs.Nodup)
    {t : Instant} (hpast : ∀ pair ∈ e.config.pairs,
      (h'.stored (e.key pair)).filter (·.time.upTo t) =
        (h.stored (e.key pair)).filter (·.time.upTo t)) :
    Candle.sort ((stored e h' e.config.pairs).filter (·.time.upTo t)) =
      Candle.sort ((stored e h e.config.pairs).filter (·.time.upTo t)) := by
  refine Candle.sort_congr fun pair => ?_
  rw [filter_stored_upTo hnamed' hnodup, filter_stored_upTo hnamed hnodup]
  split
  next hpair => exact hpast pair hpair
  next => rfl

end Run

/-- Backtests over histories that have the same candles up to an instant go the same way up to
there, whatever the candles after it and the schedules are. -/
theorem backtest_causal {β α σ : Type} [Amount α] [Broker β α] {e : Setup β α σ}
    {h h' : History α} {r r' : Run (History α) β α σ} (hr : r.Fresh h) (hr' : r'.Fresh h')
    (hsession : r'.session = r.session) (hcheck : e.config.check = .ok ())
    (hstored : ∀ pair ∈ e.config.pairs, h.series.contains (e.key pair) = true)
    (hstored' : ∀ pair ∈ e.config.pairs, h'.series.contains (e.key pair) = true)
    (hnamed : Run.Named h) (hnamed' : Run.Named h') (t : Instant)
    (hpast : ∀ pair ∈ e.config.pairs, (h'.stored (e.key pair)).filter (·.time.upTo t) =
      (h.stored (e.key pair)).filter (·.time.upTo t)) :
    (∃ q, r.Loads e q ∧ r.backtest e = (.ok (), q.drain e)) ∧
    (∃ q', r'.Loads e q' ∧ r'.backtest e = (.ok (), q'.drain e)) ∧
    ∃ past, ∀ q q', r.Loads e q → r'.Loads e q' → Run.SameUpTo e t q q' past := by
  have hnodup := SessionConfig.pairs_nodup hcheck
  refine ⟨hr.backtest_loads hstored, hr'.backtest_loads hstored',
    Candle.sort ((Run.stored e h e.config.pairs).filter (·.time.upTo t)), fun q q' hq hq' => ?_⟩
  have hdrain := hr.loads hcheck hnamed hstored hq
  have hdrain' := hr'.loads hcheck hnamed' hstored' hq'
  rw [Candle.sort_eq_append _ t] at hdrain hdrain'
  rw [Run.sort_stored_upTo hnamed hnamed' hnodup hpast] at hdrain'
  have hstart : q'.session = q.session := by
    rw [hq'.session, hq.session, Run.enqueuePairs_session hsession]
  have htake : ∀ n ≤ (Candle.sort ((Run.stored e h e.config.pairs).filter (·.time.upTo t))).length,
      q'.queued.take n = q.queued.take n := by
    intro n hn
    rw [hdrain, hdrain', List.take_append_of_le_length hn, List.take_append_of_le_length hn]
  have hlater : ∀ cs : List (Candle α), ∀ c ∈ Candle.sort (cs.filter (!·.time.upTo t)),
      c.time.upTo t = false := by
    intro cs c hc
    simpa using (List.mem_filter.1 (List.mem_mergeSort.1 hc)).2
  constructor
  · intro c hc
    exact (List.mem_filter.1 (List.mem_mergeSort.1 hc)).2
  · exact ⟨_, hdrain, hlater _⟩
  · exact ⟨_, hdrain', hlater _⟩
  · intro n hn
    rw [hstart, htake n hn]
  · intro n hn
    rw [hstart, htake n hn]

/-- The first two bars of `twoSeries`, and another future of both coins. -/
def otherFuture : History Rat :=
  ((History.empty 5).insert ⟨"BTCUSDT", .m1⟩ [minute "BTCUSDT" 0, minute "BTCUSDT" 3]).insert
    ⟨"ETHUSDT", .m1⟩ [minute "ETHUSDT" 4, minute "ETHUSDT" 1]

theorem named_otherFuture : Run.Named otherFuture := by
  refine ((Run.named_empty 5).insert ?_).insert ?_
  · simp [minute]
  · simp [minute]

theorem backtest_causal_otherFuture :
    let r : Run (History Rat) (Wallet Rat) Rat Unit := .ofFeeder twoCoins twoSeries default ()
    let r' : Run (History Rat) (Wallet Rat) Rat Unit := .ofFeeder twoCoins otherFuture default ()
    r.Fresh twoSeries ∧ r'.Fresh otherFuture ∧ r'.session = r.session ∧
    twoCoins.config.check = .ok () ∧
    (∀ pair ∈ twoCoins.config.pairs, twoSeries.series.contains (twoCoins.key pair) = true) ∧
    (∀ pair ∈ twoCoins.config.pairs, otherFuture.series.contains (twoCoins.key pair) = true) ∧
    Run.Named twoSeries ∧ Run.Named otherFuture ∧
    (∀ pair ∈ twoCoins.config.pairs,
      (otherFuture.stored (twoCoins.key pair)).filter (·.time.upTo ⟨60, 0⟩) =
        (twoSeries.stored (twoCoins.key pair)).filter (·.time.upTo ⟨60, 0⟩)) ∧
    ∃ q q' past, r.Loads twoCoins q ∧ r'.Loads twoCoins q' ∧
      Run.SameUpTo twoCoins ⟨60, 0⟩ q q' past ∧ past.length = 2 := by
  intro r r'
  have hcheck : twoCoins.config.check = .ok () := by decide
  have hstored : ∀ pair ∈ twoCoins.config.pairs,
      twoSeries.series.contains (twoCoins.key pair) = true := by decide
  have hstored' : ∀ pair ∈ twoCoins.config.pairs,
      otherFuture.series.contains (twoCoins.key pair) = true := by decide
  have hpast : ∀ pair ∈ twoCoins.config.pairs,
      (otherFuture.stored (twoCoins.key pair)).filter (·.time.upTo ⟨60, 0⟩) =
        (twoSeries.stored (twoCoins.key pair)).filter (·.time.upTo ⟨60, 0⟩) := by
    intro pair hpair
    rcases List.mem_cons.1 hpair with rfl | hpair
    · show (Candle.sort [minute "BTCUSDT" 0, minute "BTCUSDT" 3]).filter _ =
        (Candle.sort [minute "BTCUSDT" 2, minute "BTCUSDT" 0]).filter _
      rw [Candle.filter_sort, Candle.filter_sort]
      rfl
    · obtain rfl := List.mem_singleton.1 hpair
      show (Candle.sort [minute "ETHUSDT" 4, minute "ETHUSDT" 1]).filter _ =
        (Candle.sort [minute "ETHUSDT" 1]).filter _
      rw [Candle.filter_sort, Candle.filter_sort]
      rfl
  have hr : r.Fresh twoSeries := Run.fresh_ofFeeder ..
  have hr' : r'.Fresh otherFuture := Run.fresh_ofFeeder ..
  obtain ⟨⟨q, hq, -⟩, ⟨q', hq', -⟩, past, hsame⟩ :=
    backtest_causal hr hr' rfl hcheck hstored hstored' named_twoSeries named_otherFuture ⟨60, 0⟩
      hpast
  have hlength : past.length = 2 := by
    rw [← (hsame q q' hq hq').filter_drain, hr.loads hcheck named_twoSeries hstored hq,
      Candle.filter_sort, Candle.sort, List.length_mergeSort]
    show ((Candle.sort [minute "BTCUSDT" 2, minute "BTCUSDT" 0] ++
      (Candle.sort [minute "ETHUSDT" 1] ++ [])).filter _).length = 2
    rw [List.filter_append, List.filter_append, Candle.filter_sort, Candle.filter_sort,
      List.length_append, List.length_append, Candle.sort, Candle.sort, List.length_mergeSort,
      List.length_mergeSort]
    rfl
  exact ⟨hr, hr', rfl, hcheck, hstored, hstored', named_twoSeries, named_otherFuture, hpast,
    q, q', past, hq, hq', hsame q q' hq hq', hlength⟩

end Candlewick
