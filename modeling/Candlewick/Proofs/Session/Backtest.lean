import Candlewick.Proofs.Feed.Router
import Candlewick.Session.Backtest
import Candlewick.Wallet.Valuation

/-! # Backtests do not depend on schedules

A backtest over a history processes the stored candles of its pairs, each one once, in the stable
order of replay (`backtest_replays`). Neither the order of the pairs nor the schedule under which
the replays run makes a difference, and no schedule on which everybody gets a turn runs for ever:
`Run.Replays` says this of all complete schedules, of which the one of the router is one.

A schedule decides only how the candles of different pairs lie between each other when they enter
the queue. Replay tells candles of different pairs apart, so a stable sort forgets that
(`Candle.sort_congr`). -/

namespace Candlewick

open Schedule (actAll after Finished Fair ofFeed)

/-! ### Sorting by pair -/

/-- Only the order among the candles of one pair matters to the order of replay. -/
theorem Candle.sort_congr {α : Type} {cs cs' : List (Candle α)}
    (h : ∀ pair, cs.filter (·.pair = pair) = cs'.filter (·.pair = pair)) : sort cs = sort cs' := by
  have htied : ∀ (l : List (Candle α)) (a : Candle α), l.filter (StableSort.tied upTo a) =
      (l.filter (·.pair = a.pair)).filter (StableSort.tied upTo a) := by
    intro l a
    rw [List.filter_filter]
    refine List.filter_congr fun b _ => ?_
    by_cases hab : StableSort.tied upTo a b = true
    · simp [hab, pair_eq_of_tied hab]
    · simp [hab]
  rw [sort, sort]
  exact StableSort.mergeSort_congr upTo_trans upTo_total fun a => by rw [htied, h, ← htied]

/-! ### What a session processes -/

namespace Session
variable {β α σ : Type} [Amount α] [Broker β α]

/-- Takes candles the whole way, each one for the pair that it names. -/
def replay (e : Setup β α σ) (s : Session β α σ) (cs : List (Candle α)) : Session β α σ :=
  cs.foldl (fun s c => s.process e c.pair c) s

/-- The candles among some that a session takes the whole way, each one for the pair that it names.
A candle of a pair without a history is passed over. -/
def processed (e : Setup β α σ) : Session β α σ → List (Candle α) → List (Candle α)
  | _, [] => []
  | s, c :: cs =>
    if s.watchers.contains c.pair then c :: processed e (s.process e c.pair c) cs
    else processed e (s.process e c.pair c) cs

theorem process_watches {e : Setup β α σ} {s : Session β α σ} {pair : String}
    (h : s.watchers.contains pair = true) (pair' : String) (c : Candle α) :
    (s.process e pair' c).watchers.contains pair = true := by
  unfold process
  split
  · exact h
  · dsimp only
    split
    · simp only [closeBar, Table.contains, Table.get?_set]
      split
      · rfl
      · exact h
    · exact h

theorem process_of_unwatched {e : Setup β α σ} {s : Session β α σ} {pair : String}
    (h : s.watchers.contains pair = false) (c : Candle α) : s.process e pair c = s := by
  unfold process
  rw [Option.isSome_eq_false_iff.1 h |> Option.isNone_iff_eq_none.1]

theorem processed_eq {e : Setup β α σ} {s : Session β α σ} {cs : List (Candle α)}
    (h : ∀ c ∈ cs, s.watchers.contains c.pair = true) : processed e s cs = cs := by
  induction cs generalizing s with
  | nil => rfl
  | cons c cs ih =>
    have hrest := ih (s := s.process e c.pair c)
      fun d hd => process_watches (h d (List.mem_cons_of_mem _ hd)) c.pair c
    rw [processed, if_pos (h c (List.mem_cons_self ..)), hrest]

end Session

/-- The same with other pairs. -/
def Setup.withPairs {β α σ : Type} (e : Setup β α σ) (pairs : List String) : Setup β α σ :=
  { e with config := { e.config with pairs } }

theorem Setup.key_injective {β α σ : Type} (e : Setup β α σ) : Function.Injective e.key :=
  fun _ _ h => congrArg FeedKey.pair h

theorem SessionConfig.nodup_of_pairFault? {earlier pairs : List String}
    (h : pairFault? earlier pairs = none) :
    pairs.Nodup ∧ ∀ pair ∈ pairs, pair ∉ earlier := by
  induction pairs generalizing earlier with
  | nil => simp
  | cons pair pairs ih =>
    unfold pairFault? at h
    split at h
    · cases h
    · split at h
      · cases h
      · next hnew =>
        obtain ⟨hnodup, hrest⟩ := ih h
        refine ⟨List.nodup_cons.2 ⟨fun hmem => hrest _ hmem (by simp), hnodup⟩, ?_⟩
        intro q hq hearlier
        rcases List.mem_cons.1 hq with rfl | hq
        · exact hnew (by simpa using hearlier)
        · exact hrest q hq (List.mem_append_left _ hearlier)

theorem SessionConfig.pairs_nodup {α : Type} {c : SessionConfig α} (h : c.check = .ok ()) :
    c.pairs.Nodup := by
  unfold check fault? at h
  rcases hp : c.pairs with - | ⟨pair, pairs⟩
  · exact List.nodup_nil
  · rcases hf : pairFault? [] (pair :: pairs) with - | f
    · exact (nodup_of_pairFault? hf).1
    · simp [hp, hf] at h

namespace Run
variable {φ β α σ : Type}

/-- A backtest when its feeds are open and nothing has been handed on. -/
def opened [Amount α] [Feeder φ α] (e : Setup β α σ) (r : Run φ β α σ) : Run φ β α σ :=
  let r := r.enqueuePairs e
  { r with router := r.router.connect.2.2 }

/-- A backtest when its feeds have ended and some candles have been handed on. -/
def handOn (r : Run φ β α σ) (ds : List (FeedKey × Candle α)) : Run φ β α σ :=
  { r with router := { r.router with connected := [] }.dispatchAll ds }

/-- What the queue of a run releases. -/
def queued (r : Run φ β α σ) : List (Candle α) := (r.router.drain r.queue).1

/-- The candles of the queue that a backtest processes. -/
def processed [Amount α] [Broker β α] (e : Setup β α σ) (r : Run φ β α σ) : List (Candle α) :=
  Session.processed e r.session r.queued

theorem drain_session [Amount α] [Broker β α] (e : Setup β α σ) (r : Run φ β α σ) :
    (r.drain e).session = r.session.replay e r.queued := rfl

/-- A backtest whose feeds open hands on what its router delivers. -/
theorem backtest_eq [Amount α] [Broker β α] [Feeder φ α] {e : Setup β α σ} {r : Run φ β α σ}
    (h : (r.enqueuePairs e).router.connect.1 = .ok ()) : r.backtest e = (.ok (),
      ((r.opened e).handOn (Turns.deliveries (r.opened e).router.connected)).drain e) := by
  unfold backtest opened
  dsimp only
  rcases hc : (r.enqueuePairs e).router.connect with ⟨_ | _, waited, router⟩
  · rw [hc] at h
    cases h
  · rfl

/-- A backtest processes some candles whatever the schedule. -/
structure Replays [Amount α] [Broker β α] [Feeder φ α] (e : Setup β α σ) (r : Run φ β α σ)
    (cs : List (Candle α)) : Prop where
  /-- All feeds open. -/
  opens : (r.enqueuePairs e).router.connect.1 = .ok ()
  /-- The run hands on what a complete schedule hands on, and processes it. -/
  schedule : ∃ ts, Finished (actAll (r.opened e).router.connected ts).2 ∧
    r.backtest e = (.ok (),
      ((r.opened e).handOn (actAll (r.opened e).router.connected ts).1).drain e)
  /-- After every complete schedule the same candles are processed in the same order. -/
  processes : ∀ ts, Finished (actAll (r.opened e).router.connected ts).2 →
    let r' := (r.opened e).handOn (actAll (r.opened e).router.connected ts).1
    r'.processed e = cs ∧
      (r'.drain e).session = cs.foldl (fun s c => s.process e c.pair c) (r.opened e).session
  /-- No fair schedule runs for ever. -/
  ends : ∀ ts, Fair (r.opened e).router.connected ts →
    ∃ n, Finished (after (r.opened e).router.connected ts n)

/-- Nothing has been opened yet, and whoever has subscribed wants a stored feed. This is so in the
beginning, and it stays so while people subscribe to stored feeds (`Fresh.addChart`) and after every
backtest of them (`Fresh.backtest`). -/
structure Fresh (h : History α) (r : Run (History α) β α σ) : Prop where
  feeder : r.router.feeder = h
  connected : r.router.connected = []
  stored : ∀ key ∈ r.router.subscribers.keys, h.series.contains key = true

theorem fresh_ofFeeder (e : Setup β α σ) (h : History α) (b : β) (memory : σ) :
    (ofFeeder e h b memory).Fresh h where
  feeder := rfl
  connected := rfl
  stored := by simp [ofFeeder, Router.ofFeeder, Table.keys, Table.empty]

theorem Fresh.addChart {h : History α} {r : Run (History α) β α σ} (hr : r.Fresh h)
    (e : Setup β α σ) {pair : String} (hpair : h.series.contains (e.key pair) = true)
    (closedOnly : Bool) : (r.addChart e pair closedOnly).2.Fresh h where
  feeder := hr.feeder
  connected := hr.connected
  stored := by
    intro key hkey
    rcases Table.mem_keys_set.1 hkey with rfl | hkey
    · exact hpair
    · exact hr.stored key hkey

/-! ### When the pairs are watched -/

theorem enqueuePair_copies (e : Setup β α σ) (r : Run φ β α σ) (pair : String) (key : FeedKey)
    (c : Candle α) : (r.enqueuePair e pair).router.copies r.queue key c =
      r.router.copies r.queue key c + if key = e.key pair then 1 else 0 := by
  simp only [Router.copies, enqueuePair, Router.subscribe, Table.getD_update]
  split
  next hkey => simp [hkey, Subscriber.accepts, Subscriber.queue?]
  next => rfl

theorem enqueuePair_watches (e : Setup β α σ) (r : Run φ β α σ) (pair pair' : String) :
    (r.enqueuePair e pair).session.watchers.contains pair' =
      (decide (pair' = pair) || r.session.watchers.contains pair') := by
  simp only [enqueuePair, Session.watch, Session.start, Table.update, Table.contains,
    Table.get?_set]
  split
  next h => simp [h]
  next h => simp [h]

/-- What watching pairs adds to a run. -/
structure Enqueues (e : Setup β α σ) (r : Run φ β α σ) (pairs : List String) (r' : Run φ β α σ) :
    Prop where
  feeder : r'.router.feeder = r.router.feeder
  connected : r'.router.connected = r.router.connected
  queue : r'.queue = r.queue
  queues : r'.router.queues = r.router.queues
  keys : ∀ key, key ∈ r'.router.subscribers.keys ↔
    key ∈ r.router.subscribers.keys ∨ key ∈ pairs.map e.key
  copies : ∀ key c, r'.router.copies r.queue key c =
    r.router.copies r.queue key c + (pairs.map e.key).count key
  watches : ∀ pair, r'.session.watchers.contains pair = true ↔
    pair ∈ pairs ∨ r.session.watchers.contains pair = true

theorem enqueues_foldl (e : Setup β α σ) (r : Run φ β α σ) (pairs : List String) :
    Enqueues e r pairs (pairs.foldl (enqueuePair e) r) := by
  induction pairs generalizing r with
  | nil => constructor <;> simp
  | cons pair pairs ih =>
    have h := ih (r.enqueuePair e pair)
    refine ⟨h.feeder, h.connected, h.queue, h.queues, fun key => ?_, fun key c => ?_, fun q => ?_⟩
    · have hset : key ∈ (r.enqueuePair e pair).router.subscribers.keys ↔ _ := Table.mem_keys_set
      rw [List.foldl_cons, h.keys, hset, List.map_cons, List.mem_cons, or_assoc, or_left_comm]
    · have hcopies : _ = (r.enqueuePair e pair).router.copies r.queue key c + _ := h.copies key c
      refine hcopies.trans ?_
      rw [enqueuePair_copies, List.map_cons, List.count_cons,
        Nat.add_assoc, Nat.add_comm (List.count ..)]
      by_cases hkey : key = e.key pair
      · simp [hkey]
      · simp [hkey, Ne.symm hkey]
    · rw [List.foldl_cons, h.watches, enqueuePair_watches, List.mem_cons, Bool.or_eq_true,
        decide_eq_true_eq, or_left_comm, or_assoc]

theorem enqueues_enqueuePairs (e : Setup β α σ) (r : Run φ β α σ) :
    Enqueues e { r with queue := r.router.newQueue } e.config.pairs (r.enqueuePairs e) :=
  enqueues_foldl ..

/-- The queue of a backtest is empty, and takes one copy of a candle for each pair of its feed. -/
theorem enqueuePairs_queue (e : Setup β α σ) (r : Run φ β α σ) :
    (r.enqueuePairs e).router.Queues (r.enqueuePairs e).queue [] ∧
      ∀ key c, (r.enqueuePairs e).router.copies (r.enqueuePairs e).queue key c =
        (e.config.pairs.map e.key).count key := by
  have henq := enqueues_enqueuePairs e r
  have hqueue : (r.enqueuePairs e).queue = r.router.newQueue := henq.queue
  rw [hqueue]
  constructor
  · obtain ⟨as, has, hnil⟩ := r.router.queues_newQueue
    refine ⟨as, ?_, hnil⟩
    rwa [Router.queue, henq.queues]
  · intro key c
    refine (henq.copies key c).trans ?_
    rw [r.router.copies_newQueue, Nat.zero_add]

variable {e : Setup β α σ} {h : History α} {r : Run (History α) β α σ}

/-- A run over a history whose feeds are open: replays of stored feeds, those of its pairs among
them, from each of which the queue takes one copy. -/
structure Open (e : Setup β α σ) (h : History α) (r : Run (History α) β α σ) : Prop where
  lanes : ∃ keys : List FeedKey, r.router.connected = keys.map h.lane ∧ keys.Nodup ∧
    (∀ key ∈ keys, h.series.contains key = true) ∧ ∀ pair ∈ e.config.pairs, e.key pair ∈ keys
  queue : r.router.Queues r.queue []
  copies : ∀ key c, r.router.copies r.queue key c = (e.config.pairs.map e.key).count key
  watches : ∀ pair ∈ e.config.pairs, r.session.watchers.contains pair = true

theorem Fresh.enqueuePairs (hr : r.Fresh h)
    (hstored : ∀ pair ∈ e.config.pairs, h.series.contains (e.key pair) = true) :
    (r.enqueuePairs e).Fresh h := by
  have henq := enqueues_enqueuePairs e r
  refine ⟨henq.feeder.trans hr.feeder, henq.connected.trans hr.connected, fun key hkey => ?_⟩
  rcases (henq.keys key).1 hkey with hkey | hkey
  · exact hr.stored key hkey
  · obtain ⟨pair, hpair, rfl⟩ := List.mem_map.1 hkey
    exact hstored pair hpair

theorem Fresh.open [Amount α] (hr : r.Fresh h)
    (hstored : ∀ pair ∈ e.config.pairs, h.series.contains (e.key pair) = true) :
    (r.enqueuePairs e).router.connect.1 = .ok () ∧ (r.opened e).Open e h := by
  have henq := enqueues_enqueuePairs e r
  obtain ⟨hqueue, hcopies⟩ := r.enqueuePairs_queue e
  obtain ⟨hfeeder, hconnected, hkeys⟩ := hr.enqueuePairs hstored
  have hconnect := Router.connect_history hfeeder hkeys
  refine ⟨by rw [hconnect], ?_⟩
  unfold opened
  dsimp only
  rw [hconnect]
  refine ⟨⟨(r.enqueuePairs e).router.feeds, ?_, Router.feeds_nodup _, fun key hkey => ?_,
    fun pair hpair => ?_⟩, hqueue, hcopies, fun pair hpair => ?_⟩
  · simp [hconnected]
  · exact hkeys key (List.mem_mergeSort.1 hkey)
  · exact List.mem_mergeSort.2 ((henq.keys _).2 (.inr (List.mem_map_of_mem hpair)))
  · exact (henq.watches pair).2 (.inl hpair)

/-! ### When all has been handed on -/

/-- The stored candles of some pairs. -/
def stored (e : Setup β α σ) (h : History α) (pairs : List String) : List (Candle α) :=
  pairs.flatMap fun pair => h.stored (e.key pair)

/-- Every stored candle is of the pair of its feed. -/
def Named (h : History α) : Prop := ∀ key, ∀ c ∈ h.stored key, c.pair = key.pair

theorem stored_insert (h : History α) (key : FeedKey) (cs : List (Candle α)) (key' : FeedKey) :
    (h.insert key cs).stored key' = if key' = key then Candle.sort cs else h.stored key' :=
  Table.getD_set ..

theorem named_empty (capacity : Nat) : Named (History.empty capacity : History α) := by
  intro key c hc
  cases hc

theorem Named.insert (hnamed : Named h) {key : FeedKey} {cs : List (Candle α)}
    (hcs : ∀ c ∈ cs, c.pair = key.pair) : Named (h.insert key cs) := by
  intro key' c hc
  rw [stored_insert] at hc
  split at hc
  next hkey =>
    rw [hkey]
    exact hcs c (List.mem_mergeSort.1 hc)
  next => exact hnamed key' c hc

theorem filter_stored (hnamed : Named h) {pairs : List String} (hnodup : pairs.Nodup)
    (pair : String) : (stored e h pairs).filter (·.pair = pair) =
      if pair ∈ pairs then h.stored (e.key pair) else [] := by
  induction pairs with
  | nil => rfl
  | cons q pairs ih =>
    obtain ⟨hnew, hnodup⟩ := List.nodup_cons.1 hnodup
    have hq : ∀ c ∈ h.stored (e.key q), c.pair = q := hnamed (e.key q)
    rw [stored, List.flatMap_cons, List.filter_append, ← stored, ih hnodup]
    by_cases heq : pair = q
    · subst heq
      rw [List.filter_eq_self.2 fun c hc => by simpa using hq c hc]
      simp [hnew]
    · rw [List.filter_eq_nil_iff.2 fun c hc => by simpa [hq c hc] using Ne.symm heq]
      simp [heq]

theorem count_key (hnodup : e.config.pairs.Nodup) (key : FeedKey) :
    (e.config.pairs.map e.key).count key = if key ∈ e.config.pairs.map e.key then 1 else 0 :=
  List.Nodup.count (hnodup.map e.key_injective)

/-- What enters the queue of one pair are the candles of its feed. -/
theorem Open.filter_enqueued (hr : r.Open e h) (hnamed : Named h) (hnodup : e.config.pairs.Nodup)
    {keys : List FeedKey} (hpairs : ∀ pair ∈ e.config.pairs, e.key pair ∈ keys)
    {ds : List (FeedKey × Candle α)} (hfeeds : ∀ key ∈ keys, ofFeed key ds = h.stored key)
    (hknown : ∀ d ∈ ds, d.1 ∈ keys) (pair : String) :
    (ds.flatMap fun d => List.replicate (r.router.copies r.queue d.1 d.2) d.2).filter
        (·.pair = pair) =
      if pair ∈ e.config.pairs then h.stored (e.key pair) else [] := by
  have hone : ∀ d ∈ ds,
      (List.replicate (r.router.copies r.queue d.1 d.2) d.2).filter (·.pair = pair) =
        if pair ∈ e.config.pairs ∧ d.1 = e.key pair then [d.2] else [] := by
    intro d hd
    have hmem : d.2 ∈ ofFeed d.1 ds :=
      List.mem_map.2 ⟨d, List.mem_filter.2 ⟨hd, by simp⟩, rfl⟩
    rw [hfeeds _ (hknown d hd)] at hmem
    have hpair : d.2.pair = d.1.pair := hnamed _ _ hmem
    rw [hr.copies, count_key hnodup]
    split
    next hkey =>
      obtain ⟨q, hq, hqd⟩ := List.mem_map.1 hkey
      have hdq : d.2.pair = q := hpair.trans (congrArg FeedKey.pair hqd).symm
      by_cases heq : q = pair
      · subst heq
        simp [hdq, hq, hqd]
      · have hne : ¬ (pair ∈ e.config.pairs ∧ d.1 = e.key pair) := fun hand =>
          heq (e.key_injective (hqd.trans hand.2))
        rw [if_neg hne]
        simpa [hdq] using heq
    next hkey =>
      have hne : ¬ (pair ∈ e.config.pairs ∧ d.1 = e.key pair) := fun hand =>
        hkey (hand.2 ▸ List.mem_map_of_mem hand.1)
      rw [if_neg hne]
      rfl
  rw [List.filter_flatMap, List.flatMap_congr hone]
  split
  next hmem =>
    rw [← hfeeds _ (hpairs pair hmem), Schedule.ofFeed_eq_flatMap]
    simp [hmem]
  next hmem => simp [hmem]

/-- Whatever the schedule, the queue releases the stored candles of the pairs in replay order. -/
theorem Open.drain_handOn (hr : r.Open e h) (hnamed : Named h) (hnodup : e.config.pairs.Nodup)
    {ts : List Turn} (hend : Finished (actAll r.router.connected ts).2) :
    (r.handOn (actAll r.router.connected ts).1).queued =
      Candle.sort (stored e h e.config.pairs) := by
  obtain ⟨keys, hlanes, hkeys, -, hpairs⟩ := hr.lanes
  have hfst : r.router.connected.map (·.1) = keys := by
    simp [hlanes, History.lane, Function.comp_def]
  have hdistinct : Schedule.Distinct r.router.connected := by rwa [Schedule.Distinct, hfst]
  have hfollows := Schedule.follows_actAll hdistinct ts
  have hfeeds : ∀ key ∈ keys, ofFeed key (actAll r.router.connected ts).1 = h.stored key := by
    intro key hkey
    have hlane : h.lane key ∈ r.router.connected := hlanes ▸ List.mem_map_of_mem hkey
    have heq := hfollows.ofFeed_eq hend hlane
    simpa [History.lane, Replay.ofStream, Replay.remaining] using heq
  have hqueue : Router.Queues { r.router with connected := [] } r.queue [] := hr.queue
  rw [queued, handOn, Router.drain_eq (Router.dispatchAll_queues hqueue _), List.nil_append]
  refine Candle.sort_congr fun pair => ?_
  rw [filter_stored hnamed hnodup]
  exact hr.filter_enqueued hnamed hnodup hpairs hfeeds (fun d hd => hfst ▸ hfollows.known d hd) pair

theorem Open.begins (hr : r.Open e h) : Turns.Begins r.router.connected := by
  obtain ⟨keys, hlanes, -⟩ := hr.lanes
  rw [hlanes]
  intro a ha
  obtain ⟨key, -, rfl⟩ := List.mem_map.1 ha
  exact ⟨Nat.lt_of_lt_of_le Nat.zero_lt_one (Nat.le_max_right ..), .inl rfl⟩

theorem Open.distinct (hr : r.Open e h) : Schedule.Distinct r.router.connected := by
  obtain ⟨keys, hlanes, hkeys, -⟩ := hr.lanes
  simpa [Schedule.Distinct, hlanes, History.lane, Function.comp_def] using hkeys

/-- What a backtest may have become when all its feeds have ended: a complete schedule has decided
in which order the candles entered the queue. -/
def Loads [Amount α] (e : Setup β α σ) (r q : Run (History α) β α σ) : Prop :=
  ∃ ts, Finished (actAll (r.opened e).router.connected ts).2 ∧
    q = (r.opened e).handOn (actAll (r.opened e).router.connected ts).1

theorem Loads.session [Amount α] {q : Run (History α) β α σ} (hq : r.Loads e q) :
    q.session = (r.enqueuePairs e).session := by
  obtain ⟨ts, -, rfl⟩ := hq
  rfl

theorem Fresh.loads [Amount α] (hr : r.Fresh h) (hcheck : e.config.check = .ok ()) (hnamed : Named h)
    (hstored : ∀ pair ∈ e.config.pairs, h.series.contains (e.key pair) = true)
    {q : Run (History α) β α σ} (hq : r.Loads e q) :
    q.queued = Candle.sort (Run.stored e h e.config.pairs) := by
  obtain ⟨ts, hend, rfl⟩ := hq
  exact (hr.open hstored).2.drain_handOn hnamed (SessionConfig.pairs_nodup hcheck) hend

/-- A backtest drains what one of the complete schedules has loaded. -/
theorem Fresh.backtest_loads [Amount α] [Broker β α] (hr : r.Fresh h)
    (hstored : ∀ pair ∈ e.config.pairs, h.series.contains (e.key pair) = true) :
    ∃ q, r.Loads e q ∧ r.backtest e = (.ok (), q.drain e) := by
  obtain ⟨hopens, hopen⟩ := hr.open hstored
  obtain ⟨ts, hts, hend⟩ := Turns.deliveries_complete hopen.begins
  refine ⟨_, ⟨ts, hend, rfl⟩, ?_⟩
  rw [← hts]
  exact backtest_eq hopens

/-- After a backtest the next one can begin as this one did. -/
theorem Fresh.backtest [Amount α] [Broker β α] (hr : r.Fresh h)
    (hstored : ∀ pair ∈ e.config.pairs, h.series.contains (e.key pair) = true) :
    (r.backtest e).2.Fresh h := by
  obtain ⟨hfeeder, -, hkeys⟩ := hr.enqueuePairs hstored
  obtain ⟨q, ⟨ts, -, rfl⟩, heq⟩ := hr.backtest_loads hstored
  obtain ⟨inboxes, queues, hhanded⟩ := Router.dispatchAll_rest
    { (r.opened e).router with connected := [] } (actAll (r.opened e).router.connected ts).1
  have hopened : (r.opened e).router.feeder = (r.enqueuePairs e).router.feeder ∧
      (r.opened e).router.subscribers = (r.enqueuePairs e).router.subscribers := by
    rw [opened, Router.connect_history hfeeder hkeys]
    exact ⟨rfl, rfl⟩
  have hloaded : ((r.opened e).handOn (actAll (r.opened e).router.connected ts).1).Fresh h := by
    unfold handOn
    rw [hhanded]
    exact ⟨hopened.1.trans hfeeder, rfl, fun key hkey => hkeys key (hopened.2 ▸ hkey)⟩
  rw [heq]
  exact ⟨hloaded.feeder, hloaded.connected, hloaded.stored⟩

/-- A backtest processes the stored candles of its pairs in replay order. -/
theorem Fresh.backtest_session [Amount α] [Broker β α] (hr : r.Fresh h)
    (hcheck : e.config.check = .ok ()) (hnamed : Named h)
    (hstored : ∀ pair ∈ e.config.pairs, h.series.contains (e.key pair) = true) :
    (r.backtest e).1 = .ok () ∧ (r.backtest e).2.session =
      (r.enqueuePairs e).session.replay e (Candle.sort (Run.stored e h e.config.pairs)) := by
  obtain ⟨q, hq, heq⟩ := hr.backtest_loads hstored
  rw [heq]
  refine ⟨rfl, ?_⟩
  rw [drain_session, hr.loads hcheck hnamed hstored hq, hq.session]

end Run

/-- A backtest over a history in which every candle is of the pair of its feed processes the stored
candles of its pairs, each one once and in the stable order of replay, under every schedule and with
the pairs in any order. -/
theorem backtest_replays {β α σ : Type} [Amount α] [Broker β α] {e : Setup β α σ} {h : History α}
    {r : Run (History α) β α σ} (hr : r.Fresh h) (hcheck : e.config.check = .ok ())
    (hstored : ∀ pair ∈ e.config.pairs, h.series.contains (e.key pair) = true)
    (hnamed : Run.Named h) {pairs : List String} (hpairs : pairs.Perm e.config.pairs) :
    r.Replays (e.withPairs pairs) (Candle.sort (Run.stored e h e.config.pairs)) := by
  have hnodup := SessionConfig.pairs_nodup hcheck
  have hnodup' : pairs.Nodup := hpairs.nodup_iff.2 hnodup
  obtain ⟨hopens, hopen⟩ := hr.open (e := e.withPairs pairs)
    fun pair hpair => hstored pair (hpairs.subset hpair)
  have hsort : Candle.sort (Run.stored (e.withPairs pairs) h pairs) =
      Candle.sort (Run.stored e h e.config.pairs) := by
    refine Candle.sort_congr fun pair => ?_
    rw [Run.filter_stored hnamed hnodup', Run.filter_stored hnamed hnodup]
    simp only [hpairs.mem_iff]
    rfl
  refine ⟨hopens, ?_, fun ts hend => ?_, fun ts hfair => ?_⟩
  · obtain ⟨ts, hts, hend⟩ := Turns.deliveries_complete hopen.begins
    refine ⟨ts, hend, ?_⟩
    rw [← hts]
    exact Run.backtest_eq hopens
  · have hdrain := hopen.drain_handOn hnamed hnodup' hend
    have hwatched : ∀ c ∈ Candle.sort (Run.stored (e.withPairs pairs) h pairs),
        (r.opened (e.withPairs pairs)).session.watchers.contains c.pair = true := by
      intro c hc
      obtain ⟨pair, hpair, hc⟩ := List.mem_flatMap.1 (List.mem_mergeSort.1 hc)
      rw [show c.pair = pair from hnamed _ c hc]
      exact hopen.watches pair hpair
    rw [← hsort]
    refine ⟨?_, ?_⟩
    · rw [Run.processed, hdrain]
      exact Session.processed_eq hwatched
    · rw [Run.drain_session, hdrain]
      rfl
  · exact hfair.finishes hopen.distinct fun a ha => (hopen.begins a ha).1

/-- Two coins on bars of a minute, and a strategy that does not trade. -/
def twoCoins : Setup (Wallet Rat) Rat Unit where
  config := .standard ["BTCUSDT", "ETHUSDT"] .backtest
  strategy :=
    { timeframe := .m1
      warmup := 0
      indicators := fun s frame => ((frame, none), s)
      onClosed := fun s _ => .done s
      onForming := fun s _ => .done s }
  paper := none

/-- A complete bar of a pair. -/
def minute (pair : String) (n : Int) : Candle Rat :=
  { (default : Candle Rat) with
    pair, time := ⟨60 * n, 0⟩, updated := ⟨60 * n, 0⟩, complete := true }

/-- A bar of one coin between two bars of the other, and replays without room. -/
def twoSeries : History Rat :=
  ((History.empty 0).insert ⟨"BTCUSDT", .m1⟩ [minute "BTCUSDT" 2, minute "BTCUSDT" 0]).insert
    ⟨"ETHUSDT", .m1⟩ [minute "ETHUSDT" 1]

theorem named_twoSeries : Run.Named twoSeries := by
  refine ((Run.named_empty 0).insert ?_).insert ?_
  · simp [minute]
  · simp [minute]

theorem backtest_replays_twoCoins :
    let r : Run (History Rat) (Wallet Rat) Rat Unit := .ofFeeder twoCoins twoSeries default ()
    r.Fresh twoSeries ∧ twoCoins.config.check = .ok () ∧
    (∀ pair ∈ twoCoins.config.pairs, twoSeries.series.contains (twoCoins.key pair) = true) ∧
    Run.Named twoSeries ∧ ["ETHUSDT", "BTCUSDT"].Perm twoCoins.config.pairs ∧
    r.Replays (twoCoins.withPairs ["ETHUSDT", "BTCUSDT"])
      (Candle.sort (Run.stored twoCoins twoSeries twoCoins.config.pairs)) := by
  have hcheck : twoCoins.config.check = .ok () := by decide
  have hstored : ∀ pair ∈ twoCoins.config.pairs,
      twoSeries.series.contains (twoCoins.key pair) = true := by decide
  have hpairs : ["ETHUSDT", "BTCUSDT"].Perm twoCoins.config.pairs := by decide
  exact ⟨Run.fresh_ofFeeder .., hcheck, hstored, named_twoSeries, hpairs,
    backtest_replays (Run.fresh_ofFeeder ..) hcheck hstored named_twoSeries hpairs⟩

end Candlewick
