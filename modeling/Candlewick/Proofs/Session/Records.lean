import Candlewick.Proofs.Desk.Mirror
import Candlewick.Proofs.Session.Backtest
import Candlewick.Proofs.Wallet.OneMarket

/-! # What a desk knows at the end of a backtest

A wallet that follows the market executes orders on every candle, and its desk looks after them on
the complete ones only. So a record of the desk may be out of date when a backtest is over, but then
it says that the order rests, and it was a forming candle that changed the order, after the last
complete one (`Session.Overtaken`). All other records are those of the wallet, and the positions and
trades count those that are filled (`backtest_records`). -/

namespace Candlewick

/-! ### What a strategy does to a desk -/

namespace Watcher
variable {α σ : Type} [Amount α] {d : Desk (Wallet α) α}

theorem onForming_advances (w : Watcher α) (s : Strategy α σ) (c : Candle α) (m : σ)
    (h : d.Mirrors) : d.Advances (w.onForming s c m d).2 := by
  unfold onForming
  split
  · exact h.plan _
  · exact h.refl

theorem onClosed_advances (w : Watcher α) (s : Strategy α σ) (c : Candle α) (m : σ)
    (h : d.Mirrors) : d.Advances (w.onClosed s c m d).2.2 := by
  unfold onClosed
  dsimp only
  split
  · split
    · exact h.plan _
    · exact h.refl
  · exact h.refl

end Watcher

namespace Session
variable {α σ : Type} [Amount α] {e : Setup (Wallet α) α σ} {s s₀ : Session (Wallet α) α σ}

/-- After the wallet has seen a candle nothing puts a record out of date, and when the candle is
complete none is left so. -/
theorem process_advances (hpaper : e.paper = some Wallet.observe) {pair : String}
    (hwatched : s.watchers.contains pair = true) {c : Candle α}
    (h : Desk.Mirrors { s.desk with broker := s.desk.broker.observe c }) :
    Desk.Advances { s.desk with broker := s.desk.broker.observe c } (s.process e pair c).desk ∧
      (c.complete = true → ∀ o, ¬ (s.process e pair c).desk.Stale o) := by
  obtain ⟨w, hw⟩ := Option.isSome_iff_exists.1 hwatched
  have hfollow : e.follow s.desk.broker c = s.desk.broker.observe c := by
    unfold Setup.follow
    rw [hpaper]
  unfold process
  rw [hw]
  dsimp only
  rw [hfollow]
  have hforming := w.onForming_advances e.strategy c s.memory h
  split
  next hcomplete =>
    have hclosed := w.onClosed_advances e.strategy c
      (w.onForming e.strategy c s.memory { s.desk with broker := s.desk.broker.observe c }).1
      hforming.mirrors
    obtain ⟨hrefresh, hfresh⟩ := hclosed.mirrors.refresh
    simp only [closeBar, Desk.observe, hcomplete, if_true]
    exact ⟨(hforming.trans hclosed).trans hrefresh, fun _ => hfresh⟩
  next hcomplete => exact ⟨hforming, fun h => absurd h hcomplete⟩

/-! ### Out of date -/

/-- A forming candle has changed an order of the wallet, and no complete candle came after it. -/
def Overtaken (e : Setup (Wallet α) α σ) (s : Session (Wallet α) α σ) (cs : List (Candle α))
    (o p : Order α) : Prop :=
  ∃ xs k ys, cs = xs ++ k :: ys ∧ (∀ c ∈ k :: ys, c.complete = false) ∧
    o ∈ (s.replay e xs).desk.broker.orders ∧ p ∈ ((s.replay e xs).desk.broker.observe k).orders

/-- A session that has come from another one by processing some candles, with what is known of its
records. -/
structure Tracks (e : Setup (Wallet α) α σ) (s₀ : Session (Wallet α) α σ) (cs : List (Candle α))
    (s : Session (Wallet α) α σ) : Prop where
  replay : s = s₀.replay e cs
  mirrors : s.desk.Mirrors
  counts : s.desk.book.Counts
  stale : ∀ o, s.desk.Stale o → ∃ p ∈ s.desk.broker.orders, o.Becomes p ∧ p.status ≠ .new ∧
    s₀.Overtaken e cs o p

theorem Overtaken.append {cs : List (Candle α)} {o p : Order α} (h : s.Overtaken e cs o p)
    {c : Candle α} (hc : c.complete = false) : s.Overtaken e (cs ++ [c]) o p := by
  obtain ⟨xs, k, ys, rfl, hforming, ho, hp⟩ := h
  refine ⟨xs, k, ys ++ [c], by simp, fun b hb => ?_, ho, hp⟩
  rw [← List.cons_append, List.mem_append, List.mem_singleton] at hb
  rcases hb with hb | rfl
  · exact hforming b hb
  · exact hc

theorem Tracks.process (hpaper : e.paper = some Wallet.observe) {cs : List (Candle α)}
    (h : Tracks e s₀ cs s) {c : Candle α} (hwatched : s.watchers.contains c.pair = true) :
    Tracks e s₀ (cs ++ [c]) (s.process e c.pair c) := by
  obtain ⟨hlog, hextends⟩ := h.mirrors.log.run [.candle c]
  change (s.desk.broker.observe c).LogOk at hlog
  change s.desk.broker.Extends (s.desk.broker.observe c) at hextends
  obtain ⟨hadvances, hfresh⟩ := process_advances hpaper hwatched (h.mirrors.elsewhere hlog hextends)
  refine ⟨?_, hadvances.mirrors, hadvances.counts h.counts, fun o ho => ?_⟩
  · rw [h.replay, Session.replay, Session.replay, List.foldl_append]
    rfl
  have hforming : c.complete = false := by
    by_contra hc
    exact hfresh (by simpa using hc) o ho
  obtain ⟨hrecord, hnot⟩ := hadvances.stale o ho
  by_cases hold : o ∈ s.desk.broker.orders
  · -- the record was up to date before the candle, so the candle has changed the order
    obtain ⟨p, hp, hop⟩ := hextends.mem hold
    have hsettled : p.status ≠ .new := fun hn => hnot (hop.kept hn ▸ hp)
    refine ⟨p, hadvances.later.mem_settled hp hsettled, hop, hsettled, cs, c, [], rfl, ?_, ?_, ?_⟩
    · simpa using hforming
    · exact h.replay ▸ hold
    · exact h.replay ▸ hp
  · obtain ⟨p, hp, hop, hsettled, hovertaken⟩ := h.stale o ⟨hrecord, hold⟩
    have hstill := hadvances.later.mem_settled (hextends.mem_settled hp hsettled) hsettled
    exact ⟨p, hstill, hop, hsettled, hovertaken.append hforming⟩

theorem Tracks.run (hpaper : e.paper = some Wallet.observe) {ds : List (Candle α)}
    (h : Tracks e s₀ ds s) (cs : List (Candle α)) :
    Tracks e s₀ (ds ++ processed e s cs) (s.replay e cs) := by
  induction cs generalizing s ds with
  | nil => exact (List.append_nil ds).symm ▸ h
  | cons c cs ih =>
    have hcons : s.replay e (c :: cs) = (s.process e c.pair c).replay e cs := rfl
    rw [hcons, processed]
    split
    next hwatched =>
      have hrest := ih (h.process hpaper hwatched)
      rwa [List.append_assoc, List.singleton_append] at hrest
    next hwatched =>
      rw [process_of_unwatched (Bool.eq_false_iff.2 hwatched)]
      exact ih h

theorem tracks_start {c : WalletConfig α} (h : s.desk = .ofBroker (Wallet.start c)) :
    Tracks e s [] s := by
  refine ⟨rfl, h ▸ .start c, h ▸ Book.counts_empty, fun o ho => ?_⟩
  obtain ⟨hmem, -⟩ := ho
  rw [h] at hmem
  cases hmem

end Session

theorem Run.enqueuePairs_desk {φ β α σ : Type} (e : Setup β α σ) (r : Run φ β α σ) :
    (r.enqueuePairs e).session.desk = r.session.desk := by
  have hfold : ∀ (pairs : List String) (r : Run φ β α σ),
      (pairs.foldl (enqueuePair e) r).session.desk = r.session.desk := by
    intro pairs
    induction pairs with
    | nil => exact fun _ => rfl
    | cons pair pairs ih => exact fun r => ih (r.enqueuePair e pair)
  exact hfold e.config.pairs { r with queue := r.router.newQueue }

/-- When a backtest is over every record of the desk is the one of the wallet, except where it says
that an order rests that a forming candle has changed after the last complete one; and positions and
trades count the records that are filled, each once. -/
theorem backtest_records {φ α σ : Type} [Amount α] [Feeder φ α] {e : Setup (Wallet α) α σ}
    {r : Run φ (Wallet α) α σ} {c : WalletConfig α} (hpaper : e.paper = some Wallet.observe)
    (hstart : r.session.desk = .ofBroker (Wallet.start c)) (hok : (r.backtest e).1 = .ok ()) :
    (∃ ds, r.backtest e = (.ok (), ((r.opened e).handOn ds).drain e)) ∧ ∀ ds,
      let q := (r.opened e).handOn ds
      let d := (q.drain e).session.desk
      (d.book.orders.map (·.id)).Nodup ∧
      (∀ o ∈ d.book.orders, ∃ p ∈ d.broker.orders, o.Becomes p ∧
        (p = o ∨ o.status = .new ∧ p.status ≠ .new ∧
          q.session.Overtaken e (q.processed e) o p)) ∧
      d.book.Counts ∧
      ((∀ k, (q.processed e).getLast? = some k → k.complete = true) →
        ∀ o ∈ d.book.orders, o ∈ d.broker.orders) := by
  have hopens : (r.enqueuePairs e).router.connect.1 = .ok () := by
    unfold Run.backtest at hok
    dsimp only at hok
    rcases hc : (r.enqueuePairs e).router.connect with ⟨_ | _, waited, router⟩
    · rw [hc] at hok
      cases hok
    · rfl
  refine ⟨⟨_, Run.backtest_eq hopens⟩, fun ds => ?_⟩
  intro q d
  have hdesk : q.session.desk = .ofBroker (Wallet.start c) :=
    (r.enqueuePairs_desk e).trans hstart
  have h : Session.Tracks e q.session (q.processed e) (q.drain e).session :=
    (Session.tracks_start hdesk).run hpaper q.queued
  refine ⟨h.mirrors.distinct, fun o ho => ?_, h.counts, fun hlast o ho => ?_⟩
  · by_cases hcurrent : o ∈ d.broker.orders
    · exact ⟨o, hcurrent, .refl o, .inl rfl⟩
    · obtain ⟨p, hp, hop, hsettled, hovertaken⟩ := h.stale o ⟨ho, hcurrent⟩
      have hrested : o.status = .new := by
        by_contra hn
        exact hcurrent (hop.settled hn ▸ hp)
      exact ⟨p, hp, hop, .inr ⟨hrested, hsettled, hovertaken⟩⟩
  · by_contra hcurrent
    obtain ⟨p, -, -, -, xs, k, ys, hsplit, hforming, -⟩ := h.stale o ⟨ho, hcurrent⟩
    obtain ⟨b, hb⟩ : ∃ b, (k :: ys).getLast? = some b :=
      ⟨_, List.getLast?_eq_some_getLast (by simp)⟩
    have hend : (q.processed e).getLast? = some b := by
      rw [hsplit, List.getLast?_append, hb]
      rfl
    have hcomplete := hlast b hend
    rw [hforming b (List.mem_of_getLast? hb)] at hcomplete
    cases hcomplete

/-- A strategy that bids at 90 whenever a bar is closed. -/
def bidOnClose : Setup (Wallet Rat) Rat Unit where
  config := .standard ["BTCUSDT"] .backtest
  strategy :=
    { timeframe := .m1
      warmup := 0
      indicators := fun s frame => ((frame, none), s)
      onClosed := fun s _ => .ask (.place (.limit .buy "BTCUSDT" 1 90)) fun _ => .done s
      onForming := fun s _ => .done s }
  paper := some Wallet.observe

/-- A closed bar at 100, and one at 90 that is still forming when the history ends. -/
def dipAtEnd : List (Candle Rat) :=
  [{ Wallet.bar 100 100 with complete := true }, { Wallet.bar 90 90 with time := ⟨60, 0⟩ }]

/-- The history of these bars. -/
def dipHistory : History Rat := (History.empty 1).insert ⟨"BTCUSDT", .m1⟩ dipAtEnd

theorem fresh_dipHistory :
    (Run.ofFeeder bidOnClose dipHistory (Wallet.start Wallet.oneCoin) ()).Fresh dipHistory :=
  Run.fresh_ofFeeder ..

theorem backtest_dipHistory :
    let r : Run (History Rat) (Wallet Rat) Rat Unit :=
      .ofFeeder bidOnClose dipHistory (Wallet.start Wallet.oneCoin) ()
    (r.backtest bidOnClose).1 = .ok () ∧
      (r.backtest bidOnClose).2.session =
        (r.enqueuePairs bidOnClose).session.replay bidOnClose dipAtEnd := by
  intro r
  have hnamed : Run.Named dipHistory := (Run.named_empty 1).insert (by simp [dipAtEnd, Wallet.bar])
  have hsorted : dipAtEnd.Pairwise fun a b => Candle.upTo a b = true := by decide
  have hstored : Run.stored bidOnClose dipHistory bidOnClose.config.pairs =
      Candle.sort dipAtEnd ++ [] := rfl
  obtain ⟨hok, hsession⟩ :=
    Run.Fresh.backtest_session (e := bidOnClose) fresh_dipHistory (by decide) hnamed (by decide)
  refine ⟨hok, ?_⟩
  rw [hsession, hstored, List.append_nil, Candle.sort, Candle.sort,
    List.mergeSort_of_pairwise hsorted, List.mergeSort_of_pairwise hsorted]

theorem backtest_records_dipHistory :
    let r : Run (History Rat) (Wallet Rat) Rat Unit :=
      .ofFeeder bidOnClose dipHistory (Wallet.start Wallet.oneCoin) ()
    bidOnClose.paper = some Wallet.observe ∧
    r.session.desk = .ofBroker (Wallet.start Wallet.oneCoin) ∧
    (r.backtest bidOnClose).1 = .ok () ∧
    let d := (r.backtest bidOnClose).2.session.desk
    d.book.orders.length = 1 ∧ d.book.Counts ∧
    ∀ o ∈ d.book.orders, ∃ p ∈ d.broker.orders, o.Becomes p ∧
      (p = o ∨ o.status = .new ∧ p.status ≠ .new) := by
  intro r
  obtain ⟨hok, hsession⟩ := backtest_dipHistory
  obtain ⟨⟨ds, hds⟩, hrecords⟩ := backtest_records (e := bidOnClose) (r := r) rfl rfl hok
  obtain ⟨-, hcurrent, hcounts, -⟩ := hrecords ds
  rw [show ((r.opened bidOnClose).handOn ds).drain bidOnClose = (r.backtest bidOnClose).2 from
    (congrArg Prod.snd hds).symm] at hcurrent hcounts
  refine ⟨rfl, rfl, hok, ?_, hcounts, fun o ho => ?_⟩
  · rw [hsession]
    decide +kernel
  · obtain ⟨p, hp, hop, hcases⟩ := hcurrent o ho
    exact ⟨p, hp, hop, hcases.imp_right fun h => ⟨h.1, h.2.1⟩⟩

/-- The bid is executed on the last candle, and the desk does not learn of it. -/
theorem records_not_current :
    let r : Run (History Rat) (Wallet Rat) Rat Unit :=
      .ofFeeder bidOnClose dipHistory (Wallet.start Wallet.oneCoin) ()
    let d := (r.backtest bidOnClose).2.session.desk
    (r.backtest bidOnClose).1 = .ok () ∧
    d.book.orders.map (fun o => (o.id, o.status)) = [(1, .new)] ∧
    d.broker.orders.map (fun o => (o.id, o.status)) = [(1, .filled)] ∧
    d.book.trades.keys = [] := by
  intro r d
  obtain ⟨hok, hsession⟩ := backtest_dipHistory
  have hd : d = ((r.enqueuePairs bidOnClose).session.replay bidOnClose dipAtEnd).desk :=
    congrArg Session.desk hsession
  rw [hd]
  exact ⟨hok, by decide +kernel, by decide +kernel, by decide +kernel⟩

end Candlewick
