import Candlewick.Proofs.Feed.Connect
import Candlewick.Proofs.Session.Causality
import Candlewick.Proofs.Session.Records
import Candlewick.Proofs.Strategy.Tabulation
import Candlewick.Proofs.Wallet.Profit

/-! # The order of time in a backtest

The candles of a backtest leave the queue in replay order, across all pairs, and a bar of a pair is
changed by complete candles of that pair only. So the frames that a strategy is shown are in the
order of time (`Session.callbacks_inOrder`), and so is the equity of a wallet that follows the
market, which is written down once for each complete candle (`Session.equity_replay`). -/

namespace Candlewick

/-! ### What no request changes -/

/-- Something that no request to a broker changes. -/
structure Broker.Leaves {β α γ : Type} [Broker β α] (g : β → γ) : Prop where
  order : ∀ b pair id, g (Broker.order b pair id).2 = g b
  place : ∀ b t, g (Broker.place b t).2 = g b
  cancel : ∀ b id, g (Broker.cancel b id).2 = g b

section Leaves
variable {α β γ σ : Type} [Broker β α] {g : β → γ}

theorem Broker.Leaves.plan (h : Broker.Leaves g) {τ : Type} (p : Plan α τ) (b : β) :
    g (p.run b).2 = g b := by
  induction p generalizing b with
  | done a => rfl
  | ask r next ih =>
    refine (ih _ _).trans ?_
    cases r with
    | place t => exact h.place b t
    | cancel id => exact h.cancel b id
    | order pair id => exact h.order b pair id
    | position pair => rfl
    | account => rfl

theorem Broker.Leaves.onForming (h : Broker.Leaves g) (w : Watcher α) (s : Strategy α σ)
    (c : Candle α) (m : σ) (b : β) : g (w.onForming s c m b).2 = g b := by
  unfold Watcher.onForming
  split
  · exact h.plan _ b
  · rfl

theorem Broker.Leaves.onClosed (h : Broker.Leaves g) (w : Watcher α) (s : Strategy α σ)
    (c : Candle α) (m : σ) (b : β) : g (w.onClosed s c m b).2.2 = g b := by
  unfold Watcher.onClosed
  dsimp only
  split
  · split
    · exact h.plan _ b
    · rfl
  · rfl

variable [Amount α]

theorem Broker.Leaves.deskOrder (h : Broker.Leaves g) (d : Desk β α) (pair : String) (id : Int) :
    g (d.order pair id).2.broker = g d.broker := by
  have horder := h.order d.broker pair id
  unfold Desk.order
  rcases ho : Broker.order d.broker pair id with ⟨_ | o, b⟩
  · rwa [ho] at horder
  · rwa [ho] at horder

theorem Broker.Leaves.refresh (h : Broker.Leaves g) (d : Desk β α) :
    g d.refresh.broker = g d.broker := by
  unfold Desk.refresh
  generalize d.book.orders.filter (·.resting) = os
  induction os generalizing d with
  | nil => rfl
  | cons o os ih => exact (ih _).trans (h.deskOrder d o.pair o.id)

/-- A desk changes no more of its broker than requests do. -/
theorem Broker.Leaves.desk (h : Broker.Leaves g) :
    Broker.Leaves fun d : Desk β α => g d.broker := by
  refine ⟨h.deskOrder, fun d t => ?_, fun d id => ?_⟩
  · have hplace := h.place d.broker t
    show g (d.place t).2.broker = _
    unfold Desk.place
    rcases hp : Broker.place d.broker t with ⟨_ | os, b⟩
    · rwa [hp] at hplace
    · rwa [hp] at hplace
  · have hcancel := h.cancel d.broker id
    show g (d.cancel id).2.broker = _
    unfold Desk.cancel
    rcases hc : Broker.cancel d.broker id with ⟨_ | _, b⟩
    · rwa [hc] at hcancel
    · rw [hc] at hcancel
      exact (h.refresh _).trans hcancel

theorem Session.leaves_closeBar (h : Broker.Leaves g) (e : Setup β α σ) (s : Session β α σ)
    (pair : String) (w : Watcher α) (c : Candle α) :
    g (s.closeBar e pair w c).desk.broker = g s.desk.broker := by
  refine Eq.trans ?_ (h.desk.onClosed w e.strategy c s.memory s.desk)
  unfold closeBar Desk.observe
  dsimp only
  split
  · exact h.refresh _
  · rfl

/-- A candle that is processed changes no more of the broker than it does to the market. -/
theorem Session.leaves_process (h : Broker.Leaves g) (e : Setup β α σ) {s : Session β α σ}
    {pair : String} (hwatched : s.watchers.contains pair = true) (c : Candle α) :
    g (s.process e pair c).desk.broker = g (e.follow s.desk.broker c) := by
  obtain ⟨w, hw⟩ := Option.isSome_iff_exists.1 hwatched
  have hforming := h.desk.onForming w e.strategy c s.memory
    { s.desk with broker := e.follow s.desk.broker c }
  unfold process
  rw [hw]
  dsimp only
  split
  · exact (leaves_closeBar h ..).trans hforming
  · exact hforming

end Leaves

/-! ### What a session processes -/

namespace Session
variable {β α σ : Type} [Amount α] [Broker β α] {e : Setup β α σ} {s : Session β α σ}

theorem contains_process (s : Session β α σ) (p pair : String) (c : Candle α) :
    (s.process e p c).watchers.contains pair = s.watchers.contains pair := by
  cases hp : s.watchers.contains p with
  | false => rw [process_of_unwatched hp]
  | true =>
    cases hpair : s.watchers.contains pair with
    | true => exact process_watches hpair p c
    | false =>
      have hne : pair ≠ p := by
        rintro rfl
        rw [hp] at hpair
        cases hpair
      obtain ⟨w, hw⟩ := Option.isSome_iff_exists.1 hp
      unfold process
      rw [hw]
      dsimp only
      split
      · simp only [closeBar, Table.contains, Table.get?_set, if_neg hne]
        exact hpair
      · exact hpair

/-- The candles of watched pairs are processed. -/
theorem processed_eq_filter (s : Session β α σ) (cs : List (Candle α)) :
    processed e s cs = cs.filter fun c => s.watchers.contains c.pair := by
  induction cs generalizing s with
  | nil => rfl
  | cons c cs ih =>
    rw [processed, ih, List.filter_cons]
    simp only [contains_process]

theorem replay_processed (s : Session β α σ) (cs : List (Candle α)) :
    s.replay e (processed e s cs) = s.replay e cs := by
  induction cs generalizing s with
  | nil => rfl
  | cons c cs ih =>
    have hcons : s.replay e (c :: cs) = (s.process e c.pair c).replay e cs := rfl
    rw [processed, hcons]
    split
    next => exact ih _
    next hunwatched =>
      have hsame := process_of_unwatched (e := e) (Bool.eq_false_iff.2 hunwatched) c
      rw [hsame]
      exact hsame ▸ ih _

theorem replay_concat (s : Session β α σ) (cs : List (Candle α)) (c : Candle α) :
    s.replay e (cs ++ [c]) = (s.replay e cs).process e c.pair c := by
  rw [replay, List.foldl_append]
  rfl

end Session

/-! ### The equity of a wallet -/

namespace Wallet
variable {α : Type} [Amount α]

/-- What is written down of the value of a wallet is up to the market. -/
theorem leaves_marks : Broker.Leaves (Wallet.marks (α := α)) := by
  have hstep : ∀ (w : Wallet α) (e : Event α), (∀ c, e ≠ .candle c) →
      (w.after e).marks = w.marks := by
    intro w e he
    rcases after_eq_or_step w he with heq | hs
    · rw [heq]
    · rcases hs.shown with ⟨-, -, hmarks⟩ | ⟨c, hc, -⟩
      · exact hmarks
      · exact absurd hc (he c)
  exact ⟨fun _ _ _ => rfl, fun w t => hstep w (.place t) nofun,
    fun w id => hstep w (.cancel id) nofun⟩

theorem times_observe (w : Wallet α) (c : Candle α) :
    (w.observe c).equity.map (·.time) =
      w.equity.map (·.time) ++ if c.complete then [c.time] else [] := by
  obtain ⟨-, -, hmarks⟩ := midway_shown w c (w.touched c).length
  rw [observe_eq]
  dsimp only
  split
  · simp [equity, markToMarket, hmarks]
  · simp [equity, hmarks]

end Wallet

theorem Session.times_replay {α σ : Type} [Amount α] {e : Setup (Wallet α) α σ}
    (hpaper : e.paper = some Wallet.observe) {s : Session (Wallet α) α σ} {cs : List (Candle α)}
    (hwatched : ∀ c ∈ cs, s.watchers.contains c.pair = true) :
    (s.replay e cs).desk.broker.equity.map (·.time) =
      s.desk.broker.equity.map (·.time) ++ (cs.filter (·.complete)).map (·.time) := by
  induction cs generalizing s with
  | nil => exact (List.append_nil _).symm
  | cons c cs ih =>
    have hc := hwatched c (List.mem_cons_self ..)
    have hrest : ∀ k ∈ cs, (s.process e c.pair c).watchers.contains k.pair = true := by
      intro k hk
      rw [contains_process]
      exact hwatched k (List.mem_cons_of_mem _ hk)
    have hfollow : e.follow s.desk.broker c = s.desk.broker.observe c := by
      unfold Setup.follow
      rw [hpaper]
    have hmarks := leaves_process Wallet.leaves_marks e hc c
    have htimes := Wallet.times_observe s.desk.broker c
    rw [hfollow] at hmarks
    have hequity : (s.process e c.pair c).desk.broker.equity =
        (s.desk.broker.observe c).equity := congrArg List.reverse hmarks
    have hcons : s.replay e (c :: cs) = (s.process e c.pair c).replay e cs := rfl
    rw [hcons, ih hrest, hequity, htimes, List.append_assoc, List.filter_cons]
    split <;> simp

/-! ### The bars that a strategy is shown -/

/-- The complete candles of a pair. -/
def Candle.closedOf {α : Type} (pair : String) (cs : List (Candle α)) : List (Candle α) :=
  cs.filter fun c => c.pair = pair && c.complete

open Candle (closedOf)

theorem Strategy.OnlySetsIndicators.noted {α σ : Type} {s : Strategy α σ}
    (h : s.OnlySetsIndicators) : s.noted.OnlySetsIndicators := fun m f => h m.1 f

namespace Watcher
variable {α β σ : Type} [Broker β α]

/-- A closed candle is pushed to the frame, and what the strategy stores in the frame afterwards
leaves the bars as they are. -/
theorem onClosed_tabulates {s : Strategy α σ} (h : s.OnlySetsIndicators) {w : Watcher α}
    {bars : List (Bar α)} (hbars : w.frame.Tabulates bars) (c : Candle α) (m : σ) (b : β) :
    (w.onClosed s c m b).1.frame.Tabulates (Frame.pushBar c bars) ∧
      (w.onClosed s c m b).1.frame.pair = w.frame.pair := by
  obtain ⟨calls, hcalls⟩ := h m (w.frame.push c)
  obtain ⟨series, heq, -⟩ := (w.frame.push c).setIndicators_eq calls
  have hpair := w.frame.pair_push c
  rw [frame_onClosed, hcalls]
  split
  · exact ⟨(hbars.push c).setIndicators calls, (congrArg Frame.pair heq).trans hpair⟩
  · exact ⟨hbars.push c, hpair⟩

end Watcher

namespace Session
variable {β α σ : Type} [Amount α] [Broker β α] {e : Setup β α σ}

/-- What is called for while a candle is processed. -/
theorem process_told (s : Session β α (σ × List (Callback α))) (pair : String) (c : Candle α) :
    ∃ told, (s.process e.noted pair c).memory.2 = s.memory.2 ++ told ∧
      ∀ frame, .closed frame ∈ told → c.complete = true ∧
        ∃ w, (s.process e.noted pair c).watchers.get? pair = some w ∧ w.frame = frame := by
  unfold process
  cases hw : s.watchers.get? pair with
  | none => exact ⟨[], (List.append_nil _).symm, by simp⟩
  | some w =>
    obtain ⟨first, hfirst, hforming⟩ := w.onForming_told e.strategy c s.memory
      { s.desk with broker := e.noted.follow s.desk.broker c }
    dsimp only
    split
    next hcomplete =>
      obtain ⟨last, hlast, hclosed⟩ := w.onClosed_told e.strategy c
        (w.onForming e.strategy.noted c s.memory
          { s.desk with broker := e.noted.follow s.desk.broker c }).1
        (w.onForming e.strategy.noted c s.memory
          { s.desk with broker := e.noted.follow s.desk.broker c }).2
      refine ⟨first ++ last, ?_, fun frame hframe => ⟨hcomplete, ?_⟩⟩
      · rw [← List.append_assoc, ← hfirst]
        exact hlast
      · refine ⟨_, (Table.get?_set ..).trans (if_pos rfl), ?_⟩
        rcases List.mem_append.1 hframe with hmem | hmem
        · cases hforming _ hmem
        · rcases hclosed _ hmem with ⟨_, heq⟩ | ⟨-, heq⟩
          · cases heq
          · exact (Callback.closed.inj heq).symm
    next =>
      refine ⟨first, hfirst, fun frame hframe => ?_⟩
      cases hforming _ hframe

/-- The bars of every pair are those of its complete candles among some. -/
def Keeps (s : Session β α σ) (cs : List (Candle α)) : Prop :=
  ∀ pair w, s.watchers.get? pair = some w →
    w.frame.pair = pair ∧ ∃ bars, w.frame.Tabulates bars ∧ Frame.Tells bars (closedOf pair cs)

omit [Amount α] in
theorem closedOf_concat (pair : String) (cs : List (Candle α)) (c : Candle α) :
    closedOf pair (cs ++ [c]) =
      closedOf pair cs ++ if c.pair = pair ∧ c.complete = true then [c] else [] := by
  rw [closedOf, List.filter_append]
  by_cases h : c.pair = pair ∧ c.complete = true
  · simp [closedOf, h]
  · rw [if_neg h]
    simpa [closedOf] using h

/-- A watcher changes with the complete candles of its pair only. -/
theorem watchers_process (s : Session β α σ) {p : String} {v : Watcher α}
    (hv : s.watchers.get? p = some v) (c : Candle α) :
    ∃ (m : σ) (b : Desk β α), (s.process e p c).watchers =
      if c.complete = true then s.watchers.set p (v.onClosed e.strategy c m b).1
      else s.watchers := by
  unfold process
  rw [hv]
  dsimp only
  split
  · exact ⟨_, _, rfl⟩
  · exact ⟨s.memory, s.desk, rfl⟩

theorem Keeps.process (hind : e.strategy.OnlySetsIndicators) {s : Session β α σ}
    {cs : List (Candle α)} (h : s.Keeps cs) {c : Candle α}
    (hlast : ∀ k ∈ cs, k.time.upTo c.time = true) : (s.process e c.pair c).Keeps (cs ++ [c]) := by
  intro pair w hw
  -- in every case but one the frame is the same, and the candle is none that it has to tell
  have hother : ¬ (c.pair = pair ∧ c.complete = true) → s.watchers.get? pair = some w →
      w.frame.pair = pair ∧
        ∃ bars, w.frame.Tabulates bars ∧ Frame.Tells bars (closedOf pair (cs ++ [c])) := by
    intro hne hsame
    rw [closedOf_concat, if_neg hne, List.append_nil]
    exact h pair w hsame
  cases hv : s.watchers.get? c.pair with
  | none =>
    rw [process_of_unwatched (Option.isSome_eq_false_iff.2 (Option.isNone_iff_eq_none.2 hv))] at hw
    refine hother (fun hc => ?_) hw
    rw [hc.1, hw] at hv
    cases hv
  | some v =>
    obtain ⟨m, b, hwatchers⟩ := s.watchers_process (e := e) hv c
    rw [hwatchers] at hw
    split at hw
    next hcomplete =>
      rw [Table.get?_set] at hw
      split at hw
      next hpair =>
        cases hw
        subst hpair
        obtain ⟨hname, bars, hbars, htells⟩ := h c.pair v hv
        obtain ⟨hpushed, hsame⟩ := Watcher.onClosed_tabulates hind hbars c m b
        refine ⟨hsame.trans hname, _, hpushed, ?_⟩
        rw [closedOf_concat, if_pos ⟨rfl, hcomplete⟩]
        exact htells.push fun k hk => hlast k (List.mem_of_mem_filter hk)
      next hpair => exact hother (fun hc => hpair hc.1.symm) hw
    next hforming => exact hother (fun hc => hforming hc.2) hw

theorem Keeps.replay (hind : e.strategy.OnlySetsIndicators) {s : Session β α σ}
    {past cs : List (Candle α)} (h : s.Keeps past)
    (hsorted : (past ++ cs).Pairwise fun a b => a.time.upTo b.time = true) :
    (s.replay e cs).Keeps (past ++ cs) := by
  induction cs generalizing s past with
  | nil => rwa [List.append_nil]
  | cons c cs ih =>
    have hlast : ∀ k ∈ past, k.time.upTo c.time = true := fun k hk =>
      (List.pairwise_append.1 hsorted).2.2 k hk c (List.mem_cons_self ..)
    have hcons : past ++ c :: cs = (past ++ [c]) ++ cs := by simp
    rw [hcons] at hsorted ⊢
    exact ih (h.process hind hlast) hsorted

end Session

/-- The columns of a frame are those of bars in the order of time, and these tell the complete candles
of a pair so far; all but the newest one tell those of the whole run. -/
structure Frame.InOrder {α : Type} (f : Frame α) (bars : List (Bar α)) (pair : String)
    (past all : List (Candle α)) : Prop where
  named : f.pair = pair
  tabulates : f.Tabulates bars
  increasing : (f.column (·.time)).Pairwise fun a b => a.before b = true
  merges : ∀ b ∈ bars, b.Merges ((closedOf pair past).filter fun c => c.time = b.time)
  settled : ∀ b ∈ bars.tail, b.Merges ((closedOf pair all).filter fun c => c.time = b.time)
  told : ∀ c ∈ closedOf pair past, ∃ b ∈ bars, b.time = c.time

theorem Frame.Tells.inOrder {α : Type} {f : Frame α} {bars : List (Bar α)} {pair : String}
    {past later : List (Candle α)} (hpair : f.pair = pair) (htable : f.Tabulates bars)
    (h : Frame.Tells bars (closedOf pair past))
    (hsorted : (past ++ later).Pairwise fun a b => a.time.upTo b.time = true) :
    f.InOrder bars pair past (past ++ later) := by
  refine ⟨hpair, htable, ?_, h.merges, fun b hb => ?_, h.told⟩
  · rw [column, htable.columns, Columns.ofBars, List.pairwise_reverse, List.pairwise_map]
    exact h.ordered
  · have hall : closedOf pair (past ++ later) = closedOf pair past ++ closedOf pair later :=
      List.filter_append ..
    rw [hall]
    refine h.merges_older (fun k hk c hc => ?_) hb
    exact (List.pairwise_append.1 hsorted).2.2 k (List.mem_of_mem_filter hk) c
      (List.mem_of_mem_filter hc)

namespace Session
variable {β α σ : Type} [Amount α] [Broker β α] {e : Setup β α σ}

/-- What the strategy is shown while it processes candles that come in the order of time. -/
theorem callbacks_inOrder (hind : e.strategy.OnlySetsIndicators) {s : Session β α σ}
    (h : s.Keeps []) {xs ys : List (Candle α)} {c : Candle α}
    (hsorted : (xs ++ c :: ys).Pairwise fun a b => a.time.upTo b.time = true) :
    ∃ told, s.callbacks e (xs ++ [c]) = s.callbacks e xs ++ told ∧
      ∀ frame, .closed frame ∈ told →
        c.complete = true ∧ ∃ bars, frame.InOrder bars c.pair (xs ++ [c]) (xs ++ c :: ys) := by
  have hcons : xs ++ c :: ys = (xs ++ [c]) ++ ys := by simp
  rw [hcons] at hsorted ⊢
  have hstart : s.noted.Keeps [] := h
  have hkeeps : (s.noted.replay e.noted (xs ++ [c])).Keeps ([] ++ (xs ++ [c])) :=
    hstart.replay hind.noted (List.pairwise_append.1 hsorted).1
  rw [replay_concat] at hkeeps
  obtain ⟨told, htold, hclosed⟩ := process_told (e := e) (s.noted.replay e.noted xs) c.pair c
  refine ⟨told, ?_, fun frame hframe => ?_⟩
  · rw [callbacks, replay_concat]
    exact htold
  · obtain ⟨hcomplete, w, hw, rfl⟩ := hclosed frame hframe
    obtain ⟨hpair, bars, hbars, htells⟩ := hkeeps c.pair w hw
    exact ⟨hcomplete, bars, htells.inOrder hpair hbars hsorted⟩

end Session

/-! ### From the beginning to the end -/

namespace Run
variable {φ β α σ : Type} {e : Setup β α σ} {r : Run φ β α σ}

/-- Nobody watches another pair than those of the configuration. -/
structure Ready (e : Setup β α σ) (r : Run φ β α σ) : Prop where
  watches : ∀ pair, r.session.watchers.contains pair = true → pair ∈ e.config.pairs

theorem ready_ofFeeder (e : Setup β α σ) (feeder : φ) (b : β) (memory : σ) :
    (ofFeeder e feeder b memory).Ready e where
  watches := by simp [ofFeeder, Session.ofBroker, Table.contains]

theorem watchers_enqueuePairs (pairs : List String) (r : Run φ β α σ)
    (h : ∀ pair w, r.session.watchers.get? pair = some w →
      w = (Watcher.ofPair pair).start ∨ pair ∈ pairs) :
    ∀ pair w, (pairs.foldl (enqueuePair e) r).session.watchers.get? pair = some w →
      w = (Watcher.ofPair pair).start := by
  induction pairs generalizing r with
  | nil => exact fun pair w hw => (h pair w hw).resolve_right nofun
  | cons p pairs ih =>
    refine ih _ fun pair w hw => ?_
    simp only [enqueuePair, Session.watch, Session.start, Table.update, Table.getD, Table.get?_set]
      at hw
    split at hw
    next hp =>
      left
      rw [hp]
      exact (Option.some.inj hw).symm
    next hp =>
      exact (h pair w hw).imp_right fun hmem => (List.mem_cons.1 hmem).resolve_left hp

/-- Every pair is watched anew. -/
theorem Ready.keeps (h : r.Ready e) : (r.enqueuePairs e).session.Keeps [] := by
  intro pair w hw
  have hstart : ∀ pair w, r.session.watchers.get? pair = some w →
      w = (Watcher.ofPair pair).start ∨ pair ∈ e.config.pairs :=
    fun pair w hw => .inr (h.watches pair (Option.isSome_iff_exists.2 ⟨w, hw⟩))
  rw [watchers_enqueuePairs e.config.pairs { r with queue := r.router.newQueue } hstart pair w hw]
  exact ⟨rfl, [], Frame.tabulates_ofPair pair, Frame.tells_nil⟩

/-- The queue releases in replay order what has entered it. -/
theorem queued_handOn [Amount α] [Feeder φ α] (ds : List (FeedKey × Candle α)) :
    ((r.opened e).handOn ds).queued = Candle.sort (ds.flatMap fun d =>
      List.replicate ((e.config.pairs.map e.key).count d.1) d.2) := by
  obtain ⟨streams, hopens⟩ := (r.enqueuePairs e).router.connect_opens
  obtain ⟨feeder, connected, hrest⟩ := hopens.rest
  obtain ⟨hqueue, hcopies⟩ := r.enqueuePairs_queue e
  -- the lists that lie on the connections matter to neither the queue nor the subscriptions
  have hqueues : Router.Queues { (r.opened e).router with connected := [] }
      (r.enqueuePairs e).queue [] := by
    obtain ⟨as, has, hnil⟩ := hqueue
    refine ⟨as, ?_, hnil⟩
    show Sequencer.Holds ((r.enqueuePairs e).router.connect.2.2.queue _) as
    rw [hrest]
    exact has
  have hopened : ∀ key c, Router.copies { (r.opened e).router with connected := [] }
      (r.enqueuePairs e).queue key c = (e.config.pairs.map e.key).count key := by
    intro key c
    refine .trans ?_ (hcopies key c)
    show Router.copies { (r.enqueuePairs e).router.connect.2.2 with connected := [] } _ key c = _
    rw [hrest]
    rfl
  show (Router.drain (Router.dispatchAll _ ds) (r.enqueuePairs e).queue).1 = _
  rw [Router.drain_eq (Router.dispatchAll_queues hqueues ds), List.nil_append]
  simp only [hopened]

theorem processed_sorted [Amount α] [Broker β α] [Feeder φ α] (ds : List (FeedKey × Candle α)) :
    (((r.opened e).handOn ds).processed e).Pairwise fun a b => a.time.upTo b.time = true := by
  rw [processed, Session.processed_eq_filter, queued_handOn]
  refine List.Pairwise.filter _ ?_
  exact (List.pairwise_mergeSort Candle.upTo_trans Candle.upTo_total _).imp Candle.time_upTo

theorem backtest_ends [Amount α] [Broker β α] [Feeder φ α] (e : Setup β α σ) (r : Run φ β α σ) :
    (∃ ds, r.backtest e = (.ok (), ((r.opened e).handOn ds).drain e)) ∨
      (∃ failure, (r.backtest e).1 = .error failure) ∧
        (r.backtest e).2.session = (r.enqueuePairs e).session := by
  cases hok : (r.enqueuePairs e).router.connect.1 with
  | ok => exact .inl ⟨_, backtest_eq hok⟩
  | error failure =>
    right
    unfold backtest
    dsimp only
    rcases hc : (r.enqueuePairs e).router.connect with ⟨_ | _, waited, router⟩
    · exact ⟨⟨_, rfl⟩, rfl⟩
    · rw [hc] at hok
      cases hok

/-- Each time the strategy is to trade on closed bars while a queue is drained, these are in the order
of time, and they tell the complete candles of the pair. -/
structure ShowsInOrder [Amount α] [Broker β α] (e : Setup β α σ) (q : Run φ β α σ) : Prop where
  session : (q.drain e).session = q.session.replay e (q.processed e)
  told : ∀ xs c ys, q.processed e = xs ++ c :: ys →
    ∃ told, q.session.callbacks e (xs ++ [c]) = q.session.callbacks e xs ++ told ∧
      ∀ frame, .closed frame ∈ told →
        c.complete = true ∧ ∃ bars, frame.InOrder bars c.pair (xs ++ [c]) (q.processed e)

/-- While a queue is drained, the value of the wallet is written down once for each complete candle
that is processed, in the order of time. -/
structure ValuesInOrder [Amount α] (e : Setup (Wallet α) α σ) (q : Run φ (Wallet α) α σ) :
    Prop where
  times : (q.drain e).session.desk.broker.equity.map (·.time) =
    q.session.desk.broker.equity.map (·.time) ++
      ((q.processed e).filter (·.complete)).map (·.time)
  sorted : (((q.processed e).filter (·.complete)).map (·.time)).Pairwise
    fun a b => a.upTo b = true

end Run

/-- However the feeds of a backtest lie between each other, and whatever candles they bring, the
strategy trades on closed bars in the order of time, and a wallet that follows the market is valued in
the order of time. A backtest whose feeds do not open processes nothing. -/
theorem backtest_inOrder {φ α σ : Type} [Amount α] [Feeder φ α] :
    (∀ (β : Type) [Broker β α] (e : Setup β α σ) (r : Run φ β α σ),
      e.strategy.OnlySetsIndicators → r.Ready e →
      ((∃ ds, r.backtest e = (.ok (), ((r.opened e).handOn ds).drain e)) ∨
        (∃ failure, (r.backtest e).1 = .error failure) ∧
          (r.backtest e).2.session = (r.enqueuePairs e).session) ∧
      ∀ ds, ((r.opened e).handOn ds).ShowsInOrder e) ∧
    ∀ (e : Setup (Wallet α) α σ) (r : Run φ (Wallet α) α σ),
      e.paper = some Wallet.observe → r.Ready e → ∀ ds, let q := (r.opened e).handOn ds
        q.session.desk = r.session.desk ∧ q.ValuesInOrder e := by
  constructor
  · intro β _ e r hind hready
    refine ⟨r.backtest_ends e, fun ds => ⟨?_, fun xs c ys hsplit => ?_⟩⟩
    · rw [Run.drain_session, Run.processed, Session.replay_processed]
    · have hsorted := r.processed_sorted (e := e) ds
      rw [hsplit] at hsorted ⊢
      exact Session.callbacks_inOrder hind hready.keeps hsorted
  · intro e r hpaper hready ds q
    refine ⟨r.enqueuePairs_desk e, ?_, List.pairwise_map.2 ((r.processed_sorted ds).filter _)⟩
    have hwatched : ∀ c ∈ q.processed e, q.session.watchers.contains c.pair = true := by
      intro c hc
      rw [Run.processed, Session.processed_eq_filter] at hc
      exact (List.mem_filter.1 hc).2
    rw [Run.drain_session, ← Session.replay_processed]
    exact Session.times_replay hpaper hwatched

/-! ### A bar that is told again -/

/-- A strategy that stores the closes as an indicator, over a wallet that follows the market. -/
def storingCloses : Setup (Wallet Rat) Rat Unit :=
  { twoCoins with
    strategy := { twoCoins.strategy with
      indicators := fun s f => (f.store [("close", f.closes.map some)], s) }
    paper := some Wallet.observe }

theorem onlySetsIndicators_storingCloses : storingCloses.strategy.OnlySetsIndicators := by
  intro m f
  exact ⟨[("close", f.closes.map some)], f.store_singleton ..⟩

/-- Two bars of one coin out of order, the second one told three times. -/
def toldAgain : List (Candle Rat) :=
  [minute "BTCUSDT" 1, { minute "BTCUSDT" 1 with updated := ⟨90, 0⟩, close := 3 },
    { minute "BTCUSDT" 1 with updated := ⟨75, 0⟩, complete := false }, minute "BTCUSDT" 0]

/-- These and a bar of the other coin. -/
def toldAgainHistory : History Rat :=
  ((History.empty 1).insert ⟨"BTCUSDT", .m1⟩ toldAgain).insert ⟨"ETHUSDT", .m1⟩ [minute "ETHUSDT" 0]

theorem sort_toldAgainHistory :
    Candle.sort (Run.stored storingCloses toldAgainHistory storingCloses.config.pairs) =
      [minute "BTCUSDT" 0, minute "ETHUSDT" 0, minute "BTCUSDT" 1,
        { minute "BTCUSDT" 1 with updated := ⟨75, 0⟩, complete := false },
        { minute "BTCUSDT" 1 with updated := ⟨90, 0⟩, close := 3 }] := by
  have hstored : Run.stored storingCloses toldAgainHistory storingCloses.config.pairs =
      Candle.sort toldAgain ++ (Candle.sort [minute "ETHUSDT" 0] ++ []) := rfl
  rw [hstored]
  simp +decide [Candle.sort, toldAgain, List.mergeSort]

theorem backtest_inOrder_toldAgain :
    let r : Run (History Rat) (Wallet Rat) Rat Unit :=
      .ofFeeder storingCloses toldAgainHistory default ()
    storingCloses.strategy.OnlySetsIndicators ∧ r.Ready storingCloses ∧
    storingCloses.paper = some Wallet.observe ∧
    (r.backtest storingCloses).1 = .ok () ∧
    (r.backtest storingCloses).2.session.desk.broker.equity.map (·.time) =
      [⟨0, 0⟩, ⟨0, 0⟩, ⟨60, 0⟩, ⟨60, 0⟩] ∧
    ∃ ds, r.backtest storingCloses =
        (.ok (), ((r.opened storingCloses).handOn ds).drain storingCloses) ∧
      ((r.opened storingCloses).handOn ds).ShowsInOrder storingCloses := by
  intro r
  have hready : r.Ready storingCloses := Run.ready_ofFeeder ..
  have hfresh : r.Fresh toldAgainHistory := Run.fresh_ofFeeder ..
  have hnamed : Run.Named toldAgainHistory := by
    refine ((Run.named_empty 1).insert ?_).insert ?_
    · simp [toldAgain, minute]
    · simp [minute]
  have hstored : ∀ pair ∈ storingCloses.config.pairs,
      toldAgainHistory.series.contains (storingCloses.key pair) = true := by decide
  obtain ⟨q, ⟨ts, hend, rfl⟩, hbacktest⟩ := hfresh.backtest_loads hstored
  have hdrain := hfresh.loads (by decide) hnamed hstored ⟨ts, hend, rfl⟩
  obtain ⟨-, hshows⟩ :=
    backtest_inOrder.1 _ storingCloses r onlySetsIndicators_storingCloses hready
  obtain ⟨hdesk, hvalues⟩ := backtest_inOrder.2 storingCloses r rfl hready
    (Schedule.actAll (r.opened storingCloses).router.connected ts).1
  have hsession : ∀ ds, ((r.opened storingCloses).handOn ds).session =
      (r.enqueuePairs storingCloses).session := fun _ => rfl
  refine ⟨onlySetsIndicators_storingCloses, hready, rfl, by rw [hbacktest], ?_, _, hbacktest,
    hshows _⟩
  rw [hbacktest, hvalues.times, hdesk, Run.processed, Session.processed_eq_filter, hdrain,
    sort_toldAgainHistory, hsession]
  decide +kernel

end Candlewick
