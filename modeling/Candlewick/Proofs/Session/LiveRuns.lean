import Candlewick.Proofs.Session.Backtest
import Candlewick.Proofs.Session.Streams

/-! # Live runs one after the other

A router outlives the run that uses it, and so do the streams that a connect has opened before it
failed (`Run.leaves_begin`). A later run takes these over: the feed of a pair then has a connection of
its own and one for each stream that was left, and the session processes what all of them bring. It is
the stream of the pair alone exactly if the others bring nothing (`Run.processes_in_order`). -/

namespace Candlewick

namespace Run
variable {φ β α σ : Type} [Feeder φ α] [Amount α] [Broker β α]

/-! ### What a run leaves -/

theorem primeAll_eq_error {e : Setup β α σ} {r : Run φ β α σ} {inboxes : Table String Nat}
    {pairs : List String} {error : SessionError} (h : (r.primeAll e inboxes pairs).1 = .error error) :
    ∃ pair failure, error = .warmUp pair failure := by
  induction pairs generalizing r inboxes with
  | nil => cases h
  | cons pair pairs ih =>
    cases hrecent : e.recent r.router.feeder pair with
    | error failure =>
      rw [primeAll_of_error hrecent] at h
      cases h
      exact ⟨pair, failure, rfl⟩
    | ok cs =>
      rw [primeAll_of_ok hrecent] at h
      exact ih h

/-- How a run begins: a pair has no history, a feed does not open, or the run takes the streams
over. -/
theorem begin_cases (e : Setup β α σ) (r : Run φ β α σ) :
    (∃ pair failure, r.begin e = (.error (.warmUp pair failure), (r.prime e).2)) ∨
    (∃ failure, (r.prime e).2.router.connect.1 = .error failure ∧ r.begin e =
      (.error (.feed failure), { (r.prime e).2 with router := (r.prime e).2.router.connect.2.2 })) ∨
    ∃ l, r.begin e = (.ok l, (r.prime e).2.taken) ∧ l.run = (r.prime e).2.taken := by
  cases hp : (r.prime e).1 with
  | error failure =>
    obtain ⟨pair, failure, rfl⟩ := primeAll_eq_error hp
    exact .inl ⟨pair, failure, begin_of_error hp⟩
  | ok inboxes =>
    have hbegin := begin_of_ok hp
    cases hc : (r.prime e).2.router.connect.1 with
    | error failure =>
      rw [Live.connect_of_error hc] at hbegin
      exact .inr (.inl ⟨failure, rfl, hbegin⟩)
    | ok =>
      rw [Live.connect_of_ok hc] at hbegin
      exact .inr (.inr ⟨_, hbegin, rfl⟩)

theorem brings_prime (e : Setup β α σ) (r : Run φ β α σ) :
    (r.prime e).2.router.brings = r.router.brings := by
  have hrouter := (primes_primeAll e r .empty e.config.pairs).router
  unfold prime
  rw [hrouter, Router.brings, Router.connected_after]
  rfl

/-- What a run leaves of the streams of its router, whether or not its feeds open. -/
structure Leaves (e : Setup β α σ) (r : Run φ β α σ) : Prop where
  /-- If a pair has no history, nothing changes. -/
  warmUp : ∀ pair failure, (r.begin e).1 = .error (.warmUp pair failure) →
    (r.begin e).2.router.brings = r.router.brings
  /-- If a feed does not open, there is one more stream of each feed before it. -/
  feed : ∀ failure, (r.begin e).1 = .error (.feed failure) → ∃ streams key later,
    (r.begin e).2.router.brings = r.router.brings ++ streams ∧
    (r.begin e).2.router.feeds = streams.map Prod.fst ++ key :: later
  /-- If all feeds open, the run takes the streams over. -/
  opened : ∀ l, (r.begin e).1 = .ok l → (r.begin e).2.router.brings = []

theorem leaves_begin (e : Setup β α σ) (r : Run φ β α σ) : r.Leaves e := by
  have hcases := r.begin_cases e
  constructor
  case warmUp =>
    intro pair failure h
    rcases hcases with ⟨_, _, heq⟩ | ⟨_, -, heq⟩ | ⟨_, heq, -⟩ <;> rw [heq] at h ⊢
    · exact r.brings_prime e
    · cases h
    · cases h
  case feed =>
    intro failure h
    rcases hcases with ⟨_, _, heq⟩ | ⟨failure, hc, heq⟩ | ⟨_, heq, -⟩ <;> rw [heq] at h ⊢
    · cases h
    · obtain ⟨streams, hopens⟩ := (r.prime e).2.router.connect_opens
      obtain ⟨feeder, connected, hrest⟩ := hopens.rest
      obtain ⟨key, later, hkeys⟩ := hopens.error failure hc
      refine ⟨streams, key, later, ?_, ?_⟩
      · rw [← r.brings_prime e]
        exact hopens.brings
      · rw [← hkeys]
        show ((r.prime e).2.router.connect.2.2).feeds = _
        rw [hrest]
        rfl
    · cases h
  case opened =>
    intro l h
    rcases hcases with ⟨_, _, heq⟩ | ⟨_, -, heq⟩ | ⟨_, heq, -⟩ <;> rw [heq] at h ⊢
    · cases h
    · cases h
    · rfl

/-- The runs that an engine can come to make. Between two of them the table of subscribers, the
session and the feeder may change for other reasons. -/
inductive Reached (e : Setup β α σ) : Run φ β α σ → Prop
  | ofFeeder (feeder : φ) (b : β) (memory : σ) : Reached e (ofFeeder e feeder b memory)
  | happen {r : Run φ β α σ} (h : Reached e r) {x : Router.Event α} (hx : x.Fits r.router.nextId) :
      Reached e { r with router := r.router.happen x }
  | elsewhere {r : Run φ β α σ} (h : Reached e r) (session : Session β α σ) (feeder : φ) :
      Reached e { r with session, router := { r.router with feeder } }
  | failed {r : Run φ β α σ} {failure : SessionError} (h : Reached e r)
      (hbegin : (r.begin e).1 = .error failure) : Reached e (r.begin e).2
  | ended {r : Run φ β α σ} {l : Live φ β α σ} (h : Reached e r) (hbegin : (r.begin e).1 = .ok l)
      (streams : LineId → List (Candle α)) (capacity : LineId → Nat) (ms : List Traffic.Move) :
      Reached e ((Traffic.ofLive l streams).run e capacity ms).live.run

omit [Amount α] [Broker β α] in
theorem fits_offers (e : Setup β α σ) (feeder : φ) (pairs : List String) :
    ∀ x ∈ offers e feeder pairs, ∀ n, x.Fits n := by
  induction pairs with
  | nil => exact fun x hx => absurd hx List.not_mem_nil
  | cons pair pairs ih =>
    rw [offers]
    split
    · exact fun x hx => absurd hx List.not_mem_nil
    · intro x hx n
      rcases List.mem_append.1 hx with hx | hx
      · obtain ⟨c, -, rfl⟩ := List.mem_map.1 hx
        trivial
      · rcases List.mem_cons.1 hx with rfl | hx
        · trivial
        · exact ih x hx n

theorem allotted_begin {e : Setup β α σ} {r : Run φ β α σ} (h : r.router.Allotted) :
    (r.begin e).2.router.Allotted ∧ ∀ l, (r.begin e).1 = .ok l → l.run.router.Allotted := by
  have hprime : (r.prime e).2.router.Allotted := by
    have hrouter := (primes_primeAll e r .empty e.config.pairs).router
    unfold prime
    rw [hrouter]
    exact h.after (fits_offers e r.router.feeder e.config.pairs)
  have htaken : (r.prime e).2.taken.router.Allotted := by
    obtain ⟨feeder, heq⟩ := (r.prime e).2.router_taken
    rw [heq]
    exact ⟨hprime.used, hprime.absent⟩
  rcases r.begin_cases e with ⟨_, _, heq⟩ | ⟨failure, -, heq⟩ | ⟨l, heq, hrun⟩ <;> rw [heq]
  · exact ⟨hprime, nofun⟩
  · obtain ⟨streams, hopens⟩ := (r.prime e).2.router.connect_opens
    obtain ⟨feeder, connected, hrest⟩ := hopens.rest
    refine ⟨?_, nofun⟩
    show ((r.prime e).2.router.connect.2.2).Allotted
    rw [hrest]
    exact ⟨hprime.used, hprime.absent⟩
  · refine ⟨htaken, fun l' hl => ?_⟩
    cases hl
    rw [hrun]
    exact htaken

end Run

theorem Traffic.Change.allotted {φ β α σ : Type} [Amount α] [Broker β α] {e : Setup β α σ}
    {t t' : Traffic φ β α σ} {m : Move} (hc : Change e t m t')
    (h : t.live.run.router.Allotted) : t'.live.run.router.Allotted := by
  cases hc with
  | @route id line c => exact h.dispatch id.key c
  | @process pair n c router hinbox hnext =>
    have hrouter : t.live.run.router.happen (.next n) = router := by simp [Router.happen, hnext]
    rw [← hrouter]
    exact h.happen (e := .next n) trivial
  | @quit pair n => exact h.happen (e := .discard n) trivial
  | _ => exact h

namespace Run
variable {φ β α σ : Type} [Feeder φ α] [Amount α] [Broker β α]

/-- Whatever an engine has been through, no inbox is in use that has not been given out. -/
theorem Reached.allotted {e : Setup β α σ} {r : Run φ β α σ} (h : r.Reached e) :
    r.router.Allotted := by
  induction h with
  | ofFeeder feeder b memory => exact Router.allotted_ofFeeder ..
  | happen _ hx ih => exact ih.happen hx
  | elsewhere _ session feeder ih => exact ⟨ih.used, ih.absent⟩
  | failed _ hbegin ih => exact (allotted_begin ih).1
  | @ended r l _ hbegin streams capacity ms ih =>
    have hopened : (Traffic.ofLive l streams).live.run.router.Allotted :=
      (allotted_begin ih).2 l hbegin
    exact Traffic.run_induction (P := fun t => t.live.run.router.Allotted)
      (fun _ hc h => hc.allotted h) hopened

end Run

/-! ### What comes of the streams -/

namespace Traffic
variable {φ β α σ : Type}

/-- The candles that were processed of a feed with `left` older connections beside its newest one, each
with the connection over which it came. -/
structure Serves (t₀ t : Traffic φ β α σ) (key : FeedKey) (left : Nat) (rest : Prop)
    (done : List (LineId × Candle α)) : Prop where
  feed : ∀ d ∈ done, d.1.key = key
  /-- Of each connection these are the first candles that its source has sent, each one once and in
  order. -/
  lane : ∀ id : LineId, id.key = key → ∃ sent, t₀.unsent id = sent ++ t.unsent id ∧
    fromLine id done <+: sent
  /-- At rest these are all candles that the sources had to send. -/
  all : rest → ∀ id : LineId, id.key = key → fromLine id done = t₀.unsent id
  /-- There is no older connection than those. -/
  older : ∀ age, left < age → t₀.unsent ⟨key, age⟩ = []
  /-- If the older connections bring nothing, it is the newest one alone whose candles are processed. -/
  once : (∀ age, 0 < age → t₀.unsent ⟨key, age⟩ = []) → ∃ sent,
    t₀.unsent key = sent ++ t.unsent key ∧ done.map Prod.snd <+: sent ∧
    (rest → done.map Prod.snd = t₀.unsent key)
  /-- If they bring something, it is not. -/
  only : rest →
    (done.map Prod.snd = t₀.unsent key ↔ ∀ age, 0 < age → t₀.unsent ⟨key, age⟩ = [])

theorem map_snd_eq_fromLine {id : LineId} {done : List (LineId × Candle α)}
    (h : ∀ d ∈ done, d.1 = id) : done.map Prod.snd = fromLine id done := by
  rw [fromLine, List.filter_eq_self.2 fun d hd => decide_eq_true (h d hd)]

theorem fromLine_eq_nil {id : LineId} {done : List (LineId × Candle α)} :
    fromLine id done = [] ↔ ∀ d ∈ done, d.1 ≠ id := by
  simp [fromLine]

theorem serves_of_lanes {t₀ t : Traffic φ β α σ} {key : FeedKey} {left : Nat} {rest : Prop}
    {done : List (LineId × Candle α)} (hfeed : ∀ d ∈ done, d.1.key = key)
    (hlane : ∀ id : LineId, id.key = key → ∃ sent, t₀.unsent id = sent ++ t.unsent id ∧
      fromLine id done <+: sent)
    (hall : rest → ∀ id : LineId, id.key = key → fromLine id done = t₀.unsent id)
    (holder : ∀ age, left < age → t₀.unsent ⟨key, age⟩ = []) :
    t₀.Serves t key left rest done := by
  have hown : (∀ age, 0 < age → fromLine ⟨key, age⟩ done = []) → ∀ d ∈ done, d.1 = ⟨key, 0⟩ := by
    intro hnone d hd
    obtain ⟨⟨k, age⟩, c⟩ := d
    obtain rfl : k = key := hfeed _ hd
    rcases Nat.eq_zero_or_pos age with rfl | hage
    · rfl
    · exact absurd rfl (fromLine_eq_nil.1 (hnone age hage) _ hd)
  have honce : (∀ age, 0 < age → t₀.unsent ⟨key, age⟩ = []) →
      done.map Prod.snd = fromLine ⟨key, 0⟩ done := by
    intro hnone
    refine map_snd_eq_fromLine (hown fun age hage => ?_)
    obtain ⟨sent, hsent, hprefix⟩ := hlane ⟨key, age⟩ rfl
    rw [hnone age hage] at hsent
    rw [(List.append_eq_nil_iff.1 hsent.symm).1] at hprefix
    exact List.prefix_nil.1 hprefix
  refine ⟨hfeed, hlane, hall, holder, fun hnone => ?_, fun hrest => ⟨fun heq age hage => ?_, ?_⟩⟩
  · obtain ⟨sent, hsent, hprefix⟩ := hlane ⟨key, 0⟩ rfl
    rw [honce hnone]
    exact ⟨sent, hsent, hprefix, fun hrest => hall hrest ⟨key, 0⟩ rfl⟩
  · -- a candle of another stream would be one more than the newest stream has
    have hlength : (done.filter (·.1 = ⟨key, 0⟩)).length = done.length := by
      have hsame := congrArg List.length (heq.trans (hall hrest ⟨key, 0⟩ rfl).symm)
      rw [fromLine, List.length_map, List.length_map] at hsame
      exact hsame.symm
    rw [← hall hrest ⟨key, age⟩ rfl, fromLine_eq_nil]
    intro d hd heq'
    have hzero := of_decide_eq_true (List.length_filter_eq_length_iff.1 hlength d hd)
    rw [heq'] at hzero
    exact hage.ne' (LineId.mk.inj hzero).2
  · intro hnone
    rw [honce hnone, hall hrest ⟨key, 0⟩ rfl]

/-- What a pair has processed are the first of the candles that were handed out for it. -/
theorem Carries.serves [Amount α] [Broker β α] {e : Setup β α σ} {s₀ : Session β α σ}
    {pair : String} {n left : Nat} {t₀ t : Traffic φ β α σ}
    (h : t.Carries e s₀ pair n t₀.unsent)
    (holder : ∀ age, left < age → t₀.unsent ⟨e.key pair, age⟩ = []) {running : Prop}
    (hrunning : running → t.halted = false) (capacity : LineId → Nat) :
    ∃ done, s₀.processedFor e pair t.story = done.map Prod.snd ∧
      t₀.Serves t (e.key pair) left (running ∧ t.Still e capacity) done := by
  obtain ⟨handed, hlanes, hin⟩ := h.flow
  have hdone := List.prefix_iff_eq_take.1 hin.isPrefix
  rw [← List.map_take] at hdone
  refine ⟨_, hdone, serves_of_lanes (fun d hd => hlanes.feed d (List.mem_of_mem_take hd))
    (fun id hid => ?_) (fun hrest id hid => ?_) holder⟩
  · obtain ⟨sent, hsent, hup⟩ := hlanes.lane id hid
    exact ⟨sent, hsent, (((List.take_prefix ..).filter _).map _).trans hup.isPrefix⟩
  · obtain ⟨hall, hstreams⟩ := h.processed_of_still (hrunning hrest.1) hrest.2 hlanes hin
    rw [hall, List.length_map, List.take_length]
    exact hstreams id hid

theorem unsent_of_lines {l : Live φ β α σ} {key : FeedKey} {own : List (Candle α)}
    {left : List (List (Candle α))}
    (h : ∀ age, (l.lines.get? ⟨key, age⟩).map Line.waiting = (own :: left.reverse)[age]?)
    (streams : LineId → List (Candle α)) {age : Nat} (hage : left.length < age) :
    (ofLive l streams).unsent ⟨key, age⟩ = [] := by
  have hnone : l.lines.get? ⟨key, age⟩ = none := by
    rw [← Option.map_eq_none_iff, h, List.getElem?_eq_none]
    rw [List.length_cons, List.length_reverse]
    exact hage
  simp [ofLive, Table.contains, hnone]

end Traffic

namespace Run
variable {φ β α σ : Type} [Feeder φ α] [Amount α] [Broker β α]

theorem opened_begin {e : Setup β α σ} {r : Run φ β α σ} {l : Live φ β α σ}
    (hpairs : e.config.pairs.Nodup) (hrouter : r.router.Allotted) (hbegin : (r.begin e).1 = .ok l) :
    (∀ p ∈ e.config.pairs, ∃ cs, e.recent r.router.feeder p = .ok cs) ∧
      l.run.session = r.session.run e (priming e r.router.feeder e.config.pairs) ∧
      l.Opened e r.router.streamsOf e.config.pairs := by
  have hprimes := primes_primeAll e r .empty e.config.pairs
  have hbrings := r.brings_prime e
  unfold begin prime at hbegin
  unfold prime at hbrings
  rcases hp : r.primeAll e .empty e.config.pairs with ⟨failure | inboxes, r'⟩
  · rw [hp] at hbegin
    cases hbegin
  · rw [hp] at hbegin hprimes hbrings
    have hstart : Primed e r.router .empty [] := ⟨hrouter, nofun, nofun, nofun⟩
    have hstreams : r'.router.streamsOf = r.router.streamsOf := by
      funext key
      rw [Router.streamsOf, hbrings, Router.streamsOf]
    refine ⟨hprimes.ok.1 ⟨inboxes, rfl⟩, ?_, ?_⟩
    · rw [(session_connect e r' inboxes).2 l hbegin]
      exact hprimes.session
    · rw [← hstreams]
      exact Live.opened_connect (primed_primeAll hstart hpairs hp) hbegin

/-- A run that fails while its feeds open leaves a stream of each feed before the one that stayed
closed, and no other run leaves any. Whatever an engine has been through, whatever the sources of a
later run send, however much room there is, and in whatever order everybody acts and the signal comes:
what the session processes for a pair is its history, and then the candles that came over the
connections of its feed, a new one and one for each stream that was left. Of each of these it is the
first part of what the source has sent, and where nothing can move any further without the signal, all
of it. So it is one stream, each candle once and in order, exactly if the streams that were left bring
nothing. -/
theorem processes_in_order :
    (∀ (e : Setup β α σ) (r : Run φ β α σ), r.Leaves e) ∧
    ∀ (e : Setup β α σ) (r : Run φ β α σ) (l : Live φ β α σ), e.config.check = .ok () →
      r.Reached e → (r.begin e).1 = .ok l →
      ∀ (streams : LineId → List (Candle α)) (capacity : LineId → Nat) (ms : List Traffic.Move),
      let t₀ := Traffic.ofLive l streams
      let t := t₀.run e capacity ms
      let es := priming e r.router.feeder e.config.pairs ++ t.story
      t.live.run.session = r.session.run e es ∧
      ∀ pair ∈ e.config.pairs, let left := r.router.streamsOf (e.key pair)
        ∃ recent own done,
          e.recent r.router.feeder pair = .ok recent ∧
          (∀ age, (l.lines.get? ⟨e.key pair, age⟩).map Line.waiting = (own :: left.reverse)[age]?) ∧
          r.session.processedFor e pair es = recent ++ done.map Prod.snd ∧
          t₀.Serves t (e.key pair) left.length (.halt ∉ ms ∧ t.Still e capacity) done := by
  refine ⟨fun e r => r.leaves_begin e, ?_⟩
  intro e r l hcheck hreached hbegin streams capacity ms t₀ t es
  have hpairs := SessionConfig.pairs_nodup hcheck
  obtain ⟨hrecent, hsession, hopened⟩ := opened_begin hpairs hreached.allotted hbegin
  constructor
  · rw [Session.run_append, ← hsession]
    exact Traffic.session_run rfl capacity ms
  · intro pair hpair left
    obtain ⟨hwarm, hwatched⟩ := processedFor_priming hpairs hpair hrecent r.session
    rw [← hsession] at hwatched
    obtain ⟨own, hlines⟩ := hopened.lines pair hpair
    obtain ⟨n, hstart⟩ := Traffic.Carries.ofLive hopened hpair hwatched streams
    obtain ⟨done, hdone, hserves⟩ := (hstart.run capacity ms).serves
      (fun age hage => Traffic.unsent_of_lines hlines streams hage)
      (Traffic.halted_run e capacity t₀) capacity
    refine ⟨_, own, done, hwarm, hlines, ?_, hserves⟩
    rw [Session.processedFor_append, ← hsession, hdone]

end Run

/-! ### Two coins -/

def btcLine : LineId := ⟨⟨"BTCUSDT", .m1⟩, 0⟩

def ethLine : LineId := ⟨⟨"ETHUSDT", .m1⟩, 0⟩

/-- Both coins, each with one bar of the past before its feed opens, and no retries. -/
def afterOneBar : Setup (Wallet Rat) Rat Unit where
  config := { (.standard ["BTCUSDT", "ETHUSDT"] .paper : SessionConfig Rat) with
    backoff := ⟨0, 0, 0, 1⟩ }
  strategy := { twoCoins.strategy with warmup := 1 }
  paper := none

/-- A bar of each coin, and replays with room for one bar. -/
def oneBarEach : History Rat :=
  ⟨1, .ofList [(btcLine.key, [minute "BTCUSDT" 0]), (ethLine.key, [minute "ETHUSDT" 0])]⟩

/-- A bar of each coin, and one more of the first. -/
def oneBarMore (id : LineId) : List (Candle Rat) :=
  if id = btcLine then [minute "BTCUSDT" 0, minute "BTCUSDT" 1] else [minute "ETHUSDT" 0]

/-- The second bar of the first coin is sent when there is room, and overtaken by the other coin. -/
def takingTurns : List Traffic.Move :=
  [.send btcLine, .send btcLine, .route btcLine, .process "BTCUSDT", .send ethLine, .tick,
    .send btcLine, .route ethLine, .process "ETHUSDT", .close ethLine, .hangUp ethLine,
    .route btcLine, .process "BTCUSDT"]

/-- A session that has seen nothing, with somebody who looks on at the first coin. -/
def lookedOn : Run (History Rat) (Wallet Rat) Rat Unit :=
  ((Run.ofFeeder afterOneBar oneBarEach default ()).addChart afterOneBar "BTCUSDT" true).2

def primedEach : Run (History Rat) (Wallet Rat) Rat Unit := (lookedOn.prime afterOneBar).2

/-- The session when the feeds of both coins have opened. -/
def openedEach : Live (History Rat) (Wallet Rat) Rat Unit where
  run := primedEach
  inboxes := .ofList [("BTCUSDT", 2), ("ETHUSDT", 3)]
  lines := .ofList [(btcLine, ⟨true, true, [minute "BTCUSDT" 0]⟩),
    (ethLine, ⟨true, true, [minute "ETHUSDT" 0]⟩)]
  timer := .set afterOneBar.config.refreshPeriod

theorem begin_lookedOn : (lookedOn.begin afterOneBar).1 = .ok openedEach := by
  have hfeeds : primedEach.router.feeds = [btcLine.key, ethLine.key] := by
    rw [Router.feeds]
    exact List.mergeSort_of_pairwise (by decide)
  have hprime : (lookedOn.prime afterOneBar).1 = .ok openedEach.inboxes := rfl
  rw [Run.begin_of_ok hprime]
  show (Live.connect afterOneBar primedEach openedEach.inboxes).1 = _
  rw [Live.connect, Router.connect, hfeeds]
  rfl

theorem processes_in_order_takingTurns :
    let t := (Traffic.ofLive openedEach oneBarMore).run afterOneBar (fun _ => 1) takingTurns
    let es := Run.priming afterOneBar oneBarEach afterOneBar.config.pairs ++ t.story
    afterOneBar.config.check = .ok () ∧ lookedOn.Reached afterOneBar ∧
    (lookedOn.begin afterOneBar).1 = .ok openedEach ∧
    .halt ∉ takingTurns ∧ t.Still afterOneBar (fun _ => 1) ∧
    lookedOn.session.processedFor afterOneBar "BTCUSDT" es =
      [minute "BTCUSDT" 0] ++ [minute "BTCUSDT" 0, minute "BTCUSDT" 1] := by
  intro t es
  have hreached : lookedOn.Reached afterOneBar :=
    (Run.Reached.ofFeeder oneBarEach default ()).happen
      (x := .subscribe btcLine.key true .inbox) trivial
  have hhalt : .halt ∉ takingTurns := by simp [takingTurns]
  have hstill : t.Still afterOneBar (fun _ => 1) := by
    have hlines : t.live.lines.keys = [btcLine] := by decide +kernel
    have hinboxes : t.live.inboxes.keys = ["BTCUSDT", "ETHUSDT"] := by decide +kernel
    refine Traffic.still_of_keys (fun id hid => ?_) fun pair hpair => ?_
    · obtain rfl := List.mem_singleton.1 (hlines ▸ hid)
      exact ⟨Option.isNone_iff_eq_none.1 (by decide +kernel),
        Option.isNone_iff_eq_none.1 (by decide +kernel)⟩
    · have hpair : pair = "BTCUSDT" ∨ pair = "ETHUSDT" := by simpa [hinboxes] using hpair
      rcases hpair with rfl | rfl
      · exact Option.isNone_iff_eq_none.1 (by decide +kernel)
      · exact Option.isNone_iff_eq_none.1 (by decide +kernel)
  obtain ⟨-, horder⟩ := Run.processes_in_order.2 afterOneBar lookedOn openedEach rfl hreached
    begin_lookedOn oneBarMore (fun _ => 1) takingTurns
  obtain ⟨recent, own, done, hrecent, -, hprocessed, hserves⟩ := horder "BTCUSDT" (by decide)
  refine ⟨rfl, hreached, begin_lookedOn, hhalt, hstill, ?_⟩
  obtain ⟨sent, -, -, hall⟩ := hserves.once fun age hage => hserves.older age hage
  cases hrecent
  rw [hall ⟨hhalt, hstill⟩] at hprocessed
  exact hprocessed

/-! ### A stream that was left -/

/-- A feeder that has refused a request for the second coin if there was one, and refuses no more. -/
def refusing (attempts : Table FeedKey Nat) : Refusing (History Rat) :=
  ⟨oneBarEach, .ofList [(ethLine.key, 1)], attempts⟩

/-- A session that has seen nothing. Nobody has asked for a stream. -/
def ethRefused : Run (Refusing (History Rat)) (Wallet Rat) Rat Unit :=
  .ofFeeder afterOneBar (refusing .empty) default ()

def primedOnce : Run (Refusing (History Rat)) (Wallet Rat) Rat Unit :=
  (ethRefused.prime afterOneBar).2

/-- The feed of the first coin has opened, and that of the second one has not. -/
def triedOnce : Run (Refusing (History Rat)) (Wallet Rat) Rat Unit :=
  { primedOnce with router := { primedOnce.router with
      feeder := refusing (.ofList [(btcLine.key, 1), (ethLine.key, 1)])
      connected := [(btcLine.key, .ofStream ⟨[minute "BTCUSDT" 0], 1⟩)] } }

def primedTwice : Run (Refusing (History Rat)) (Wallet Rat) Rat Unit :=
  (triedOnce.prime afterOneBar).2

/-- The second run, when the feeds of both coins have opened. -/
def openedTwice : Live (Refusing (History Rat)) (Wallet Rat) Rat Unit where
  run := { primedTwice with router := { primedTwice.router with
    feeder := refusing (.ofList [(btcLine.key, 2), (ethLine.key, 2)])
    connected := [] } }
  inboxes := .ofList [("BTCUSDT", 3), ("ETHUSDT", 4)]
  lines := .ofList [({ btcLine with age := 1 }, ⟨true, true, [minute "BTCUSDT" 0]⟩),
    (btcLine, ⟨true, true, [minute "BTCUSDT" 0]⟩), (ethLine, ⟨true, true, [minute "ETHUSDT" 0]⟩)]
  timer := .set afterOneBar.config.refreshPeriod

theorem begin_ethRefused : ethRefused.begin afterOneBar =
    (.error (.feed (.disconnected "ETHUSDT" "attempt 1 refused")), triedOnce) := by
  have hfeeds : primedOnce.router.feeds = [btcLine.key, ethLine.key] := by
    rw [Router.feeds]
    exact List.mergeSort_of_pairwise (by decide)
  have hprime : (ethRefused.prime afterOneBar).1 =
      .ok (.ofList [("BTCUSDT", 1), ("ETHUSDT", 2)]) := rfl
  rw [Run.begin_of_ok hprime]
  show Live.connect afterOneBar primedOnce _ = _
  rw [Live.connect, Router.connect, hfeeds]
  rfl

theorem begin_triedOnce : (triedOnce.begin afterOneBar).1 = .ok openedTwice := by
  have hfeeds : primedTwice.router.feeds = [btcLine.key, ethLine.key] := by
    rw [Router.feeds]
    exact List.mergeSort_of_pairwise (by decide)
  have hprime : (triedOnce.prime afterOneBar).1 = .ok openedTwice.inboxes := rfl
  rw [Run.begin_of_ok hprime]
  show (Live.connect afterOneBar primedTwice _).1 = _
  rw [Live.connect, Router.connect, hfeeds]
  rfl

/-- Every stream is sent and processed. -/
def everyStream : List Traffic.Move :=
  [.send btcLine, .send { btcLine with age := 1 }, .send ethLine, .route { btcLine with age := 1 },
    .route btcLine, .route ethLine, .process "BTCUSDT", .process "BTCUSDT", .process "ETHUSDT"]

/-- A run fails because the feed of the second coin does not open. Then a run succeeds, and processes
the only candle that the stream of the first coin brings twice after the history. -/
theorem processes_left_stream :
    let r := (ethRefused.begin afterOneBar).2
    let t₀ := Traffic.ofLive openedTwice fun id => (openedTwice.lines.get? id).elim [] Line.waiting
    let t := t₀.run afterOneBar (fun _ => 1) everyStream
    let es := Run.priming afterOneBar r.router.feeder afterOneBar.config.pairs ++ t.story
    (ethRefused.begin afterOneBar).1 =
      .error (.feed (.disconnected "ETHUSDT" "attempt 1 refused")) ∧
    (r.begin afterOneBar).1 = .ok openedTwice ∧
    .halt ∉ everyStream ∧ t.Still afterOneBar (fun _ => 1) ∧
    afterOneBar.recent r.router.feeder "BTCUSDT" = .ok [minute "BTCUSDT" 0] ∧
    t₀.unsent btcLine = [minute "BTCUSDT" 0] ∧
    r.session.processedFor afterOneBar "BTCUSDT" es =
      [minute "BTCUSDT" 0] ++ [minute "BTCUSDT" 0, minute "BTCUSDT" 0] := by
  rw [begin_ethRefused]
  intro r t₀ t es
  have hstill : t.Still afterOneBar (fun _ => 1) := by
    have hlines : t.live.lines.keys = [{ btcLine with age := 1 }, btcLine, ethLine] := by
      decide +kernel
    have hinboxes : t.live.inboxes.keys = ["BTCUSDT", "ETHUSDT"] := by decide +kernel
    refine Traffic.still_of_keys (fun id hid => ?_) fun pair hpair => ?_
    · have hid : id = { btcLine with age := 1 } ∨ id = btcLine ∨ id = ethLine := by
        simpa [hlines] using hid
      rcases hid with rfl | rfl | rfl
      all_goals exact ⟨Option.isNone_iff_eq_none.1 (by decide +kernel),
        Option.isNone_iff_eq_none.1 (by decide +kernel)⟩
    · have hpair : pair = "BTCUSDT" ∨ pair = "ETHUSDT" := by simpa [hinboxes] using hpair
      rcases hpair with rfl | rfl
      all_goals exact Option.isNone_iff_eq_none.1 (by decide +kernel)
  exact ⟨rfl, begin_triedOnce, by simp [everyStream], hstill, rfl, by decide +kernel, by decide +kernel⟩

end Candlewick
