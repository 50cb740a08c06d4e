import Candlewick.Proofs.Feed.Recording
import Candlewick.Proofs.Session.Causality
import Candlewick.Session.Live

/-! # How a live session begins

Pairs are primed one after the other, and only when all of them are does a session open its feeds
(`Run.begin`). What the session does until then is told by `Run.priming`: it watches a pair, takes in
the candles of its history, and starts it, up to the first pair without a history. A pair is watched
anew before its history is taken in and started after it, so none of these candles finds its pair
started, and the strategy is called for indicators at most (`Session.Silent`).

What a feeder is asked to open is told by one that records it (`Recording`). To record that and the
calls of the strategy changes nothing else (`Run.primeAll_plain`). -/

namespace Candlewick

namespace Session
variable {β α σ : Type}

/-- What happens to a session, wherever its candles come from. -/
inductive Event (α : Type) where
  | watch (pair : String)
  | start (pair : String)
  | process (pair : String) (c : Candle α)
  | refresh

variable [Amount α] [Broker β α]

/-- The session after an event. -/
def after (e : Setup β α σ) (s : Session β α σ) : Event α → Session β α σ
  | .watch pair => s.watch pair
  | .start pair => s.start pair
  | .process pair c => s.process e pair c
  | .refresh => { s with desk := s.desk.refresh }

/-- The session after some events. -/
def run (e : Setup β α σ) (s : Session β α σ) (es : List (Event α)) : Session β α σ :=
  es.foldl (after e) s

theorem run_append (e : Setup β α σ) (s : Session β α σ) (es es' : List (Event α)) :
    s.run e (es ++ es') = (s.run e es).run e es' :=
  List.foldl_append

theorem run_process (e : Setup β α σ) (s : Session β α σ) (pair : String) (cs : List (Candle α)) :
    s.run e (cs.map (.process pair)) = s.processAll e pair cs := by
  rw [run, List.foldl_map]
  rfl

theorem after_noted (e : Setup β α σ) (s : Session β α (σ × List (Callback α))) (x : Event α) :
    (s.after e.noted x).plain = s.plain.after e x := by
  cases x with
  | process pair c => exact process_noted e s pair c
  | _ => rfl

theorem run_noted (e : Setup β α σ) (s : Session β α (σ × List (Callback α)))
    (es : List (Event α)) : (s.run e.noted es).plain = s.plain.run e es := by
  induction es generalizing s with
  | nil => rfl
  | cons x es ih => exact (ih _).trans (congrArg (run e · es) (after_noted e s x))

/-! ### Before a pair is started -/

/-- The strategy has been called for indicators at most. -/
def Silent (s : Session β α (σ × List (Callback α))) : Prop :=
  ∀ call ∈ s.memory.2, ∃ frame, call = .indicators frame

/-- The strategy is not called on the bars of a pair. -/
def Unstarted (s : Session β α σ) (pair : String) : Prop :=
  ∀ w, s.watchers.get? pair = some w → w.started = false

omit [Amount α] [Broker β α] in
theorem unstarted_watch (s : Session β α σ) (pair : String) : (s.watch pair).Unstarted pair := by
  intro w hw
  rw [watch, Table.get?_set, if_pos rfl] at hw
  cases hw
  rfl

end Session

namespace Watcher
variable {α β σ : Type} [Broker β α]

theorem onForming_of_unstarted {w : Watcher α} (h : w.started = false) (s : Strategy α σ)
    (c : Candle α) (m : σ) (b : β) : w.onForming s c m b = (m, b) := by
  rw [onForming, h, Bool.false_and, if_neg Bool.false_ne_true]

end Watcher

namespace Session
variable {β α σ : Type} [Amount α] [Broker β α] {e : Setup β α σ}
  {s : Session β α (σ × List (Callback α))} {pair : String}

theorem process_silent (h : s.Silent) (hpair : s.Unstarted pair) (c : Candle α) :
    (s.process e.noted pair c).Silent ∧ (s.process e.noted pair c).Unstarted pair := by
  unfold process
  cases hw : s.watchers.get? pair with
  | none => exact ⟨h, hpair⟩
  | some w =>
    have hstarted : w.started = false := hpair w hw
    dsimp only
    rw [Watcher.onForming_of_unstarted hstarted]
    split
    · obtain ⟨told, htold, hkind⟩ := w.onClosed_told e.strategy c s.memory
        { s.desk with broker := e.noted.follow s.desk.broker c }
      refine ⟨fun call hcall => ?_, fun v hv => ?_⟩
      · change call ∈ (w.onClosed e.strategy.noted c s.memory _).2.1.2 at hcall
        rw [htold] at hcall
        rcases List.mem_append.1 hcall with hcall | hcall
        · exact h call hcall
        · refine (hkind call hcall).resolve_right fun hclosed => ?_
          rw [hstarted] at hclosed
          exact Bool.false_ne_true hclosed.1
      · simp only [closeBar, Table.get?_set, if_true, Option.some.injEq] at hv
        rw [← hv, Watcher.started_onClosed, hstarted]
    · exact ⟨h, hpair⟩

theorem processAll_silent (h : s.Silent) (hpair : s.Unstarted pair) (cs : List (Candle α)) :
    (s.processAll e.noted pair cs).Silent := by
  induction cs generalizing s with
  | nil => exact h
  | cons c cs ih =>
    obtain ⟨hsilent, hunstarted⟩ := process_silent (e := e) h hpair c
    exact ih hsilent hunstarted

end Session

/-! ### Recording -/

/-- A run with a feeder and a strategy that have not been asked for anything. -/
def Run.recorded {φ β α σ : Type} (r : Run φ β α σ) :
    Run (Recording φ) β α (σ × List (Callback α)) where
  session := r.session.noted
  router := r.router.withFeeder ⟨r.router.feeder, []⟩
  queue := r.queue

/-- A run without what was asked of its feeder and its strategy. -/
def Run.plain {φ β α σ : Type} (r : Run (Recording φ) β α (σ × List (Callback α))) :
    Run φ β α σ where
  session := r.session.plain
  router := r.router.withFeeder r.router.feeder.feeder
  queue := r.queue

/-! ### Priming -/

/-- The history of a pair, or why there is none. -/
def Setup.recent {φ β α σ : Type} [Feeder φ α] (e : Setup β α σ) (feeder : φ) (pair : String) :
    Except FeedError (List (Candle α)) :=
  Feeder.byLimit feeder (e.key pair) e.strategy.warmup

namespace Run
variable {φ β α σ : Type} [Feeder φ α]

/-- What a session does while pairs are primed, up to the first one without a history. -/
def priming (e : Setup β α σ) (feeder : φ) : List String → List (Session.Event α)
  | [] => []
  | pair :: pairs =>
    match e.recent feeder pair with
    | .error _ => [.watch pair]
    | .ok cs => .watch pair :: cs.map (.process pair) ++ .start pair :: priming e feeder pairs

variable [Amount α] [Broker β α]

/-- Primes all pairs, and opens the feeds if every one of them had a history. -/
def begin (e : Setup β α σ) (r : Run φ β α σ) :
    Except SessionError (Live φ β α σ) × Run φ β α σ :=
  match r.prime e with
  | (.error failure, r) => (.error failure, r)
  | (.ok inboxes, r) => Live.connect e r inboxes

section Prefixes
variable {e : Setup β α σ} {s : Session β α (σ × List (Callback α))}

/-- At no moment of the priming has the strategy been called for more than indicators. -/
theorem priming_silent (h : s.Silent) (feeder : φ) (pairs : List String)
    {es : List (Session.Event α)} (hes : es <+: priming e feeder pairs) :
    (s.run e.noted es).Silent := by
  induction pairs generalizing s es with
  | nil =>
    rw [priming, List.prefix_nil] at hes
    rwa [hes]
  | cons pair pairs ih =>
    have hwatch : (s.watch pair).Silent := h
    have hunstarted := s.unstarted_watch pair
    cases es with
    | nil => exact h
    | cons x es =>
      rw [priming] at hes
      cases hrecent : e.recent feeder pair with
      | error failure =>
        rw [hrecent] at hes
        dsimp only at hes
        obtain ⟨rfl, hend⟩ := List.cons_prefix_cons.1 hes
        rw [List.prefix_nil.1 hend]
        exact hwatch
      | ok cs =>
        rw [hrecent] at hes
        obtain ⟨rfl, later, hsplit⟩ := List.cons_prefix_cons.1 hes
        show ((s.watch pair).run e.noted es).Silent
        rcases List.append_eq_append_iff.1 hsplit with ⟨rest, hcs, -⟩ | ⟨rest, hrest, hlater⟩
        · -- in the middle of the history
          obtain ⟨first, last, rfl, rfl, -⟩ := List.map_eq_append_iff.1 hcs
          rw [Session.run_process]
          exact Session.processAll_silent hwatch hunstarted first
        · have hprimed := Session.processAll_silent (e := e) hwatch hunstarted cs
          rw [hrest, Session.run_append, Session.run_process]
          cases rest with
          | nil => exact hprimed
          | cons y rest =>
            obtain ⟨rfl, htail⟩ := List.cons.inj hlater
            have hstart : (((s.watch pair).processAll e.noted pair cs).start pair).Silent := hprimed
            exact ih hstart ⟨later, htail.symm⟩

end Prefixes

/-! ### What priming comes to -/

/-- What the router does while pairs are primed: those who look on are shown the history of a pair,
and then the pair is subscribed. -/
def offers (e : Setup β α σ) (feeder : φ) : List String → List (Router.Event α)
  | [] => []
  | pair :: pairs =>
    match e.recent feeder pair with
    | .error _ => []
    | .ok cs =>
      cs.map (.dispatch (e.key pair)) ++ .subscribe (e.key pair) false .inbox ::
        offers e feeder pairs

/-- What is known when some pairs were primed, or the first of them without a history was found. -/
structure Primes (e : Setup β α σ) (r : Run φ β α σ) (pairs : List String)
    (x : Except SessionError (Table String Nat) × Run φ β α σ) : Prop where
  session : x.2.session = r.session.run e (priming e r.router.feeder pairs)
  router : x.2.router = r.router.after (offers e r.router.feeder pairs)
  ok : (∃ inboxes, x.1 = .ok inboxes) ↔ ∀ pair ∈ pairs, ∃ cs, e.recent r.router.feeder pair = .ok cs
  error : ∀ earlier pair later failure, pairs = earlier ++ pair :: later →
    (∀ p ∈ earlier, ∃ cs, e.recent r.router.feeder p = .ok cs) →
    e.recent r.router.feeder pair = .error failure → x.1 = .error (.warmUp pair failure)

section OnePair
variable {e : Setup β α σ} {r : Run φ β α σ} {pair : String}

theorem primeAll_of_error {failure : FeedError}
    (h : e.recent r.router.feeder pair = .error failure) (inboxes : Table String Nat)
    (pairs : List String) : r.primeAll e inboxes (pair :: pairs) =
      (.error (.warmUp pair failure), { r with session := r.session.watch pair }) := by
  unfold Setup.recent at h
  simp only [primeAll, warmUp, h]

theorem primes_of_error {failure : FeedError}
    (h : e.recent r.router.feeder pair = .error failure) (inboxes : Table String Nat)
    (pairs : List String) : Primes e r (pair :: pairs) (r.primeAll e inboxes (pair :: pairs)) := by
  rw [primeAll_of_error h]
  refine ⟨?_, ?_, ⟨?_, fun hall => ?_⟩, fun earlier q later f hsplit hearlier hq => ?_⟩
  · rw [priming, h]
    rfl
  · rw [offers, h]
    rfl
  · rintro ⟨_, hok⟩
    cases hok
  · obtain ⟨cs, hcs⟩ := hall pair (List.mem_cons_self ..)
    rw [h] at hcs
    cases hcs
  · cases earlier with
    | nil =>
      obtain ⟨rfl, -⟩ := List.cons.inj hsplit
      rw [h] at hq
      cases hq
      rfl
    | cons p earlier =>
      obtain ⟨rfl, -⟩ := List.cons.inj hsplit
      obtain ⟨cs, hcs⟩ := hearlier pair (List.mem_cons_self ..)
      rw [h] at hcs
      cases hcs

/-- A run in which one more pair has been primed. -/
def primed (e : Setup β α σ) (r : Run φ β α σ) (pair : String) (cs : List (Candle α)) :
    Run φ β α σ :=
  { r with
    session := ((r.session.watch pair).processAll e pair cs).start pair
    router := ((r.router.preload (e.key pair) cs).subscribe (e.key pair) false .inbox).2 }

theorem primeAll_of_ok {cs : List (Candle α)} (h : e.recent r.router.feeder pair = .ok cs)
    (inboxes : Table String Nat) (pairs : List String) : r.primeAll e inboxes (pair :: pairs) =
      (r.primed e pair cs).primeAll e
        (inboxes.set pair (r.router.preload (e.key pair) cs).nextId) pairs := by
  unfold Setup.recent at h
  simp only [primeAll, warmUp, h]
  rfl

omit [Feeder φ α] in
theorem feeder_primed (e : Setup β α σ) (r : Run φ β α σ) (pair : String) (cs : List (Candle α)) :
    (r.primed e pair cs).router.feeder = r.router.feeder := by
  show (r.router.preload (e.key pair) cs).feeder = _
  rw [Router.preload_eq_after, Router.feeder_after]

theorem Primes.cons {cs : List (Candle α)} (hrecent : e.recent r.router.feeder pair = .ok cs)
    {pairs : List String} {x : Except SessionError (Table String Nat) × Run φ β α σ}
    (h : Primes e (r.primed e pair cs) pairs x) : Primes e r (pair :: pairs) x := by
  obtain ⟨hsession, hrouter, hok, herror⟩ := h
  rw [feeder_primed] at hsession hrouter hok herror
  refine ⟨?_, ?_, ?_, fun earlier q later f hsplit hearlier hq => ?_⟩
  · rw [hsession, priming, hrecent]
    dsimp only
    rw [Session.run_append]
    show _ = Session.run e
      (((r.session.watch pair).run e (cs.map (.process pair))).start pair) _
    rw [Session.run_process]
    rfl
  · rw [hrouter, offers, hrecent]
    dsimp only
    rw [Router.after_append, ← Router.preload_eq_after]
    rfl
  · rw [hok]
    simp [hrecent]
  · cases earlier with
    | nil =>
      obtain ⟨rfl, -⟩ := List.cons.inj hsplit
      rw [hrecent] at hq
      cases hq
    | cons p earlier =>
      obtain ⟨rfl, hrest⟩ := List.cons.inj hsplit
      exact herror earlier q later f hrest (fun p hp => hearlier p (List.mem_cons_of_mem _ hp)) hq

end OnePair

theorem primes_primeAll (e : Setup β α σ) (r : Run φ β α σ) (inboxes : Table String Nat)
    (pairs : List String) : Primes e r pairs (r.primeAll e inboxes pairs) := by
  induction pairs generalizing r inboxes with
  | nil =>
    refine ⟨rfl, rfl, ⟨fun _ => nofun, fun _ => ⟨inboxes, rfl⟩⟩, fun earlier pair later _ h => ?_⟩
    simp at h
  | cons pair pairs ih =>
    cases hrecent : e.recent r.router.feeder pair with
    | error failure => exact primes_of_error hrecent inboxes pairs
    | ok cs =>
      rw [primeAll_of_ok hrecent]
      exact (ih (r.primed e pair cs) _).cons hrecent

/-! ### What is recorded -/

omit [Amount α] [Broker β α] in
theorem priming_recorded (e : Setup β α σ) (feeder : Recording φ) (pairs : List String) :
    priming e.noted feeder pairs = priming e feeder.feeder pairs := by
  induction pairs with
  | nil => rfl
  | cons pair pairs ih =>
    have hrecent : e.noted.recent feeder pair = e.recent feeder.feeder pair := rfl
    rw [priming, priming, hrecent, ih]

section Recorded
variable (e : Setup β α σ) (r : Run (Recording φ) β α (σ × List (Callback α)))

omit [Feeder φ α] in
theorem plain_primed (pair : String) (cs : List (Candle α)) :
    (r.primed e.noted pair cs).plain = r.plain.primed e pair cs := by
  have hsession : (r.primed e.noted pair cs).session.plain =
      (r.plain.primed e pair cs).session := by
    show ((r.session.watch pair).processAll e.noted pair cs).plain.start pair = _
    rw [← Session.run_process, Session.run_noted, Session.run_process]
    rfl
  have hrouter : (r.primed e.noted pair cs).router.withFeeder r.router.feeder.feeder =
      (r.plain.primed e pair cs).router := by
    show (((r.router.preload (e.key pair) cs).withFeeder _).subscribe (e.key pair) false .inbox).2 =
      (((r.router.withFeeder _).preload (e.key pair) cs).subscribe (e.key pair) false .inbox).2
    rw [Router.preload_eq_after, Router.preload_eq_after, Router.after_withFeeder]
  rw [plain, hsession, feeder_primed, hrouter]
  rfl

/-- To record what is asked changes nothing else. -/
theorem primeAll_plain (inboxes : Table String Nat) (pairs : List String) :
    (r.primeAll e.noted inboxes pairs).1 = (r.plain.primeAll e inboxes pairs).1 ∧
      (r.primeAll e.noted inboxes pairs).2.plain = (r.plain.primeAll e inboxes pairs).2 := by
  induction pairs generalizing r inboxes with
  | nil => exact ⟨rfl, rfl⟩
  | cons pair pairs ih =>
    cases hrecent : e.recent r.plain.router.feeder pair with
    | error failure =>
      have hrecorded : e.noted.recent r.router.feeder pair = .error failure := hrecent
      rw [primeAll_of_error hrecent, primeAll_of_error hrecorded]
      exact ⟨rfl, rfl⟩
    | ok cs =>
      have hrecorded : e.noted.recent r.router.feeder pair = .ok cs := hrecent
      have hid : (r.router.preload (e.key pair) cs).nextId =
          (r.plain.router.preload (e.key pair) cs).nextId := by
        rw [Router.preload_eq_after, Router.preload_eq_after, plain, Router.after_withFeeder]
        rfl
      rw [primeAll_of_ok hrecent, primeAll_of_ok hrecorded, ← plain_primed, ← hid]
      exact ih ..

end Recorded

omit [Broker β α] in
theorem session_connect (e : Setup β α σ) (r : Run φ β α σ) (inboxes : Table String Nat) :
    (Live.connect e r inboxes).2.session = r.session ∧
      ∀ l, (Live.connect e r inboxes).1 = .ok l → l.run.session = r.session := by
  unfold Live.connect
  rcases r.router.connect with ⟨_ | _, waited, router⟩
  · exact ⟨rfl, fun l hl => by cases hl⟩
  · refine ⟨rfl, fun l hl => ?_⟩
    cases hl
    rfl

theorem begin_of_error {e : Setup β α σ} {r : Run φ β α σ} {failure : SessionError}
    (h : (r.prime e).1 = .error failure) : r.begin e = (.error failure, (r.prime e).2) := by
  unfold begin
  rcases hp : r.prime e with ⟨_ | _, r'⟩
  · rw [hp] at h
    cases h
    rfl
  · rw [hp] at h
    cases h

theorem begin_of_ok {e : Setup β α σ} {r : Run φ β α σ} {inboxes : Table String Nat}
    (h : (r.prime e).1 = .ok inboxes) : r.begin e = Live.connect e (r.prime e).2 inboxes := by
  unfold begin
  rcases hp : r.prime e with ⟨_ | _, r'⟩
  · rw [hp] at h
    cases h
  · rw [hp] at h
    cases h
    rfl

theorem session_begin (e : Setup β α σ) (r : Run φ β α σ) :
    (r.begin e).2.session = (r.prime e).2.session ∧
      ∀ l, (r.begin e).1 = .ok l → l.run.session = (r.prime e).2.session := by
  cases h : (r.prime e).1 with
  | error failure =>
    rw [begin_of_error h]
    exact ⟨rfl, fun l hl => by cases hl⟩
  | ok inboxes =>
    rw [begin_of_ok h]
    exact session_connect ..

/-- Nothing is asked of the strategy and of the feeder too early. Both of them record here what is
asked of them. -/
structure BeginsSilently (e : Setup β α σ) (r : Run φ β α σ) : Prop where
  /-- To record it changes nothing else. -/
  recorded : (r.recorded.prime e.noted).1 = (r.prime e).1 ∧
    (r.recorded.prime e.noted).2.plain = (r.prime e).2
  /-- At every moment of the priming the strategy has been called for indicators at most. -/
  moments : ∀ es, es <+: priming e r.router.feeder e.config.pairs →
    (r.session.noted.run e.noted es).Silent
  /-- The priming comes to its end, whether or not every pair has a history. -/
  last : (r.recorded.begin e.noted).2.session =
    r.session.noted.run e.noted (priming e r.router.feeder e.config.pairs)
  /-- A session whose feeds open goes on from there, and every pair has a history. -/
  opens : ∀ l, (r.begin e).1 = .ok l → l.run.session = (r.prime e).2.session ∧
    ∀ pair ∈ e.config.pairs, ∃ cs, e.recent r.router.feeder pair = .ok cs
  /-- The first pair without a history is told, and the feeder has not been asked to open a
  stream. -/
  fails : ∀ earlier pair later failure, e.config.pairs = earlier ++ pair :: later →
    (∀ p ∈ earlier, ∃ cs, e.recent r.router.feeder p = .ok cs) →
    e.recent r.router.feeder pair = .error failure →
      (r.begin e).1 = .error (.warmUp pair failure) ∧
      (r.recorded.begin e.noted).1 = .error (.warmUp pair failure) ∧
      (r.recorded.begin e.noted).2.session.Silent ∧
      (r.recorded.begin e.noted).2.router.feeder.opened = []

/-- A live session begins silently, whatever its pairs and its feeder are. -/
theorem begins_silently (e : Setup β α σ) (r : Run φ β α σ) : r.BeginsSilently e := by
  have hprimes : Primes e r e.config.pairs (r.prime e) := primes_primeAll ..
  have htold : Primes e.noted r.recorded e.config.pairs (r.recorded.prime e.noted) :=
    primes_primeAll ..
  have hrecorded := primeAll_plain e r.recorded .empty e.config.pairs
  have hnone : r.session.noted.Silent := fun call hcall => by cases hcall
  have hmoments : ∀ es, es <+: priming e r.router.feeder e.config.pairs →
      (r.session.noted.run e.noted es).Silent :=
    fun es hes => priming_silent hnone r.router.feeder e.config.pairs hes
  have hlast : (r.recorded.begin e.noted).2.session =
      r.session.noted.run e.noted (priming e r.router.feeder e.config.pairs) :=
    ((session_begin e.noted r.recorded).1.trans htold.session).trans
      (congrArg (Session.run e.noted _) (priming_recorded e r.recorded.router.feeder _))
  constructor
  case recorded => exact hrecorded
  case moments => exact hmoments
  case last => exact hlast
  case opens =>
    intro l hl
    refine ⟨(session_begin e r).2 l hl, hprimes.ok.1 ?_⟩
    cases hp : (r.prime e).1 with
    | ok inboxes => exact ⟨inboxes, rfl⟩
    | error failure =>
      rw [begin_of_error hp] at hl
      cases hl
  case fails =>
    intro earlier pair later failure hsplit hearlier hpair
    have herror := hprimes.error earlier pair later failure hsplit hearlier hpair
    have htolderror : (r.recorded.prime e.noted).1 = .error (.warmUp pair failure) :=
      hrecorded.1.trans herror
    refine ⟨?_, ?_, ?_, ?_⟩
    · rw [begin_of_error herror]
    · rw [begin_of_error htolderror]
    · rw [hlast]
      exact hmoments _ (List.prefix_refl _)
    · rw [begin_of_error htolderror, htold.router, Router.feeder_after]
      rfl

end Run

/-- Two coins, of which only the first has a history, on live bars that are shown to a strategy as
soon as there is one. -/
def oneHistory : History Rat := (History.empty 1).insert ⟨"BTCUSDT", .m1⟩ [minute "BTCUSDT" 0]

theorem begins_silently_oneHistory :
    let r : Run (History Rat) (Wallet Rat) Rat Unit := .ofFeeder twoCoins oneHistory default ()
    (r.begin twoCoins).1 = .error (.warmUp "ETHUSDT" (.notAvailable "ETHUSDT" "1m")) ∧
    (r.recorded.begin twoCoins.noted).2.session.Silent ∧
    (r.recorded.begin twoCoins.noted).2.router.feeder.opened = [] := by
  intro r
  have hfirst : ∀ p ∈ ["BTCUSDT"], ∃ cs, twoCoins.recent r.router.feeder p = .ok cs := by
    intro p hp
    obtain rfl := List.mem_singleton.1 hp
    exact ⟨_, rfl⟩
  obtain ⟨herror, -, hsilent, hopened⟩ := (Run.begins_silently twoCoins r).fails ["BTCUSDT"]
    "ETHUSDT" [] (.notAvailable "ETHUSDT" "1m") rfl hfirst rfl
  exact ⟨herror, hsilent, hopened⟩

end Candlewick
