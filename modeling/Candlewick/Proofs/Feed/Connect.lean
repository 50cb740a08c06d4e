import Candlewick.Proofs.Feed.Subscriptions
import Mathlib.Data.List.Perm.Basic

/-! # What a failed connect leaves

A router opens the streams of its feeds one by one, and what was opened before a feed that stays
closed stays open (`connectAll_opens`). So the next try opens a second stream for such a feed, and
when one succeeds every feed has a stream of that try and one of each failed try that got past it
(`connect_leftovers`). What a start hands out is what all the streams bring (`deliveries_perm`):
candles of a feed with several streams reach its subscribers once for each of them. -/

namespace Candlewick

/-! ### What streams bring -/

namespace Schedule
variable {α : Type} {rs : List (FeedKey × Replay α)}

/-- What is still to come, candle by candle. -/
def owed (rs : List (FeedKey × Replay α)) : List (FeedKey × Candle α) :=
  rs.flatMap fun a => a.2.remaining.map fun c => (a.1, c)

theorem act_perm (rs : List (FeedKey × Replay α)) (t : Turn) :
    ((act rs t).1 ++ owed (act rs t).2).Perm (owed rs) := by
  rcases act_cases rs t with h | ⟨i, key, r, r', cs, hi, h, hrest, -⟩
  · rw [h, List.nil_append]
  · obtain ⟨hlt, hget⟩ := List.getElem?_eq_some_iff.1 hi
    -- before and after there are the same streams but for the one that had its turn
    have hbefore := (List.getElem_cons_eraseIdx_perm hlt).flatMap_right
      fun a => a.2.remaining.map fun c => (a.1, c)
    have hafter := (List.set_perm_cons_eraseIdx hlt (key, r')).flatMap_right
      fun a => a.2.remaining.map fun c => (a.1, c)
    rw [hget] at hbefore
    rw [h]
    refine (hafter.append_left _).trans (.trans (.of_eq ?_) hbefore)
    rw [List.flatMap_cons, List.flatMap_cons, ← hrest, List.map_append, List.append_assoc]

/-- Nothing is lost on the way, and nothing is handed on twice. -/
theorem actAll_perm (rs : List (FeedKey × Replay α)) (ts : List Turn) :
    ((actAll rs ts).1 ++ owed (actAll rs ts).2).Perm (owed rs) := by
  induction ts generalizing rs with
  | nil => exact .refl _
  | cons t ts ih =>
    have hrest := (ih (act rs t).2).append_left (act rs t).1
    rw [← List.append_assoc] at hrest
    exact hrest.trans (act_perm rs t)

theorem owed_of_finished (h : Finished rs) : owed rs = [] := by
  refine List.flatMap_eq_nil_iff.2 fun a ha => ?_
  rw [h a ha, List.map_nil]

end Schedule

open Schedule in
theorem Turns.deliveries_perm {α : Type} {rs : List (FeedKey × Replay α)} (h : Begins rs) :
    (deliveries rs).Perm (owed rs) := by
  obtain ⟨ts, hts, hend⟩ := deliveries_complete h
  have hperm := actAll_perm rs ts
  rwa [owed_of_finished hend, List.append_nil, ← hts] at hperm

namespace Router
variable {φ α : Type}

open Schedule Turns

/-- The streams that are open, each with what it still brings. -/
def brings (r : Router φ α) : List (FeedKey × List (Candle α)) :=
  r.connected.map fun a => (a.1, a.2.remaining)

theorem exists_connected (r : Router φ α) (ms : Nat) :
    ∃ connected, r.idle ms = { r with connected } := by
  unfold idle
  split
  · exact ⟨_, rfl⟩
  · exact ⟨_, rfl⟩

theorem brings_idle (r : Router φ α) (ms : Nat) : (r.idle ms).brings = r.brings := by
  unfold idle
  split
  · rfl
  · simp [brings, Replay.fill, Replay.send, Replay.remaining, Function.comp_def]

theorem begins_idle {r : Router φ α} (h : Begins r.connected) (ms : Nat) :
    Begins (r.idle ms).connected := by
  unfold idle
  split
  · exact h
  · intro a ha
    obtain ⟨⟨key, s⟩, hs, rfl⟩ := List.mem_map.1 ha
    refine ⟨(h _ hs).1, .inr ?_⟩
    -- the sender stops where it has nothing left or there is no room
    simp only [Replay.fill, Replay.send, Replay.space, List.drop_eq_nil_iff, List.length_append,
      List.length_take]
    omega

/-! ### One try -/

variable [Amount α] [Feeder φ α] {r r' : Router φ α}

/-- What a try to connect to some feeds opens: one stream for each of the first ones, up to the feed
that stays closed, or for all. -/
structure Opens (r : Router φ α) (keys : List FeedKey) (outcome : Except FeedError Unit)
    (r' : Router φ α) (streams : List (FeedKey × List (Candle α))) : Prop where
  rest : ∃ feeder connected, r' = { r with feeder, connected }
  brings : r'.brings = r.brings ++ streams
  begins : Begins r.connected → Begins r'.connected
  ok : outcome = .ok () → streams.map Prod.fst = keys
  error : ∀ e, outcome = .error e → ∃ key later, keys = streams.map Prod.fst ++ key :: later

omit [Amount α] [Feeder φ α] in
theorem Opens.cons {q : Router φ α} {key : FeedKey} {keys : List FeedKey} {stream : Stream α}
    {outcome : Except FeedError Unit} {streams : List (FeedKey × List (Candle α))} {feeder : φ}
    {w : Nat} (hq : q = { { r with feeder }.idle w with
      connected := ({ r with feeder }.idle w).connected ++ [(key, .ofStream stream)] })
    (h : q.Opens keys outcome r' streams) :
    r.Opens (key :: keys) outcome r' ((key, stream.candles) :: streams) := by
  obtain ⟨connected, hidle⟩ := exists_connected { r with feeder } w
  refine ⟨?_, ?_, fun hbegins => h.begins ?_, fun hok => congrArg (key :: ·) (h.ok hok),
    fun e he => ?_⟩
  · obtain ⟨feeder', connected', hrest⟩ := h.rest
    exact ⟨feeder', connected', by rw [hrest, hq, hidle]⟩
  · have hbrings : q.brings = r.brings ++ [(key, stream.candles)] := by
      rw [hq, Router.brings, List.map_append]
      exact congrArg (· ++ _) (brings_idle _ w)
    rw [h.brings, hbrings, List.append_assoc, List.singleton_append]
  · intro a ha
    rw [hq] at ha
    rcases List.mem_append.1 ha with ha | ha
    · exact begins_idle (r := { r with feeder }) hbegins w a ha
    · rw [List.mem_singleton.1 ha]
      exact ⟨Nat.lt_of_lt_of_le Nat.zero_lt_one (Nat.le_max_right ..), .inl rfl⟩
  · obtain ⟨key', later, hkeys⟩ := h.error e he
    exact ⟨key', later, congrArg (key :: ·) hkeys⟩

theorem connectAll_opens (r : Router φ α) (waited : Nat) (keys : List FeedKey) :
    ∃ streams, r.Opens keys (r.connectAll waited keys).1 (r.connectAll waited keys).2.2 streams := by
  induction keys generalizing r waited with
  | nil =>
    refine ⟨[], ⟨_, _, rfl⟩, (List.append_nil _).symm, id, fun _ => rfl, fun e he => ?_⟩
    cases he
  | cons key keys ih =>
    rcases hretry : r.backoff.retry (Feeder.subscribe · key) r.feeder with
      ⟨⟨e | stream, calls, w⟩, feeder⟩
    · obtain ⟨connected, hidle⟩ := exists_connected { r with feeder } w
      simp only [connectAll, hretry]
      refine ⟨[], ⟨feeder, connected, hidle⟩, (brings_idle _ w).trans (List.append_nil _).symm,
        fun hbegins => begins_idle (r := { r with feeder }) hbegins w, fun hok => ?_,
        fun _ _ => ⟨key, keys, rfl⟩⟩
      cases hok
    · simp only [connectAll, hretry]
      obtain ⟨streams, h⟩ := ih _ (waited + w)
      exact ⟨_, h.cons rfl⟩

/-! ### Try after try -/

/-- The router after so many tries to connect. -/
def retried (r : Router φ α) : Nat → Router φ α
  | 0 => r
  | n + 1 => (r.retried n).connect.2.2

theorem connect_opens (r : Router φ α) :
    ∃ streams, r.Opens r.feeds r.connect.1 r.connect.2.2 streams :=
  r.connectAll_opens 0 r.feeds

theorem retried_rest (r : Router φ α) (n : Nat) :
    ∃ feeder connected, r.retried n = { r with feeder, connected } := by
  induction n with
  | zero => exact ⟨_, _, rfl⟩
  | succ n ih =>
    obtain ⟨feeder, connected, heq⟩ := ih
    obtain ⟨streams, h⟩ := (r.retried n).connect_opens
    obtain ⟨feeder', connected', heq'⟩ := h.rest
    exact ⟨feeder', connected', heq'.trans (by rw [heq])⟩

theorem feeds_retried (r : Router φ α) (n : Nat) : (r.retried n).feeds = r.feeds := by
  obtain ⟨feeder, connected, heq⟩ := r.retried_rest n
  rw [heq, feeds, feeds]

theorem retried_opens (r : Router φ α) (n : Nat) :
    ∃ streams, (r.retried n).Opens r.feeds (r.retried n).connect.1 (r.retried (n + 1)) streams := by
  obtain ⟨streams, h⟩ := (r.retried n).connect_opens
  rw [feeds_retried] at h
  exact ⟨streams, h⟩

theorem begins_retried (hnone : r.connected = []) (n : Nat) : Begins (r.retried n).connected := by
  induction n with
  | zero =>
    intro a ha
    rw [retried, hnone] at ha
    cases ha
  | succ n ih =>
    obtain ⟨streams, h⟩ := r.retried_opens n
    exact h.begins ih

/-- What several tries have opened together. -/
theorem brings_retried (hnone : r.connected = []) {left : Nat → List (FeedKey × List (Candle α))}
    (hleft : ∀ n, (r.retried n).Opens r.feeds (r.retried n).connect.1 (r.retried (n + 1)) (left n))
    (n : Nat) : (r.retried n).brings = (List.range n).flatMap left := by
  induction n with
  | zero => rw [retried, brings, hnone]; rfl
  | succ n ih => rw [(hleft n).brings, ih, List.range_succ, List.flatMap_append]; simp

/-! ### The start -/

/-- What a router hands to a subscriber when it starts. -/
def handedAtStart (r : Router φ α) (id : Nat) : List (Candle α) :=
  ((({ r with connected := [] } : Router φ α).handed
    ((Turns.deliveries r.connected).map fun (key, c) => .dispatch key c)).filter
      (·.1.id = id)).map Prod.snd

section Start
omit [Amount α] [Feeder φ α]

theorem dispatched_deliveries (key : FeedKey) (ds : List (FeedKey × Candle α)) :
    dispatched key (ds.map fun (k, c) => .dispatch k c) = ofFeed key ds := by
  induction ds with
  | nil => rfl
  | cons d ds ih =>
    rw [dispatched] at ih
    by_cases hd : d.1 = key <;> simp [dispatched, ofFeed, hd, ih]

theorem whileKept_deliveries (id : Nat) (ds : List (FeedKey × Candle α)) :
    whileKept id (ds.map fun (k, c) => .dispatch k c) = ds.map fun (k, c) => .dispatch k c := by
  induction ds with
  | nil => rfl
  | cons d ds ih =>
    rw [List.map_cons, whileKept_cons, ih]
    rfl

theorem handedAtStart_eq {key : FeedKey} {s : Subscriber} (h : r.Registered key s) :
    r.handedAtStart s.id = (ofFeed key (deliveries r.connected)).filter s.accepts := by
  have hreg : ({ r with connected := [] } : Router φ α).Registered key s := ⟨h.once, h.given⟩
  rw [handedAtStart, handed_of_registered hreg, whileKept_deliveries, dispatched_deliveries,
    List.map_map]
  exact List.map_id _

theorem ofFeed_owed (key : FeedKey) (rs : List (FeedKey × Replay α)) :
    ofFeed key (owed rs) = (rs.filter (·.1 = key)).flatMap (·.2.remaining) := by
  induction rs with
  | nil => rfl
  | cons a rs ih =>
    have hcons : owed (a :: rs) = (a.2.remaining.map fun c => (a.1, c)) ++ owed rs := rfl
    rw [hcons, ofFeed_append, ih]
    by_cases ha : a.1 = key
    · subst ha
      simp [ofFeed_self]
    · simp [ofFeed_of_ne ha, ha]

/-- A subscriber is handed what the streams of its feed bring, as far as it takes it. -/
theorem handedAtStart_perm (hbegins : Begins r.connected) {key : FeedKey} {s : Subscriber}
    (h : r.Registered key s) : (r.handedAtStart s.id).Perm
      (((r.brings.filter (·.1 = key)).flatMap Prod.snd).filter s.accepts) := by
  have hperm := ((deliveries_perm hbegins).filter (·.1 = key)).map Prod.snd
  have hfeed : (ofFeed key (deliveries r.connected)).Perm
      ((r.connected.filter (·.1 = key)).flatMap (·.2.remaining)) :=
    hperm.trans (.of_eq (ofFeed_owed key r.connected))
  rw [handedAtStart_eq h, brings, List.filter_map, List.flatMap_map]
  exact hfeed.filter _

/-- Where no feed has two streams the candles come in the order of the stream. -/
theorem handedAtStart_of_distinct (hbegins : Begins r.connected)
    (hdistinct : (r.brings.map Prod.fst).Nodup) {key : FeedKey} {s : Subscriber}
    {cs : List (Candle α)} (h : r.Registered key s) (hcs : (key, cs) ∈ r.brings) :
    r.handedAtStart s.id = cs.filter s.accepts := by
  obtain ⟨a, ha, heq⟩ := List.mem_map.1 hcs
  obtain ⟨ts, hts, hend⟩ := deliveries_complete hbegins
  have hkeys : Distinct r.connected := by
    rw [brings, List.map_map] at hdistinct
    exact hdistinct
  have hfeed := (follows_actAll hkeys ts).ofFeed_eq hend ha
  cases heq
  rw [handedAtStart_eq h, hts, hfeed]

end Start

/-! ### Failed tries and a success -/

omit [Amount α] in
/-- How often a feed is among the streams that the first tries left. -/
theorem count_left {left : Nat → List (FeedKey × List (Candle α))} {key : FeedKey} {n : Nat}
    (hnodup : ∀ i < n, ((left i).map Prod.fst).Nodup) :
    (((List.range n).flatMap left).map Prod.fst).count key =
      (List.range n).countP fun i => key ∈ (left i).map Prod.fst := by
  induction n with
  | zero => rfl
  | succ n ih =>
    have hlast := (hnodup n (Nat.lt_succ_self n)).count (a := key)
    rw [List.range_succ, List.flatMap_append, List.map_append, List.count_append,
      ih fun i hi => hnodup i (Nat.lt_succ_of_lt hi), List.countP_append, List.flatMap_singleton,
      hlast, List.countP_singleton]
    by_cases hkey : key ∈ (left n).map Prod.fst
    · rw [if_pos hkey, if_pos (decide_eq_true hkey)]
    · rw [if_neg hkey, if_neg fun h => hkey (of_decide_eq_true h)]

/-- What is there after `n` tries to connect that failed and one that succeeded. -/
structure Leftovers (r : Router φ α) (n : Nat) (left : Nat → List (FeedKey × List (Candle α)))
    (streams : List (FeedKey × List (Candle α))) : Prop where
  /-- Every try that failed has added a stream for each feed before the one that stayed closed. -/
  failed : ∀ i < n, (r.retried (i + 1)).brings = (r.retried i).brings ++ left i ∧
    ∃ key later, r.feeds = (left i).map Prod.fst ++ key :: later
  /-- The last one has added a stream for every feed. -/
  succeeded : streams.map Prod.fst = r.feeds ∧
    (r.retried (n + 1)).brings = (List.range n).flatMap left ++ streams
  /-- So a feed has one stream and another one of each failed try that opened it. -/
  count : ∀ key ∈ r.feeds, ((r.retried (n + 1)).brings.map Prod.fst).count key =
    (List.range n).countP (fun i => key ∈ (left i).map Prod.fst) + 1
  /-- Every feed has one stream only, exactly if no failed try left any. -/
  count_eq_one : (∀ key ∈ r.feeds, ((r.retried (n + 1)).brings.map Prod.fst).count key = 1) ↔
    ∀ i < n, left i = []
  /-- At the start a subscriber is handed what all the streams of its feed bring. -/
  handed : ∀ key, ∀ s ∈ r.subscribersOf key, ((r.retried (n + 1)).handedAtStart s.id).Perm
    ((((r.retried (n + 1)).brings.filter (·.1 = key)).flatMap Prod.snd).filter s.accepts)
  /-- If no failed try left any, that is what the stream brings, once each and in its order. -/
  once : (∀ i < n, left i = []) → ∀ key cs, (key, cs) ∈ streams → ∀ s ∈ r.subscribersOf key,
    (r.retried (n + 1)).handedAtStart s.id = cs.filter s.accepts

omit [Amount α] [Feeder φ α] in
theorem first_left {left : Nat → List (FeedKey × List (Candle α))} {n i : Nat} (hi : i < n)
    (hne : left i ≠ []) (herror : ∃ key later, r.feeds = (left i).map Prod.fst ++ key :: later) :
    ∃ key ∈ r.feeds, 0 < (List.range n).countP fun j => key ∈ (left j).map Prod.fst := by
  obtain ⟨⟨key, cs⟩, rest, hcons⟩ := List.exists_cons_of_ne_nil hne
  obtain ⟨key', later, heq⟩ := herror
  have hkey : key ∈ (left i).map Prod.fst := by simp [hcons]
  refine ⟨key, by rw [heq]; exact List.mem_append_left _ hkey, List.countP_pos_iff.2 ⟨i, ?_, ?_⟩⟩
  · exact List.mem_range.2 hi
  · exact decide_eq_true hkey

theorem leftovers_of_tries (hnone : r.connected = [])
    (hregistered : ∀ key, ∀ s ∈ r.subscribersOf key, r.Registered key s) {n : Nat}
    (hfailed : ∀ i < n, ∃ e, (r.retried i).connect.1 = .error e)
    (hok : (r.retried n).connect.1 = .ok ()) : ∃ left streams, r.Leftovers n left streams := by
  choose left hleft using r.retried_opens
  refine ⟨left, left n, ?_⟩
  have hfeeds := r.feeds_nodup
  have hbegins := begins_retried hnone (n + 1)
  have hstreams : (left n).map Prod.fst = r.feeds := (hleft n).ok hok
  have hbrings : (r.retried (n + 1)).brings = (List.range n).flatMap left ++ left n := by
    rw [(hleft n).brings, brings_retried hnone hleft]
  have herror : ∀ i < n, ∃ key later, r.feeds = (left i).map Prod.fst ++ key :: later := by
    intro i hi
    obtain ⟨e, he⟩ := hfailed i hi
    exact (hleft i).error e he
  have hcount : ∀ key ∈ r.feeds, ((r.retried (n + 1)).brings.map Prod.fst).count key =
      (List.range n).countP (fun i => key ∈ (left i).map Prod.fst) + 1 := by
    intro key hkey
    -- one try opens no feed twice, so each counts at most once
    have hnodup : ∀ i < n, ((left i).map Prod.fst).Nodup := by
      intro i hi
      obtain ⟨key', later, heq⟩ := herror i hi
      exact (heq ▸ hfeeds).of_append_left
    rw [hbrings, List.map_append, List.count_append, count_left hnodup, hstreams,
      List.count_eq_one_of_mem hfeeds hkey]
  have hreg : ∀ key, ∀ s ∈ r.subscribersOf key, (r.retried (n + 1)).Registered key s := by
    intro key s hs
    obtain ⟨feeder, connected, heq⟩ := r.retried_rest (n + 1)
    rw [heq]
    exact ⟨(hregistered key s hs).once, (hregistered key s hs).given⟩
  have hnil : (∀ i < n, left i = []) → (List.range n).flatMap left = [] := fun h =>
    List.flatMap_eq_nil_iff.2 fun i hi => h i (List.mem_range.1 hi)
  constructor
  case failed => exact fun i hi => ⟨(hleft i).brings, herror i hi⟩
  case succeeded => exact ⟨hstreams, hbrings⟩
  case count => exact hcount
  case count_eq_one =>
    constructor
    · intro hone i hi
      by_contra hne
      obtain ⟨key, hkey, hpos⟩ := first_left hi hne (herror i hi)
      have h := hone key hkey
      rw [hcount key hkey] at h
      omega
    · intro h key hkey
      rw [hbrings, hnil h, List.nil_append, hstreams, List.count_eq_one_of_mem hfeeds hkey]
  case handed => exact fun key s hs => handedAtStart_perm hbegins (hreg key s hs)
  case once =>
    intro h key cs hcs s hs
    have hone : (r.retried (n + 1)).brings = left n := by rw [hbrings, hnil h, List.nil_append]
    refine handedAtStart_of_distinct hbegins ?_ (hreg key s hs) (by rwa [hone])
    rw [hone, hstreams]
    exact hfeeds

/-- A try to connect that fails has added a stream for each feed before the one that stayed closed,
so nothing exactly if that is the first one. Whatever the history of the subscribers, the feeder,
the retries and the number of failed tries, `Leftovers` tells what comes of them. -/
theorem connect_leftovers (feeder : φ) (backoff : Backoff α) :
    (∀ (r : Router φ α) (e : FeedError), r.connect.1 = .error e → ∃ streams key later,
      r.connect.2.2.brings = r.brings ++ streams ∧
      r.feeds = streams.map Prod.fst ++ key :: later ∧
      (r.connect.2.2.brings = r.brings ↔ r.feeds.head? = some key)) ∧
    ∀ (es : List (Event α)) (n : Nat), let r := (ofFeeder feeder backoff).after es
      (∀ i < n, ∃ e, (r.retried i).connect.1 = .error e) → (r.retried n).connect.1 = .ok () →
      ∃ left streams, r.Leftovers n left streams := by
  constructor
  · intro r e he
    obtain ⟨streams, h⟩ := r.connect_opens
    obtain ⟨key, later, heq⟩ := h.error e he
    refine ⟨streams, key, later, h.brings, heq, ?_⟩
    have hfeeds := r.feeds_nodup
    rw [h.brings, List.append_right_eq_self, heq]
    cases streams with
    | nil => simp
    | cons a streams =>
      rw [heq] at hfeeds
      have hne : a.1 ≠ key := by
        rintro rfl
        simp at hfeeds
      simp [hne]
  · intro es n r hfailed hok
    have hempty : ∀ key, (ofFeeder feeder backoff).subscribersOf key = [] := fun key => rfl
    have hnone : r.connected = [] := connected_after _ es
    exact leftovers_of_tries hnone (fun key s hs => registered_of_mem hempty es hs) hfailed hok

/-! ### A stream that is opened twice -/

def btcFeed : FeedKey := ⟨"BTCUSDT", .m1⟩

def ethFeed : FeedKey := ⟨"ETHUSDT", .m1⟩

/-- One candle of each coin; the first request for the second one is refused. -/
def refusing : Refusing (History Rat) :=
  ⟨⟨1, .ofList [(btcFeed, [telling 0 1]), (ethFeed, [telling 0 2])]⟩, .ofList [(ethFeed, 1)], .empty⟩

/-- Somebody wants each coin. -/
def bothWanted : List (Event Rat) :=
  [.subscribe btcFeed false .inbox, .subscribe ethFeed false .inbox]

/-- A router for both that does not retry. -/
def refused : Router (Refusing (History Rat)) Rat :=
  (ofFeeder refusing ⟨0, 0, 0, 1⟩).after bothWanted

theorem feeds_refused : refused.feeds = [btcFeed, ethFeed] := by
  rw [feeds]
  exact List.mergeSort_of_pairwise (by decide)

theorem connect_refused :
    refused.connect.1 = .error (.disconnected "ETHUSDT" "attempt 1 refused") := by
  rw [connect, feeds_refused]
  rfl

theorem connect_retried : (refused.retried 1).connect.1 = .ok () := by
  rw [connect, feeds_retried, feeds_refused, retried, retried, connect, feeds_refused]
  rfl

theorem connect_leftovers_refused :
    (∀ i < 1, ∃ e, (refused.retried i).connect.1 = .error e) ∧
    (refused.retried 1).connect.1 = .ok () ∧
    ∃ left streams, refused.Leftovers 1 left streams := by
  have hfailed : ∀ i < 1, ∃ e, (refused.retried i).connect.1 = .error e := by
    intro i hi
    obtain rfl : i = 0 := Nat.lt_one_iff.1 hi
    exact ⟨_, connect_refused⟩
  exact ⟨hfailed, connect_retried,
    (connect_leftovers refusing ⟨0, 0, 0, 1⟩).2 bothWanted 1 hfailed connect_retried⟩

/-- The first try fails and leaves a stream of the first coin. After the second one, which succeeds,
and a start the only candle of that coin has reached its subscriber twice. -/
theorem connect_leaves_stream :
    (∃ e, refused.connect.1 = .error e) ∧ refused.connected.map Prod.fst = [] ∧
    refused.connect.2.2.connected.map Prod.fst = [btcFeed] ∧
    (refused.retried 1).connect.1 = .ok () ∧
    (refused.retried 2).connected.map Prod.fst = [btcFeed, btcFeed, ethFeed] ∧
    ((refused.retried 2).start.receive 1).1 = [telling 0 1, telling 0 1] := by
  refine ⟨⟨_, connect_refused⟩, rfl, ?_, connect_retried, ?_, ?_⟩
  · rw [connect, feeds_refused]
    rfl
  · rw [retried, connect, feeds_retried, feeds_refused, retried, retried, connect, feeds_refused]
    rfl
  · rw [retried, connect, feeds_retried, feeds_refused, retried, retried, connect, feeds_refused]
    rfl

end Router
end Candlewick
