import Candlewick.Feed.History
import Candlewick.Feed.Router
import Candlewick.Proofs.Feed.Turns
import Candlewick.Proofs.Sequencer.Queue
import Candlewick.Proofs.Table

/-! # What a router opens and queues

A router over a history opens a replay of every feed that somebody subscribed to, at the first
attempt (`Router.connect_history`). Of a candle that is handed out a queue takes one copy for each
subscriber that takes the candle there (`Router.copies`), so what it holds after a list of
deliveries is told by that number alone (`Router.dispatchAll_queues`), and it releases that in
replay order (`Router.drain_eq`). Into a new queue nothing came, and nobody uses it. -/

namespace Candlewick

namespace Router
variable {φ α : Type} {r : Router φ α} {n : Nat} {cs : List (Candle α)}

/-! ### What is handed out -/

theorem foldl_deliver_rest (c : Candle α) (subs : List Subscriber) (r : Router φ α) :
    ∃ inboxes queues, subs.foldl (deliver c) r = { r with inboxes, queues } := by
  induction subs generalizing r with
  | nil => exact ⟨r.inboxes, r.queues, rfl⟩
  | cons s subs ih =>
    obtain ⟨inboxes, queues, h⟩ := ih (deliver c r s)
    exact ⟨inboxes, queues, h⟩

/-- A candle that is handed out changes inboxes and queues only. -/
theorem dispatch_rest (r : Router φ α) (key : FeedKey) (c : Candle α) :
    ∃ inboxes queues, r.dispatch key c = { r with inboxes, queues } :=
  foldl_deliver_rest ..

theorem dispatchAll_rest (r : Router φ α) (ds : List (FeedKey × Candle α)) :
    ∃ inboxes queues, r.dispatchAll ds = { r with inboxes, queues } := by
  induction ds generalizing r with
  | nil => exact ⟨r.inboxes, r.queues, rfl⟩
  | cons d ds ih =>
    obtain ⟨inboxes, queues, hfirst⟩ := r.dispatch_rest d.1 d.2
    obtain ⟨inboxes', queues', hrest⟩ := ih (r.dispatch d.1 d.2)
    refine ⟨inboxes', queues', hrest.trans ?_⟩
    rw [hfirst]

/-! ### Queues -/

/-- A queue holds some candles, the first one first. -/
def Queues (r : Router φ α) (n : Nat) (cs : List (Candle α)) : Prop :=
  ∃ as, (r.queue n).Holds as ∧ as.map (·.item) = cs

/-- How many subscribers take a candle of a feed into a queue. -/
def copies (r : Router φ α) (n : Nat) (key : FeedKey) (c : Candle α) : Nat :=
  ((r.subscribers.getD key []).filter (·.accepts c)).countP (·.queue? = some n)

theorem queues_of_get?_none (h : r.queues.get? n = none) : r.Queues n [] := by
  refine ⟨[], ?_, rfl⟩
  rw [queue, Table.getD, h]
  exact Sequencer.holds_empty

theorem queue_deliver (c : Candle α) (r : Router φ α) (s : Subscriber) (n : Nat) :
    (deliver c r s).queue n = if s.queue? = some n then (r.queue n).push c else r.queue n := by
  cases hs : s.queue? with
  | none =>
    rw [if_neg nofun]
    simp only [deliver, queue, hs]
  | some m =>
    simp only [deliver, hs, queue, Table.getD_update, Option.some.injEq, eq_comm (a := n)]
    split
    next h => rw [h]
    next => rfl

theorem drain_eq (h : r.Queues n cs) : (r.drain n).1 = Candle.sort cs := by
  obtain ⟨as, has, rfl⟩ := h
  rw [Candle.sort, Candle.upTo_eq_notAfter]
  exact has.drain.1

theorem deliver_queues (h : r.Queues n cs) (c : Candle α) (s : Subscriber) :
    (deliver c r s).Queues n (cs ++ if s.queue? = some n then [c] else []) := by
  obtain ⟨as, has, rfl⟩ := h
  rw [Queues, queue_deliver]
  split
  · exact ⟨_, has.push c, by simp⟩
  · exact ⟨as, has, by simp⟩

theorem foldl_deliver (c : Candle α) (h : r.Queues n cs) (subs : List Subscriber) :
    (subs.foldl (deliver c) r).Queues n
      (cs ++ List.replicate (subs.countP (·.queue? = some n)) c) := by
  induction subs generalizing r cs with
  | nil => simpa using h
  | cons s subs ih =>
    have hq := ih (deliver_queues h c s)
    by_cases hs : s.queue? = some n
    · simpa [hs, List.replicate_succ] using hq
    · simpa [hs] using hq

theorem dispatch_queues (h : r.Queues n cs) (key : FeedKey) (c : Candle α) :
    (r.dispatch key c).Queues n (cs ++ List.replicate (r.copies n key c) c) :=
  foldl_deliver c h _

theorem dispatchAll_queues (h : r.Queues n cs) (ds : List (FeedKey × Candle α)) :
    (r.dispatchAll ds).Queues n
      (cs ++ ds.flatMap fun d => List.replicate (r.copies n d.1 d.2) d.2) := by
  induction ds generalizing r cs with
  | nil => simpa [dispatchAll] using h
  | cons d ds ih =>
    have hcopies : (r.dispatch d.1 d.2).copies = r.copies := by
      obtain ⟨inboxes, queues, hfirst⟩ := r.dispatch_rest d.1 d.2
      rw [hfirst]
      rfl
    have hrest := ih (dispatch_queues h d.1 d.2)
    rw [hcopies, List.append_assoc] at hrest
    exact hrest

/-! ### New queues -/

theorem lt_newQueue {m : Nat}
    (h : m ∈ r.queues.keys ++ r.subscribers.values.flatten.filterMap (·.queue?)) :
    m < r.newQueue := by
  rw [newQueue]
  generalize r.queues.keys ++ _ = ns at h
  induction ns with
  | nil => cases h
  | cons k ns ih =>
    rcases List.mem_cons.1 h with rfl | h
    · rw [List.foldr_cons]
      omega
    · have hlt := ih h
      rw [List.foldr_cons]
      omega

theorem queues_newQueue (r : Router φ α) : r.Queues r.newQueue [] := by
  refine queues_of_get?_none (Option.eq_none_iff_forall_ne_some.2 fun q hq => ?_)
  have hlt := lt_newQueue (List.mem_append_left _ (Table.mem_keys_iff.2 ⟨q, hq⟩))
  omega

theorem copies_newQueue (r : Router φ α) (key : FeedKey) (c : Candle α) :
    r.copies r.newQueue key c = 0 := by
  refine List.countP_eq_zero.2 fun s hs => ?_
  have hs := List.mem_of_mem_filter hs
  rw [Table.getD] at hs
  cases hsubs : r.subscribers.get? key with
  | none =>
    rw [hsubs] at hs
    cases hs
  | some subs =>
    rw [hsubs] at hs
    have hmem : s ∈ r.subscribers.values.flatten :=
      List.mem_flatten.2 ⟨subs, List.mem_map_of_mem (Table.mem_entries_of_get? hsubs), hs⟩
    simp only [decide_eq_true_eq]
    intro hqueue
    have hlt := lt_newQueue
      (List.mem_append_right _ (List.mem_filterMap.2 ⟨s, hmem, hqueue⟩))
    omega

/-! ### Feeds -/

theorem feeds_nodup (r : Router φ α) : r.feeds.Nodup :=
  (List.mergeSort_perm ..).nodup_iff.2 r.subscribers.distinct

end Router

/-- A first success ends the tries. -/
theorem Backoff.retry_ok {α σ ε τ : Type} [Amount α] {b : Backoff α} {op : σ → Except ε τ × σ}
    {s s' : σ} {a : τ} (h : op s = (.ok a, s')) : b.retry op s = (⟨.ok a, 1, 0⟩, s') := by
  unfold retry retryFrom
  rw [h]

namespace History
variable {α : Type}

/-- The series of a feed, empty where there is none. -/
def stored (h : History α) (key : FeedKey) : List (Candle α) := h.series.getD key []

/-- The replay of a feed. -/
def lane (h : History α) (key : FeedKey) : FeedKey × Replay α :=
  (key, .ofStream ⟨h.stored key, h.capacity⟩)

theorem subscribe_stored [Amount α] {h : History α} {key : FeedKey}
    (hkey : h.series.contains key = true) :
    Feeder.subscribe h key = (.ok ⟨h.stored key, h.capacity⟩, h) := by
  obtain ⟨cs, hcs⟩ := Option.isSome_iff_exists.1 hkey
  have hsub : Feeder.subscribe h key = ((h.find key).map fun cs => ⟨cs, h.capacity⟩, h) := rfl
  rw [hsub, find, stored, Table.getD, hcs]
  rfl

end History

namespace Router
variable {α : Type} [Amount α] {r : Router (History α) α} {h : History α}

theorem connectAll_history (hfeeder : r.feeder = h) {keys : List FeedKey}
    (hkeys : ∀ key ∈ keys, h.series.contains key = true) (waited : Nat) :
    r.connectAll waited keys =
      (.ok (), waited, { r with connected := r.connected ++ keys.map h.lane }) := by
  induction keys generalizing r with
  | nil => simp [connectAll]
  | cons key keys ih =>
    have hretry : r.backoff.retry (Feeder.subscribe · key) r.feeder = _ :=
      Backoff.retry_ok (hfeeder ▸ History.subscribe_stored (hkeys key (List.mem_cons_self ..)))
    -- no time passes, so the streams that are open stay as they are
    have hstep : r.connectAll waited (key :: keys) =
        connectAll { r with connected := r.connected ++ [h.lane key] } waited keys := by
      rw [connectAll, hretry, ← hfeeder]
      rfl
    have hrest := ih (r := { r with connected := r.connected ++ [h.lane key] }) hfeeder
      fun k hk => hkeys k (List.mem_cons_of_mem _ hk)
    rw [hstep, hrest, List.map_cons, List.append_assoc, List.singleton_append]

theorem connect_history (hfeeder : r.feeder = h)
    (hkeys : ∀ key ∈ r.subscribers.keys, h.series.contains key = true) :
    r.connect = (.ok (), 0, { r with connected := r.connected ++ r.feeds.map h.lane }) :=
  connectAll_history hfeeder (fun key hkey => hkeys key (List.mem_mergeSort.1 hkey)) 0

end Router

end Candlewick
