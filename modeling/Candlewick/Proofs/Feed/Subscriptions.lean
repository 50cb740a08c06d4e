import Candlewick.Proofs.Feed.Router
import Mathlib.Data.List.Induction

/-! # Who is subscribed

Subscribers come and go while candles are handed out, inboxes are read and thrown away, and queues
are drained; a list of `Router.Event`s is any such history. `happen_cases` says what one
event does to the table of subscribers.

A subscriber is in the table exactly where the history says that it has come and not gone
(`exists_mem_after`), and it is there once (`Registered`). So what `Router.handed` tells of it is
what the history says: what is handed out of its feed from its coming to its going
(`handed_history`). -/

namespace Candlewick

/-! ### The order of feeds -/

namespace FeedKey
open Std

instance transCmp_compare : TransCmp FeedKey.compare :=
  inferInstanceAs (TransCmp (compareLex (compareOn FeedKey.pair)
    (compareOn fun key => key.timeframe.seconds)))

theorem upTo_iff {a b : FeedKey} : a.upTo b = true ↔ (a.compare b).isLE = true := by
  unfold upTo
  rw [decide_eq_true_iff]
  exact Ordering.ne_gt_iff_isLE

theorem upTo_trans (a b c : FeedKey) (hab : a.upTo b = true) (hbc : b.upTo c = true) :
    a.upTo c = true := by
  rw [upTo_iff] at hab hbc ⊢
  exact TransCmp.isLE_trans hab hbc

theorem upTo_total (a b : FeedKey) : (a.upTo b || b.upTo a) = true := by
  rw [Bool.or_eq_true, upTo_iff, upTo_iff, ← OrientedCmp.isGE_iff_isLE (a := a) (b := b)]
  cases a.compare b <;> simp

theorem eq_of_compare {a b : FeedKey} (h : a.compare b = .eq) : a = b := by
  obtain ⟨pair, timeframe⟩ := a
  obtain ⟨pair', timeframe'⟩ := b
  obtain ⟨hpair, htime⟩ := Ordering.then_eq_eq.1 h
  obtain rfl : pair = pair' := LawfulEqCmp.eq_of_compare hpair
  have hseconds : timeframe.seconds = timeframe'.seconds := LawfulEqCmp.eq_of_compare htime
  cases timeframe <;> cases timeframe' <;> simp_all [Timeframe.seconds]

end FeedKey

namespace Router
variable {φ α : Type} {r : Router φ α}

/-- What happens to a router. -/
inductive Event (α : Type) where
  | subscribe (key : FeedKey) (closedOnly : Bool) (sink : Sink)
  | unsubscribe (id : Nat)
  /-- A candle of a feed is handed out. -/
  | dispatch (key : FeedKey) (c : Candle α)
  /-- All that is in an inbox is read. -/
  | receive (inbox : Nat)
  /-- The oldest candle of an inbox is read. -/
  | next (inbox : Nat)
  /-- An inbox is thrown away. -/
  | discard (inbox : Nat)
  /-- A queue is drained. -/
  | drain (queue : Nat)

/-- The router after an event. -/
def happen (r : Router φ α) : Event α → Router φ α
  | .subscribe key closedOnly sink => (r.subscribe key closedOnly sink).2
  | .unsubscribe id => (r.unsubscribe id).2
  | .dispatch key c => r.dispatch key c
  | .receive inbox => (r.receive inbox).2
  | .next inbox => ((r.next? inbox).map Prod.snd).getD r
  | .discard inbox => (r.discard inbox).2
  | .drain queue => (r.drain queue).2

/-- The router after some events. -/
def after (r : Router φ α) (es : List (Event α)) : Router φ α := es.foldl happen r

/-- The subscribers of a feed, in the order in which they came. -/
def subscribersOf (r : Router φ α) (key : FeedKey) : List Subscriber := r.subscribers.getD key []

/-- Who is handed a candle in an event. -/
def handedBy (r : Router φ α) : Event α → List (Subscriber × Candle α)
  | .dispatch key c => ((r.subscribersOf key).filter (·.accepts c)).map fun s => (s, c)
  | _ => []

/-- Who is handed which candles in some events, one after the other. -/
def handed (r : Router φ α) : List (Event α) → List (Subscriber × Candle α)
  | [] => []
  | e :: es => r.handedBy e ++ handed (r.happen e) es

/-- The identities that are given in some events. -/
def given (r : Router φ α) : List (Event α) → List Nat
  | [] => []
  | .subscribe key closedOnly sink :: es =>
    let (id, r) := r.subscribe key closedOnly sink
    id :: r.given es
  | e :: es => (r.happen e).given es

/-- The candles of a feed that are handed out in some events. -/
def dispatched (key : FeedKey) (es : List (Event α)) : List (Candle α) :=
  es.filterMap fun
    | .dispatch k c => if k = key then some c else none
    | _ => none

/-- Whether an event removes a subscriber. -/
def Event.removes (id : Nat) : Event α → Bool
  | .unsubscribe i => i = id
  | _ => false

/-- The events before a subscriber is removed. -/
def whileKept (id : Nat) (es : List (Event α)) : List (Event α) := es.takeWhile (!·.removes id)

theorem whileKept_cons (id : Nat) (e : Event α) (es : List (Event α)) :
    whileKept id (e :: es) = if e.removes id then [] else e :: whileKept id es := by
  rw [whileKept, List.takeWhile_cons]
  cases e.removes id <;> rfl

theorem after_concat (r : Router φ α) (es : List (Event α)) (e : Event α) :
    r.after (es ++ [e]) = (r.after es).happen e := by
  simp [after]

theorem after_append (r : Router φ α) (es es' : List (Event α)) :
    r.after (es ++ es') = (r.after es).after es' :=
  List.foldl_append ..

theorem handed_append (r : Router φ α) (es es' : List (Event α)) :
    r.handed (es ++ es') = r.handed es ++ (r.after es).handed es' := by
  induction es generalizing r with
  | nil => rfl
  | cons e es ih =>
    rw [List.cons_append, handed, handed, ih, List.append_assoc]
    rfl

theorem dispatchAll_eq_after (r : Router φ α) (ds : List (FeedKey × Candle α)) :
    r.dispatchAll ds = r.after (ds.map fun d => .dispatch d.1 d.2) := by
  induction ds generalizing r with
  | nil => rfl
  | cons d ds ih => exact ih (r.dispatch d.1 d.2)

/-- A batch is handed out candle by candle. -/
theorem preload_eq_after (r : Router φ α) (key : FeedKey) (cs : List (Candle α)) :
    r.preload key cs = r.after (cs.map (.dispatch key)) := by
  rw [preload, dispatchAll_eq_after, List.map_map]
  rfl

/-! ### The table of subscribers -/

/-- Reading an inbox and throwing it away change inboxes only. -/
theorem exists_inboxes (r : Router φ α) {m : Nat} {e : Event α}
    (he : e = .receive m ∨ e = .next m ∨ e = .discard m) :
    ∃ inboxes, r.happen e = { r with inboxes } := by
  rcases he with rfl | rfl | rfl
  · rw [happen, receive]
    split <;> exact ⟨_, rfl⟩
  · rw [happen, next?]
    cases r.inboxes.get? m with
    | none => exact ⟨_, rfl⟩
    | some i =>
      cases hc : i.candles.getLast? with
      | none => exact ⟨r.inboxes, by simp [hc]⟩
      | some c => exact ⟨r.inboxes.set m ⟨i.isOpen, i.candles.dropLast⟩, by simp [hc]⟩
  · rw [happen, discard]
    split <;> exact ⟨_, rfl⟩

/-- Reading and handing out leave the table alone. -/
theorem happen_table {e : Event α} (hsub : ∀ key closedOnly sink, e ≠ .subscribe key closedOnly sink)
    (hunsub : ∀ id, e ≠ .unsubscribe id) :
    (r.happen e).subscribers = r.subscribers ∧ (r.happen e).nextId = r.nextId ∧
      (r.happen e).connected = r.connected := by
  have hread : (∃ inboxes, r.happen e = { r with inboxes }) →
      (r.happen e).subscribers = r.subscribers ∧ (r.happen e).nextId = r.nextId ∧
        (r.happen e).connected = r.connected := by
    rintro ⟨inboxes, heq⟩
    rw [heq]
    exact ⟨rfl, rfl, rfl⟩
  cases e with
  | subscribe key closedOnly sink => exact absurd rfl (hsub key closedOnly sink)
  | unsubscribe id => exact absurd rfl (hunsub id)
  | dispatch key c =>
    obtain ⟨inboxes, queues, heq⟩ := r.dispatch_rest key c
    rw [happen, heq]
    exact ⟨rfl, rfl, rfl⟩
  | receive m => exact hread (r.exists_inboxes (.inl rfl))
  | next m => exact hread (r.exists_inboxes (.inr (.inl rfl)))
  | discard m => exact hread (r.exists_inboxes (.inr (.inr rfl)))
  | drain n => exact ⟨rfl, rfl, rfl⟩

theorem connected_after (r : Router φ α) (es : List (Event α)) :
    (r.after es).connected = r.connected := by
  induction es generalizing r with
  | nil => rfl
  | cons e es ih =>
    refine (ih (r.happen e)).trans ?_
    cases e with
    | subscribe key closedOnly sink => rfl
    | unsubscribe id => rfl
    | _ => exact (happen_table (by simp) (by simp)).2.2

theorem subscribersOf_subscribe (r : Router φ α) (key : FeedKey) (closedOnly : Bool) (sink : Sink)
    (k : FeedKey) : (r.subscribe key closedOnly sink).2.subscribersOf k =
      r.subscribersOf k ++ if k = key then [⟨r.nextId, closedOnly, sink⟩] else [] := by
  simp only [subscribersOf, subscribe, Table.getD_update]
  split
  next h => rw [h]
  next => rw [List.append_nil]

theorem subscribersOf_unsubscribe (r : Router φ α) (id : Nat) (k : FeedKey) :
    (r.unsubscribe id).2.subscribersOf k = (r.subscribersOf k).filter (·.id ≠ id) := by
  simp only [subscribersOf, unsubscribe, Table.getD, Table.get?_filter, Table.get?_mapValues]
  cases hk : r.subscribers.get? k with
  | none => rfl
  | some subs =>
    cases hempty : (subs.filter (·.id ≠ id)).isEmpty with
    | true => simp_all [Option.filter]
    | false => simp_all [Option.filter]

/-- What an event does to the table: somebody comes, somebody goes, or nothing. -/
theorem happen_cases (r : Router φ α) (e : Event α) :
    (∃ key closedOnly sink, e = .subscribe key closedOnly sink ∧
      (r.happen e).nextId = r.nextId + 1 ∧ ∀ k, (r.happen e).subscribersOf k =
        r.subscribersOf k ++ if k = key then [⟨r.nextId, closedOnly, sink⟩] else []) ∨
    (∃ id, e = .unsubscribe id ∧ (r.happen e).nextId = r.nextId ∧
      ∀ k, (r.happen e).subscribersOf k = (r.subscribersOf k).filter (·.id ≠ id)) ∨
    ((∀ key closedOnly sink, e ≠ .subscribe key closedOnly sink) ∧ (∀ id, e ≠ .unsubscribe id) ∧
      (r.happen e).nextId = r.nextId ∧ ∀ k, (r.happen e).subscribersOf k = r.subscribersOf k) := by
  by_cases hsub : ∃ key closedOnly sink, e = .subscribe key closedOnly sink
  · obtain ⟨key, closedOnly, sink, rfl⟩ := hsub
    exact .inl ⟨key, closedOnly, sink, rfl, rfl, subscribersOf_subscribe r key closedOnly sink⟩
  by_cases hunsub : ∃ id, e = .unsubscribe id
  · obtain ⟨id, rfl⟩ := hunsub
    exact .inr (.inl ⟨id, rfl, rfl, subscribersOf_unsubscribe r id⟩)
  · have hsub' : ∀ key closedOnly sink, e ≠ .subscribe key closedOnly sink :=
      fun key closedOnly sink h => hsub ⟨key, closedOnly, sink, h⟩
    have hunsub' : ∀ id, e ≠ .unsubscribe id := fun id h => hunsub ⟨id, h⟩
    obtain ⟨hsubs, hid, -⟩ := happen_table hsub' hunsub' (r := r)
    exact .inr (.inr ⟨hsub', hunsub', hid, fun k => by rw [subscribersOf, hsubs, subscribersOf]⟩)

/-- Every subscriber has an identity that was given before. -/
def Numbered (r : Router φ α) : Prop := ∀ key, ∀ s ∈ r.subscribersOf key, s.id < r.nextId

theorem Numbered.happen (h : r.Numbered) (e : Event α) : (r.happen e).Numbered := by
  intro k s hs
  rcases r.happen_cases e with ⟨key, closedOnly, sink, -, hid, hsubs⟩ | ⟨id, -, hid, hsubs⟩ |
      ⟨-, -, hid, hsubs⟩ <;> rw [hsubs] at hs <;> rw [hid]
  · rcases List.mem_append.1 hs with hs | hs
    · exact Nat.lt_succ_of_lt (h k s hs)
    · split at hs
      · obtain rfl := List.mem_singleton.1 hs
        exact Nat.lt_succ_self _
      · cases hs
  · exact h k s (List.mem_of_mem_filter hs)
  · exact h k s hs

theorem Numbered.after (h : r.Numbered) (es : List (Event α)) : (r.after es).Numbered := by
  induction es generalizing r with
  | nil => exact h
  | cons e es ih => exact ih (h.happen e)

theorem nextId_le_happen (r : Router φ α) (e : Event α) : r.nextId ≤ (r.happen e).nextId := by
  rcases r.happen_cases e with ⟨_, _, _, -, hid, -⟩ | ⟨_, -, hid, -⟩ | ⟨-, -, hid, -⟩ <;> omega

theorem nextId_le_after (r : Router φ α) (es : List (Event α)) :
    r.nextId ≤ (r.after es).nextId := by
  induction es generalizing r with
  | nil => exact Nat.le_refl _
  | cons e es ih => exact (r.nextId_le_happen e).trans (ih (r.happen e))

/-- Whoever is handed something has come before. -/
theorem Numbered.handed_lt (h : r.Numbered) {es : List (Event α)} {d : Subscriber × Candle α}
    (hd : d ∈ r.handed es) : d.1.id < (r.after es).nextId := by
  induction es generalizing r with
  | nil => cases hd
  | cons e es ih =>
    rcases List.mem_append.1 hd with hd | hd
    · refine Nat.lt_of_lt_of_le ?_ (r.nextId_le_after (e :: es))
      cases e with
      | dispatch key c =>
        obtain ⟨s, hs, rfl⟩ := List.mem_map.1 hd
        exact h key s (List.mem_of_mem_filter hs)
      | _ => cases hd
    · exact ih (h.happen e) hd

/-! ### One subscriber -/

/-- A subscriber is in the table once, for one feed. -/
structure Registered (r : Router φ α) (key : FeedKey) (s : Subscriber) : Prop where
  once : ∀ k, (r.subscribersOf k).filter (·.id = s.id) = if k = key then [s] else []
  given : s.id < r.nextId

/-- A subscriber that was in the table has left it. -/
structure Gone (r : Router φ α) (id : Nat) : Prop where
  none : ∀ k, (r.subscribersOf k).filter (·.id = id) = []
  given : id < r.nextId

theorem filter_of_new {s : Subscriber} {id : Nat} (h : id < s.id) (p : Prop) [Decidable p] :
    (if p then [s] else []).filter (·.id = id) = [] := by
  have hne : s.id ≠ id := by omega
  split <;> simp [hne]

theorem Registered.happen {key : FeedKey} {s : Subscriber} (h : r.Registered key s) {e : Event α}
    (he : e.removes s.id = false) : (r.happen e).Registered key s := by
  rcases r.happen_cases e with ⟨key', closedOnly, sink, -, hid, hsubs⟩ | ⟨id, rfl, hid, hsubs⟩ |
      ⟨-, -, hid, hsubs⟩
  · -- whoever comes now has a new identity
    refine ⟨fun k => ?_, hid ▸ Nat.lt_succ_of_lt h.given⟩
    rw [hsubs, List.filter_append, h.once, filter_of_new h.given, List.append_nil]
  · refine ⟨fun k => ?_, hid ▸ h.given⟩
    have hne : id ≠ s.id := by simpa [Event.removes] using he
    have hkeep : ∀ t ∈ r.subscribersOf k, (decide (t.id = s.id) && decide (t.id ≠ id)) =
        decide (t.id = s.id) := by
      intro t _
      by_cases ht : t.id = s.id
      · simp [ht, hne.symm]
      · simp [ht]
    rw [hsubs, List.filter_filter, List.filter_congr hkeep, h.once]
  · exact ⟨fun k => by rw [hsubs, h.once], hid ▸ h.given⟩

theorem Gone.happen {id : Nat} (h : r.Gone id) (e : Event α) : (r.happen e).Gone id := by
  rcases r.happen_cases e with ⟨key', closedOnly, sink, -, hid, hsubs⟩ | ⟨id', rfl, hid, hsubs⟩ |
      ⟨-, -, hid, hsubs⟩
  · refine ⟨fun k => ?_, hid ▸ Nat.lt_succ_of_lt h.given⟩
    rw [hsubs, List.filter_append, h.none, filter_of_new h.given, List.append_nil]
  · refine ⟨fun k => ?_, hid ▸ h.given⟩
    rw [hsubs, List.filter_comm, h.none, List.filter_nil]
  · exact ⟨fun k => by rw [hsubs, h.none], hid ▸ h.given⟩

theorem Registered.gone {key : FeedKey} {s : Subscriber} (h : r.Registered key s) :
    (r.happen (.unsubscribe s.id)).Gone s.id := by
  refine ⟨fun k => ?_, h.given⟩
  show List.filter _ ((r.unsubscribe s.id).2.subscribersOf k) = []
  rw [subscribersOf_unsubscribe, List.filter_filter]
  simp

/-- What one subscriber is handed in one event. -/
theorem filter_handedBy (r : Router φ α) (id : Nat) (key : FeedKey) (c : Candle α) :
    (r.handedBy (.dispatch key c)).filter (·.1.id = id) =
      (((r.subscribersOf key).filter (·.id = id)).filter (·.accepts c)).map fun s => (s, c) := by
  rw [handedBy, List.filter_map, List.filter_comm]
  rfl

theorem Gone.handed {id : Nat} (h : r.Gone id) (es : List (Event α)) :
    (r.handed es).filter (·.1.id = id) = [] := by
  induction es generalizing r with
  | nil => rfl
  | cons e es ih =>
    rw [Router.handed, List.filter_append, ih (h.happen e), List.append_nil]
    cases e with
    | dispatch key c => rw [filter_handedBy, h.none]; rfl
    | _ => rfl

/-- A subscriber is handed what is handed out of its feed until it is removed, as far as it takes
it. -/
theorem handed_of_registered {key : FeedKey} {s : Subscriber} (h : r.Registered key s)
    (es : List (Event α)) : (r.handed es).filter (·.1.id = s.id) =
      ((dispatched key (whileKept s.id es)).filter s.accepts).map fun c => (s, c) := by
  induction es generalizing r with
  | nil => rfl
  | cons e es ih =>
    rw [Router.handed, List.filter_append]
    cases he : e.removes s.id with
    | true =>
      cases e with
      | unsubscribe id =>
        obtain rfl : id = s.id := by simpa [Event.removes] using he
        rw [h.gone.handed es, whileKept_cons, if_pos he]
        rfl
      | _ => cases he
    | false =>
      rw [ih (h.happen he), whileKept_cons, he, if_neg Bool.false_ne_true]
      cases e with
      | dispatch k c =>
        rw [filter_handedBy, h.once]
        by_cases hk : k = key
        · cases hc : s.accepts c <;> simp [dispatched, hk, hc]
        · simp [dispatched, hk]
      | _ => rfl

theorem registered_subscribe (h : r.Numbered) (key : FeedKey) (closedOnly : Bool) (sink : Sink) :
    (r.subscribe key closedOnly sink).2.Registered key ⟨r.nextId, closedOnly, sink⟩ := by
  refine ⟨fun k => ?_, Nat.lt_succ_self _⟩
  have hnone : (r.subscribersOf k).filter (·.id = r.nextId) = [] := by
    refine List.filter_eq_nil_iff.2 fun s hs => ?_
    have hlt := h k s hs
    simp only [decide_eq_true_eq]
    omega
  rw [subscribersOf_subscribe, List.filter_append, hnone, List.nil_append]
  split <;> simp

/-- Everybody in the table is there once. -/
theorem registered_of_mem (hr : ∀ key, r.subscribersOf key = []) (es : List (Event α)) {key : FeedKey}
    {s : Subscriber} (hs : s ∈ (r.after es).subscribersOf key) : (r.after es).Registered key s := by
  have hnumbered : r.Numbered := by
    intro k t ht
    rw [hr] at ht
    cases ht
  induction es using List.reverseRecOn with
  | nil =>
    rw [after, List.foldl_nil, hr] at hs
    cases hs
  | append_singleton es e ih =>
    rw [after_concat] at hs ⊢
    rcases (r.after es).happen_cases e with ⟨key', closedOnly, sink, rfl, -, hsubs⟩ |
        ⟨id, rfl, -, hsubs⟩ | ⟨-, hunsub, -, hsubs⟩ <;> rw [hsubs] at hs
    · rcases List.mem_append.1 hs with hs | hs
      · exact (ih hs).happen rfl
      · split at hs
        next hk =>
          obtain rfl := List.mem_singleton.1 hs
          exact hk ▸ registered_subscribe (hnumbered.after es) key' closedOnly sink
        next => cases hs
    · obtain ⟨hs, hne⟩ := List.mem_filter.1 hs
      refine (ih hs).happen (decide_eq_false fun hid => ?_)
      exact of_decide_eq_true hne hid.symm
    · refine (ih hs).happen ?_
      cases e with
      | unsubscribe id => exact absurd rfl (hunsub id)
      | _ => rfl

/-- What a subscriber is handed in a history. -/
theorem handed_history (h : r.Numbered) (before later : List (Event α)) (key : FeedKey)
    (closedOnly : Bool) (sink : Sink) :
    (r.handed (before ++ .subscribe key closedOnly sink :: later)).filter
        (·.1.id = (r.after before).nextId) =
      ((dispatched key (whileKept (r.after before).nextId later)).filter
        fun c => c.complete || !closedOnly).map
          fun c => (⟨(r.after before).nextId, closedOnly, sink⟩, c) := by
  have hnone : (r.handed before).filter (·.1.id = (r.after before).nextId) = [] := by
    refine List.filter_eq_nil_iff.2 fun d hd => ?_
    have hlt := h.handed_lt hd
    simp only [decide_eq_true_eq]
    omega
  have hreg := registered_subscribe (h.after before) key closedOnly sink
  rw [handed_append, List.filter_append, hnone, List.nil_append]
  exact handed_of_registered hreg later

theorem candles_history (h : r.Numbered) (before later : List (Event α)) (key : FeedKey)
    (closedOnly : Bool) (sink : Sink) :
    ((r.handed (before ++ .subscribe key closedOnly sink :: later)).filter
        (·.1.id = (r.after before).nextId)).map Prod.snd =
      (dispatched key (whileKept (r.after before).nextId later)).filter
        fun c => c.complete || !closedOnly := by
  rw [handed_history h, List.map_map]
  exact List.map_id _

/-! ### Who is subscribed -/

/-- Somebody subscribed to a feed, was given the identity `id`, and has not been removed since. -/
def Current (r : Router φ α) (es : List (Event α)) (key : FeedKey) (id : Nat) : Prop :=
  ∃ before closedOnly sink later, es = before ++ .subscribe key closedOnly sink :: later ∧
    (r.after before).nextId = id ∧ .unsubscribe id ∉ later

theorem current_concat {es : List (Event α)} {e : Event α} {key : FeedKey} {id : Nat} :
    r.Current (es ++ [e]) key id ↔ r.Current es key id ∧ e ≠ .unsubscribe id ∨
      (r.after es).nextId = id ∧ ∃ closedOnly sink, e = .subscribe key closedOnly sink := by
  constructor
  · rintro ⟨before, closedOnly, sink, later, heq, hid, hkept⟩
    rcases List.eq_nil_or_concat later with rfl | ⟨later, e', rfl⟩
    · obtain ⟨rfl, rfl⟩ : es = before ∧ e = .subscribe key closedOnly sink := by
        simpa using List.append_inj' heq rfl
      exact .inr ⟨hid, closedOnly, sink, rfl⟩
    · rw [List.concat_eq_append] at heq hkept
      rw [← List.cons_append, ← List.append_assoc] at heq
      obtain ⟨rfl, rfl⟩ : es = before ++ .subscribe key closedOnly sink :: later ∧ e = e' := by
        simpa using List.append_inj' heq rfl
      rw [List.mem_append, not_or] at hkept
      exact .inl ⟨⟨before, closedOnly, sink, later, rfl, hid, hkept.1⟩,
        fun h => hkept.2 (List.mem_singleton.2 h.symm)⟩
  · rintro (⟨⟨before, closedOnly, sink, later, rfl, hid, hkept⟩, he⟩ | ⟨hid, closedOnly, sink, rfl⟩)
    · refine ⟨before, closedOnly, sink, later ++ [e], by simp, hid, ?_⟩
      simpa [hkept] using he.symm
    · exact ⟨es, closedOnly, sink, [], rfl, hid, List.not_mem_nil⟩

theorem exists_mem_happen {e : Event α} {key : FeedKey} {id : Nat} :
    (∃ s ∈ (r.happen e).subscribersOf key, s.id = id) ↔
      (∃ s ∈ r.subscribersOf key, s.id = id) ∧ e ≠ .unsubscribe id ∨
        r.nextId = id ∧ ∃ closedOnly sink, e = .subscribe key closedOnly sink := by
  rcases r.happen_cases e with ⟨key', closedOnly, sink, rfl, -, hsubs⟩ | ⟨id', rfl, -, hsubs⟩ |
      ⟨hsub, hunsub, -, hsubs⟩ <;> rw [hsubs]
  · by_cases hk : key = key'
    · subst hk
      simp [or_and_right, exists_or]
    · simp [hk, Ne.symm hk]
  · simp only [List.mem_filter, decide_eq_true_eq, ne_eq, Event.unsubscribe.injEq, reduceCtorEq,
      exists_false, and_false, or_false]
    constructor
    · rintro ⟨s, ⟨hs, hne⟩, rfl⟩
      exact ⟨⟨s, hs, rfl⟩, fun h => hne h.symm⟩
    · rintro ⟨⟨s, hs, rfl⟩, hne⟩
      exact ⟨s, ⟨hs, fun h => hne h.symm⟩, rfl⟩
  · have hnone : ¬ ∃ closedOnly sink, e = .subscribe key closedOnly sink :=
      fun ⟨closedOnly, sink, h⟩ => hsub key closedOnly sink h
    simp [hnone, hunsub]

/-- The table holds those who are subscribed by the history. -/
theorem exists_mem_after (hr : ∀ key, r.subscribersOf key = []) (es : List (Event α))
    (key : FeedKey) (id : Nat) :
    (∃ s ∈ (r.after es).subscribersOf key, s.id = id) ↔ r.Current es key id := by
  induction es using List.reverseRecOn with
  | nil => simp [after, hr, Current]
  | append_singleton es e ih => rw [after_concat, exists_mem_happen, current_concat, ih]

theorem unsubscribe_known (r : Router φ α) (id : Nat) :
    (r.unsubscribe id).1 = true ↔ ∃ key, ∃ s ∈ r.subscribersOf key, s.id = id := by
  simp only [unsubscribe, List.any_eq_true, decide_eq_true_eq]
  constructor
  · rintro ⟨subs, hsubs, s, hs, hid⟩
    obtain ⟨e, he, rfl⟩ := List.mem_map.1 hsubs
    have hget := Table.get?_of_mem_entries (k := e.1) (v := e.2) he
    exact ⟨e.1, s, by simpa [subscribersOf, Table.getD, hget] using hs, hid⟩
  · rintro ⟨key, s, hs, hid⟩
    cases hget : r.subscribers.get? key with
    | none => simp [subscribersOf, Table.getD, hget] at hs
    | some subs =>
      rw [subscribersOf, Table.getD, hget] at hs
      exact ⟨subs, List.mem_map_of_mem (Table.mem_entries_of_get? hget), s, hs, hid⟩

/-- No feed stays in the table when its last subscriber leaves. -/
def Occupied (r : Router φ α) : Prop := ∀ key subs, r.subscribers.get? key = some subs → subs ≠ []

theorem Occupied.happen (h : r.Occupied) (e : Event α) : (r.happen e).Occupied := by
  intro key subs hget
  by_cases hsub : ∃ key closedOnly sink, e = .subscribe key closedOnly sink
  · obtain ⟨key', closedOnly, sink, rfl⟩ := hsub
    simp only [Router.happen, subscribe, Table.update, Table.get?_set] at hget
    split at hget
    · cases hget
      simp
    · exact h key subs hget
  by_cases hunsub : ∃ id, e = .unsubscribe id
  · obtain ⟨id, rfl⟩ := hunsub
    simp only [Router.happen, unsubscribe, Table.get?_filter, Option.filter_eq_some_iff] at hget
    simpa using hget.2
  · obtain ⟨hsubs, -⟩ := happen_table (r := r) (fun key closedOnly sink he =>
      hsub ⟨key, closedOnly, sink, he⟩) (fun id he => hunsub ⟨id, he⟩)
    exact h key subs (hsubs ▸ hget)

theorem Occupied.after (h : r.Occupied) (es : List (Event α)) : (r.after es).Occupied := by
  induction es generalizing r with
  | nil => exact h
  | cons e es ih => exact ih (h.happen e)

theorem Occupied.mem_feeds (h : r.Occupied) (key : FeedKey) :
    key ∈ r.feeds ↔ ∃ id, ∃ s ∈ r.subscribersOf key, s.id = id := by
  rw [feeds, List.mem_mergeSort, Table.mem_keys_iff]
  constructor
  · rintro ⟨subs, hget⟩
    obtain ⟨s, hs⟩ := List.exists_mem_of_ne_nil subs (h key subs hget)
    exact ⟨s.id, s, by simpa [subscribersOf, Table.getD, hget] using hs, rfl⟩
  · rintro ⟨-, s, hs, -⟩
    cases hget : r.subscribers.get? key with
    | none => simp [subscribersOf, Table.getD, hget] at hs
    | some subs => exact ⟨subs, rfl⟩

theorem feeds_sorted (r : Router φ α) : r.feeds.Pairwise fun a b => a.compare b = .lt := by
  have hle := List.pairwise_mergeSort FeedKey.upTo_trans FeedKey.upTo_total r.subscribers.keys
  refine (hle.and r.feeds_nodup).imp fun {a b} ⟨hab, hne⟩ => ?_
  have hgt : a.compare b ≠ .gt := of_decide_eq_true hab
  have heq : a.compare b ≠ .eq := fun h => hne (FeedKey.eq_of_compare h)
  cases hc : a.compare b <;> simp_all

/-- Identities only grow. -/
theorem given_pairwise (r : Router φ α) (es : List (Event α)) :
    (r.given es).Pairwise (· < ·) ∧ ∀ id ∈ r.given es, r.nextId ≤ id := by
  induction es generalizing r with
  | nil => exact ⟨.nil, by simp [Router.given]⟩
  | cons e es ih =>
    have hrest := ih (r.happen e)
    have hle : ∀ id ∈ (r.happen e).given es, r.nextId ≤ id := fun id hid =>
      (r.nextId_le_happen e).trans (hrest.2 id hid)
    cases e with
    | subscribe key closedOnly sink =>
      have hlt : ∀ id ∈ (r.subscribe key closedOnly sink).2.given es, r.nextId < id := hrest.2
      refine ⟨List.pairwise_cons.2 ⟨hlt, hrest.1⟩, fun id hid => ?_⟩
      rcases List.mem_cons.1 hid with rfl | hid
      · exact Nat.le_refl _
      · exact hle id hid
    | _ => exact ⟨hrest.1, hle⟩

end Router
end Candlewick
