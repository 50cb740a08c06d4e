import Candlewick.Proofs.Feed.Subscriptions

/-! # What arrives

What is handed to the subscribers of an inbox is read from it or waits there, as long as it is not
thrown away (`read_append_waiting`), and a queue takes in what its subscribers are handed
(`Queues.after`). Together with what the history says of each subscriber this is all that a router
answers and delivers, whatever the history (`ofFeeder_projects`). -/

namespace Candlewick

namespace Router
variable {φ α : Type} {r : Router φ α}

/-! ### Inboxes -/

/-- An inbox, which is empty and open where nobody has used it. -/
def box (r : Router φ α) (n : Nat) : Inbox α := r.inboxes.getD n ⟨true, []⟩

/-- What waits in an inbox, oldest first. -/
def waiting (r : Router φ α) (n : Nat) : List (Candle α) := (r.box n).candles.reverse

/-- What is read from an inbox in an event. -/
def readBy (r : Router φ α) (n : Nat) : Event α → List (Candle α)
  | .receive inbox => if inbox = n then (r.receive n).1 else []
  | .next inbox => if inbox = n then ((r.next? n).map Prod.fst).toList else []
  | _ => []

/-- What is read from an inbox in some events. -/
def read (r : Router φ α) (n : Nat) : List (Event α) → List (Candle α)
  | [] => []
  | e :: es => r.readBy n e ++ read (r.happen e) n es

/-- What is handed to the subscribers of an inbox. -/
def toInbox (n : Nat) (ds : List (Subscriber × Candle α)) : List (Candle α) :=
  (ds.filter (·.1.inbox? = some n)).map Prod.snd

/-- What is handed to the subscribers of a queue. -/
def toQueue (n : Nat) (ds : List (Subscriber × Candle α)) : List (Candle α) :=
  (ds.filter (·.1.queue? = some n)).map Prod.snd

theorem read_append (r : Router φ α) (n : Nat) (es es' : List (Event α)) :
    r.read n (es ++ es') = r.read n es ++ (r.after es).read n es' := by
  induction es generalizing r with
  | nil => rfl
  | cons e es ih =>
    rw [List.cons_append, read, read, ih, List.append_assoc]
    rfl

theorem box_of_get? {n : Nat} {i : Inbox α} (h : r.inboxes.get? n = some i) : r.box n = i := by
  rw [box, Table.getD, h, Option.getD_some]

theorem box_of_get?_none {n : Nat} (h : r.inboxes.get? n = none) : r.box n = ⟨true, []⟩ := by
  rw [box, Table.getD, h, Option.getD_none]

theorem box_set (r : Router φ α) (m n : Nat) (i : Inbox α) :
    box { r with inboxes := r.inboxes.set m i } n = if n = m then i else r.box n :=
  Table.getD_set ..

theorem box_deliver (c : Candle α) (r : Router φ α) (s : Subscriber) (n : Nat) :
    (deliver c r s).box n = if s.inbox? = some n then (r.box n).put c else r.box n := by
  cases hs : s.inbox? with
  | none =>
    rw [if_neg nofun]
    simp only [deliver, box, hs]
  | some inbox =>
    simp only [deliver, hs, box, Table.getD_update, Option.some.injEq, eq_comm (a := n)]
    split
    next h => rw [h]
    next => rfl

/-- An open inbox takes in what is handed to its subscribers. -/
theorem foldl_deliver_box (c : Candle α) (n : Nat) (subs : List Subscriber) {r : Router φ α}
    (hopen : (r.box n).isOpen = true) :
    ((subs.foldl (deliver c) r).box n).isOpen = true ∧
      (subs.foldl (deliver c) r).waiting n = r.waiting n ++ toInbox n (subs.map fun s => (s, c)) := by
  induction subs generalizing r with
  | nil => simpa [toInbox] using hopen
  | cons s subs ih =>
    have hbox := box_deliver c r s n
    by_cases hs : s.inbox? = some n
    · rw [if_pos hs, Inbox.put, if_pos hopen] at hbox
      obtain ⟨hopen', hwait⟩ := ih (r := deliver c r s) (by rw [hbox]; exact hopen)
      refine ⟨hopen', hwait.trans ?_⟩
      simp [waiting, hbox, toInbox, hs]
    · rw [if_neg hs] at hbox
      obtain ⟨hopen', hwait⟩ := ih (r := deliver c r s) (by rw [hbox]; exact hopen)
      refine ⟨hopen', hwait.trans ?_⟩
      simp [waiting, hbox, toInbox, hs]

theorem foldl_deliver_closed (c : Candle α) (n : Nat) (subs : List Subscriber) {r : Router φ α}
    (hclosed : (r.box n).isOpen = false) : (subs.foldl (deliver c) r).box n = r.box n := by
  induction subs generalizing r with
  | nil => rfl
  | cons s subs ih =>
    have hbox : (deliver c r s).box n = r.box n := by
      rw [box_deliver, Inbox.put, hclosed]
      split <;> rfl
    rw [List.foldl_cons, ih (hbox ▸ hclosed), hbox]

/-- An event in which part of an inbox may be read and nothing else happens to it. -/
def Reads (r : Router φ α) (n : Nat) (e : Event α) : Prop :=
  ∃ kept, (r.happen e).box n = ⟨(r.box n).isOpen, kept⟩ ∧
    r.readBy n e ++ kept.reverse = r.waiting n

theorem Reads.of_eq {n : Nat} {e : Event α} (hbox : (r.happen e).box n = r.box n)
    (hread : r.readBy n e = []) : r.Reads n e :=
  ⟨(r.box n).candles, hbox, by rw [hread]; rfl⟩

theorem reads_subscribe (r : Router φ α) (n : Nat) (key : FeedKey) (closedOnly : Bool)
    (sink : Sink) : r.Reads n (.subscribe key closedOnly sink) := by
  refine .of_eq ?_ rfl
  simp only [happen, subscribe, box]
  split
  · exact Table.getD_setNew ..
  · rfl

theorem reads_receive (r : Router φ α) (n m : Nat) : r.Reads n (.receive m) := by
  by_cases hm : m = n
  · subst hm
    refine ⟨[], ?_⟩
    rw [readBy, if_pos rfl, waiting, happen, receive]
    cases hget : r.inboxes.get? m with
    | none => simp [box_of_get?_none hget]
    | some i => simp [box_of_get? hget, box_set]
  · refine .of_eq ?_ (if_neg hm)
    rw [happen, receive]
    split
    · rfl
    · rw [box_set, if_neg (Ne.symm hm)]

theorem reads_next (r : Router φ α) (n m : Nat) : r.Reads n (.next m) := by
  by_cases hm : m = n
  · subst hm
    refine ⟨(r.box m).candles.dropLast, ?_⟩
    rw [readBy, if_pos rfl, waiting, happen, next?]
    cases hget : r.inboxes.get? m with
    | none => simp [box_of_get?_none hget]
    | some i =>
      rw [box_of_get? hget]
      -- the oldest candle is the last one of the list
      rcases List.eq_nil_or_concat i.candles with hnil | ⟨cs, c, hlast⟩
      · obtain ⟨isOpen, candles⟩ := i
        subst hnil
        simp [box_of_get? hget]
      · simp [hlast, box_set]
  · refine .of_eq ?_ (if_neg hm)
    rw [happen, next?]
    cases r.inboxes.get? m with
    | none => rfl
    | some i => cases hc : i.candles.getLast? <;> simp [hc, box_set, Ne.symm hm]

theorem box_discard (r : Router φ α) (inbox n : Nat) :
    (r.discard inbox).2.box n =
      if n = inbox ∧ (r.discard inbox).1 = true then ⟨false, []⟩ else r.box n := by
  unfold discard box
  split
  next h =>
    simp only [and_true, Table.getD_set]
  next => simp

/-- An event that does not throw an inbox away which is open. -/
def Spares (r : Router φ α) (n : Nat) (e : Event α) : Prop :=
  e = .discard n → (r.discard n).1 = false

theorem Reads.append_waiting {n : Nat} {e : Event α} (h : r.Reads n e)
    (hopen : (r.box n).isOpen = true) (hnone : r.handedBy e = []) :
    ((r.happen e).box n).isOpen = true ∧
      r.readBy n e ++ (r.happen e).waiting n = r.waiting n ++ toInbox n (r.handedBy e) := by
  obtain ⟨kept, hbox, hread⟩ := h
  refine ⟨by rw [hbox]; exact hopen, ?_⟩
  rw [waiting, hbox, hread, hnone]
  exact (List.append_nil _).symm

theorem readBy_append_waiting {n : Nat} {e : Event α} (hopen : (r.box n).isOpen = true)
    (he : r.Spares n e) : ((r.happen e).box n).isOpen = true ∧
      r.readBy n e ++ (r.happen e).waiting n = r.waiting n ++ toInbox n (r.handedBy e) := by
  cases e with
  | subscribe key closedOnly sink => exact (reads_subscribe ..).append_waiting hopen rfl
  | unsubscribe id => exact (Reads.of_eq rfl rfl).append_waiting hopen rfl
  | dispatch key c => exact foldl_deliver_box c n _ hopen
  | receive m => exact (reads_receive ..).append_waiting hopen rfl
  | next m => exact (reads_next ..).append_waiting hopen rfl
  | discard m =>
    refine (Reads.of_eq ?_ rfl).append_waiting hopen rfl
    rw [happen, box_discard, if_neg]
    rintro ⟨rfl, h⟩
    rw [he rfl] at h
    cases h
  | drain m => exact (Reads.of_eq rfl rfl).append_waiting hopen rfl

/-- What is handed to the subscribers of an inbox that is never thrown away is read or waits. -/
theorem read_append_waiting {n : Nat} {es : List (Event α)} (hopen : (r.box n).isOpen = true)
    (hspares : ∀ before e later, es = before ++ e :: later → (r.after before).Spares n e) :
    ((r.after es).box n).isOpen = true ∧
      r.read n es ++ (r.after es).waiting n = r.waiting n ++ toInbox n (r.handed es) := by
  induction es generalizing r with
  | nil => exact ⟨hopen, (List.append_nil _).symm⟩
  | cons e es ih =>
    obtain ⟨hopen', hone⟩ := readBy_append_waiting hopen (hspares [] e es rfl)
    obtain ⟨hend, hrest⟩ := ih hopen' fun before e' later heq =>
      hspares (e :: before) e' later (congrArg (e :: ·) heq)
    refine ⟨hend, ?_⟩
    calc r.read n (e :: es) ++ (r.after (e :: es)).waiting n
      _ = r.readBy n e ++ ((r.happen e).read n es ++ ((r.happen e).after es).waiting n) :=
        List.append_assoc ..
      _ = (r.readBy n e ++ (r.happen e).waiting n) ++ toInbox n ((r.happen e).handed es) := by
        rw [hrest, List.append_assoc]
      _ = r.waiting n ++ (toInbox n (r.handedBy e) ++ toInbox n ((r.happen e).handed es)) := by
        rw [hone, List.append_assoc]
      _ = r.waiting n ++ toInbox n (r.handed (e :: es)) := by
        rw [Router.handed, toInbox, toInbox, toInbox, List.filter_append, List.map_append]

theorem Reads.discarded {n : Nat} {e : Event α} (h : r.Reads n e) (hbox : r.box n = ⟨false, []⟩) :
    (r.happen e).box n = ⟨false, []⟩ ∧ r.readBy n e = [] := by
  obtain ⟨kept, hbox', hread⟩ := h
  rw [waiting, hbox, List.reverse_nil, List.append_eq_nil_iff, List.reverse_eq_nil_iff] at hread
  rw [hbox', hbox, hread.2]
  exact ⟨rfl, hread.1⟩

theorem box_discarded {n : Nat} (h : r.box n = ⟨false, []⟩) (es : List (Event α)) :
    (r.after es).box n = ⟨false, []⟩ ∧ r.read n es = [] := by
  induction es generalizing r with
  | nil => exact ⟨h, rfl⟩
  | cons e es ih =>
    have hone : (r.happen e).box n = ⟨false, []⟩ ∧ r.readBy n e = [] := by
      cases e with
      | subscribe key closedOnly sink => exact (reads_subscribe ..).discarded h
      | unsubscribe id => exact (Reads.of_eq rfl rfl).discarded h
      | dispatch key c => exact ⟨(foldl_deliver_closed c n _ (by rw [h])).trans h, rfl⟩
      | receive m => exact (reads_receive ..).discarded h
      | next m => exact (reads_next ..).discarded h
      | discard m =>
        refine ⟨?_, rfl⟩
        rw [happen, box_discard]
        split
        · rfl
        · exact h
      | drain m => exact (Reads.of_eq rfl rfl).discarded h
    obtain ⟨hend, hrest⟩ := ih hone.1
    exact ⟨hend, by rw [read, hone.2, hrest, List.append_nil]⟩

theorem isOpen_of_discard {n : Nat} (h : (r.discard n).1 = true) : (r.box n).isOpen = true := by
  unfold discard at h
  split at h
  next hget => rw [box_of_get? hget]
  next => cases h

/-- Where an inbox is open it was not thrown away before. -/
theorem spares_of_isOpen {n : Nat} {es before later : List (Event α)} {e : Event α}
    (h : ((r.after es).box n).isOpen = true) (heq : es = before ++ e :: later) :
    (r.after before).Spares n e := by
  rintro rfl
  refine Bool.eq_false_iff.2 fun hdrop => ?_
  have hbox : ((r.after before).happen (.discard n)).box n = ⟨false, []⟩ := by
    rw [happen, box_discard, if_pos ⟨rfl, hdrop⟩]
  rw [heq, after_append] at h
  have hend := (box_discarded hbox later).1
  rw [after, List.foldl_cons] at h
  rw [after] at hend
  rw [hend] at h
  cases h

/-! ### Queues -/

variable {n : Nat} {cs : List (Candle α)}

theorem toQueue_map (n : Nat) (subs : List Subscriber) (c : Candle α) :
    toQueue n (subs.map fun s => (s, c)) =
      List.replicate (subs.countP (·.queue? = some n)) c := by
  rw [toQueue, List.filter_map, List.map_map, List.countP_eq_length_filter, ← List.map_const']
  rfl

theorem queue_drain (r : Router φ α) (m n : Nat) :
    (r.drain m).2.queue n = if n = m then (r.queue m).drain.2 else r.queue n :=
  Table.getD_set ..

theorem Queues.happen (h : r.Queues n cs) {e : Event α} (he : e ≠ .drain n) :
    (r.happen e).Queues n (cs ++ toQueue n (r.handedBy e)) := by
  have hnone : r.Queues n (cs ++ toQueue n []) := by simpa [toQueue] using h
  have hread : (∃ inboxes, r.happen e = { r with inboxes }) → r.handedBy e = [] →
      (r.happen e).Queues n (cs ++ toQueue n (r.handedBy e)) := by
    rintro ⟨inboxes, heq⟩ hby
    rw [heq, hby]
    exact hnone
  cases e with
  | subscribe key closedOnly sink => exact hnone
  | unsubscribe id => exact hnone
  | dispatch key c =>
    rw [handedBy, toQueue_map]
    exact dispatch_queues h key c
  | receive m => exact hread (r.exists_inboxes (.inl rfl)) rfl
  | next m => exact hread (r.exists_inboxes (.inr (.inl rfl))) rfl
  | discard m => exact hread (r.exists_inboxes (.inr (.inr rfl))) rfl
  | drain m =>
    have hne : n ≠ m := fun heq => he (heq ▸ rfl)
    rw [Queues, Router.happen, queue_drain, if_neg hne]
    exact hnone

theorem Queues.drain (h : r.Queues n cs) : (r.drain n).2.Queues n [] := by
  obtain ⟨as, has, rfl⟩ := h
  refine ⟨[], ?_, rfl⟩
  rw [queue_drain, if_pos rfl]
  exact has.drain.2

theorem Queues.exists_after (h : r.Queues n cs) (es : List (Event α)) :
    ∃ cs', (r.after es).Queues n cs' := by
  induction es generalizing r cs with
  | nil => exact ⟨cs, h⟩
  | cons e es ih =>
    by_cases he : e = .drain n
    · subst he
      exact ih h.drain
    · exact ih (h.happen he)

/-- Until it is drained a queue takes in what its subscribers are handed, in that order. -/
theorem Queues.after (h : r.Queues n cs) {es : List (Event α)} (hes : .drain n ∉ es) :
    (r.after es).Queues n (cs ++ toQueue n (r.handed es)) := by
  induction es generalizing r cs with
  | nil => simpa [toQueue, handed, Router.after] using h
  | cons e es ih =>
    rw [List.mem_cons, not_or] at hes
    have hrest := ih (h.happen (Ne.symm hes.1)) hes.2
    rw [List.append_assoc] at hrest
    rwa [handed, toQueue, List.filter_append, List.map_append]

/-! ### Deliveries and history -/

/-- What a history of a router says about everything that it answers and delivers. -/
structure Projects (r : Router φ α) (es : List (Event α)) : Prop where
  /-- On behalf of a subscriber its sink is handed the candles that are dispatched for its feed
  while it is subscribed, those that it accepts, once each and in their order. -/
  handed : ∀ before key closedOnly sink later,
    es = before ++ .subscribe key closedOnly sink :: later →
    let id := ((r.after before).subscribe key closedOnly sink).1
    (r.handed es).filter (·.1.id = id) =
      ((dispatched key (whileKept id later)).filter fun c => c.complete || !closedOnly).map
        fun c => (⟨id, closedOnly, sink⟩, c)
  /-- So of the candles that a subscriber to all tellings is handed, one to closed bars over the
  same candles is handed those that are complete. -/
  closedOnly : ∀ key before sink later before' sink' later',
    es = before ++ .subscribe key true sink :: later →
    es = before' ++ .subscribe key false sink' :: later' →
    let id := ((r.after before).subscribe key true sink).1
    let id' := ((r.after before').subscribe key false sink').1
    dispatched key (whileKept id later) = dispatched key (whileKept id' later') →
    ((r.handed es).filter (·.1.id = id)).map Prod.snd =
      (((r.handed es).filter (·.1.id = id')).map Prod.snd).filter (·.complete)
  /-- An inbox whose receiver is there takes in all that is handed to its subscribers. -/
  inbox : ∀ n, (∀ before later, es = before ++ .discard n :: later →
      ((r.after before).discard n).1 = false) →
    r.read n es ++ (r.after es).waiting n = toInbox n (r.handed es)
  /-- When its receiver is dropped it has taken in all until then, and it takes in no more. -/
  dropped : ∀ n before later, es = before ++ .discard n :: later →
    ((r.after before).discard n).1 = true →
    r.read n before ++ (r.after before).waiting n = toInbox n (r.handed before) ∧
      r.read n es = r.read n before ∧ (r.after es).waiting n = []
  /-- A queue takes in all that is handed to its subscribers, and releases it. -/
  queue : ∀ n before later, es = before ++ later →
    (before = [] ∨ ∃ earlier, before = earlier ++ [.drain n]) → .drain n ∉ later →
    (r.after es).Queues n (toQueue n ((r.after before).handed later)) ∧
      ((r.after es).drain n).1 = Candle.sort (toQueue n ((r.after before).handed later))
  /-- No identity is given twice. -/
  given : (r.given es).Nodup
  /-- Who is not subscribed cannot be removed, and who is can. -/
  unsubscribe : ∀ id, ((r.after es).unsubscribe id).1 = true ↔ ∃ key, r.Current es key id
  /-- The feeds are those with a subscriber, in strictly ascending order. -/
  feeds : (r.after es).feeds.Pairwise (fun a b => a.compare b = .lt) ∧
    ∀ key, key ∈ (r.after es).feeds ↔ ∃ id, r.Current es key id

theorem ofFeeder_projects (feeder : φ) (backoff : Backoff α) (es : List (Event α)) :
    (ofFeeder feeder backoff).Projects es := by
  have hempty : ∀ key, (ofFeeder feeder backoff).subscribersOf key = [] := fun key => rfl
  have hnumbered : (ofFeeder feeder backoff).Numbered := by
    intro key s hs
    rw [hempty] at hs
    cases hs
  have hqueues : ∀ n, (ofFeeder feeder backoff).Queues n [] := fun n => queues_of_get?_none rfl
  have hoccupied : (ofFeeder feeder backoff).Occupied := fun key subs h => by cases h
  have hcurrent := exists_mem_after hempty es
  constructor
  case handed =>
    rintro before key closedOnly sink later rfl
    exact handed_history hnumbered before later key closedOnly sink
  case closedOnly =>
    intro key before sink later before' sink' later' heq heq' id id' hsame
    have hclosed := candles_history hnumbered before later key true sink
    have hall := candles_history hnumbered before' later' key false sink'
    rw [← heq] at hclosed
    rw [← heq'] at hall
    refine hclosed.trans (.trans ?_ (congrArg (List.filter (·.complete)) hall).symm)
    rw [List.filter_filter]
    refine (congrArg (List.filter _) hsame).trans (List.filter_congr fun c _ => ?_)
    cases c.complete <;> rfl
  case inbox =>
    intro n hkept
    have hspares : ∀ before e later, es = before ++ e :: later →
        ((ofFeeder feeder backoff).after before).Spares n e := by
      rintro before e later heq rfl
      exact hkept before later heq
    exact (read_append_waiting rfl hspares).2
  case dropped =>
    rintro n before later rfl hdrop
    have hopen := isOpen_of_discard hdrop
    have hbox : (((ofFeeder feeder backoff).after before).happen (.discard n)).box n =
        ⟨false, []⟩ := by
      rw [happen, box_discard, if_pos ⟨rfl, hdrop⟩]
    obtain ⟨hend, hread⟩ := box_discarded hbox later
    refine ⟨(read_append_waiting rfl fun _ _ _ => spares_of_isOpen hopen).2, ?_, ?_⟩
    · rw [read_append, read, hread]
      exact List.append_nil _
    · rw [waiting, after_append]
      exact congrArg (·.candles.reverse) hend
  case queue =>
    rintro n before later rfl hbefore hlater
    have hstart : ((ofFeeder feeder backoff).after before).Queues n [] := by
      rcases hbefore with rfl | ⟨earlier, rfl⟩
      · exact hqueues n
      · obtain ⟨cs, hcs⟩ := (hqueues n).exists_after earlier
        rw [after_concat]
        exact hcs.drain
    have hend := hstart.after hlater
    rw [List.nil_append, ← after_append] at hend
    exact ⟨hend, drain_eq hend⟩
  case given => exact (given_pairwise _ es).1.imp Nat.ne_of_lt
  case unsubscribe =>
    intro id
    rw [unsubscribe_known]
    exact exists_congr fun key => hcurrent key id
  case feeds =>
    refine ⟨feeds_sorted _, fun key => ?_⟩
    rw [(hoccupied.after es).mem_feeds]
    exact exists_congr fun id => hcurrent key id

/-- Two subscribers of an inbox, one of which leaves, and a receiver that is dropped. -/
def sharedInbox (key : FeedKey) : List (Event Rat) :=
  [.subscribe key true (.shared 7), .subscribe key false (.shared 7),
    .dispatch key (telling 0 1), .next 7, .unsubscribe 2,
    .dispatch key { telling 0 2 with complete := true }, .discard 7,
    .dispatch key { telling 60 3 with complete := true }]

example : ((ofFeeder () default).handed (sharedInbox default)).map (fun d => (d.1.id, d.2.close)) =
    [(2, 1), (1, 2), (1, 3)] := by rfl

/-- The receiver of the inbox is there for six events, and then it has read what it ever reads. -/
theorem ofFeeder_projects_sharedInbox :
    (((ofFeeder () default).after ((sharedInbox default).take 6)).discard 7).1 = true ∧
    (ofFeeder () default).read 7 (sharedInbox default) =
      (ofFeeder () default).read 7 ((sharedInbox default).take 6) ∧
    ((ofFeeder () default).after (sharedInbox default)).waiting 7 = [] := by
  have hdrop : (((ofFeeder () default).after ((sharedInbox default).take 6)).discard 7).1 = true :=
    rfl
  have hprojects := ofFeeder_projects () default (sharedInbox default)
  exact ⟨hdrop, (hprojects.dropped 7 _ _ rfl hdrop).2⟩

end Router
end Candlewick
