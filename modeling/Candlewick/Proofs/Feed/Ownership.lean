import Candlewick.Proofs.Feed.Delivery

/-! # Inboxes of one subscriber

An inbox belongs to a feed if only one subscriber uses it, who takes every candle of that feed
(`Router.Owns`). Then what is handed out of the feed comes into the inbox, each candle once and in
order, and nothing else does (`Owns.dispatch`); what is handed out of other feeds passes it by
(`box_dispatch_of_unused`). -/

namespace Candlewick.Router
variable {φ α : Type} {r r' : Router φ α} {key : FeedKey} {n : Nat}

/-- No subscriber of a feed uses an inbox. -/
def Unused (r : Router φ α) (key : FeedKey) (n : Nat) : Prop :=
  ∀ s ∈ r.subscribersOf key, s.inbox? ≠ some n

/-- An inbox has one subscriber, who takes every candle of one feed. -/
structure Owns (r : Router φ α) (key : FeedKey) (n : Nat) : Prop where
  one : (r.subscribersOf key).filter (·.inbox? = some n) = [⟨n, false, .inbox⟩]
  others : ∀ k, k ≠ key → r.Unused k n

theorem Unused.congr (h : r.Unused key n) (hsubs : r'.subscribers = r.subscribers) :
    r'.Unused key n := by
  unfold Unused subscribersOf
  rw [hsubs]
  exact h

theorem Owns.congr (h : r.Owns key n) (hsubs : r'.subscribers = r.subscribers) :
    r'.Owns key n := by
  refine ⟨?_, fun k hk => (h.others k hk).congr hsubs⟩
  rw [subscribersOf, hsubs]
  exact h.one

theorem foldl_deliver_of_unused (c : Candle α) {subs : List Subscriber}
    (h : ∀ s ∈ subs, s.inbox? ≠ some n) (r : Router φ α) :
    (subs.foldl (deliver c) r).box n = r.box n := by
  induction subs generalizing r with
  | nil => rfl
  | cons s subs ih =>
    rw [List.foldl_cons, ih (fun t ht => h t (List.mem_cons_of_mem _ ht)), box_deliver,
      if_neg (h s (List.mem_cons_self ..))]

theorem box_dispatch_of_unused (h : r.Unused key n) (c : Candle α) :
    (r.dispatch key c).box n = r.box n :=
  foldl_deliver_of_unused c (fun s hs => h s (List.mem_of_mem_filter hs)) r

theorem get?_dispatch_of_unused (h : r.Unused key n) (c : Candle α) :
    (r.dispatch key c).inboxes.get? n = r.inboxes.get? n := by
  have hfold : ∀ (subs : List Subscriber) (r : Router φ α), (∀ s ∈ subs, s.inbox? ≠ some n) →
      (subs.foldl (deliver c) r).inboxes.get? n = r.inboxes.get? n := by
    intro subs
    induction subs with
    | nil => exact fun _ _ => rfl
    | cons s subs ih =>
      intro r hsubs
      rw [List.foldl_cons, ih _ fun t ht => hsubs t (List.mem_cons_of_mem _ ht)]
      have hs := hsubs s (List.mem_cons_self ..)
      unfold deliver
      split
      next m hm =>
        have hne : n ≠ m := by
          rintro rfl
          exact hs hm
        rw [Table.update, Table.get?_set, if_neg hne]
      next => rfl
  exact hfold _ r fun s hs => h s (List.mem_of_mem_filter hs)

theorem Owns.handedBy (h : r.Owns key n) (c : Candle α) :
    toInbox n (r.handedBy (.dispatch key c)) = [c] := by
  rw [toInbox, Router.handedBy, List.filter_map, List.map_map]
  have hcomm : ((r.subscribersOf key).filter (·.accepts c)).filter
      ((fun d : Subscriber × Candle α => decide (d.1.inbox? = some n)) ∘ fun s => (s, c)) =
      ((r.subscribersOf key).filter (·.inbox? = some n)).filter (·.accepts c) :=
    List.filter_comm ..
  rw [hcomm, h.one]
  simp [Subscriber.accepts]

/-- An open inbox takes in every candle of its feed. -/
theorem Owns.dispatch (h : r.Owns key n) (hopen : (r.box n).isOpen = true) (c : Candle α) :
    ((r.dispatch key c).box n).isOpen = true ∧
      (r.dispatch key c).waiting n = r.waiting n ++ [c] := by
  obtain ⟨hstill, hwaiting⟩ := readBy_append_waiting (e := .dispatch key c) hopen nofun
  refine ⟨hstill, ?_⟩
  rw [← h.handedBy c]
  exact hwaiting

/-- One that is thrown away takes in nothing. -/
theorem box_dispatch_of_closed (hclosed : (r.box n).isOpen = false) (key : FeedKey)
    (c : Candle α) : (r.dispatch key c).box n = r.box n :=
  foldl_deliver_closed c n _ hclosed

theorem table_dispatch (r : Router φ α) (key : FeedKey) (c : Candle α) :
    (r.dispatch key c).subscribers = r.subscribers ∧ (r.dispatch key c).nextId = r.nextId ∧
      (r.dispatch key c).connected = r.connected :=
  happen_table (e := .dispatch key c) (by simp) (by simp)

/-! ### Reading -/

theorem next?_eq_some {c : Candle α} (h : r.next? n = some (c, r')) :
    r.waiting n = c :: r'.waiting n ∧ (r'.box n).isOpen = (r.box n).isOpen ∧
      (∀ m, m ≠ n → r'.box m = r.box m) ∧ r'.subscribers = r.subscribers := by
  unfold next? at h
  cases hget : r.inboxes.get? n with
  | none => simp [hget] at h
  | some i =>
    rcases List.eq_nil_or_concat i.candles with hnil | ⟨cs, d, hlast⟩
    · simp [hget, hnil] at h
    · simp only [hget, hlast, Option.bind_eq_bind, Option.bind_some, List.concat_eq_append,
        List.getLast?_append, List.getLast?_singleton, Option.some_or, List.dropLast_concat,
        Option.pure_def, Option.some.injEq, Prod.mk.injEq] at h
      obtain ⟨rfl, rfl⟩ := h
      refine ⟨?_, ?_, fun m hm => ?_, rfl⟩
      · rw [waiting, waiting, box_of_get? hget, box_set, if_pos rfl, hlast]
        simp
      · rw [box_set, if_pos rfl, box_of_get? hget]
      · rw [box_set, if_neg hm]

theorem waiting_of_next?_eq_none (h : r.next? n = none) : r.waiting n = [] := by
  unfold next? at h
  cases hget : r.inboxes.get? n with
  | none => rw [waiting, box_of_get?_none hget]; rfl
  | some i =>
    rcases List.eq_nil_or_concat i.candles with hnil | ⟨cs, d, hlast⟩
    · rw [waiting, box_of_get? hget, hnil]
      rfl
    · simp [hget, hlast] at h

end Candlewick.Router
