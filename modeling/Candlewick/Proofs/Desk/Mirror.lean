import Candlewick.Order.Plan
import Candlewick.Proofs.Desk.Fills
import Candlewick.Proofs.Wallet.Log

/-! # Records of a wallet's orders

Whatever a desk does over a wallet, it has one record of each order it placed, and the wallet has
what the record may become (`Desk.Mirrors`). A record may be out of date (`Desk.Stale`), since a
wallet changes without asking its desk, but nothing that is asked of the desk puts one out of date
(`Desk.Mirrors.answers`), and a refresh brings all of them up to date. The positions and trades of
the book count every record that is filled, once (`Book.Counts`). -/

namespace Candlewick

/-! ### What a book counts -/

namespace Book
variable {α : Type} [Amount α] {b : Book α}

/-- Positions and trades are those of the recorded orders that are filled, each one counted once. -/
def Counts (b : Book α) : Prop :=
  ∃ fills : List (Order α), fills.Perm (b.orders.filter (·.status = .filled)) ∧
    b.SameTotals (fills.foldl applyFill empty)

theorem counts_empty : (empty : Book α).Counts := ⟨[], .nil, rfl, rfl⟩

/-- A filled order is folded in, and any other one is not. -/
theorem Counts.applyIfFilled (h : b.Counts) {o : Order α} {os : List (Order α)}
    (hos : (os.filter (·.status = .filled)).Perm
      (b.orders.filter (·.status = .filled) ++ if o.status = .filled then [o] else [])) :
    Counts { b.applyIfFilled o with orders := os } := by
  obtain ⟨fills, hperm, htotals⟩ := h
  unfold Book.applyIfFilled
  by_cases ho : o.status = .filled
  · rw [if_pos ho] at hos
    refine ⟨fills ++ [o], (hperm.append_right [o]).trans hos.symm, ?_⟩
    rw [if_pos ho, List.foldl_append]
    exact htotals.applyFill o
  · rw [if_neg ho, List.append_nil] at hos
    rw [if_neg ho]
    exact ⟨fills, hperm.trans hos.symm, htotals⟩

theorem Counts.record (h : b.Counts) (o : Order α) : (b.record o).Counts := by
  refine h.applyIfFilled (o := o) ?_
  rw [applyIfFilled_orders, List.filter_append]
  by_cases ho : o.status = .filled <;> simp [ho]

theorem Counts.records (h : b.Counts) (os : List (Order α)) : (os.foldl Book.record b).Counts := by
  induction os generalizing b with
  | nil => exact h
  | cons o os ih => exact ih (h.record o)

omit [Amount α] in
theorem filter_replaceFirst {o p : Order α} {os : List (Order α)} {q : Order α → Bool}
    (h : os.find? (·.id = o.id) = some p) (hp : q p = false) :
    ((replaceFirst o os).filter q).Perm (os.filter q ++ if q o then [o] else []) := by
  induction os with
  | nil => cases h
  | cons r os ih =>
    unfold replaceFirst
    by_cases hr : r.id = o.id
    · obtain rfl : r = p := by simpa [hr] using h
      rw [if_pos hr, List.filter_cons, List.filter_cons_of_neg (by simp [hp])]
      split
      · exact (List.perm_append_singleton ..).symm
      · rw [List.append_nil]
    · have hrest : os.find? (·.id = o.id) = some p := by simpa [hr] using h
      rw [if_neg hr, List.filter_cons, List.filter_cons]
      split
      · exact (ih hrest).cons r
      · exact ih hrest

theorem Counts.update (h : b.Counts) {o : Order α}
    (hbecomes : ∀ p ∈ b.orders, p.id = o.id → p.Becomes o) : (b.update o).Counts := by
  rcases hf : b.orders.find? (·.id = o.id) with - | p
  · rwa [update_unknown hf]
  by_cases hs : p.status = o.status
  · rwa [update_same hf hs]
  have hp : p.Becomes o :=
    hbecomes p (List.mem_of_find?_eq_some hf) (by simpa using List.find?_some hf)
  -- a record that changes was resting, so it had not been counted
  have hrested : p.status = .new := by
    by_contra hn
    exact hs (congrArg Order.status (hp.settled hn)).symm
  rw [update_other hf hs]
  refine h.applyIfFilled (o := o) ?_
  have hperm := filter_replaceFirst (q := fun r => r.status = .filled) hf (by simp [hrested])
  simpa using hperm

end Book

namespace Wallet
variable {α : Type}

theorem mem_of_order_eq_ok {w : Wallet α} {pair : String} {id : Int} {o : Order α}
    (h : w.order pair id = .ok o) : o ∈ w.orders := by
  unfold order at h
  cases hf : w.orders.find? fun o => o.id = id && o.pair = pair with
  | none => rw [hf] at h; cases h
  | some p =>
    rw [hf] at h
    cases h
    exact List.mem_of_find?_eq_some hf

/-- What an order has become stays where it is and, if it does not rest, what it is. -/
theorem Extends.mem {w w' : Wallet α} (h : w.Extends w') {o : Order α} (ho : o ∈ w.orders) :
    ∃ p ∈ w'.orders, o.Becomes p := by
  obtain ⟨i, hi⟩ := List.getElem?_of_mem ho
  obtain ⟨p, hp, hop⟩ := h i o hi
  exact ⟨p, List.mem_of_getElem? hp, hop⟩

theorem Extends.mem_settled {w w' : Wallet α} (h : w.Extends w') {o : Order α} (ho : o ∈ w.orders)
    (hs : o.status ≠ .new) : o ∈ w'.orders := by
  obtain ⟨p, hp, hop⟩ := h.mem ho
  exact hop.settled hs ▸ hp

end Wallet

namespace Desk
variable {α : Type} {d d' d'' : Desk (Wallet α) α}

/-- Every order has one record, and the wallet has what it may become. -/
structure Mirrors (d : Desk (Wallet α) α) : Prop where
  log : d.broker.LogOk
  distinct : (d.book.orders.map (·.id)).Nodup
  becomes : ∀ o ∈ d.book.orders, ∃ p ∈ d.broker.orders, o.Becomes p

/-- A record that the wallet does not have any more. -/
def Stale (d : Desk (Wallet α) α) (o : Order α) : Prop :=
  o ∈ d.book.orders ∧ o ∉ d.broker.orders

namespace Mirrors

theorem becomes_of_id (h : d.Mirrors) {o p : Order α} (ho : o ∈ d.book.orders)
    (hp : p ∈ d.broker.orders) (hid : o.id = p.id) : o.Becomes p := by
  obtain ⟨q, hq, hoq⟩ := h.becomes o ho
  rwa [h.log.ascending.eq_of_id hq hp (hid.symm.trans hoq.id.symm)]

theorem eq_of_id (h : d.Mirrors) {o p : Order α} (ho : o ∈ d.book.orders)
    (hp : p ∈ d.book.orders) (hid : o.id = p.id) : o = p :=
  List.inj_on_of_nodup_map h.distinct ho hp hid

/-- The wallet is replaced by a later one. -/
theorem elsewhere (h : d.Mirrors) {w : Wallet α} (hlog : w.LogOk) (hextends : d.broker.Extends w) :
    Mirrors { d with broker := w } where
  log := hlog
  distinct := h.distinct
  becomes := by
    intro o ho
    obtain ⟨p, hp, hop⟩ := h.becomes o ho
    obtain ⟨q, hq, hpq⟩ := hextends.mem hp
    exact ⟨q, hq, hop.trans hpq⟩

/-- New orders of the wallet have identities that no record has. -/
theorem distinct_append (h : d.Mirrors) {os : List (Order α)}
    (hasc : (d.broker.orders ++ os).Pairwise fun a b => a.id < b.id) :
    ((d.book.orders ++ os).map (·.id)).Nodup := by
  obtain ⟨-, hnew, hlater⟩ := List.pairwise_append.1 hasc
  rw [List.map_append]
  refine List.nodup_append'.2 ⟨h.distinct, List.pairwise_map.2 (hnew.imp Int.ne_of_lt), ?_⟩
  intro id hid hid'
  obtain ⟨o, ho, rfl⟩ := List.mem_map.1 hid
  obtain ⟨p, hp, hpo⟩ := List.mem_map.1 hid'
  obtain ⟨q, hq, hoq⟩ := h.becomes o ho
  exact absurd (hpo.trans hoq.id.symm) (Int.ne_of_gt (hlater q hq p hp))

end Mirrors

variable [Amount α]

/-- Another moment of a desk, with a later wallet, at which no other record is stale. -/
structure Advances (d d' : Desk (Wallet α) α) : Prop where
  mirrors : d'.Mirrors
  later : d.broker.Extends d'.broker
  counts : d.book.Counts → d'.book.Counts
  stale : ∀ o, d'.Stale o → d.Stale o

theorem Advances.trans (h : d.Advances d') (h' : d'.Advances d'') : d.Advances d'' :=
  ⟨h'.mirrors, h.later.trans h'.later, fun hc => h'.counts (h.counts hc),
    fun o ho => h.stale o (h'.stale o ho)⟩

namespace Mirrors

theorem refl (h : d.Mirrors) : d.Advances d := ⟨h, .refl _, id, fun _ => id⟩

theorem start (c : WalletConfig α) : (ofBroker (Wallet.start c)).Mirrors where
  log := Wallet.logOk_start c
  distinct := List.nodup_nil
  becomes := by simp [ofBroker, Book.empty]

/-! ### Reports -/

/-- A report of an order that the wallet has now takes the place of the record. -/
theorem update_orders (h : d.Mirrors) {q : Order α} (hq : q ∈ d.broker.orders) :
    (d.book.update q).orders = d.book.orders.map fun o => if o.id = q.id then q else o := by
  have hkeep : (∀ o ∈ d.book.orders, o.id = q.id → o = q) →
      d.book.orders = d.book.orders.map fun o => if o.id = q.id then q else o := by
    intro hall
    have hself : ∀ o ∈ d.book.orders, (if o.id = q.id then q else o) = o := by
      intro o ho
      split
      next hid => exact (hall o ho hid).symm
      next => rfl
    exact ((List.map_congr_left hself).trans (List.map_id' _)).symm
  rcases hf : d.book.orders.find? (·.id = q.id) with - | p
  · rw [Book.update_unknown hf]
    exact hkeep fun o ho hid => absurd hid (by simpa using List.find?_eq_none.1 hf o ho)
  have hp := List.mem_of_find?_eq_some hf
  have hpid : p.id = q.id := by simpa using List.find?_some hf
  by_cases hs : p.status = q.status
  · rw [Book.update_same hf hs]
    have hpq := (h.becomes_of_id hp hq hpid).eq_of_status hs
    exact hkeep fun o ho hid => (h.eq_of_id ho hp (hid.trans hpid.symm)).trans hpq
  · rw [Book.update_other hf hs]
    exact Book.replaceFirst_eq_map h.distinct

/-- After a report the record is the one of the wallet. -/
theorem stale_update (h : d.Mirrors) {q : Order α} (hq : q ∈ d.broker.orders) {o : Order α}
    (ho : Stale { d with book := d.book.update q } o) : d.Stale o ∧ o.id ≠ q.id := by
  obtain ⟨hmem, hnot⟩ := ho
  dsimp only at hmem hnot
  rw [h.update_orders hq] at hmem
  obtain ⟨p, hp, rfl⟩ := List.mem_map.1 hmem
  split at hnot
  next => exact absurd hq hnot
  next hid =>
    rw [if_neg hid]
    exact ⟨⟨hp, hnot⟩, hid⟩

theorem update (h : d.Mirrors) {q : Order α} (hq : q ∈ d.broker.orders) :
    d.Advances { d with book := d.book.update q } where
  mirrors := by
    refine ⟨h.log, ?_, fun o ho => ?_⟩
    · exact Book.map_id_update d.book q ▸ h.distinct
    · dsimp only at ho
      rw [h.update_orders hq] at ho
      obtain ⟨p, hp, rfl⟩ := List.mem_map.1 ho
      split
      next => exact ⟨q, hq, .refl q⟩
      next => exact h.becomes p hp
  later := .refl _
  counts := fun hc => hc.update fun p hp hid => h.becomes_of_id hp hq hid
  stale := fun o ho => (h.stale_update hq ho).1

/-- Several reports leave no record stale that they are about. -/
theorem updates (h : d.Mirrors) {qs : List (Order α)} (hqs : ∀ q ∈ qs, q ∈ d.broker.orders) :
    d.Advances { d with book := qs.foldl Book.update d.book } ∧
      ∀ q ∈ qs, ∀ o, Stale { d with book := qs.foldl Book.update d.book } o → o.id ≠ q.id := by
  induction qs generalizing d with
  | nil => exact ⟨h.refl, by simp⟩
  | cons r qs ih =>
    have hr := hqs r (List.mem_cons_self ..)
    have hfirst := h.update hr
    obtain ⟨hrest, hfresh⟩ := ih hfirst.mirrors fun q hq => hqs q (List.mem_cons_of_mem _ hq)
    refine ⟨hfirst.trans hrest, fun q hq o ho => ?_⟩
    rcases List.mem_cons.1 hq with rfl | hq
    · exact (h.stale_update hr (hrest.stale o ho)).2
    · exact hfresh q hq o ho

theorem order_eq (h : d.Mirrors) {q : Order α} (hq : q ∈ d.broker.orders) :
    (d.order q.pair q.id).2 = { d with book := d.book.update q } := by
  have hfound : Broker.order d.broker q.pair q.id = (.ok q, d.broker) := by
    simp only [Broker.order, Wallet.order]
    rw [h.log.ascending.find?_eq hq (by simp) (by simp +contextual)]
  unfold Desk.order
  rw [hfound]

theorem foldl_order_eq (h : d.Mirrors) {os : List (Order α)}
    (hos : ∀ o ∈ os, ∃ q ∈ d.broker.orders, o.Becomes q) :
    ∃ qs : List (Order α), (∀ q ∈ qs, q ∈ d.broker.orders) ∧ qs.map (·.id) = os.map (·.id) ∧
      os.foldl (fun d o => (d.order o.pair o.id).2) d =
        { d with book := qs.foldl Book.update d.book } := by
  induction os generalizing d with
  | nil => exact ⟨[], by simp, rfl, rfl⟩
  | cons o os ih =>
    obtain ⟨q, hq, hoq⟩ := hos o (List.mem_cons_self ..)
    obtain ⟨qs, hqs, hids, heq⟩ := ih (h.update hq).mirrors
      fun o ho => hos o (List.mem_cons_of_mem _ ho)
    refine ⟨q :: qs, ?_, by simp [hids, hoq.id], ?_⟩
    · intro r hr
      rcases List.mem_cons.1 hr with rfl | hr
      · exact hq
      · exact hqs r hr
    · rw [List.foldl_cons, ← hoq.pair, ← hoq.id, h.order_eq hq, heq]
      rfl

/-- A refresh is a report of every record that rests. -/
theorem refresh_eq (h : d.Mirrors) :
    ∃ qs : List (Order α), (∀ q ∈ qs, q ∈ d.broker.orders) ∧
      (∀ o ∈ d.book.orders, o.resting = true → ∃ q ∈ qs, q.id = o.id) ∧
      d.refresh = { d with book := qs.foldl Book.update d.book } := by
  have hresting : ∀ o ∈ d.book.orders.filter (·.resting), ∃ q ∈ d.broker.orders, o.Becomes q :=
    fun o ho => h.becomes o (List.mem_of_mem_filter ho)
  obtain ⟨qs, hqs, hids, heq⟩ := h.foldl_order_eq hresting
  refine ⟨qs, hqs, fun o ho hr => ?_, heq⟩
  have hmem : o.id ∈ qs.map (·.id) :=
    hids ▸ List.mem_map_of_mem (List.mem_filter.2 ⟨ho, hr⟩)
  exact List.mem_map.1 hmem

/-- What is stale has been resting, so a refresh leaves nothing stale. -/
theorem refresh (h : d.Mirrors) : d.Advances d.refresh ∧ ∀ o, ¬ d.refresh.Stale o := by
  obtain ⟨qs, hqs, hresting, heq⟩ := h.refresh_eq
  obtain ⟨hadvances, hfresh⟩ := h.updates hqs
  rw [heq]
  refine ⟨hadvances, fun o ho => ?_⟩
  obtain ⟨hmem, hnot⟩ := hadvances.stale o ho
  obtain ⟨p, hp, hop⟩ := h.becomes o hmem
  have hrests : o.resting = true := by
    rw [Order.resting_iff]
    by_contra hn
    exact hnot (hop.settled hn ▸ hp)
  obtain ⟨q, hq, hid⟩ := hresting o hmem hrests
  exact hfresh q hq o ho hid.symm

/-! ### What is asked of the desk -/

theorem order (h : d.Mirrors) (pair : String) (id : Int) : d.Advances (d.order pair id).2 := by
  unfold Desk.order
  simp only [Broker.order]
  cases ho : d.broker.order pair id with
  | error _ => exact h.refl
  | ok q => exact h.update (Wallet.mem_of_order_eq_ok ho)

theorem place (h : d.Mirrors) (t : Ticket α) : d.Advances (d.place t).2 := by
  obtain ⟨hlog, hextends⟩ := h.log.run [.place t]
  unfold Desk.place
  simp only [Wallet.run, List.foldl_cons, List.foldl_nil, Wallet.after, Broker.place]
    at hlog hextends ⊢
  cases hp : d.broker.place t with
  | error _ => exact h.refl
  | ok x =>
    simp only [hp] at hlog hextends ⊢
    have horders := (Wallet.step_of_place hp).2
    have hmem : ∀ o ∈ x.1, o ∈ x.2.orders := fun o ho =>
      horders ▸ List.mem_append_right _ ho
    refine ⟨⟨hlog, ?_, fun o ho => ?_⟩, hextends, fun hc => hc.records x.1, fun o ho => ?_⟩
    · dsimp only
      rw [Book.foldl_record_orders]
      exact h.distinct_append (horders ▸ hlog.ascending)
    · dsimp only at ho
      rw [Book.foldl_record_orders] at ho
      rcases List.mem_append.1 ho with ho | ho
      · exact (h.elsewhere hlog hextends).becomes o ho
      · exact ⟨o, hmem o ho, .refl o⟩
    · obtain ⟨ho, hnot⟩ := ho
      dsimp only at ho hnot
      rw [Book.foldl_record_orders] at ho
      rcases List.mem_append.1 ho with ho | ho
      · exact ⟨ho, fun hold => hnot (horders ▸ List.mem_append_left _ hold)⟩
      · exact absurd (hmem o ho) hnot

theorem cancel (h : d.Mirrors) (id : Int) :
    d.Advances (d.cancel id).2 ∧ ((d.cancel id).1 = .ok () → ∀ o, ¬ (d.cancel id).2.Stale o) := by
  obtain ⟨hlog, hextends⟩ := h.log.run [.cancel id]
  unfold Desk.cancel
  simp only [Wallet.run, List.foldl_cons, List.foldl_nil, Wallet.after, Broker.cancel]
    at hlog hextends ⊢
  cases hc : d.broker.cancel id with
  | error _ => exact ⟨h.refl, fun hok => by cases hok⟩
  | ok w =>
    simp only [hc] at hlog hextends ⊢
    obtain ⟨hadvances, hfresh⟩ := (h.elsewhere hlog hextends).refresh
    refine ⟨⟨hadvances.mirrors, hextends.trans hadvances.later, hadvances.counts,
      fun o ho => absurd ho (hfresh o)⟩, fun _ => hfresh⟩

/-- Nothing that is asked of a desk puts a record out of date. -/
theorem answers (h : d.Mirrors) (r : Request α) : d.Advances (Broker.answer d r).2 := by
  cases r with
  | place t => exact h.place t
  | cancel id => exact (h.cancel id).1
  | order pair id => exact h.order pair id
  | position pair => exact h.refl
  | account => exact h.refl

theorem plan {τ : Type} (h : d.Mirrors) (p : Plan α τ) : d.Advances (p.run d).2 := by
  induction p generalizing d with
  | done a => exact h.refl
  | ask r next ih =>
    have hanswer := h.answers r
    exact hanswer.trans (ih _ hanswer.mirrors)

end Mirrors

end Desk

end Candlewick
