import Candlewick.Proofs.Wallet.Held
import Candlewick.Proofs.Wallet.Reconciliation

/-! # What a withdrawal undoes

An accepted order that rests holds back what its reservation says, and as long as it rests nothing
else touches that reservation, whatever is placed, withdrawn or executed in the meantime
(`reservation_run`). No later order draws on it either (`grows_run`). So a withdrawal, by whichever
of the orders that were placed together, moves back what placing them moved, marks just them, and
changes nothing else (`Undoes`).

A withdrawal that finds no order, or one that rests no longer, is refused and changes nothing. -/

namespace Candlewick.Wallet

/-! ### What an order that rests keeps -/

section Resting
variable {α : Type} [Amount α] {w w' : Wallet α} {o : Order α} {e : Event α}

omit [Amount α] in
theorem owner_of_becomes {p : Order α} (h : o.Becomes p) : owner p = owner o := by
  unfold owner
  rw [h.group, h.id]

theorem reservation_release (w : Wallet α) {j k : Int} (h : k ≠ j) :
    (w.release j).reservations.get? k = w.reservations.get? k := by
  rw [release_reservations]
  split
  · rw [Table.get?_erase, if_neg h]
  · rfl

/-- What is held back for an order that rests before and after a step stays held back. -/
theorem Step.reservation_eq (h : Step e w w') (hlog : w.LogOk) (ho : o ∈ w.orders)
    (ho' : o ∈ w'.orders) (hn : o.status = .new) :
    w'.reservations.get? (owner o) = w.reservations.get? (owner o) := by
  have hnext : ∀ r : Reservation α,
      (w.reservations.set (w.lastId + 1) r).get? (owner o) = w.reservations.get? (owner o) :=
    fun r => by rw [Table.get?_set, if_neg (hlog.owner_ne_next ho)]
  cases h with
  | trade => simp [log]
  | rest => exact hnext _
  | link => exact hnext _
  | @withdraw _ p hp hr =>
    -- nothing that draws on what is given back is left at rest
    refine reservation_release w fun heq => ?_
    obtain ⟨q, hq, hqo⟩ := List.mem_map.1 ho'
    obtain rfl := hlog.ascending.eq_of_id hq ho (hqo ▸ (becomes_withdrawn ..).id)
    refine status_withdrawn_ne ?_ (hqo.symm ▸ hn)
    simpa using (hlog.owner_eq_iff hp ho).1 heq
  | note => rfl
  | @fill _ _ p _ _ hp hr _ _ hs =>
    rw [reservations_fill hs]
    refine reservation_release w fun heq => ?_
    rw [orders_fill hs] at ho'
    obtain ⟨q, hq, hqo⟩ := List.mem_map.1 ho'
    obtain rfl := hlog.ascending.eq_of_id hq ho (hqo ▸ id_filled ..)
    exact status_filled_ne ((hlog.owner_eq_iff hp ho).1 heq) (hqo.symm ▸ hn)
  | mark => rfl

theorem reservation_run (hw : w.LogOk) (ho : o ∈ w.orders) (hn : o.status = .new)
    {es : List (Event α)} (ho' : o ∈ (w.run es).orders) :
    (w.run es).reservations.get? (owner o) = w.reservations.get? (owner o) := by
  refine (run_induction (P := fun _ => True)
    (I := fun v => v.LogOk ∧ w.Extends v ∧
      (o ∈ v.orders → v.reservations.get? (owner o) = w.reservations.get? (owner o)))
    (fun _ h => h.1.ascending) ?_ (fun _ _ => trivial) ⟨hw, .refl w, fun _ => rfl⟩).2.2 ho'
  rintro e v v' - hs ⟨hv, hext, hkept⟩
  have hv' := hs.logOk hv
  refine ⟨hv', hext.trans (hs.extends hv), fun hmem => ?_⟩
  -- an order that rests after the step rested before it
  obtain ⟨i, hi⟩ := List.getElem?_of_mem ho
  obtain ⟨p, hp, hop⟩ := hext i o hi
  obtain ⟨q, hq, hpq⟩ := hs.extends hv i p hp
  obtain rfl := hv'.ascending.eq_of_id (List.mem_of_getElem? hq) hmem (hop.trans hpq).id.symm
  obtain rfl := hpq.kept hn
  have hmem := List.mem_of_getElem? hp
  exact (hs.reservation_eq hv hmem (List.mem_of_getElem? hq) hn).trans (hkept hmem)

omit [Amount α] in
/-- A group rests as a whole. -/
theorem LogOk.status_of_linked (hw : w.LogOk) (ho : o ∈ w.orders) (hn : o.status = .new)
    {p : Order α} (hp : p ∈ w.orders) (hl : linked o p = true) : p.status = .new := by
  obtain ⟨g, hog, hpg⟩ := linked_iff.1 hl
  obtain ⟨a, b, hab, hst⟩ := hw.legs o ho g hog
  have hmem : p = a ∨ p = b := by simpa [hab] using LogOk.mem_legsOf hp hpg
  rcases hw.legs_cases ho hn hab hst with ⟨-, -, ha, hb, -⟩ | ⟨hla, hlb, -⟩
  · rcases hmem with rfl | rfl
    · exact ha
    · exact hb
  · rcases hmem with rfl | rfl
    · rw [hla] at hl; cases hl
    · rw [hlb] at hl; cases hl

/-- An order of a later log is one of the log before, or draws on what was not given out by then. -/
structure Grows (w w' : Wallet α) : Prop where
  lastId_le : w.lastId ≤ w'.lastId
  origin : ∀ q ∈ w'.orders, (∃ p ∈ w.orders, p.Becomes q) ∨ w.lastId < owner q

omit [Amount α] in
theorem Grows.refl (w : Wallet α) : w.Grows w := ⟨le_rfl, fun q hq => .inl ⟨q, hq, .refl q⟩⟩

omit [Amount α] in
theorem Grows.trans {w'' : Wallet α} (h : w.Grows w') (h' : w'.Grows w'') : w.Grows w'' := by
  refine ⟨h.lastId_le.trans h'.lastId_le, fun q hq => ?_⟩
  rcases h'.origin q hq with ⟨p, hp, hpq⟩ | hlt
  · rw [owner_of_becomes hpq]
    exact (h.origin p hp).imp_left fun ⟨o, ho, hop⟩ => ⟨o, ho, hop.trans hpq⟩
  · exact .inr (h.lastId_le.trans_lt hlt)

omit [Amount α] in
theorem Grows.of_append {os : List (Order α)} (hid : w.lastId ≤ w'.lastId)
    (horders : w'.orders = w.orders ++ os) (hos : ∀ q ∈ os, w.lastId < owner q) :
    w.Grows w' := by
  refine ⟨hid, fun q hq => ?_⟩
  rw [horders] at hq
  exact (List.mem_append.1 hq).imp (fun hq => ⟨q, hq, .refl q⟩) (hos q)

theorem Step.grows (h : Step e w w') (hlog : w.LogOk) : w.Grows w' := by
  have hnext : w.lastId < w.lastId + 1 := Int.lt_succ w.lastId
  cases e with
  | place t =>
    cases h with
    | trade =>
      exact .of_append hnext.le (congrArg (· ++ [_]) (execute_orders ..))
        (by simp [owner, newOrder])
    | rest => exact .of_append hnext.le rfl (by simp [owner, newOrder])
    | link =>
      refine .of_append (by simp only [log]; omega) rfl fun q hq => ?_
      rcases List.mem_pair.1 hq with rfl | rfl <;> exact hnext
  | cancel id =>
    refine ⟨?_, fun q hq => .inl (h.exists_becomes hlog.ascending (fun _ he => by cases he) hq)⟩
    cases h with
    | withdraw => simp
  | candle c =>
    refine ⟨?_, fun q hq => .inl (h.exists_becomes hlog.ascending (fun _ he => by cases he) hq)⟩
    cases h with
    | note => exact le_rfl
    | fill ho hr hn ht hs => simp [fill_eq hs]
    | mark => exact le_rfl

theorem grows_run (hw : w.LogOk) (es : List (Event α)) : w.Grows (w.run es) :=
  (run_induction (P := fun _ => True) (I := fun v => v.LogOk ∧ w.Grows v)
    (fun _ h => h.1.ascending) (fun _ _ _ _ hs h => ⟨hs.logOk h.1, h.2.trans (hs.grows h.1)⟩)
    (fun _ _ => trivial) ⟨hw, .refl w⟩).2

/-! ### Withdrawals -/

/-- An order that rests can be withdrawn. -/
theorem cancel_of_resting (hasc : w.Ascending) (ho : o ∈ w.orders) (hn : o.status = .new) :
    w.cancel o.id = .ok { w.release (owner o) with
      orders := w.orders.map
        (withdrawn (fun p => p.id = o.id || linked o p) (w.clock o.pair)) } := by
  have hfind : w.orders.find? (·.id = o.id) = some o :=
    hasc.find?_eq ho (by simp) fun q hq => by simpa using hq
  unfold cancel
  rw [hfind]
  dsimp only
  rw [if_pos (Order.resting_iff.2 hn), release_orders]
  simp only [clock, release_last]

theorem cancel_of_not_mem {id : Int} (h : ∀ o ∈ w.orders, o.id ≠ id) :
    w.cancel id = .error (.orderNotFound id) := by
  have hfind : w.orders.find? (·.id = id) = none := by simpa [List.find?_eq_none] using h
  unfold cancel
  rw [hfind]

theorem cancel_of_not_resting (hasc : w.Ascending) (ho : o ∈ w.orders) (hn : o.status ≠ .new) :
    w.cancel o.id = .error (.notResting o.id o.status) := by
  have hfind : w.orders.find? (·.id = o.id) = some o :=
    hasc.find?_eq ho (by simp) fun q hq => by simpa using hq
  unfold cancel
  rw [hfind]
  exact if_neg (mt Order.resting_iff.1 hn)

theorem after_cancel_of_error {id : Int} {refusal : BrokerError α}
    (h : w.cancel id = .error refusal) : w.after (.cancel id) = w := by
  simp only [after, Broker.cancel, h]

/-- What is withdrawn rests no longer, so it is not withdrawn again. -/
theorem after_cancel_twice (hlog : w.LogOk) (id : Int) :
    (w.after (.cancel id)).after (.cancel id) = w.after (.cancel id) := by
  cases hc : w.cancel id with
  | error refusal => rw [after_cancel_of_error hc, after_cancel_of_error hc]
  | ok v =>
    obtain ⟨o, ho, rfl, hr, hv⟩ := cancel_eq_ok hc
    have hafter : w.after (.cancel o.id) = v := by simp only [after, Broker.cancel, hc]
    have hv' : v.LogOk := hv ▸ (Step.withdraw ho hr).logOk hlog
    rw [hafter]
    set p := withdrawn (fun p => p.id = o.id || linked o p) ((w.release (owner o)).clock o.pair) o
    have hmem : p ∈ v.orders := by
      rw [hv]
      exact List.mem_map_of_mem ho
    have hn : p.status ≠ .new := status_withdrawn_ne (by simp)
    have hid : p.id = o.id := (becomes_withdrawn ..).id
    exact after_cancel_of_error (hid ▸ cancel_of_not_resting hv'.ascending hmem hn)

end Resting

/-! ### What was placed together -/

/-- From `now` to `after`, what placing the orders `os` had moved from `before` to `placed` is moved
back, just these orders are withdrawn, and nothing else changes. -/
structure Undoes (before placed : Wallet Rat) (os : List (Order Rat)) (now after : Wallet Rat) :
    Prop where
  moved : ∀ a, ∃ x,
    placed.holding a = ⟨(before.holding a).free - x, (before.holding a).lock + x⟩ ∧
    after.holding a = ⟨(now.holding a).free + x, (now.holding a).lock - x⟩
  total : ∀ a, (after.holding a).total = (now.holding a).total
  reserved : ∀ k, (∀ o ∈ os, owner o ≠ k) →
    after.reservations.get? k = now.reservations.get? k
  listed : ∀ o ∈ os, o ∈ now.orders
  orders : after.orders = now.orders.map fun p =>
    if p ∈ os then { p with status := .canceled, updated := now.clock p.pair } else p
  frame : after = { now with
    holdings := after.holdings, reservations := after.reservations, orders := after.orders }

section Together
variable {w w' : Wallet Rat} {r : Reservation Rat} {os : List (Order Rat)} {o : Order Rat}

/-- Accepted orders that rest, and what is held back for them. -/
structure Rests (w w' : Wallet Rat) (r : Reservation Rat) (os : List (Order Rat)) : Prop where
  reserved : w'.reservations.get? (w.lastId + 1) = some r
  holding : ∀ a, w'.holding a =
    ⟨(w.holding a).free - r.heldIn a, (w.holding a).lock + r.heldIn a⟩
  orders : w'.orders = w.orders ++ os
  status : ∀ o ∈ os, o.status = .new
  owner : ∀ o ∈ os, Wallet.owner o = w.lastId + 1
  pair : ∀ o ∈ os, ∀ p ∈ os, p.pair = o.pair

theorem Step.exists_split {t : Ticket Rat} (h : Step (.place t) w w') :
    ∃ pair, w.split? t.pair = some pair := by
  cases h with
  | trade _ hs => exact ⟨_, hs⟩
  | rest _ _ _ hs => exact ⟨_, hs⟩
  | link _ _ _ hs => exact ⟨_, hs⟩

theorem rests_of_place {t : Ticket Rat} (h : w.place t = .ok (os, w')) (ho : o ∈ os)
    (hn : o.status = .new) : ∃ r, w.Rests w' r os := by
  obtain ⟨hstep, horders⟩ := step_of_place h
  dsimp only at hstep horders
  obtain ⟨pair, hs⟩ := hstep.exists_split
  rcases hstep.placed hs with ⟨_, _, _, -, -, -, rfl⟩ | ⟨r, id, os', -, rfl, hall⟩
  · obtain rfl := eq_of_log (execute_orders ..) rfl horders
    rw [List.mem_singleton.1 ho] at hn
    cases hn
  · obtain rfl := eq_of_log rfl rfl horders
    refine ⟨r, (Table.get?_set ..).trans (if_pos rfl), fun a => ?_, rfl, fun o ho => (hall o ho).1,
      fun o ho => (hall o ho).2.1, fun o ho p hp => ?_⟩
    · rw [holding_log, ← free_reserve, ← lock_reserve]
    · rw [(hall o ho).2.2.1, (hall p hp).2.2.1]

namespace Rests

/-- What rests with an order that was placed is what was placed with it. -/
theorem mem_of_owner (h : w.Rests w' r os) (hlog : w.LogOk) (hlog' : w'.LogOk)
    {fs : List (Event Rat)} {q : Order Rat} (hq : q ∈ (w'.run fs).orders) (hn : q.status = .new)
    (howner : Wallet.owner q = w.lastId + 1) (ho : o ∈ os) : q ∈ os := by
  have hissued : w.lastId + 1 ≤ w'.lastId := by
    rw [← h.owner o ho]
    exact hlog'.owner_le (by rw [h.orders]; exact List.mem_append_right _ ho)
  rcases (grows_run hlog' fs).origin q hq with ⟨p, hp, hpq⟩ | hlt
  · obtain rfl := hpq.kept hn
    rw [h.orders] at hp
    exact (List.mem_append.1 hp).resolve_left fun hp => hlog.owner_ne_next hp howner
  · omega

/-- Orders that were placed together rest together. -/
theorem mem_run (h : w.Rests w' r os) (hlog' : w'.LogOk) {fs : List (Event Rat)} (ho : o ∈ os)
    (hnow : o ∈ (w'.run fs).orders) {p : Order Rat} (hp : p ∈ os) : p ∈ (w'.run fs).orders := by
  obtain ⟨hlog, hext⟩ := hlog'.run fs
  obtain ⟨i, hi⟩ := List.getElem?_of_mem (h.orders ▸ List.mem_append_right w.orders hp)
  obtain ⟨q, hq, hpq⟩ := hext i p hi
  have hq := List.mem_of_getElem? hq
  suffices hn : q.status = .new from hpq.kept hn ▸ hq
  have howner : Wallet.owner q = Wallet.owner o := by
    rw [owner_of_becomes hpq, h.owner p hp, h.owner o ho]
  rcases (hlog.owner_eq_iff hnow hq).1 howner with hid | hl
  · rw [hlog.ascending.eq_of_id hnow hq hid]
    exact h.status o ho
  · exact hlog.status_of_linked hnow (h.status o ho) hq hl

/-- The withdrawal of an order marks what was placed with it, and nothing else. -/
theorem withdrawn_eq (h : w.Rests w' r os) (hlog : w.LogOk) (hlog' : w'.LogOk)
    {fs : List (Event Rat)} (ho : o ∈ os) (hnow : o ∈ (w'.run fs).orders) {q : Order Rat}
    (hq : q ∈ (w'.run fs).orders) :
    withdrawn (fun p => p.id = o.id || linked o p) ((w'.run fs).clock o.pair) q =
      if q ∈ os then { q with status := .canceled, updated := (w'.run fs).clock q.pair } else q := by
  have hsame := (hlog'.run fs).1.owner_eq_iff hnow hq
  by_cases hmem : q ∈ os
  · have hqo := hsame.1 ((h.owner q hmem).trans (h.owner o ho).symm)
    rw [if_pos hmem, withdrawn, if_pos, h.pair o ho q hmem]
    simpa [Order.resting_iff.2 (h.status q hmem)] using hqo
  · rw [if_neg hmem, withdrawn, if_neg]
    intro hboth
    obtain ⟨hqr, hqo⟩ := Bool.and_eq_true_iff.1 hboth
    have howner := hsame.2 (by simpa using hqo)
    exact hmem (h.mem_of_owner hlog hlog' hq (Order.resting_iff.1 hqr)
      (howner.trans (h.owner o ho)) ho)

/-- As long as an order rests, its withdrawal undoes what placed it. -/
theorem undoes (h : w.Rests w' r os) (hlog : w.LogOk) (hlog' : w'.LogOk) {fs : List (Event Rat)}
    (hlock : (w'.run fs).LockOk) (ho : o ∈ os) (hnow : o ∈ (w'.run fs).orders) :
    ∃ v, (w'.run fs).cancel o.id = .ok v ∧ Undoes w w' os (w'.run fs) v := by
  have hn := h.status o ho
  refine ⟨_, cancel_of_resting (hlog'.run fs).1.ascending hnow hn, ?_⟩
  have hheld : (w'.run fs).reservations.get? (Wallet.owner o) = some r := by
    rw [reservation_run hlog' (h.orders ▸ List.mem_append_right _ ho) hn hnow, h.owner o ho]
    exact h.reserved
  refine ⟨fun a => ⟨r.heldIn a, h.holding a, ?_⟩, hlock.total_release _,
    fun k hk => reservation_release _ (hk o ho).symm, fun p hp => h.mem_run hlog' ho hnow hp,
    List.map_congr_left fun q hq => h.withdrawn_eq hlog hlog' ho hnow hq, ?_⟩
  · show ((w'.run fs).release (Wallet.owner o)).holding a = _
    rw [← free_release _ hheld, ← hlock.lock_release hheld]
  · rw [release_frame]

end Rests
end Together

/-- Whatever a wallet has been through and whatever happens later, the withdrawal of an order that
still rests undoes what placed it. A withdrawal of anything else is refused, also one of a group,
and a refusal changes nothing. So a withdrawal that is repeated changes nothing more. -/
theorem cancel_of_run (c : WalletConfig Rat) (es : List (Event Rat)) :
    let w := (start c).run es
    (∀ t os w', w.place t = .ok (os, w') → ∀ fs, ∀ o ∈ os,
      (∃ p ∈ (w'.run fs).orders, p.id = o.id ∧ p.status = .new) →
      ∃ v, (w'.run fs).cancel o.id = .ok v ∧ Undoes w w' os (w'.run fs) v) ∧
    (∀ id, (∀ o ∈ w.orders, o.id ≠ id) → w.cancel id = .error (.orderNotFound id)) ∧
    (∀ o ∈ w.orders, ∀ g, o.group = some g → w.cancel g = .error (.orderNotFound g)) ∧
    (∀ o ∈ w.orders, o.status ≠ .new → w.cancel o.id = .error (.notResting o.id o.status)) ∧
    (∀ id refusal, w.cancel id = .error refusal → w.after (.cancel id) = w) ∧
    ∀ id, (w.after (.cancel id)).after (.cancel id) = w.after (.cancel id) := by
  intro w
  obtain ⟨hlog, hlock⟩ : w.LogOk ∧ w.LockOk := lockOk_of_run c es
  refine ⟨?_, fun id h => cancel_of_not_mem h, fun o ho g hg => ?_,
    fun o ho hn => cancel_of_not_resting hlog.ascending ho hn,
    fun id refusal h => after_cancel_of_error h, fun id => after_cancel_twice hlog id⟩
  · rintro t os w' h fs o ho ⟨p, hp, hid, hn⟩
    have hrun : w'.run fs = (start c).run (es ++ .place t :: fs) := by
      rw [run_append]
      show _ = (w.after (.place t)).run fs
      simp only [after, Broker.place, h]
    obtain ⟨hstep, horders⟩ := step_of_place h
    dsimp only at hstep horders
    have hlog' := hstep.logOk hlog
    obtain rfl := (hlog'.run fs).1.eq_of_extends (hlog'.run fs).2
      (horders ▸ List.mem_append_right _ ho) hp hid hn
    obtain ⟨r, hrests⟩ := rests_of_place h ho hn
    exact hrests.undoes hlog hlog' (hrun ▸ (lockOk_of_run c _).2) ho hp
  · exact cancel_of_not_mem fun p hp hid => hlog.apart o ho p hp (hid ▸ hg)

/-- The coin is offered at 120 and, should the market fall to it, at 90. While neither is reached,
half a coin is bid for and the market moves, and then the sale at the stop is withdrawn. -/
theorem cancel_of_run_stopLeg :
    let w := (start oneCoin).run [.candle (bar 100 100)]
    let fs : List (Event Rat) := [.place (.limit .buy "BTCUSDT" (1 / 2) 80), .candle (bar 110 110)]
    ∃ os w' v, w.place (.oco .sell "BTCUSDT" 1 120 90 89) = .ok (os, w') ∧
      (w'.holding "BTC").lock = 1 ∧ (w'.run fs).cancel 3 = .ok v ∧
      Undoes w w' os (w'.run fs) v := by
  intro w fs
  obtain ⟨⟨os, w'⟩, h, hlock, o, ho, rests, hid⟩ := exists_ok_of_any
    (x := w.place (.oco .sell "BTCUSDT" 1 120 90 89))
    (p := fun x => (x.2.holding "BTC").lock = 1 ∧ ∃ o ∈ x.1,
      (∃ p ∈ (x.2.run fs).orders, p.id = o.id ∧ p.status = .new) ∧ o.id = 3) (by decide +kernel)
  obtain ⟨v, hv, hundoes⟩ :=
    (cancel_of_run oneCoin [.candle (bar 100 100)]).1 _ os w' h fs o ho rests
  exact ⟨os, w', v, h, hlock, hid ▸ hv, hundoes⟩

end Candlewick.Wallet
