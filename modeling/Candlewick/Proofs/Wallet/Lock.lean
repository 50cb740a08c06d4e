import Candlewick.Proofs.Wallet.Log

/-! # Lock accounting

Whatever happens to a wallet, and also in the middle of a candle, what is locked of an asset is what
the reservations hold back of it, the reservations are those of the resting orders, and none of them
holds back less than nothing (`LockOk`). So what is given back is always there, and the bound at
nothing in `Holding.release` changes no value (`LockOk.release_eq_giveBack`). -/

namespace Candlewick

/-- Moves a quantity from locked to free, however much is locked. -/
def Holding.giveBack (h : Holding Rat) (q : Rat) : Holding Rat := ⟨h.free + q, h.lock - q⟩

theorem Holding.release_eq_giveBack {h : Holding Rat} {q : Rat} (hq : q ≤ h.lock) :
    h.release q = h.giveBack q := by
  simp only [Holding.release, Holding.giveBack, Amount.max_rat, Amount.zero_rat]
  rw [max_eq_left (sub_nonneg.2 hq)]

namespace Wallet

/-- Gives back what is held back for an owner, as `release` does but without its bound. -/
def giveBack (w : Wallet Rat) (owner : Int) : Wallet Rat :=
  match w.reservations.get? owner with
  | none => w
  | some r =>
    let w := { w with reservations := w.reservations.erase owner }
    let w := w.updateHolding r.pair.asset (·.giveBack r.assetQuantity)
    w.updateHolding r.pair.quote (·.giveBack r.quoteQuantity)

/-- What is locked is what the reservations of the resting orders hold back. -/
structure LockOk (w : Wallet Rat) : Prop where
  lock : ∀ a, (w.holding a).lock = w.reservations.sumOf (·.heldIn a)
  keys : ∀ k, k ∈ w.reservations.keys ↔ ∃ o ∈ w.orders, o.status = .new ∧ owner o = k
  nonneg : ∀ k r, w.reservations.get? k = some r → 0 ≤ r.assetQuantity ∧ 0 ≤ r.quoteQuantity

theorem heldIn_nonneg {r : Reservation Rat} (h : 0 ≤ r.assetQuantity ∧ 0 ≤ r.quoteQuantity)
    (a : String) : 0 ≤ r.heldIn a := by
  unfold Reservation.heldIn
  exact add_nonneg (by split_ifs <;> simp [h.1]) (by split_ifs <;> simp [h.2])

namespace LockOk
variable {w w' : Wallet Rat}

theorem heldIn_nonneg (h : w.LockOk) (a : String) :
    ∀ k r, w.reservations.get? k = some r → 0 ≤ r.heldIn a :=
  fun k r hr => Wallet.heldIn_nonneg (h.nonneg k r hr) a

theorem lock_nonneg (h : w.LockOk) (a : String) : 0 ≤ (w.holding a).lock := by
  rw [h.lock a]
  exact Table.sumOf_nonneg (h.heldIn_nonneg a)

theorem lock_of_idle (h : w.LockOk) (hidle : ∀ o ∈ w.orders, o.resting = false) (a : String) :
    (w.holding a).lock = 0 := by
  have hkeys : w.reservations.keys = [] := List.eq_nil_iff_forall_not_mem.2 fun k hk => by
    obtain ⟨o, ho, hn, -⟩ := (h.keys k).1 hk
    exact absurd (Order.resting_iff.2 hn) (Bool.eq_false_iff.1 (hidle o ho))
  have hentries : w.reservations.entries = [] := List.map_eq_nil_iff.1 hkeys
  rw [h.lock a]
  simp [Table.sumOf, Table.values, hentries]

theorem heldIn_le_lock (h : w.LockOk) {k : Int} {r : Reservation Rat}
    (hr : w.reservations.get? k = some r) (a : String) : r.heldIn a ≤ (w.holding a).lock := by
  rw [h.lock a]
  exact Table.le_sumOf (h.heldIn_nonneg a) hr

end LockOk

theorem updateHolding_congr {w : Wallet Rat} {a : String} {f g : Holding Rat → Holding Rat}
    (h : f (w.holding a) = g (w.holding a)) : w.updateHolding a f = w.updateHolding a g := by
  unfold updateHolding Table.update
  exact congrArg (fun x => { w with holdings := w.holdings.set a x }) h

/-- The bound at nothing changes no value where the reservations are locked. -/
theorem LockOk.release_eq_giveBack {w : Wallet Rat} (h : w.LockOk) (k : Int) :
    w.release k = w.giveBack k := by
  unfold release giveBack
  cases hr : w.reservations.get? k with
  | none => rfl
  | some r =>
    dsimp only
    set v : Wallet Rat := { w with reservations := w.reservations.erase k } with hv
    have hasset : r.assetQuantity ≤ (v.holding r.pair.asset).lock := by
      have hle := h.heldIn_le_lock hr r.pair.asset
      unfold Reservation.heldIn at hle
      rw [if_pos rfl] at hle
      refine le_trans (le_add_of_nonneg_right ?_) hle
      split_ifs <;> simp [(h.nonneg k r hr).2]
    have hfirst : v.updateHolding r.pair.asset (·.release r.assetQuantity) =
        v.updateHolding r.pair.asset (·.giveBack r.assetQuantity) :=
      updateHolding_congr (Holding.release_eq_giveBack hasset)
    rw [hfirst]
    set u := v.updateHolding r.pair.asset (·.giveBack r.assetQuantity) with hu
    -- The two sides may be one asset, which then has given the first part back already.
    have hquote : r.quoteQuantity ≤ (u.holding r.pair.quote).lock := by
      have hle := h.heldIn_le_lock hr r.pair.quote
      unfold Reservation.heldIn at hle
      rw [if_pos rfl] at hle
      have hlock := lock_updateHolding v (f := (·.giveBack r.assetQuantity))
        (x := -r.assetQuantity) (fun _ => sub_eq_add_neg ..) r.pair.asset r.pair.quote
      rw [hu, hlock]
      show _ ≤ (w.holding r.pair.quote).lock + _
      split_ifs at hle ⊢ <;> linarith
    exact updateHolding_congr (Holding.release_eq_giveBack hquote)

/-! ### Owners -/

section Owners
variable {α : Type} {w : Wallet α} {o p : Order α}

theorem LogOk.owner_le (h : w.LogOk) (ho : o ∈ w.orders) : owner o ≤ w.lastId := by
  unfold owner
  cases hg : o.group with
  | none => exact h.issued o ho
  | some g => exact h.groupIssued o ho g hg

/-- The next identity owns nothing yet. -/
theorem LogOk.owner_ne_next (h : w.LogOk) (ho : o ∈ w.orders) : owner o ≠ w.lastId + 1 := by
  have hle := h.owner_le ho
  omega

/-- Two orders draw on one reservation only if they are one order or linked: no order has the
identity of a group. -/
theorem LogOk.owner_eq_iff (h : w.LogOk) (ho : o ∈ w.orders) (hp : p ∈ w.orders) :
    owner p = owner o ↔ p.id = o.id ∨ linked o p = true := by
  constructor
  · intro heq
    unfold owner at heq
    cases hog : o.group with
    | none =>
      cases hpg : p.group with
      | none => exact .inl (by simpa [hog, hpg] using heq)
      | some g =>
        have hg : g = o.id := by simpa [hog, hpg] using heq
        exact absurd (hg ▸ hpg) (h.apart p hp o ho)
    | some g =>
      cases hpg : p.group with
      | none =>
        have hg : p.id = g := by simpa [hog, hpg] using heq
        exact absurd (hg ▸ hog) (h.apart o ho p hp)
      | some g' =>
        have hg : g' = g := by simpa [hog, hpg] using heq
        exact .inr (linked_iff.2 ⟨g, hog, hg ▸ hpg⟩)
  · rintro (hid | hl)
    · rw [h.ascending.eq_of_id ho hp hid]
    · obtain ⟨g, hog, hpg⟩ := linked_iff.1 hl
      simp [owner, hog, hpg]

theorem status_withdrawn_ne {q : Order α → Bool} {time : Moment} (h : q o = true) :
    (withdrawn q time o).status ≠ .new := by
  by_cases hn : o.status = .new
  · simp [status_withdrawn hn h]
  · rwa [(becomes_withdrawn q time o).settled hn]

theorem status_filled_ne {price : α} {time : Instant} (h : p.id = o.id ∨ linked o p = true) :
    (filled o price time p).status ≠ .new := by
  unfold filled
  split
  next => simp
  next hid => exact status_withdrawn_ne (h.resolve_left hid)

end Owners

/-! ### What keeps the locks accounted for -/

namespace LockOk
variable {w w' : Wallet Rat}

theorem lock_release (h : w.LockOk) {k : Int} {r : Reservation Rat}
    (hr : w.reservations.get? k = some r) (a : String) :
    ((w.release k).holding a).lock = (w.holding a).lock - r.heldIn a := by
  have hf : ∀ (q : Rat) (x : Holding Rat), (x.giveBack q).lock = x.lock + -q :=
    fun q x => sub_eq_add_neg ..
  rw [h.release_eq_giveBack]
  unfold giveBack
  rw [hr]
  dsimp only
  rw [lock_updateHolding _ (hf _), lock_updateHolding _ (hf _)]
  show (w.holding a).lock + _ + _ = _
  unfold Reservation.heldIn
  split_ifs <;> ring

theorem free_le_release (h : w.LockOk) (k : Int) (a : String) :
    (w.holding a).free ≤ ((w.release k).holding a).free := by
  cases hr : w.reservations.get? k with
  | none => rw [release_of_get?_none hr]
  | some r =>
    rw [free_release w hr]
    exact le_add_of_nonneg_right (h.heldIn_nonneg a k r hr)

theorem reserved (h : w.LockOk) {o : Order Rat} (ho : o ∈ w.orders) (hn : o.status = .new) :
    ∃ r, w.reservations.get? (owner o) = some r :=
  Table.mem_keys_iff.1 ((h.keys _).2 ⟨o, ho, hn, rfl⟩)

theorem of_eq (h : w.LockOk) (hlock : ∀ a, (w'.holding a).lock = (w.holding a).lock)
    (hres : w'.reservations = w.reservations)
    (hrest : w'.orders.filter (·.status = .new) = w.orders.filter (·.status = .new)) :
    w'.LockOk := by
  have hmem : ∀ o, (o ∈ w'.orders ∧ o.status = .new) ↔ (o ∈ w.orders ∧ o.status = .new) := by
    intro o
    simpa using iff_of_eq (congrArg (o ∈ ·) hrest)
  refine ⟨fun a => ?_, fun k => ?_, fun k r hr => ?_⟩
  · rw [hlock, hres]
    exact h.lock a
  · rw [hres, h.keys k]
    simp only [← and_assoc, hmem]
  · rw [hres] at hr
    exact h.nonneg k r hr

theorem reserve (h : w.LockOk) {k : Int} {r : Reservation Rat} {id : Int} {os : List (Order Rat)}
    (hk : k ∉ w.reservations.keys) (hr : 0 ≤ r.assetQuantity ∧ 0 ≤ r.quoteQuantity)
    (hne : os ≠ []) (hos : ∀ o ∈ os, o.status = .new ∧ owner o = k) :
    ((w.reserve k r).log id os).LockOk := by
  have hres : ((w.reserve k r).log id os).reservations = w.reservations.set k r := rfl
  refine ⟨fun a => ?_, fun j => ?_, fun j x hx => ?_⟩
  · rw [hres, Table.sumOf_set_new r _ hk, ← h.lock a]
    exact lock_reserve w k r a
  · rw [hres, Table.mem_keys_set, h.keys j]
    show _ ↔ ∃ o ∈ w.orders ++ os, _
    constructor
    · rintro (rfl | ⟨o, ho, hj⟩)
      · obtain ⟨o, ho⟩ := List.exists_mem_of_ne_nil os hne
        exact ⟨o, List.mem_append_right _ ho, hos o ho⟩
      · exact ⟨o, List.mem_append_left _ ho, hj⟩
    · rintro ⟨o, ho, hj⟩
      rcases List.mem_append.1 ho with ho | ho
      · exact .inr ⟨o, ho, hj⟩
      · exact .inl (hj.2.symm.trans (hos o ho).2)
  · rw [hres, Table.get?_set] at hx
    split at hx
    · cases hx
      exact hr
    · exact h.nonneg j x hx

/-- What a resting order holds back is given back once nothing that draws on it rests. -/
theorem settle (h : w.LockOk) {o : Order Rat} {f : Order Rat → Order Rat} (ho : o ∈ w.orders)
    (hr : o.resting = true)
    (hlock : ∀ a, (w'.holding a).lock = ((w.release (owner o)).holding a).lock)
    (hres : w'.reservations = (w.release (owner o)).reservations)
    (horders : w'.orders = w.orders.map f)
    (hdone : ∀ p ∈ w.orders, owner p = owner o → (f p).status ≠ .new)
    (hkept : ∀ p ∈ w.orders, owner p ≠ owner o → f p = p) : w'.LockOk := by
  obtain ⟨r, hget⟩ := h.reserved ho (Order.resting_iff.1 hr)
  have hres : w'.reservations = w.reservations.erase (owner o) := by
    rw [hres, release_reservations, if_pos (by simp [Table.contains, hget])]
  refine ⟨fun a => ?_, fun k => ?_, fun k x hx => ?_⟩
  · have hsum := Table.sumOf_erase (·.heldIn a) hget
    rw [hlock, h.lock_release hget, h.lock a, hres, ← hsum, add_sub_cancel_right]
  · rw [hres, Table.mem_keys_erase, h.keys k, horders]
    constructor
    · rintro ⟨hk, p, hp, hn, rfl⟩
      have hfp := hkept p hp hk
      exact ⟨p, List.mem_map.2 ⟨p, hp, hfp⟩, hn, rfl⟩
    · rintro ⟨q, hq, hn, rfl⟩
      obtain ⟨p, hp, rfl⟩ := List.mem_map.1 hq
      have hk : owner p ≠ owner o := fun heq => hdone p hp heq hn
      rw [hkept p hp hk] at hn ⊢
      exact ⟨hk, p, hp, hn, rfl⟩
  · rw [hres, Table.get?_erase] at hx
    split at hx
    · cases hx
    · exact h.nonneg k x hx

end LockOk

theorem Step.lockOk {e : Event Rat} {w w' : Wallet Rat} (h : Step e w w') (hlog : w.LogOk)
    (hw : w.LockOk) : w'.LockOk := by
  have hnew : w.lastId + 1 ∉ w.reservations.keys := fun hk => by
    obtain ⟨o, ho, -, hk⟩ := (hw.keys _).1 hk
    exact hlog.owner_ne_next ho hk
  cases h with
  | trade =>
    refine hw.of_eq (fun a => ?_) (by simp [log]) (by simp [log, newOrder])
    rw [holding_log]
    exact lock_execute a
  | rest hq hp hst hs hc =>
    refine hw.reserve hnew (cover_nonneg (by simpa using hq) (by simpa using hp) hc)
      (by simp) fun o ho => ?_
    rw [List.mem_singleton] at ho
    subst ho
    exact ⟨rfl, rfl⟩
  | @link _ t quantity price stop _ _ _ hq hp hst hs hc =>
    have hprice : 0 < Amount.max price stop := by
      rw [Amount.max_rat]
      exact lt_max_of_lt_left (by simpa using hp)
    refine hw.reserve hnew (cover_nonneg (by simpa using hq) hprice hc) (by simp) fun o ho => ?_
    rw [List.mem_pair] at ho
    rcases ho with rfl | rfl <;> exact ⟨rfl, rfl⟩
  | withdraw ho hr =>
    refine hw.settle ho hr (fun a => rfl) rfl rfl (fun p hp heq => ?_) fun p hp hne => ?_
    · exact status_withdrawn_ne (by simpa using (hlog.owner_eq_iff ho hp).1 heq)
    · exact withdrawn_eq_self (by simpa using mt (hlog.owner_eq_iff ho hp).2 hne)
  | note => exact hw.of_eq (fun a => rfl) rfl rfl
  | fill ho hr _ _ hs =>
    refine hw.settle ho hr (fun a => ?_) (reservations_fill hs ..) (orders_fill hs ..)
      (fun p hp heq => ?_) fun p hp hne => ?_
    · rw [holding_fill hs]
      exact lock_execute a
    · exact status_filled_ne ((hlog.owner_eq_iff ho hp).1 heq)
    · have hnot := not_or.1 (mt (hlog.owner_eq_iff ho hp).2 hne)
      exact filled_eq_self hnot.1 (Bool.eq_false_iff.2 hnot.2)
  | mark => exact hw.of_eq (fun a => rfl) rfl rfl

/-! ### Runs -/

theorem lockOk_start (c : WalletConfig Rat) : (start c).LockOk := by
  have ho : (start c).orders = [] := rfl
  have hr : (start c).reservations = .empty := rfl
  refine ⟨fun a => ?_, fun k => ?_, fun k r h => ?_⟩
  · obtain ⟨x, hx, -⟩ := holding_start c a
    rw [hx, hr]
    rfl
  · simp [ho, hr, Table.mem_keys_iff]
  · rw [hr] at h
    cases h

theorem lockOk_of_run (c : WalletConfig Rat) (es : List (Event Rat)) :
    ((start c).run es).LogOk ∧ ((start c).run es).LockOk :=
  run_induction (P := fun _ => True) (I := fun w => w.LogOk ∧ w.LockOk)
    (fun _ h => h.1.ascending) (fun _ _ _ _ hs h => ⟨hs.logOk h.1, hs.lockOk h.1 h.2⟩)
    (fun _ _ => trivial) ⟨logOk_start c, lockOk_start c⟩

theorem LockOk.midway {w : Wallet Rat} (hlog : w.LogOk) (hw : w.LockOk) (c : Candle Rat)
    (n : Nat) : (w.midway c n).LockOk :=
  (midway_induction (P := fun _ => True) (I := fun w => w.LogOk ∧ w.LockOk)
    (fun _ h => h.1.ascending) (fun _ _ _ _ hs h => ⟨hs.logOk h.1, hs.lockOk h.1 h.2⟩)
    trivial ⟨hlog, hw⟩ n).2

/-- What `LockOk` comes to for somebody who looks at a wallet: the lock of every asset is the sum of
what the reservations hold back of it; the reservations are those of the resting orders, a linked
order having that of its group; nothing below zero is reserved or locked; and giving back moves
exactly what was reserved. -/
structure LocksAccounted (w : Wallet Rat) : Prop where
  lock : ∀ a, (w.holding a).lock = w.reservations.sumOf (·.heldIn a)
  keys : ∀ k, k ∈ w.reservations.keys ↔
    (∃ o ∈ w.orders, o.status = .new ∧ o.group = none ∧ o.id = k) ∨
    (∃ o ∈ w.orders, o.status = .new ∧ o.group = some k)
  nonneg : ∀ k r, w.reservations.get? k = some r → 0 ≤ r.assetQuantity ∧ 0 ≤ r.quoteQuantity
  lock_nonneg : ∀ a, 0 ≤ (w.holding a).lock
  release : ∀ k, w.release k = w.giveBack k

theorem LockOk.locksAccounted {w : Wallet Rat} (h : w.LockOk) : w.LocksAccounted where
  lock := h.lock
  keys := fun k => by
    rw [h.keys k]
    constructor
    · rintro ⟨o, ho, hn, hk⟩
      cases hg : o.group with
      | none => exact .inl ⟨o, ho, hn, hg, by simpa [owner, hg] using hk⟩
      | some g => exact .inr ⟨o, ho, hn, by simpa [owner, hg] using hk⟩
    · rintro (⟨o, ho, hn, hg, hk⟩ | ⟨o, ho, hn, hg⟩)
      · exact ⟨o, ho, hn, by simpa [owner, hg] using hk⟩
      · exact ⟨o, ho, hn, by simp [owner, hg]⟩
  nonneg := h.nonneg
  lock_nonneg := h.lock_nonneg
  release := h.release_eq_giveBack

/-- Whatever a wallet started with and whatever happened to it, its locks are accounted for, and
they are in the middle of every candle. -/
theorem locksAccounted_of_run (c : WalletConfig Rat) (es : List (Event Rat)) :
    ((start c).run es).LocksAccounted ∧
    ∀ k n, (((start c).run es).midway k n).LocksAccounted := by
  obtain ⟨hlog, hlock⟩ := lockOk_of_run c es
  exact ⟨hlock.locksAccounted, fun k n => (hlock.midway hlog k n).locksAccounted⟩

end Wallet
end Candlewick
