import Candlewick.Proofs.Wallet.Run

/-! # The order log

`LogOk` is what holds of the log at every moment of a run: identities ascend and are never those of
groups, none was given out beyond the last one, and a group is two orders that rest together until
one of them executes and the other is withdrawn, or both are withdrawn. `Wallet.Extends` says how a
log grows: an order stays where it is and what it is (`Order.Becomes`), except that a resting one
may execute or be withdrawn, once.

Steps keep the first (`Step.logOk`) and do the second (`Step.extends`), so runs do (`LogOk.run`). -/

namespace Candlewick
variable {α : Type}

/-- What an order may become: at most its status, price and last change are new, and these only if
it was resting. -/
structure Order.Becomes (o p : Order α) : Prop where
  id : p.id = o.id
  group : p.group = o.group
  pair : p.pair = o.pair
  side : p.side = o.side
  kind : p.kind = o.kind
  quantity : p.quantity = o.quantity
  stop : p.stop = o.stop
  created : p.created = o.created
  status : p.status = o.status ∨ o.status = .new ∧ (p.status = .filled ∨ p.status = .canceled)
  settled : o.status ≠ .new → p = o
  kept : p.status = .new → p = o

namespace Order.Becomes
variable {o p q : Order α}

theorem refl (o : Order α) : o.Becomes o :=
  ⟨rfl, rfl, rfl, rfl, rfl, rfl, rfl, rfl, .inl rfl, fun _ => rfl, fun _ => rfl⟩

theorem trans (h : o.Becomes p) (h' : p.Becomes q) : o.Becomes q where
  id := h'.id.trans h.id
  group := h'.group.trans h.group
  pair := h'.pair.trans h.pair
  side := h'.side.trans h.side
  kind := h'.kind.trans h.kind
  quantity := h'.quantity.trans h.quantity
  stop := h'.stop.trans h.stop
  created := h'.created.trans h.created
  status := by
    by_cases hn : p.status = .new
    · rcases h.status with hs | ⟨-, hs | hs⟩
      · rw [← hs]; exact h'.status
      · rw [hs] at hn; cases hn
      · rw [hs] at hn; cases hn
    · rw [h'.settled hn]; exact h.status
  settled := fun hn => by
    have hp := h.settled hn
    subst hp
    exact h'.settled hn
  kept := fun hn => by
    have hq := h'.kept hn
    subst hq
    exact h.kept hn

theorem eq_of_status (h : o.Becomes p) (hs : o.status = p.status) : o = p := by
  by_cases hn : o.status = .new
  · exact (h.kept (hs.symm.trans hn)).symm
  · exact (h.settled hn).symm

end Order.Becomes

theorem Order.resting_iff {o : Order α} : o.resting = true ↔ o.status = .new := by
  simp [Order.resting]

namespace Wallet

/-- Nothing of an old log is lost, moved or changed beyond what `Order.Becomes` allows. -/
def Extends (w w' : Wallet α) : Prop :=
  ∀ (i : Nat) (o : Order α), w.orders[i]? = some o → ∃ p, w'.orders[i]? = some p ∧ o.Becomes p

/-- The states that two linked orders may be in. -/
def Legs (a b : OrderStatus) : Prop :=
  (a = .new ∧ b = .new) ∨ (a = .filled ∧ b = .canceled) ∨ (a = .canceled ∧ b = .filled) ∨
    (a = .canceled ∧ b = .canceled)

/-- The orders of a group. -/
def legsOf (w : Wallet α) (g : Int) : List (Order α) := w.orders.filter fun o => o.group = some g

/-- What holds of the log at every moment of a run. -/
structure LogOk (w : Wallet α) : Prop where
  ascending : w.Ascending
  issued : ∀ o ∈ w.orders, o.id ≤ w.lastId
  groupIssued : ∀ o ∈ w.orders, ∀ g, o.group = some g → g ≤ w.lastId
  apart : ∀ o ∈ w.orders, ∀ p ∈ w.orders, o.group ≠ some p.id
  legs : ∀ o ∈ w.orders, ∀ g, o.group = some g →
    ∃ a b, w.legsOf g = [a, b] ∧ Legs a.status b.status

theorem Extends.refl (w : Wallet α) : w.Extends w :=
  fun _ o h => ⟨o, h, .refl o⟩

theorem Extends.trans {w w' w'' : Wallet α} (h : w.Extends w') (h' : w'.Extends w'') :
    w.Extends w'' := by
  intro i o ho
  obtain ⟨p, hp, hop⟩ := h i o ho
  obtain ⟨q, hq, hpq⟩ := h' i p hp
  exact ⟨q, hq, hop.trans hpq⟩

theorem Extends.of_append {w w' : Wallet α} {os : List (Order α)}
    (h : w'.orders = w.orders ++ os) : w.Extends w' := by
  intro i o ho
  obtain ⟨hi, -⟩ := List.getElem?_eq_some_iff.1 ho
  exact ⟨o, by rw [h, List.getElem?_append_left hi, ho], .refl o⟩

theorem Extends.of_map {w w' : Wallet α} {f : Order α → Order α}
    (h : w'.orders = w.orders.map f) (hf : ∀ o ∈ w.orders, o.Becomes (f o)) : w.Extends w' := by
  intro i o ho
  exact ⟨f o, by rw [h, List.getElem?_map, ho]; rfl, hf o (List.mem_of_getElem? ho)⟩

/-! ### What a withdrawal and an execution make of an order -/

theorem becomes_withdrawn (p : Order α → Bool) (time : Moment) (o : Order α) :
    o.Becomes (withdrawn p time o) := by
  unfold withdrawn
  split
  next h =>
    have hr := Order.resting_iff.1 (Bool.and_eq_true_iff.1 h).1
    exact ⟨rfl, rfl, rfl, rfl, rfl, rfl, rfl, rfl, .inr ⟨hr, .inr rfl⟩, fun hn => absurd hr hn,
      fun h => by cases h⟩
  next => exact .refl o

theorem withdrawn_eq_self {p : Order α → Bool} {time : Moment} {o : Order α} (h : p o = false) :
    withdrawn p time o = o := by
  simp [withdrawn, h]

theorem status_withdrawn {p : Order α → Bool} {time : Moment} {o : Order α}
    (hn : o.status = .new) (h : p o = true) : (withdrawn p time o).status = .canceled := by
  simp [withdrawn, Order.resting, hn, h]

theorem linked_iff {o p : Order α} :
    linked o p = true ↔ ∃ g, o.group = some g ∧ p.group = some g := by
  unfold linked
  cases o.group <;> simp [eq_comm]

theorem becomes_filled {w : Wallet α} (hasc : w.Ascending) {o p : Order α} (ho : o ∈ w.orders)
    (hr : o.resting = true) (hp : p ∈ w.orders) (price : α) (time : Instant) :
    p.Becomes (filled o price time p) := by
  unfold filled
  split
  next hid =>
    obtain rfl := hasc.eq_of_id ho hp hid
    have hn := Order.resting_iff.1 hr
    exact ⟨rfl, rfl, rfl, rfl, rfl, rfl, rfl, rfl, .inr ⟨hn, .inl rfl⟩, fun h => absurd hn h,
      fun h => by cases h⟩
  next => exact becomes_withdrawn ..

theorem id_filled (o : Order α) (price : α) (time : Instant) (p : Order α) :
    (filled o price time p).id = p.id := by
  unfold filled
  split
  · rfl
  · exact (becomes_withdrawn ..).id

theorem group_filled (o : Order α) (price : α) (time : Instant) (p : Order α) :
    (filled o price time p).group = p.group := by
  unfold filled
  split
  · rfl
  · exact (becomes_withdrawn ..).group

theorem quantity_filled (o : Order α) (price : α) (time : Instant) (p : Order α) :
    (filled o price time p).quantity = p.quantity := by
  unfold filled
  split
  · rfl
  · exact (becomes_withdrawn ..).quantity

theorem status_filled_self (o : Order α) (price : α) (time : Instant) :
    (filled o price time o).status = .filled := by
  simp [filled]

theorem status_filled_linked {o p : Order α} {price : α} {time : Instant} (hid : p.id ≠ o.id)
    (hn : p.status = .new) (hl : linked o p = true) :
    (filled o price time p).status = .canceled := by
  rw [filled, if_neg hid]
  exact status_withdrawn hn hl

theorem filled_eq_self {o p : Order α} {price : α} {time : Instant} (hid : p.id ≠ o.id)
    (hl : linked o p = false) : filled o price time p = p := by
  rw [filled, if_neg hid]
  exact withdrawn_eq_self hl

/-! ### What keeps the log in order -/

namespace LogOk
variable {w w' : Wallet α}

theorem mem_legsOf {g : Int} {o : Order α} (ho : o ∈ w.orders) (hg : o.group = some g) :
    o ∈ w.legsOf g :=
  List.mem_filter.2 ⟨ho, by simpa using hg⟩

theorem group_of_mem_legsOf {g : Int} {o : Order α} (ho : o ∈ w.legsOf g) :
    o ∈ w.orders ∧ o.group = some g := by
  simpa [legsOf] using ho

/-- A change of orders that keeps identities and groups only has to respect the states of linked
orders. -/
theorem map {f : Order α → Order α} (h : w.LogOk) (ho : w'.orders = w.orders.map f)
    (hid : w'.lastId = w.lastId) (hf : ∀ o, (f o).id = o.id ∧ (f o).group = o.group)
    (hl : ∀ g a b, w.legsOf g = [a, b] → Legs a.status b.status →
      Legs (f a).status (f b).status) : w'.LogOk := by
  have hmem : ∀ {o}, o ∈ w'.orders → ∃ p ∈ w.orders, f p = o := fun hm => by
    rw [ho] at hm; exact List.mem_map.1 hm
  refine ⟨?_, ?_, ?_, ?_, ?_⟩
  · show w'.orders.Pairwise _
    rw [ho]
    exact List.pairwise_map.2 (h.ascending.imp fun hab => by rwa [(hf _).1, (hf _).1])
  · intro o hm
    obtain ⟨p, hp, rfl⟩ := hmem hm
    rw [(hf p).1, hid]
    exact h.issued p hp
  · intro o hm g hg
    obtain ⟨p, hp, rfl⟩ := hmem hm
    rw [(hf p).2] at hg
    rw [hid]
    exact h.groupIssued p hp g hg
  · intro o hm q hq
    obtain ⟨p, hp, rfl⟩ := hmem hm
    obtain ⟨r, hr, rfl⟩ := hmem hq
    rw [(hf p).2, (hf r).1]
    exact h.apart p hp r hr
  · intro o hm g hg
    obtain ⟨p, hp, rfl⟩ := hmem hm
    rw [(hf p).2] at hg
    obtain ⟨a, b, hab, hst⟩ := h.legs p hp g hg
    refine ⟨f a, f b, ?_, hl g a b hab hst⟩
    have hfg : ((fun q : Order α => decide (q.group = some g)) ∘ f) =
        fun q => decide (q.group = some g) := by
      funext q
      simp [(hf q).2]
    rw [legsOf, ho, List.filter_map, hfg]
    show List.map f (w.legsOf g) = _
    rw [hab]
    rfl

theorem of_eq (h : w.LogOk) (ho : w'.orders = w.orders) (hid : w'.lastId = w.lastId) : w'.LogOk :=
  h.map (f := id) (by rw [ho, List.map_id]) hid (fun _ => ⟨rfl, rfl⟩) fun _ _ _ _ hl => hl

theorem append {os : List (Order α)} (h : w.LogOk) (ho : w'.orders = w.orders ++ os)
    (hid : w.lastId ≤ w'.lastId) (hasc : os.Pairwise fun a b => a.id < b.id)
    (hnew : ∀ o ∈ os, w.lastId < o.id ∧ o.id ≤ w'.lastId)
    (hgroup : ∀ o ∈ os, ∀ g, o.group = some g → w.lastId < g ∧ g ≤ w'.lastId ∧
      (∀ p ∈ os, p.id ≠ g) ∧
      ∃ a b, os.filter (fun p => p.group = some g) = [a, b] ∧ Legs a.status b.status) :
    w'.LogOk := by
  have hmem : ∀ {o}, o ∈ w'.orders → o ∈ w.orders ∨ o ∈ os := fun hm => by
    rw [ho] at hm; exact List.mem_append.1 hm
  refine ⟨?_, ?_, ?_, ?_, ?_⟩
  · show w'.orders.Pairwise _
    rw [ho]
    exact List.pairwise_append.2 ⟨h.ascending, hasc, fun a ha b hb =>
      Int.lt_of_le_of_lt (h.issued a ha) (hnew b hb).1⟩
  · intro o hm
    rcases hmem hm with hm | hm
    · exact Int.le_trans (h.issued o hm) hid
    · exact (hnew o hm).2
  · intro o hm g hg
    rcases hmem hm with hm | hm
    · exact Int.le_trans (h.groupIssued o hm g hg) hid
    · exact (hgroup o hm g hg).2.1
  · intro o hm p hp hg
    rcases hmem hm with hm | hm <;> rcases hmem hp with hp | hp
    · exact h.apart o hm p hp hg
    · have hle := h.groupIssued o hm p.id hg
      have hlt := (hnew p hp).1
      omega
    · have hlt := (hgroup o hm p.id hg).1
      have hle := h.issued p hp
      omega
    · exact (hgroup o hm p.id hg).2.2.1 p hp rfl
  · intro o hm g hg
    rw [legsOf, ho, List.filter_append]
    rcases hmem hm with hm | hm
    · obtain ⟨a, b, hab, hst⟩ := h.legs o hm g hg
      refine ⟨a, b, ?_, hst⟩
      have hnil : os.filter (fun p => p.group = some g) = [] := by
        refine List.filter_eq_nil_iff.2 fun p hp hpg => ?_
        have hlt := (hgroup p hp g (by simpa using hpg)).1
        have hle := h.groupIssued o hm g hg
        omega
      rw [hnil, List.append_nil]
      exact hab
    · obtain ⟨hlt, -, -, a, b, hab, hst⟩ := hgroup o hm g hg
      refine ⟨a, b, ?_, hst⟩
      have hnil : w.orders.filter (fun p => p.group = some g) = [] := by
        refine List.filter_eq_nil_iff.2 fun p hp hpg => ?_
        have hle := h.groupIssued p hp g (by simpa using hpg)
        omega
      rw [hnil, List.nil_append]
      exact hab

/-- A resting order is one of the two of its group, which then rests as a whole, and has nothing to
do with any other group. -/
theorem legs_cases (h : w.LogOk) {o : Order α} (ho : o ∈ w.orders) (hr : o.status = .new) {g : Int}
    {a b : Order α} (hab : w.legsOf g = [a, b]) (hst : Legs a.status b.status) :
    (linked o a = true ∧ linked o b = true ∧ a.status = .new ∧ b.status = .new ∧ a.id ≠ b.id ∧
      (o = a ∨ o = b)) ∨
    (linked o a = false ∧ linked o b = false ∧ a.id ≠ o.id ∧ b.id ≠ o.id) := by
  obtain ⟨ha, hag⟩ := group_of_mem_legsOf (o := a) (hab ▸ List.mem_cons_self ..)
  obtain ⟨hb, hbg⟩ := group_of_mem_legsOf (o := b)
    (hab ▸ List.mem_cons_of_mem _ (List.mem_singleton_self b))
  by_cases hg : o.group = some g
  · have hlt : a.id < b.id := by
      have hp := h.ascending.sublist (List.filter_sublist (p := fun o => o.group = some g))
      rw [show w.orders.filter _ = [a, b] from hab] at hp
      exact List.rel_of_pairwise_cons hp (List.mem_singleton_self b)
    have hoab : o = a ∨ o = b := by
      have hm := mem_legsOf ho hg
      rw [hab] at hm
      simpa using hm
    have hnew : a.status = .new ∧ b.status = .new := by
      rcases hst with hst | ⟨h1, h2⟩ | ⟨h1, h2⟩ | ⟨h1, h2⟩
      · exact hst
      all_goals rcases hoab with rfl | rfl <;> simp_all
    exact .inl ⟨linked_iff.2 ⟨g, hg, hag⟩, linked_iff.2 ⟨g, hg, hbg⟩, hnew.1, hnew.2,
      Int.ne_of_lt hlt, hoab⟩
  · have hun : ∀ {p : Order α}, p.group = some g → linked o p = false := fun hp => by
      refine Bool.eq_false_iff.2 fun hl => ?_
      obtain ⟨g', ho', hp'⟩ := linked_iff.1 hl
      exact hg (ho'.trans (hp'.symm.trans hp))
    refine .inr ⟨hun hag, hun hbg, fun hid => ?_, fun hid => ?_⟩
    · exact hg ((h.ascending.eq_of_id ho ha hid) ▸ hag)
    · exact hg ((h.ascending.eq_of_id ho hb hid) ▸ hbg)

/-- An order that still rests is what it was. -/
theorem eq_of_extends (hw' : w'.LogOk) (h : w.Extends w') {o p : Order α}
    (ho : o ∈ w.orders) (hp : p ∈ w'.orders) (hid : p.id = o.id) (hn : p.status = .new) :
    p = o := by
  obtain ⟨i, hi⟩ := List.getElem?_of_mem ho
  obtain ⟨q, hq, hoq⟩ := h i o hi
  obtain rfl := hw'.ascending.eq_of_id hp (List.mem_of_getElem? hq) (hoq.id.trans hid.symm)
  exact hoq.kept hn

end LogOk

variable [Amount α] {w w' : Wallet α} {e : Event α}

theorem Step.logOk (h : Step e w w') (hw : w.LogOk) : w'.LogOk := by
  cases h with
  | trade =>
    refine hw.append (congrArg (· ++ [_]) (execute_orders ..)) (by simp only [log]; omega)
      (List.pairwise_singleton ..) (fun o ho => ?_) fun o ho g hg => ?_
    all_goals rw [List.mem_singleton] at ho; subst ho
    · exact ⟨Int.lt_succ w.lastId, Int.le_refl _⟩
    · cases hg
  | rest =>
    refine hw.append rfl (by simp only [log]; omega) (List.pairwise_singleton ..)
      (fun o ho => ?_) fun o ho g hg => ?_
    all_goals rw [List.mem_singleton] at ho; subst ho
    · exact ⟨Int.lt_succ w.lastId, Int.le_refl _⟩
    · cases hg
  | link =>
    refine hw.append rfl (by simp only [log]; omega) (List.pairwise_pair.2 ?_)
      (fun o ho => ?_) fun o ho g hg => ?_
    · simp only [newOrder]; omega
    all_goals rw [List.mem_pair] at ho
    · rcases ho with rfl | rfl <;> simp only [newOrder, log] <;> omega
    · have hgr : g = w.lastId + 1 := by rcases ho with rfl | rfl <;> cases hg <;> rfl
      subst hgr
      refine ⟨by omega, by simp only [log]; omega, fun p hp => ?_, _, _,
        List.filter_eq_self.2 fun p hp => ?_, .inl ⟨rfl, rfl⟩⟩
      all_goals rw [List.mem_pair] at hp
      · rcases hp with rfl | rfl <;> simp only [newOrder] <;> omega
      · rcases hp with rfl | rfl <;> simp
  | @withdraw _ o ho hr =>
    have hn := Order.resting_iff.1 hr
    refine hw.map rfl (release_lastId w _) (fun p => ?_) fun g a b hab hst => ?_
    · exact ⟨(becomes_withdrawn ..).id, (becomes_withdrawn ..).group⟩
    · rcases hw.legs_cases ho hn hab hst with ⟨hla, hlb, ha, hb, -⟩ | ⟨hla, hlb, ha, hb⟩
      · exact .inr (.inr (.inr ⟨status_withdrawn ha (by simp [hla]),
          status_withdrawn hb (by simp [hlb])⟩))
      · rwa [withdrawn_eq_self (by simp [hla, ha]), withdrawn_eq_self (by simp [hlb, hb])]
  | note => exact hw.of_eq rfl rfl
  | @fill _ c o price pair ho hr _ _ hs =>
    have hn := Order.resting_iff.1 hr
    refine hw.map (orders_fill hs ..) (by simp [fill_eq hs])
      (fun p => ⟨id_filled .., group_filled ..⟩) fun g a b hab hst => ?_
    rcases hw.legs_cases ho hn hab hst with ⟨hla, hlb, ha, hb, hne, rfl | rfl⟩ | ⟨hla, hlb, ha, hb⟩
    · exact .inr (.inl ⟨status_filled_self .., status_filled_linked hne.symm hb hlb⟩)
    · exact .inr (.inr (.inl ⟨status_filled_linked hne ha hla, status_filled_self ..⟩))
    · rwa [filled_eq_self ha hla, filled_eq_self hb hlb]
  | mark => exact hw.of_eq rfl rfl

theorem Step.extends (h : Step e w w') (hw : w.LogOk) : w.Extends w' := by
  cases h with
  | trade => exact .of_append (congrArg (· ++ [_]) (execute_orders ..))
  | rest => exact .of_append rfl
  | link => exact .of_append rfl
  | withdraw ho hr => exact .of_map rfl fun p _ => becomes_withdrawn ..
  | note => exact .of_map (List.map_id _).symm fun p _ => .refl p
  | fill ho hr _ _ hs =>
    exact .of_map (orders_fill hs ..) fun p hp => becomes_filled hw.ascending ho hr hp ..
  | mark => exact .of_map (List.map_id _).symm fun p _ => .refl p

/-- Only what places an order brings one into the log. -/
theorem Step.exists_becomes (h : Step e w w') (hw : w.Ascending) (he : ∀ t, e ≠ .place t)
    {p : Order α} (hp : p ∈ w'.orders) : ∃ o ∈ w.orders, o.Becomes p := by
  cases h with
  | trade => exact absurd rfl (he _)
  | rest => exact absurd rfl (he _)
  | link => exact absurd rfl (he _)
  | withdraw =>
    obtain ⟨o, ho, rfl⟩ := List.mem_map.1 hp
    exact ⟨o, ho, becomes_withdrawn ..⟩
  | note => exact ⟨p, hp, .refl p⟩
  | fill ho hr _ _ hs =>
    rw [orders_fill hs] at hp
    obtain ⟨q, hq, rfl⟩ := List.mem_map.1 hp
    exact ⟨q, hq, becomes_filled hw ho hr hq ..⟩
  | mark => exact ⟨p, hp, .refl p⟩

/-! ### Runs -/

theorem logOk_start (c : WalletConfig α) : (start c).LogOk := by
  have ho : (start c).orders = [] := rfl
  constructor <;> simp [Ascending, ho]

/-- Every run keeps the log in order and extends it. -/
theorem LogOk.run (hw : w.LogOk) (es : List (Event α)) :
    (w.run es).LogOk ∧ w.Extends (w.run es) :=
  run_induction (P := fun _ => True) (I := fun v => v.LogOk ∧ w.Extends v)
    (fun _ h => h.1.ascending) (fun _ _ _ _ hs h => ⟨hs.logOk h.1, h.2.trans (hs.extends h.1)⟩)
    (fun _ _ => trivial) ⟨hw, .refl w⟩

/-- In the middle of a candle the log is in order and extends the one before. -/
theorem LogOk.midway (hw : w.LogOk) (c : Candle α) (n : Nat) :
    (w.midway c n).LogOk ∧ w.Extends (w.midway c n) :=
  midway_induction (P := fun _ => True) (I := fun v => v.LogOk ∧ w.Extends v)
    (fun _ h => h.1.ascending) (fun _ _ _ _ hs h => ⟨hs.logOk h.1, h.2.trans (hs.extends h.1)⟩)
    trivial ⟨hw, .refl w⟩ n

/-- In whatever state a wallet is after the events `es`, its log is in order and whatever happens
next extends it; and what is refused changes nothing at all. -/
theorem log_of_run (c : WalletConfig α) (es fs : List (Event α)) :
    let w := (start c).run es
    w.Extends (w.run fs) ∧
    (w.orders.Pairwise fun a b => a.id < b.id) ∧
    (∀ o ∈ w.orders, ∀ p ∈ w.orders, o.group ≠ some p.id) ∧
    (∀ o ∈ w.orders, ∀ g, o.group = some g →
      ∃ a b, w.legsOf g = [a, b] ∧ Legs a.status b.status) ∧
    (∀ t refusal, (Broker.place w t).1 = .error refusal → (Broker.place w t).2 = w) ∧
    (∀ id refusal, (Broker.cancel w id).1 = .error refusal → (Broker.cancel w id).2 = w) := by
  intro w
  have hw : w.LogOk := ((logOk_start c).run es).1
  refine ⟨(hw.run fs).2, hw.ascending, hw.apart, hw.legs, fun t refusal h => ?_,
    fun id refusal h => ?_⟩
  · simp only [Broker.place] at h ⊢
    cases hp : w.place t with
    | error _ => rfl
    | ok x => rw [hp] at h; cases h
  · simp only [Broker.cancel] at h ⊢
    cases hc : w.cancel id with
    | error _ => rfl
    | ok w' => rw [hc] at h; cases h

end Wallet
end Candlewick
