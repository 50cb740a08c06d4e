import Candlewick.Proofs.Desk.Fills

/-! # What a refresh finds out

A refresh asks about the orders that are recorded as `new`. Of these it finds out what the broker
says of them, and an execution is counted once (`Desk.Ahead.reaches`). An order that was last seen
executed in part can still be executed in full, but no refresh asks about it again: what becomes of
it stays unknown and uncounted (`Desk.refresh_reaches_iff`). -/

namespace Candlewick

namespace OrderStatus

/-- What may be said of an order at some time and later: it goes from rest, perhaps by an execution
in part, to an end. -/
def MayBecome (s t : OrderStatus) : Prop :=
  s = t ∨ s = .new ∨ s = .partiallyFilled ∧ t.terminal = true

instance (s t : OrderStatus) : Decidable (s.MayBecome t) := inferInstanceAs (Decidable (_ ∨ _))

theorem MayBecome.of_terminal {s t : OrderStatus} (h : s.MayBecome t) (hs : s.terminal = true) :
    t = s := by
  rcases h with rfl | rfl | ⟨rfl, -⟩
  · rfl
  · cases hs
  · cases hs

end OrderStatus

open OrderStatus (MayBecome)

theorem Book.settled_of_mayBecome {l : List OrderStatus} (h : l.Pairwise MayBecome) : Settled l :=
  h.imp fun hst hs => hst.of_terminal hs

/-! ### Recorded orders -/

namespace Order
variable {α τ : Type} {os : List (Order α)} {o : Order α}

theorem find?_of_mem (hids : (os.map (·.id)).Nodup) (ho : o ∈ os) :
    os.find? (·.id = o.id) = some o := by
  cases hfind : os.find? (·.id = o.id) with
  | none => simpa using List.find?_eq_none.1 hfind o ho
  | some p =>
    have hp : p.id = o.id := by simpa using List.find?_some hfind
    rw [List.inj_on_of_nodup_map hids (List.mem_of_find?_eq_some hfind) ho hp]

/-- What only one order brings forth. -/
theorem flatMap_of_mem (hids : (os.map (·.id)).Nodup) (ho : o ∈ os) {g : Order α → List τ}
    (hg : ∀ p ∈ os, p.id ≠ o.id → g p = []) : os.flatMap g = g o := by
  obtain ⟨before, after, rfl⟩ := List.append_of_mem ho
  rw [List.map_append, List.map_cons] at hids
  have hnot := (List.nodup_cons.1 (List.nodup_middle.1 hids)).1
  rw [← List.map_append] at hnot
  have hothers : ∀ p ∈ before ++ after, g p = [] := by
    intro p hp
    refine hg p ?_ fun hid => hnot (hid ▸ List.mem_map_of_mem hp)
    rcases List.mem_append.1 hp with hp | hp
    · exact List.mem_append_left _ hp
    · exact List.mem_append_right _ (List.mem_cons_of_mem _ hp)
  have hbefore : before.flatMap g = [] :=
    List.flatMap_eq_nil_iff.2 fun p hp => hothers p (List.mem_append_left _ hp)
  have hafter : after.flatMap g = [] :=
    List.flatMap_eq_nil_iff.2 fun p hp => hothers p (List.mem_append_right _ hp)
  rw [List.flatMap_append, List.flatMap_cons, hbefore, hafter, List.append_nil, List.nil_append]

end Order

theorem Entry.later_flatMap {α τ : Type} (id : Int) (as : List τ) (f : τ → List (Entry α)) :
    later id (as.flatMap f) = as.flatMap fun a => later id (f a) := by
  simp only [later, List.filter_flatMap, List.map_flatMap]

namespace Desk
variable {α β : Type} [Amount α] [Broker β α]

open Entry (told later recorded)

/-! ### Questions -/

/-- What the broker says of an order now. -/
def now (d : Desk β α) (o : Order α) : Except (BrokerError α) (Order α) :=
  (Broker.order d.broker o.pair o.id).1

/-- The desk after it has asked about an order. -/
def ask (d : Desk β α) (o : Order α) : Desk β α := (d.order o.pair o.id).2

/-- What the broker says of the recorded orders stays while a refresh asks about one after the
other. -/
def Still (d : Desk β α) : Prop :=
  ∀ asked, asked <+: d.book.orders.filter (·.resting) → ∀ o ∈ d.book.orders,
    (asked.foldl ask d).now o = d.now o

omit [Amount α] in
theorem heard_eq (d : Desk β α) (o : Order α) : d.heard o.pair o.id =
    match d.now o with
    | .ok q => [.report q]
    | .error _ => [] := by
  unfold heard now
  rcases Broker.order d.broker o.pair o.id with ⟨_ | _, _⟩ <;> rfl

theorem heardAll_eq {d : Desk β α} {os : List (Order α)}
    (hstill : ∀ asked, asked <+: os → ∀ o ∈ os, (asked.foldl ask d).now o = d.now o) :
    d.heardAll os = os.flatMap fun o => d.heard o.pair o.id := by
  induction os generalizing d with
  | nil => rfl
  | cons o os ih =>
    have hnow : ∀ p ∈ os, (d.ask o).now p = d.now p := fun p hp =>
      hstill [o] (by simp) p (List.mem_cons_of_mem _ hp)
    have hrest : ∀ asked, asked <+: os → ∀ p ∈ os,
        (asked.foldl ask (d.ask o)).now p = (d.ask o).now p := by
      intro asked hasked p hp
      have hprefix : o :: asked <+: o :: os := List.cons_prefix_cons.2 ⟨rfl, hasked⟩
      rw [hnow p hp]
      exact hstill (o :: asked) hprefix p (List.mem_cons_of_mem _ hp)
    have hheard : ∀ p ∈ os, (d.ask o).heard p.pair p.id = d.heard p.pair p.id := by
      intro p hp
      rw [heard_eq, heard_eq, hnow p hp]
    exact congrArg (d.heard o.pair o.id ++ ·) ((ih hrest).trans (List.flatMap_congr hheard))

theorem recorded_heardAll (d : Desk β α) (os : List (Order α)) : recorded (d.heardAll os) = [] := by
  induction os generalizing d with
  | nil => rfl
  | cons o os ih =>
    rw [heardAll, Entry.recorded_append, ih, heard_eq]
    split <;> rfl

/-- A book that was written by a log, in front of a broker that goes on from what it said. -/
structure Ahead (d : Desk β α) (log : List (Entry α)) : Prop where
  book : d.book = Book.empty.enterAll log
  distinct : (recorded log).Nodup
  still : d.Still
  answers : ∀ o ∈ d.book.orders, ∀ q, d.now o = .ok q → q.id = o.id
  forward : ∀ o ∈ d.book.orders, ∀ q, d.now o = .ok q →
    (told o.id log ++ [q.status]).Pairwise MayBecome

/-- A refresh finds out what the broker says of an order that could still change, and an execution
has been counted once. -/
def Reaches (d : Desk β α) (log : List (Entry α)) (o : Order α) : Prop :=
  ∀ q, d.now o = .ok q →
    (o.status.terminal = false → d.refresh.book.status? o.id = some q.status) ∧
    (q.status = .filled → Book.empty.foldCount o.id (log ++ d.refreshed) = 1)

namespace Ahead
variable {d : Desk β α} {log : List (Entry α)} {o q : Order α}

theorem nodup (h : d.Ahead log) : (d.book.orders.map (·.id)).Nodup := by
  rw [h.book, Book.map_id_enterAll]
  exact h.distinct

theorem told_eq (h : d.Ahead log) (ho : o ∈ d.book.orders) :
    (told o.id log).getLast? = some o.status := by
  rw [← Book.status?_eq h.distinct, ← h.book, Book.status?, Order.find?_of_mem h.nodup ho]
  rfl

/-- In a refresh something is heard of an order exactly if it rests. -/
theorem later_refreshed (h : d.Ahead log) (ho : o ∈ d.book.orders) (hq : d.now o = .ok q) :
    later o.id d.refreshed = if o.resting then [q.status] else [] := by
  have hother : ∀ p ∈ d.book.orders, p.id ≠ o.id → later o.id (d.heard p.pair p.id) = [] := by
    intro p hp hne
    rw [heard_eq]
    split
    next r hr =>
      have hr' : ¬ r.id = o.id := by rwa [h.answers p hp r hr]
      simp [later, Entry.order, hr']
    next => rfl
  have hsublist := List.filter_sublist (p := fun p : Order α => p.resting) (l := d.book.orders)
  rw [refreshed, heardAll_eq fun asked hasked p hp => h.still asked hasked p (hsublist.subset hp),
    Entry.later_flatMap]
  split
  next hresting =>
    rw [Order.flatMap_of_mem ((hsublist.map _).nodup h.nodup)
      (List.mem_filter.2 ⟨ho, hresting⟩) fun p hp => hother p (hsublist.subset hp), heard_eq, hq]
    simp [later, Entry.order, h.answers o ho q hq]
  next hended =>
    refine List.flatMap_eq_nil_iff.2 fun p hp => ?_
    obtain ⟨hp, hresting⟩ := List.mem_filter.1 hp
    refine hother p hp fun hid => hended ?_
    rwa [← List.inj_on_of_nodup_map h.nodup hp ho hid]

theorem told_refreshed (h : d.Ahead log) (ho : o ∈ d.book.orders) (hq : d.now o = .ok q) :
    told o.id (log ++ d.refreshed) =
      told o.id log ++ if o.resting then [q.status] else [] := by
  have hknown : told o.id log ≠ [] := by
    intro hnil
    have hlast := h.told_eq ho
    rw [hnil] at hlast
    cases hlast
  rw [Entry.told_append, if_neg hknown, h.later_refreshed ho hq]

theorem distinct_refreshed (h : d.Ahead log) : (recorded (log ++ d.refreshed)).Nodup := by
  rw [Entry.recorded_append, refreshed, recorded_heardAll, List.append_nil]
  exact h.distinct

theorem book_refreshed (h : d.Ahead log) :
    d.refresh.book = Book.empty.enterAll (log ++ d.refreshed) := by
  rw [book_refresh, h.book, Book.enterAll_append]

theorem status?_refresh (h : d.Ahead log) (ho : o ∈ d.book.orders) (hq : d.now o = .ok q) :
    d.refresh.book.status? o.id = some (if o.resting then q.status else o.status) := by
  rw [h.book_refreshed, Book.status?_eq h.distinct_refreshed, h.told_refreshed ho hq]
  split
  · exact List.getLast?_concat
  · rw [List.append_nil]
    exact h.told_eq ho

theorem foldCount_refresh (h : d.Ahead log) (ho : o ∈ d.book.orders) (hq : d.now o = .ok q) :
    Book.empty.foldCount o.id (log ++ d.refreshed) =
      if .filled ∈ told o.id log ++ (if o.resting then [q.status] else []) then 1 else 0 := by
  have hforward := h.forward o ho q hq
  have hsettled : Book.Settled (told o.id (log ++ d.refreshed)) := by
    rw [h.told_refreshed ho hq]
    refine Book.settled_of_mayBecome ?_
    split
    · exact hforward
    · rw [List.append_nil]
      exact (List.pairwise_append.1 hforward).1
  rw [Book.foldCount_of_settled h.distinct_refreshed hsettled, h.told_refreshed ho hq]

/-- The status of an order is what was said of it before, and may have become what is said now. -/
theorem mayBecome (h : d.Ahead log) (ho : o ∈ d.book.orders) (hq : d.now o = .ok q) :
    o.status ∈ told o.id log ∧ o.status.MayBecome q.status := by
  have hmem := List.mem_of_getLast? (h.told_eq ho)
  exact ⟨hmem, (List.pairwise_append.1 (h.forward o ho q hq)).2.2 _ hmem _ (by simp)⟩

theorem reaches (h : d.Ahead log) (ho : o ∈ d.book.orders) (hpart : o.status ≠ .partiallyFilled) :
    d.Reaches log o := by
  intro q hq
  obtain ⟨hmem, hbecomes⟩ := h.mayBecome ho hq
  rw [h.status?_refresh ho hq, h.foldCount_refresh ho hq]
  by_cases hresting : o.resting = true
  · rw [if_pos hresting, if_pos hresting]
    exact ⟨fun _ => rfl, fun hfilled => if_pos (by simp [hfilled])⟩
  · have hended : o.status.terminal = true := by
      cases hs : o.status <;> simp_all [Order.resting, OrderStatus.terminal]
    have hsame := hbecomes.of_terminal hended
    refine ⟨fun hlive => ?_, fun hfilled => ?_⟩
    · rw [hended] at hlive
      cases hlive
    · rw [← hfilled, hsame]
      simp [hmem]

/-- An order that was last seen executed in part stays so, and is not counted. -/
theorem partly_filled (h : d.Ahead log) (ho : o ∈ d.book.orders)
    (hpart : o.status = .partiallyFilled) (hq : d.now o = .ok q) :
    d.refresh.book.status? o.id = some .partiallyFilled ∧
      Book.empty.foldCount o.id (log ++ d.refreshed) = 0 := by
  have hresting : ¬ o.resting = true := by simp [Order.resting, hpart]
  have hnot : .filled ∉ told o.id log := by
    intro hfilled
    -- an execution in full would stand before the last status, and nothing else may follow it
    obtain ⟨earlier, hlast⟩ := List.getLast?_eq_some_iff.1 (h.told_eq ho)
    have hforward := (List.pairwise_append.1 (h.forward o ho q hq)).1
    rw [hlast, hpart] at hforward hfilled
    have hearlier : .filled ∈ earlier := by simpa using hfilled
    have hbecomes := (List.pairwise_append.1 hforward).2.2 _ hearlier .partiallyFilled (by simp)
    cases hbecomes.of_terminal rfl
  rw [h.status?_refresh ho hq, h.foldCount_refresh ho hq, if_neg hresting, if_neg hresting,
    List.append_nil, if_neg hnot, hpart]
  exact ⟨rfl, rfl⟩

theorem reaches_iff (h : d.Ahead log) (ho : o ∈ d.book.orders) : d.Reaches log o ↔
    (o.status = .partiallyFilled → ∀ q, d.now o = .ok q → q.status = .partiallyFilled) := by
  by_cases hpart : o.status = .partiallyFilled
  · refine ⟨fun hreaches _ q hq => ?_, fun hsame q hq => ?_⟩
    · have hstatus := (hreaches q hq).1 (by rw [hpart]; rfl)
      rw [(h.partly_filled ho hpart hq).1] at hstatus
      exact (Option.some.inj hstatus).symm
    · have hq' := hsame hpart q hq
      rw [(h.partly_filled ho hpart hq).1, hq']
      exact ⟨fun _ => rfl, fun hfilled => by cases hfilled⟩
  · exact iff_of_true (h.reaches ho hpart) fun h' => absurd h' hpart

end Ahead

/-- After a refresh the book agrees with the broker and has counted every execution, but for the
orders that it had recorded as executed in part: these stay as they are. So a refresh reaches every
order that could still change exactly if the broker says of none of them anything else. -/
theorem refresh_reaches_iff (b : β) (es : List (Event β α))
    (hids : (recorded ((ofBroker b).log es)).Nodup) (hstill : ((ofBroker b).run es).Still)
    (hanswers : ∀ o ∈ ((ofBroker b).run es).book.orders, ∀ q,
      ((ofBroker b).run es).now o = .ok q → q.id = o.id ∧
        (told o.id ((ofBroker b).log es) ++ [q.status]).Pairwise MayBecome) :
    let d := (ofBroker b).run es
    let log := (ofBroker b).log es
    d.refresh.book.SameTotals
      ((Book.empty.fills (log ++ d.refreshed)).foldl Book.applyFill .empty) ∧
    (∀ o ∈ d.book.orders, o.status ≠ .partiallyFilled → d.Reaches log o) ∧
    (∀ o ∈ d.book.orders, o.status = .partiallyFilled → ∀ q, d.now o = .ok q →
      d.refresh.book.status? o.id = some .partiallyFilled ∧
        Book.empty.foldCount o.id (log ++ d.refreshed) = 0) ∧
    ((∀ o ∈ d.book.orders, d.Reaches log o) ↔
      ∀ o ∈ d.book.orders, o.status = .partiallyFilled → ∀ q, d.now o = .ok q →
        q.status = .partiallyFilled) := by
  intro d log
  have hahead : d.Ahead log := ⟨book_run (ofBroker b) es, hids, hstill,
    fun o ho q hq => (hanswers o ho q hq).1, fun o ho q hq => (hanswers o ho q hq).2⟩
  refine ⟨?_, fun o => hahead.reaches, fun o ho hpart q => hahead.partly_filled ho hpart,
    forall₂_congr fun o => hahead.reaches_iff⟩
  rw [hahead.book_refreshed]
  exact Book.sameTotals_enterAll ..

/-! ### A bid that is executed in two parts -/

theorem still_venue {α : Type} [Amount α] (d : Desk (Venue α) α) : d.Still := by
  intro asked _ o _
  have hbroker : ∀ (asked : List (Order α)) (d : Desk (Venue α) α),
      (asked.foldl ask d).broker = d.broker := by
    intro asked
    induction asked with
    | nil => exact fun _ => rfl
    | cons p asked ih =>
      intro d
      refine (ih (d.ask p)).trans ?_
      unfold ask order
      cases hfind : d.broker.find p.id <;> simp [Broker.order, hfind]
  rw [now, now, hbroker]

/-- Two bids are placed, and one is executed in full, the other in part. -/
def twoBids : List (Event (Venue Rat) Rat) :=
  [.elsewhere (·.reply [bid .new]), .call (.place (.limit .buy "BTCUSDT" 1 100)),
    .elsewhere (·.reply [{ bid .partiallyFilled with id := 2 }]),
    .call (.place (.limit .buy "BTCUSDT" 1 100)), .elsewhere (·.put (bid .filled)),
    .elsewhere (·.put { bid .partiallyFilled with id := 2 })]

theorem log_twoBids : (ofBroker Venue.empty).log twoBids =
    [.record (bid .new), .record { bid .partiallyFilled with id := 2 }] := by
  decide +kernel

theorem orders_twoBids : ((ofBroker Venue.empty).run twoBids).book.orders =
    [bid .new, { bid .partiallyFilled with id := 2 }] := by
  decide +kernel

theorem refresh_reaches_iff_twoBids :
    let d := (ofBroker Venue.empty).run twoBids
    let log := (ofBroker Venue.empty).log twoBids
    (recorded log).Nodup ∧ d.Still ∧
    (∀ o ∈ d.book.orders, ∀ q, d.now o = .ok q →
      q.id = o.id ∧ (told o.id log ++ [q.status]).Pairwise MayBecome) ∧
    (∀ o ∈ d.book.orders, d.Reaches log o) ∧
    d.refresh.book.status? 1 = some .filled ∧
    Book.empty.foldCount 1 (log ++ d.refreshed) = 1 := by
  intro d log
  have hids : (recorded log).Nodup := by
    rw [show log = _ from log_twoBids]
    decide
  have hfirst : d.now (bid .new) = .ok (bid .filled) := rfl
  have hsecond : d.now { bid .partiallyFilled with id := 2 } =
      .ok { bid .partiallyFilled with id := 2 } := rfl
  have horders : ∀ o ∈ d.book.orders, o = bid .new ∨ o = { bid .partiallyFilled with id := 2 } := by
    rw [show d.book.orders = _ from orders_twoBids]
    simp
  have hanswers : ∀ o ∈ d.book.orders, ∀ q, d.now o = .ok q →
      q.id = o.id ∧ (told o.id log ++ [q.status]).Pairwise MayBecome := by
    intro o ho q hq
    rw [show log = _ from log_twoBids]
    rcases horders o ho with rfl | rfl
    · obtain rfl := Except.ok.inj (hfirst.symm.trans hq)
      exact ⟨rfl, by decide⟩
    · obtain rfl := Except.ok.inj (hsecond.symm.trans hq)
      exact ⟨rfl, by decide⟩
  obtain ⟨-, -, -, hiff⟩ := refresh_reaches_iff Venue.empty twoBids hids (still_venue d) hanswers
  have hreaches : ∀ o ∈ d.book.orders, d.Reaches log o := by
    refine hiff.2 fun o ho hpart q hq => ?_
    rcases horders o ho with rfl | rfl
    · cases hpart
    · obtain rfl := Except.ok.inj (hsecond.symm.trans hq)
      rfl
  have hbid : bid .new ∈ d.book.orders := by
    rw [show d.book.orders = _ from orders_twoBids]
    exact List.mem_cons_self ..
  obtain ⟨hstatus, hcounted⟩ := hreaches _ hbid _ hfirst
  exact ⟨hids, still_venue d, hanswers, hreaches, hstatus rfl, hcounted rfl⟩

/-- A bid is placed, a refresh finds it executed in part, and then it is executed in full. -/
def inTwoParts : List (Event (Venue Rat) Rat) :=
  [.elsewhere (·.reply [bid .new]), .call (.place (.limit .buy "BTCUSDT" 1 100)),
    .elsewhere (·.put (bid .partiallyFilled)), .call .refresh, .elsewhere (·.put (bid .filled))]

theorem refresh_misses_fill :
    let d := (ofBroker Venue.empty).run inTwoParts
    let log := (ofBroker Venue.empty).log inTwoParts
    (recorded log).Nodup ∧ d.Still ∧
    d.book.orders = [bid .partiallyFilled] ∧
    d.now (bid .partiallyFilled) = .ok (bid .filled) ∧
    (told 1 log ++ [OrderStatus.filled]).Pairwise MayBecome ∧
    ¬ d.Reaches log (bid .partiallyFilled) ∧
    d.refresh.book.orders = [bid .partiallyFilled] ∧
    d.refresh.book.positions.get? "BTCUSDT" = none ∧
    d.refresh.book.trades.get? "BTCUSDT" = none := by
  intro d log
  have hlog : log = [.record (bid .new), .report (bid .partiallyFilled)] := by decide +kernel
  have hnow : d.now (bid .partiallyFilled) = .ok (bid .filled) := rfl
  have hstatus : d.refresh.book.status? 1 = some .partiallyFilled := by decide +kernel
  refine ⟨by rw [hlog]; decide, still_venue d, by decide +kernel, hnow, by rw [hlog]; decide,
    fun h => ?_, by decide +kernel, by decide +kernel, ?_⟩
  · have hreached := (h _ hnow).1 rfl
    rw [show (bid .partiallyFilled).id = 1 from rfl, hstatus] at hreached
    cases hreached
  · rfl

end Desk

end Candlewick
