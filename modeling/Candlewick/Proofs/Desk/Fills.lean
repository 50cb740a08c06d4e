import Candlewick.Desk.Venue
import Candlewick.Proofs.Desk.Run
import Mathlib.Data.List.Destutter
import Mathlib.Data.List.Induction

/-! # How often an order is folded in

The status of a recorded order is what was last heard of it (`Book.status?_eq`), and an order is
folded in whenever what is heard of it becomes `filled` (`Book.folds_eq`). So the book counts every
order once, and an order that has come to an end keeps its status, exactly if nothing else is heard
of an order after it has come to an end (`Book.countsOnce_iff`). The book itself does not see to
that: a report that was true before the execution undoes it, and the next one repeats it. -/

namespace Candlewick

namespace Book
variable {α : Type} [Amount α] {b : Book α} {id : Int}

/-- The status of a recorded order. -/
def status? (b : Book α) (id : Int) : Option OrderStatus :=
  (b.orders.find? (·.id = id)).map (·.status)

/-- Whether an entry folds its order in. -/
def folds (b : Book α) : Entry α → Bool
  | .record o => o.status = .filled
  | .report o => o.status = .filled && (b.status? o.id).any (· ≠ .filled)

/-- The orders that entries fold in, the first one first. -/
def fills (b : Book α) : List (Entry α) → List (Order α)
  | [] => []
  | e :: es => (if b.folds e then [e.order] else []) ++ fills (b.enter e) es

/-! ### One entry -/

theorem status?_record (b : Book α) (o : Order α) (id : Int) :
    (b.record o).status? id =
      (b.status? id).or (if o.id = id then some o.status else none) := by
  rw [status?, record_orders, List.find?_append, status?]
  by_cases ho : o.id = id <;> cases b.orders.find? (·.id = id) <;> simp [ho]

theorem status?_update (b : Book α) (o : Order α) (id : Int) :
    (b.update o).status? id =
      if o.id = id ∧ (b.status? id).isSome then some o.status else b.status? id := by
  rcases hf : b.orders.find? (·.id = o.id) with - | p
  · rw [update_unknown hf, if_neg]
    rintro ⟨rfl, hsome⟩
    rw [status?, hf] at hsome
    cases hsome
  · have hs : b.status? o.id = some p.status := by rw [status?, hf]; rfl
    by_cases hp : p.status = o.status
    · rw [update_same hf hp]
      split
      next hand =>
        rw [← hand.1, hs, hp]
      next => rfl
    · rw [update_other hf hp, status?]
      dsimp only
      rw [find?_replaceFirst hf]
      by_cases ho : o.id = id
      · subst ho
        simp [hs]
      · simp [ho, status?]

/-! ### Positions and trades -/

/-- Two books with the same positions and trades. -/
def SameTotals (b b' : Book α) : Prop := b.positions = b'.positions ∧ b.trades = b'.trades

theorem SameTotals.applyFill {b' : Book α} (h : b.SameTotals b') (o : Order α) :
    (b.applyFill o).SameTotals (b'.applyFill o) := by
  obtain ⟨hp, ht⟩ := h
  constructor <;> simp [Book.applyFill, hp, ht]

theorem SameTotals.foldl {b' : Book α} (h : b.SameTotals b') (os : List (Order α)) :
    (os.foldl Book.applyFill b).SameTotals (os.foldl Book.applyFill b') := by
  induction os generalizing b b' with
  | nil => exact h
  | cons o os ih => exact ih (h.applyFill o)

theorem sameTotals_enter (b : Book α) (e : Entry α) :
    (b.enter e).SameTotals ((if b.folds e then [e.order] else []).foldl applyFill b) := by
  have hwhen : ∀ o : Order α, (b.applyIfFilled o).SameTotals
      ((if o.status = .filled then [o] else []).foldl applyFill b) := by
    intro o
    unfold applyIfFilled
    split <;> exact ⟨rfl, rfl⟩
  rcases e with o | o
  · have hfolds : b.folds (.record o) = decide (o.status = .filled) := rfl
    simpa [hfolds, enter, record, SameTotals, Entry.order] using hwhen o
  · rcases hf : b.orders.find? (·.id = o.id) with - | p
    · have hfolds : b.folds (.report o) = false := by simp [folds, status?, hf]
      simp [hfolds, enter, update_unknown hf, SameTotals]
    · by_cases hp : p.status = o.status
      · have hfolds : b.folds (.report o) = false := by simp [folds, status?, hf, hp]
        simp [hfolds, enter, update_same hf hp, SameTotals]
      · have hfolds : b.folds (.report o) = decide (o.status = .filled) := by
          by_cases ho : o.status = .filled
          · rw [ho] at hp
            simp [folds, status?, hf, ho, hp]
          · simp [folds, ho]
        simpa [hfolds, enter, update_other hf hp, SameTotals, Entry.order] using hwhen o

/-- Positions and trades are those of the orders that were folded in. -/
theorem sameTotals_enterAll (b : Book α) (es : List (Entry α)) :
    (b.enterAll es).SameTotals ((b.fills es).foldl applyFill b) := by
  induction es generalizing b with
  | nil => exact ⟨rfl, rfl⟩
  | cons e es ih =>
    rw [fills, List.foldl_append]
    obtain ⟨hp, ht⟩ := ih (b.enter e)
    obtain ⟨hp', ht'⟩ := (sameTotals_enter b e).foldl (fills (b.enter e) es)
    exact ⟨hp.trans hp', ht.trans ht'⟩

end Book

/-! ### What is heard of an order -/

namespace Entry
variable {α : Type} {id : Int}

/-- What is said of an order in some entries. -/
def later (id : Int) (es : List (Entry α)) : List OrderStatus :=
  (es.filter (·.order.id = id)).map (·.order.status)

/-- What is said of an order from its recording on. -/
def told (id : Int) : List (Entry α) → List OrderStatus
  | [] => []
  | .record o :: es => if o.id = id then o.status :: later id es else told id es
  | .report _ :: es => told id es

theorem recorded_append (es fs : List (Entry α)) :
    recorded (es ++ fs) = recorded es ++ recorded fs := by
  induction es with
  | nil => rfl
  | cons e es ih => cases e <;> simp [recorded, ih]

theorem recorded_nodup_mono {es fs : List (Entry α)} (h : es <+: fs)
    (hids : (recorded fs).Nodup) : (recorded es).Nodup := by
  obtain ⟨gs, rfl⟩ := h
  rw [recorded_append] at hids
  exact hids.of_append_left

theorem later_cons (id : Int) (e : Entry α) (es : List (Entry α)) :
    later id (e :: es) = (if e.order.id = id then [e.order.status] else []) ++ later id es := by
  by_cases he : e.order.id = id <;> simp [later, he]

theorem told_append (id : Int) (es fs : List (Entry α)) :
    told id (es ++ fs) = if told id es = [] then told id fs else told id es ++ later id fs := by
  induction es with
  | nil => simp [told]
  | cons e es ih =>
    cases e with
    | record o => by_cases ho : o.id = id <;> simp [told, ho, ih, later]
    | report o => exact ih

theorem told_mono {es fs : List (Entry α)} (h : es <+: fs) (id : Int) :
    told id es <+: told id fs := by
  obtain ⟨gs, rfl⟩ := h
  rw [told_append]
  split
  next hnone => rw [hnone]; exact List.nil_prefix
  next => exact List.prefix_append ..

/-- One more entry says one thing more of an order, or nothing. -/
theorem told_concat (id : Int) (es : List (Entry α)) (e : Entry α) :
    told id (es ++ [e]) = told id es ∨ ∃ s, told id (es ++ [e]) = told id es ++ [s] := by
  have hlater : later id [e] = [] ∨ later id [e] = [e.order.status] := by
    rw [later_cons]
    split <;> simp [later]
  rw [told_append]
  split
  next hnone =>
    rw [hnone]
    rcases e with o | o
    · by_cases ho : o.id = id <;> simp [told, ho, later]
    · simp [told]
  next =>
    rcases hlater with h | h <;> simp [h]

end Entry

namespace Book
variable {α : Type} [Amount α] {b : Book α} {id : Int}

open Entry (later told recorded recorded_nodup_mono)

/-- How often an order is folded in. -/
def foldCount (b : Book α) (id : Int) (es : List (Entry α)) : Nat :=
  (b.fills es).countP (·.id = id)

theorem foldCount_cons (b : Book α) (id : Int) (e : Entry α) (es : List (Entry α)) :
    b.foldCount id (e :: es) =
      (if b.folds e = true ∧ e.order.id = id then 1 else 0) + (b.enter e).foldCount id es := by
  unfold foldCount
  rw [fills, List.countP_append]
  by_cases hf : b.folds e = true <;> by_cases hid : e.order.id = id <;> simp [hf, hid]

theorem status?_enter_of_ne {e : Entry α} (h : e.order.id ≠ id) :
    (b.enter e).status? id = b.status? id := by
  rcases e with o | o
  · have hid : ¬ o.id = id := h
    simp [enter, status?_record, hid]
  · have hid : ¬ o.id = id := h
    simp [enter, status?_update, hid]

/-- An order that is recorded has the status that was last heard of it, and each time that this
becomes `filled` it is folded in. -/
theorem known_enterAll {s : OrderStatus} {es : List (Entry α)} (hs : b.status? id = some s)
    (hnew : id ∉ recorded es) :
    (b.enterAll es).status? id = (s :: later id es).getLast? ∧
      b.foldCount id es + (if s = .filled then 1 else 0) =
        ((later id es).destutter' (· ≠ ·) s).count .filled := by
  induction es generalizing b s with
  | nil => exact ⟨hs, by simp [foldCount, fills, later, List.count_singleton]⟩
  | cons e es ih =>
    have hstep : b.enterAll (e :: es) = (b.enter e).enterAll es := rfl
    rw [hstep, foldCount_cons, Entry.later_cons]
    by_cases hid : e.order.id = id
    · rcases e with o | o
      · exact absurd (List.mem_cons_self ..) (hid ▸ hnew)
      · obtain rfl : o.id = id := hid
        have hs' : (b.enter (.report o)).status? o.id = some o.status := by
          simp [enter, status?_update, hs]
        obtain ⟨hlast, hcount⟩ := ih hs' hnew
        have hfolds : b.folds (.report o) = true ↔ o.status = .filled ∧ s ≠ .filled := by
          simp [folds, hs]
        have hself : (Entry.report o).order.id = o.id := rfl
        refine ⟨by simpa [Entry.order] using hlast, ?_⟩
        rw [if_pos hself, List.singleton_append, List.destutter'_cons]
        simp only [hfolds, hself, and_true]
        by_cases hst : s = o.status
        · subst hst
          simpa [Entry.order] using hcount
        · rw [if_pos (show s ≠ (Entry.report o).order.status from hst), List.count_cons]
          simp only [Entry.order, ← hcount, beq_iff_eq]
          by_cases ho : o.status = .filled
          · have hsf : s ≠ .filled := fun h => hst (h.trans ho.symm)
            simp [ho, hsf, Nat.add_comm]
          · simp [ho]
    · have hs' := (status?_enter_of_ne hid).trans hs
      have hnew' : id ∉ recorded es := by
        cases e with
        | record o => exact fun h => hnew (List.mem_cons_of_mem _ h)
        | report o => exact hnew
      obtain ⟨hlast, hcount⟩ := ih hs' hnew'
      simp [hid, hlast, hcount]

/-- Of an order that is not recorded yet nothing is taken in before its recording. -/
theorem new_enterAll {es : List (Entry α)} (hs : b.status? id = none)
    (hids : (recorded es).Nodup) :
    (b.enterAll es).status? id = (told id es).getLast? ∧
      b.foldCount id es = ((told id es).destutter (· ≠ ·)).count .filled := by
  induction es generalizing b with
  | nil => exact ⟨hs, rfl⟩
  | cons e es ih =>
    have hstep : b.enterAll (e :: es) = (b.enter e).enterAll es := rfl
    rw [hstep, foldCount_cons]
    cases e with
    | record o =>
      obtain ⟨hnew, hids⟩ := List.nodup_cons.1 hids
      by_cases hid : o.id = id
      · subst hid
        have hs' : (b.enter (.record o)).status? o.id = some o.status := by
          simp [enter, status?_record, hs]
        obtain ⟨hlast, hcount⟩ := known_enterAll hs' hnew
        rw [told, if_pos rfl, List.destutter_cons']
        refine ⟨hlast, ?_⟩
        rw [← hcount, Nat.add_comm]
        simp [folds, Entry.order]
      · have hs' := (status?_enter_of_ne (e := .record o) hid).trans hs
        obtain ⟨hlast, hcount⟩ := ih hs' hids
        rw [told, if_neg hid]
        exact ⟨hlast, by simpa [Entry.order, hid] using hcount⟩
    | report o =>
      have hs' : (b.enter (.report o)).status? id = none := by
        simp [enter, status?_update, hs]
      have hfolds : ¬ (b.folds (.report o) = true ∧ (Entry.report o).order.id = id) := by
        rintro ⟨hf, hid⟩
        obtain rfl : o.id = id := hid
        simp [folds, hs] at hf
      obtain ⟨hlast, hcount⟩ := ih hs' hids
      refine ⟨hlast, ?_⟩
      rw [told, ← hcount, if_neg hfolds, Nat.zero_add]

/-- At no moment of its history does the book change the status of an order that has come to an
end, and it folds every order in at most once. -/
structure CountsOnce (es : List (Entry α)) : Prop where
  kept : ∀ id s earlier later, earlier <+: later → later <+: es →
    ((empty : Book α).enterAll earlier).status? id = some s → s.terminal = true →
    ((empty : Book α).enterAll later).status? id = some s
  once : ∀ id, (empty : Book α).foldCount id es ≤ 1

/-- Nothing else is said of an order after it has come to an end. -/
def Settled (l : List OrderStatus) : Prop := l.Pairwise fun s t => s.terminal = true → t = s

theorem status?_eq {es : List (Entry α)} (hids : (recorded es).Nodup) (id : Int) :
    ((empty : Book α).enterAll es).status? id = (told id es).getLast? :=
  (new_enterAll rfl hids).1

theorem folds_eq {es : List (Entry α)} (hids : (recorded es).Nodup) (id : Int) :
    (empty : Book α).foldCount id es = ((told id es).destutter (· ≠ ·)).count .filled :=
  (new_enterAll rfl hids).2

/-- Whatever is said of an order is its status at some moment. -/
theorem exists_moment {es : List (Entry α)} (hids : (recorded es).Nodup) {s : OrderStatus}
    (hs : s ∈ told id es) :
    ∃ earlier, earlier <+: es ∧ ((empty : Book α).enterAll earlier).status? id = some s := by
  induction es using List.reverseRecOn with
  | nil => cases hs
  | append_singleton es e ih =>
    have hprefix : es <+: es ++ [e] := List.prefix_append ..
    have hearlier : s ∈ told id es → ∃ earlier, earlier <+: es ++ [e] ∧
        ((empty : Book α).enterAll earlier).status? id = some s := by
      intro hs
      obtain ⟨earlier, hp, hstatus⟩ := ih (recorded_nodup_mono hprefix hids) hs
      exact ⟨earlier, hp.trans hprefix, hstatus⟩
    rcases Entry.told_concat id es e with htold | ⟨t, htold⟩
    · exact hearlier (htold ▸ hs)
    · rw [htold] at hs
      rcases List.mem_append.1 hs with hs | hs
      · exact hearlier hs
      · refine ⟨_, List.prefix_rfl, ?_⟩
        rw [status?_eq hids, htold, List.mem_singleton.1 hs]
        simp

theorem kept_of_settled {es : List (Entry α)} (hids : (recorded es).Nodup)
    (h : Settled (told id es)) {s : OrderStatus} {earlier later : List (Entry α)}
    (hp : earlier <+: later) (hp' : later <+: es)
    (hs : ((empty : Book α).enterAll earlier).status? id = some s) (ht : s.terminal = true) :
    ((empty : Book α).enterAll later).status? id = some s := by
  have hids' := recorded_nodup_mono hp' hids
  rw [status?_eq (recorded_nodup_mono hp hids')] at hs
  rw [status?_eq hids']
  obtain ⟨l, hl⟩ := List.getLast?_eq_some_iff.1 hs
  obtain ⟨l', hl'⟩ := Entry.told_mono hp id
  have hsettled : Settled (told id later) :=
    List.Pairwise.sublist (Entry.told_mono hp' id).sublist h
  rw [← hl', hl, Settled, List.pairwise_append] at hsettled
  rw [← hl', hl]
  rcases List.eq_nil_or_concat l' with rfl | ⟨l'', t, rfl⟩
  · simp
  · have hst : t = s := hsettled.2.2 s (by simp) t (by simp) ht
    rw [hst, List.concat_eq_append, ← List.append_assoc, List.getLast?_concat]

theorem settled_of_kept {es : List (Entry α)} (hids : (recorded es).Nodup)
    (h : ∀ s earlier later, earlier <+: later → later <+: es →
      ((empty : Book α).enterAll earlier).status? id = some s → s.terminal = true →
      ((empty : Book α).enterAll later).status? id = some s) :
    Settled (told id es) := by
  induction es using List.reverseRecOn with
  | nil => exact List.Pairwise.nil
  | append_singleton es e ih =>
    have hprefix : es <+: es ++ [e] := List.prefix_append ..
    have hids' := recorded_nodup_mono hprefix hids
    have hrest : Settled (told id es) := ih hids' fun s earlier later hp hp' =>
      h s earlier later hp (hp'.trans hprefix)
    rcases Entry.told_concat id es e with htold | ⟨t, htold⟩
    · rwa [htold]
    · rw [htold]
      refine List.pairwise_append.2 ⟨hrest, List.pairwise_singleton .., fun s hs u hu ht => ?_⟩
      obtain ⟨earlier, hp, hstatus⟩ := exists_moment hids' hs
      have hnow := h s earlier _ (hp.trans hprefix) List.prefix_rfl hstatus ht
      rw [status?_eq hids, htold] at hnow
      rw [List.mem_singleton.1 hu]
      simpa using hnow

theorem Settled.count_eq {s : OrderStatus} {l : List OrderStatus} (h : Settled (s :: l)) :
    (l.destutter' (· ≠ ·) s).count .filled = if .filled ∈ s :: l then 1 else 0 := by
  induction l generalizing s with
  | nil => cases s <;> rfl
  | cons t l ih =>
    obtain ⟨hs, hrest⟩ := List.pairwise_cons.1 h
    rw [List.destutter'_cons]
    split
    next hne =>
      have hsf : s ≠ .filled := by
        rintro rfl
        exact hne (hs t (List.mem_cons_self ..) rfl).symm
      rw [List.count_cons_of_ne hsf, ih hrest]
      simp [hsf.symm]
    next heq =>
      obtain rfl := of_not_not heq
      rw [ih hrest]
      simp

/-- Of an order of which nothing else is heard after it has come to an end, an execution is counted
once, and nothing else is. -/
theorem foldCount_of_settled {es : List (Entry α)} (hids : (recorded es).Nodup)
    (h : Settled (told id es)) :
    (empty : Book α).foldCount id es = if .filled ∈ told id es then 1 else 0 := by
  rw [folds_eq hids]
  rcases htold : told id es with - | ⟨s, l⟩
  · rfl
  · rw [htold] at h
    rw [List.destutter_cons', h.count_eq]

theorem countsOnce_iff {es : List (Entry α)} (hids : (recorded es).Nodup) :
    CountsOnce es ↔ ∀ id, Settled (told id es) := by
  refine ⟨fun h id => settled_of_kept hids (h.kept id), fun h => ⟨fun id s earlier later hp hp' =>
    kept_of_settled hids (h id) hp hp', fun id => ?_⟩⟩
  rw [foldCount_of_settled hids (h id)]
  split <;> omega

end Book

namespace Desk
variable {α β : Type} [Amount α] [Broker β α]

open Entry (told recorded)

/-- The book of a desk is what the broker said to it. Positions and trades are those of the orders
that were folded in, each one as often as what was heard of it became `filled`. So every order is
counted once and keeps the status with which it came to an end exactly if nothing else was heard of
it afterwards. -/
theorem fills_counted (b : β) (es : List (Event β α))
    (hids : (recorded ((ofBroker b).log es)).Nodup) :
    let log := (ofBroker b).log es
    let book := ((ofBroker b).run es).book
    book = Book.empty.enterAll log ∧
    book.SameTotals ((Book.empty.fills log).foldl Book.applyFill .empty) ∧
    (∀ id, (Book.empty : Book α).foldCount id log =
      ((told id log).destutter (· ≠ ·)).count .filled) ∧
    (Book.CountsOnce log ↔ ∀ id, Book.Settled (told id log)) := by
  have hbook : ((ofBroker b).run es).book = Book.empty.enterAll ((ofBroker b).log es) :=
    book_run (ofBroker b) es
  refine ⟨hbook, ?_, Book.folds_eq hids, Book.countsOnce_iff hids⟩
  rw [hbook]
  exact Book.sameTotals_enterAll .empty _

/-- An order to buy one coin at 100. -/
def bid (status : OrderStatus) : Order Rat where
  id := 1
  group := none
  pair := "BTCUSDT"
  side := .buy
  kind := .limit
  status := status
  price := 100
  stop := none
  quantity := 1
  created := .now
  updated := .now

/-- The order is placed and executed, and the desk asks about it. -/
def executed : List (Event (Venue Rat) Rat) :=
  [.elsewhere (·.reply [bid .new]), .call (.place (.limit .buy "BTCUSDT" 1 100)),
    .elsewhere (·.put (bid .filled)), .call (.order "BTCUSDT" 1)]

theorem log_executed :
    (ofBroker Venue.empty).log executed = [.record (bid .new), .report (bid .filled)] := by
  decide +kernel

theorem fills_counted_executed :
    (recorded ((ofBroker Venue.empty).log executed)).Nodup ∧
    Book.CountsOnce ((ofBroker Venue.empty).log executed) := by
  have hids : (recorded ((ofBroker Venue.empty).log executed)).Nodup := by
    rw [log_executed]
    decide
  refine ⟨hids, (fills_counted Venue.empty executed hids).2.2.2.2 fun id => ?_⟩
  rw [log_executed]
  by_cases hid : 1 = id <;> simp [told, Entry.later, Entry.order, bid, hid, Book.Settled,
    OrderStatus.terminal]

/-- Then the desk receives a report from before the execution, and after that the latest one. -/
def overtaken : List (Event (Venue Rat) Rat) :=
  executed ++ [.elsewhere (·.put (bid .new)), .call (.order "BTCUSDT" 1),
    .elsewhere (·.put (bid .filled)), .call .refresh]

theorem log_overtaken : (ofBroker Venue.empty).log overtaken =
    [.record (bid .new), .report (bid .filled), .report (bid .new), .report (bid .filled)] := by
  decide +kernel

/-- One order of one coin makes a position of two coins: the old report brings the order back to
rest, and the next one has it executed once more. -/
theorem fill_counted_twice :
    (recorded ((ofBroker Venue.empty).log overtaken)).Nodup ∧
    ¬ Book.CountsOnce ((ofBroker Venue.empty).log overtaken) ∧
    ((ofBroker Venue.empty).run overtaken).book.orders.map (·.id) = [1] ∧
    ((ofBroker Venue.empty).run overtaken).book.positions.get? "BTCUSDT" = some ⟨.buy, 2, 100⟩ := by
  refine ⟨by rw [log_overtaken]; decide, fun h => ?_, by decide +kernel, by decide +kernel⟩
  have hkept := h.kept 1 .filled [.record (bid .new), .report (bid .filled)]
    [.record (bid .new), .report (bid .filled), .report (bid .new)] (by decide)
  rw [log_overtaken] at hkept
  exact absurd (hkept (by decide) (by decide +kernel) rfl) (by decide +kernel)

end Desk

end Candlewick
