import Candlewick.Desk.Book

/-! # Entries of a book

A book is written in entries: an order that was placed (`Entry.record`) and what a broker reports of
one (`Entry.report`). A report of an order that is not recorded and one that brings no other status
leave the book as it is (`Book.update_unknown`, `Book.update_same`); any other takes the place of
the record (`Book.update_other`). -/

namespace Candlewick

/-- What is entered in a book. -/
inductive Entry (α : Type) where
  /-- An order was placed. -/
  | record (o : Order α)
  /-- The broker reports of an order. -/
  | report (o : Order α)
deriving Repr, DecidableEq

/-- The order that an entry is about. -/
def Entry.order {α : Type} : Entry α → Order α
  | record o | report o => o

/-- The identities of the orders that are recorded. -/
def Entry.recorded {α : Type} : List (Entry α) → List Int
  | [] => []
  | .record o :: es => o.id :: recorded es
  | .report _ :: es => recorded es

namespace Book
variable {α : Type} [Amount α]

/-- The book with one more entry. -/
def enter (b : Book α) : Entry α → Book α
  | .record o => b.record o
  | .report o => b.update o

/-- The book with more entries. -/
def enterAll (b : Book α) (es : List (Entry α)) : Book α := es.foldl enter b

theorem enterAll_append (b : Book α) (es fs : List (Entry α)) :
    b.enterAll (es ++ fs) = (b.enterAll es).enterAll fs :=
  List.foldl_append

theorem foldl_record (b : Book α) (os : List (Order α)) :
    os.foldl record b = b.enterAll (os.map .record) := by
  rw [enterAll, List.foldl_map]
  rfl

/-! ### One entry -/

variable {b : Book α}

theorem applyIfFilled_orders (b : Book α) (o : Order α) :
    (b.applyIfFilled o).orders = b.orders := by
  unfold applyIfFilled
  split <;> rfl

theorem record_orders (b : Book α) (o : Order α) : (b.record o).orders = b.orders ++ [o] := by
  rw [record, applyIfFilled_orders]

theorem foldl_record_orders (b : Book α) (os : List (Order α)) :
    (os.foldl record b).orders = b.orders ++ os := by
  induction os generalizing b with
  | nil => exact (List.append_nil _).symm
  | cons o os ih => rw [List.foldl_cons, ih, record_orders, List.append_assoc]; rfl

theorem update_unknown {o : Order α} (h : b.orders.find? (·.id = o.id) = none) :
    b.update o = b := by
  unfold update
  rw [h]

theorem update_same {o p : Order α} (h : b.orders.find? (·.id = o.id) = some p)
    (hp : p.status = o.status) : b.update o = b := by
  unfold update
  rw [h]
  exact if_pos hp

theorem update_other {o p : Order α} (h : b.orders.find? (·.id = o.id) = some p)
    (hp : p.status ≠ o.status) :
    b.update o = { b.applyIfFilled o with orders := replaceFirst o b.orders } := by
  unfold update
  rw [h, ← applyIfFilled_orders b o]
  exact if_neg hp

omit [Amount α] in
theorem find?_replaceFirst {o p : Order α} {os : List (Order α)}
    (h : os.find? (·.id = o.id) = some p) (id : Int) :
    (replaceFirst o os).find? (·.id = id) =
      if o.id = id then some o else os.find? (·.id = id) := by
  induction os with
  | nil => cases h
  | cons q os ih =>
    unfold replaceFirst
    by_cases hq : q.id = o.id
    · by_cases ho : o.id = id <;> simp [hq, ho]
    · have hrest : os.find? (·.id = o.id) = some p := by simpa [hq] using h
      by_cases hid : q.id = id
      · have ho : ¬ o.id = id := fun heq => hq (hid.trans heq.symm)
        rw [if_neg hq]
        simp [hid, ho]
      · simp [hq, hid, ih hrest]

omit [Amount α] in
theorem replaceFirst_eq_map {o : Order α} {os : List (Order α)} (h : (os.map (·.id)).Nodup) :
    replaceFirst o os = os.map fun p => if p.id = o.id then o else p := by
  induction os with
  | nil => rfl
  | cons q os ih =>
    obtain ⟨hnot, hrest⟩ := List.nodup_cons.1 h
    unfold replaceFirst
    by_cases hq : q.id = o.id
    · have hother : ∀ p ∈ os, (if p.id = o.id then o else p) = p := fun p hp =>
        if_neg fun hid => hnot (List.mem_map.2 ⟨p, hp, hid.trans hq.symm⟩)
      simp [hq, (List.map_congr_left hother).trans (List.map_id' os)]
    · simp [hq, ih hrest]

omit [Amount α] in
theorem map_id_replaceFirst (o : Order α) (os : List (Order α)) :
    (replaceFirst o os).map (·.id) = os.map (·.id) := by
  induction os with
  | nil => rfl
  | cons p os ih =>
    unfold replaceFirst
    split
    next hid => simp [hid]
    next => simp [ih]

/-- A report changes no identity. -/
theorem map_id_update (b : Book α) (o : Order α) :
    (b.update o).orders.map (·.id) = b.orders.map (·.id) := by
  rcases hf : b.orders.find? (·.id = o.id) with - | p
  · rw [update_unknown hf]
  · by_cases hp : p.status = o.status
    · rw [update_same hf hp]
    · rw [update_other hf hp]
      exact map_id_replaceFirst o b.orders

theorem map_id_enterAll (b : Book α) (es : List (Entry α)) :
    (b.enterAll es).orders.map (·.id) = b.orders.map (·.id) ++ Entry.recorded es := by
  induction es generalizing b with
  | nil => exact (List.append_nil _).symm
  | cons e es ih =>
    have hstep : b.enterAll (e :: es) = (b.enter e).enterAll es := rfl
    rw [hstep, ih]
    cases e with
    | record o => simp [enter, record_orders, Entry.recorded]
    | report o => rw [enter, map_id_update, Entry.recorded]

end Book

end Candlewick
