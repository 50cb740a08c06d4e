import Candlewick.Desk.Basic
import Candlewick.Proofs.Desk.Book

/-! # Runs of a desk

A run is a list of events: calls of the desk, and changes of the broker of which the desk learns
nothing (`Desk.run`). All that a run does to the book
is to enter what the broker says, that an order was placed or what has become of one; `Desk.log`
tells these entries in their order, and `Desk.book_run` that the book is made of them. -/

namespace Candlewick

namespace Desk

/-- What is asked of a desk. -/
inductive Call (α : Type) where
  /-- To place an order. -/
  | place (ticket : Ticket α)
  /-- To withdraw an order. -/
  | cancel (id : Int)
  /-- To say what has become of an order. -/
  | order (pair : String) (id : Int)
  /-- To find out about all orders that were last seen resting. -/
  | refresh
  /-- To react to a candle. -/
  | observe (c : Candle α)

/-- What happens to a desk. -/
inductive Event (β α : Type) where
  /-- Something is asked of it. -/
  | call (c : Call α)
  /-- Something happens to the broker behind it. -/
  | elsewhere (change : β → β)

variable {α β : Type} [Amount α] [Broker β α]

/-- The desk after a call. -/
def answer (d : Desk β α) : Call α → Desk β α
  | .place t => (d.place t).2
  | .cancel id => (d.cancel id).2
  | .order pair id => (d.order pair id).2
  | .refresh => d.refresh
  | .observe c => d.observe c

/-- The desk after an event. -/
def after (d : Desk β α) : Event β α → Desk β α
  | .call c => d.answer c
  | .elsewhere change => { d with broker := change d.broker }

/-- The desk after a list of events. -/
def run (d : Desk β α) (es : List (Event β α)) : Desk β α := es.foldl after d

/-! ### Entries -/

/-- What is entered when the broker is asked about an order. -/
def heard (d : Desk β α) (pair : String) (id : Int) : List (Entry α) :=
  match Broker.order d.broker pair id with
  | (.ok o, _) => [.report o]
  | (.error _, _) => []

/-- What is entered when the broker is asked about some orders. -/
def heardAll (d : Desk β α) : List (Order α) → List (Entry α)
  | [] => []
  | o :: os => d.heard o.pair o.id ++ heardAll (d.order o.pair o.id).2 os

/-- What is entered in a refresh. -/
def refreshed (d : Desk β α) : List (Entry α) := d.heardAll (d.book.orders.filter (·.resting))

/-- What is entered in a call. -/
def entries (d : Desk β α) : Call α → List (Entry α)
  | .place t =>
    match Broker.place d.broker t with
    | (.ok orders, _) => orders.map .record
    | (.error _, _) => []
  | .cancel id =>
    match Broker.cancel d.broker id with
    | (.ok (), broker) => refreshed { d with broker }
    | (.error _, _) => []
  | .order pair id => d.heard pair id
  | .refresh => d.refreshed
  | .observe c => if c.complete then d.refreshed else []

/-- What is entered in a run. -/
def log (d : Desk β α) : List (Event β α) → List (Entry α)
  | [] => []
  | .call c :: es => d.entries c ++ log (d.answer c) es
  | .elsewhere change :: es => log { d with broker := change d.broker } es

theorem book_order (d : Desk β α) (pair : String) (id : Int) :
    (d.order pair id).2.book = d.book.enterAll (d.heard pair id) := by
  unfold order heard
  rcases Broker.order d.broker pair id with ⟨_ | o, broker⟩ <;> rfl

theorem book_foldl_order (d : Desk β α) (os : List (Order α)) :
    (os.foldl (fun d o => (d.order o.pair o.id).2) d).book = d.book.enterAll (d.heardAll os) := by
  induction os generalizing d with
  | nil => rfl
  | cons o os ih => rw [List.foldl_cons, ih, book_order, heardAll, Book.enterAll_append]

theorem book_refresh (d : Desk β α) : d.refresh.book = d.book.enterAll d.refreshed :=
  book_foldl_order d _

theorem book_answer (d : Desk β α) (c : Call α) :
    (d.answer c).book = d.book.enterAll (d.entries c) := by
  cases c with
  | place t =>
    simp only [answer, place, entries]
    rcases Broker.place d.broker t with ⟨_ | os, broker⟩
    · rfl
    · exact Book.foldl_record d.book os
  | cancel id =>
    simp only [answer, cancel, entries]
    rcases Broker.cancel d.broker id with ⟨_ | _, broker⟩
    · rfl
    · exact book_refresh _
  | order pair id => exact book_order d pair id
  | refresh => exact book_refresh d
  | observe c =>
    simp only [answer, observe, entries]
    split
    · exact book_refresh d
    · rfl

/-- A run enters its log in the book, and nothing else. -/
theorem book_run (d : Desk β α) (es : List (Event β α)) :
    (d.run es).book = d.book.enterAll (d.log es) := by
  induction es generalizing d with
  | nil => rfl
  | cons e es ih =>
    have hrun : d.run (e :: es) = (d.after e).run es := rfl
    rw [hrun, ih]
    cases e with
    | call c => rw [log, Book.enterAll_append, ← book_answer, after]
    | elsewhere change => rfl

end Desk

end Candlewick
