import Candlewick.Proofs.Desk.Mirror
import Candlewick.Proofs.Desk.Position
import Candlewick.Proofs.Wallet.OneMarket

/-! # A desk over a wallet

The wallet behind a desk changes without its knowledge: candles execute orders, executions and
withdrawals take linked orders with them, and others place and withdraw orders of their own. A run
mixes all that with calls of the desk (`Desk.Move`). At every moment of it the records of the desk
trail those of the wallet (`Desk.Trails`): the wallet has, of each order, what the record may become
(`Order.Becomes`). So a record is out of date only while it says that the order rests, and these
are the orders that a refresh asks about; after it none is (`Desk.Trails.refresh`), and the two
agree (`Desk.Trails.agrees`). -/

namespace Candlewick

namespace Desk

/-- What happens to a desk over a wallet. -/
inductive Move (α : Type) where
  /-- Something is asked of the desk. -/
  | call (c : Call α)
  /-- Something happens to the wallet: the market shows a candle, or somebody else asks for an order
  or withdraws one. -/
  | wallet (e : Wallet.Event α)

section Moves
variable {α : Type} [Amount α]

/-- A move as an event. -/
def Move.event : Move α → Event (Wallet α) α
  | .call c => .call c
  | .wallet e => .elsewhere (·.after e)

/-- The identities of the orders that a move places through the desk. -/
def placed (d : Desk (Wallet α) α) : Move α → List Int
  | .call (.place t) =>
    match Broker.place d.broker t with
    | (.ok orders, _) => orders.map (·.id)
    | (.error _, _) => []
  | _ => []

/-- The identities of the orders that are placed through the desk in a run, in this order. -/
def created (d : Desk (Wallet α) α) : List (Move α) → List Int
  | [] => []
  | m :: ms => d.placed m ++ created (d.after m.event) ms

end Moves

/-- The records of a desk are those that the wallet has now of the orders with the given identities,
and its positions are what has been bought less what has been sold by them. -/
structure Agrees (d : Desk (Wallet Rat) Rat) (ids : List Int) : Prop where
  records : d.book.orders.map some = ids.map fun id => d.broker.orders.find? (·.id = id)
  distinct : ids.Nodup
  signed : ∀ pair, d.book.signed pair =
    filledQuantity .buy pair d.book.orders - filledQuantity .sell pair d.book.orders
  notEmpty : ∀ pair, NotEmpty (d.book.positions.get? pair)

/-- The records of a desk are of the orders with the given identities, and trail those of the
wallet. -/
structure Trails (d : Desk (Wallet Rat) Rat) (ids : List Int) : Prop where
  log : d.broker.LogOk
  sized : d.broker.Sized
  records : d.book.orders.map (·.id) = ids
  distinct : ids.Nodup
  becomes : ∀ o ∈ d.book.orders, ∃ p ∈ d.broker.orders, o.Becomes p
  adds : d.book.Adds

/-- No record is out of date. -/
def Current (d : Desk (Wallet Rat) Rat) : Prop := ∀ o ∈ d.book.orders, o ∈ d.broker.orders

namespace Trails
variable {d : Desk (Wallet Rat) Rat} {ids : List Int}

theorem start (c : WalletConfig Rat) : (ofBroker (Wallet.start c)).Trails [] where
  log := Wallet.logOk_start c
  sized := by simp [Wallet.Sized, Wallet.start, ofBroker]
  records := rfl
  distinct := List.nodup_nil
  becomes := by simp [ofBroker, Book.empty]
  adds := Book.adds_empty

theorem mirrors (h : d.Trails ids) : d.Mirrors := ⟨h.log, h.records ▸ h.distinct, h.becomes⟩

/-! ### What the desk is told -/

/-- The desk takes in a report of an order that the wallet has now. -/
theorem update (h : d.Trails ids) {q : Order Rat} (hq : q ∈ d.broker.orders) :
    Trails { d with book := d.book.update q } ids where
  log := h.log
  sized := h.sized
  records := (Book.map_id_update d.book q).trans h.records
  distinct := h.distinct
  becomes := (h.mirrors.update hq).mirrors.becomes
  adds := h.adds.update (h.sized q hq) fun _ hp hid => h.mirrors.becomes_of_id hp hq hid

theorem updates (h : d.Trails ids) {qs : List (Order Rat)} (hqs : ∀ q ∈ qs, q ∈ d.broker.orders) :
    Trails { d with book := qs.foldl Book.update d.book } ids := by
  induction qs generalizing d with
  | nil => exact h
  | cons q qs ih =>
    have hfirst := h.update (hqs q (List.mem_cons_self ..))
    exact ih hfirst fun r hr => hqs r (List.mem_cons_of_mem _ hr)

/-- The wallet is replaced by a later one. -/
theorem elsewhere (h : d.Trails ids) {w : Wallet Rat} (hlog : w.LogOk) (hsized : w.Sized)
    (hextends : d.broker.Extends w) : Trails { d with broker := w } ids where
  log := hlog
  sized := hsized
  records := h.records
  distinct := h.distinct
  becomes := (h.mirrors.elsewhere hlog hextends).becomes
  adds := h.adds

/-! ### What is asked of the desk -/

theorem order (h : d.Trails ids) (pair : String) (id : Int) :
    (d.order pair id).2.Trails ids := by
  unfold Desk.order
  simp only [Broker.order]
  cases ho : d.broker.order pair id with
  | error _ => exact h
  | ok q => exact h.update (Wallet.mem_of_order_eq_ok ho)

/-- A record that does not rest is the one of the wallet already, so it is enough to ask about the
others. -/
theorem refresh (h : d.Trails ids) : d.refresh.Trails ids ∧ d.refresh.Current := by
  obtain ⟨qs, hqs, -, heq⟩ := h.mirrors.refresh_eq
  refine ⟨heq ▸ h.updates hqs, fun o ho => ?_⟩
  by_contra hnot
  exact h.mirrors.refresh.2 o ⟨ho, hnot⟩

theorem observe (h : d.Trails ids) (c : Candle Rat) : (d.observe c).Trails ids := by
  unfold Desk.observe
  split
  next => exact h.refresh.1
  next => exact h

theorem place (h : d.Trails ids) (t : Ticket Rat) :
    (d.place t).2.Trails (ids ++ d.placed (.call (.place t))) := by
  obtain ⟨hlog, hsized, hextends⟩ := Wallet.sized_after h.log h.sized (.place t)
  unfold Desk.place placed
  simp only [Wallet.after, Broker.place] at hlog hsized hextends ⊢
  cases hp : d.broker.place t with
  | error _ => simpa using h
  | ok x =>
    simp only [hp] at hlog hsized hextends ⊢
    have horders := (Wallet.step_of_place hp).2
    have hlast := h.elsewhere hlog hsized hextends
    have hmem : ∀ o ∈ x.1, o ∈ x.2.orders := fun o ho =>
      horders ▸ List.mem_append_right _ ho
    have hascending : (d.broker.orders ++ x.1).Pairwise fun a b => a.id < b.id :=
      horders ▸ hlog.ascending
    have hdistinct := h.mirrors.distinct_append hascending
    rw [List.map_append, h.records] at hdistinct
    refine ⟨hlog, hsized, ?_, hdistinct, fun o ho => ?_,
      h.adds.records fun o ho => hsized o (hmem o ho)⟩
    · rw [Book.foldl_record_orders, List.map_append, h.records]
    · rw [Book.foldl_record_orders] at ho
      rcases List.mem_append.1 ho with ho | ho
      · exact hlast.becomes o ho
      · exact ⟨o, hmem o ho, .refl o⟩

theorem cancel (h : d.Trails ids) (id : Int) :
    (d.cancel id).2.Trails ids ∧ ((d.cancel id).1 = .ok () → (d.cancel id).2.Current) := by
  obtain ⟨hlog, hsized, hextends⟩ := Wallet.sized_after h.log h.sized (.cancel id)
  unfold Desk.cancel
  simp only [Wallet.after, Broker.cancel] at hlog hsized hextends ⊢
  cases hc : d.broker.cancel id with
  | error _ => exact ⟨h, fun hok => by cases hok⟩
  | ok w =>
    simp only [hc] at hlog hsized hextends ⊢
    exact (h.elsewhere hlog hsized hextends).refresh.imp_right fun hcurrent _ => hcurrent

/-! ### Runs -/

theorem step (h : d.Trails ids) (m : Move Rat) :
    (d.after m.event).Trails (ids ++ d.placed m) := by
  cases m with
  | wallet e =>
    obtain ⟨hlog, hsized, hextends⟩ := Wallet.sized_after h.log h.sized e
    exact (List.append_nil ids).symm ▸ h.elsewhere hlog hsized hextends
  | call c =>
    cases c with
    | place t => exact h.place t
    | cancel id => exact (List.append_nil ids).symm ▸ (h.cancel id).1
    | order pair id => exact (List.append_nil ids).symm ▸ h.order pair id
    | refresh => exact (List.append_nil ids).symm ▸ h.refresh.1
    | observe c => exact (List.append_nil ids).symm ▸ h.observe c

theorem run (h : d.Trails ids) (ms : List (Move Rat)) :
    (d.run (ms.map Move.event)).Trails (ids ++ d.created ms) := by
  induction ms generalizing d ids with
  | nil => exact (List.append_nil ids).symm ▸ h
  | cons m ms ih =>
    rw [created, ← List.append_assoc]
    exact ih (h.step m)

theorem agrees (h : d.Trails ids) (hcurrent : d.Current) : d.Agrees ids where
  records := by
    rw [← h.records, List.map_map]
    refine List.map_congr_left fun o ho => ?_
    exact (h.log.ascending.find?_eq (hcurrent o ho) (by simp) (by simp)).symm
  distinct := h.distinct
  signed pair := by rw [h.adds.signed, sum_added]
  notEmpty := h.adds.notEmpty

end Trails

/-- Whatever else happens to the wallet, a refresh, a complete candle and an accepted withdrawal
bring the desk into agreement with it. -/
theorem agrees_of_run (c : WalletConfig Rat) (ms : List (Move Rat)) :
    let d := (ofBroker (Wallet.start c)).run (ms.map Move.event)
    let ids := (ofBroker (Wallet.start c)).created ms
    d.refresh.Agrees ids ∧
    (∀ candle, candle.complete = true → (d.observe candle).Agrees ids) ∧
    (∀ id, (d.cancel id).1 = .ok () → (d.cancel id).2.Agrees ids) := by
  intro d ids
  have h : d.Trails ids := (Trails.start c).run ms
  have hrefresh : d.refresh.Agrees ids := h.refresh.1.agrees h.refresh.2
  refine ⟨hrefresh, fun candle hcomplete => ?_, fun id hok => ?_⟩
  · rwa [observe, if_pos hcomplete]
  · exact (h.cancel id).1.agrees ((h.cancel id).2 hok)

/-- A bid and an offer are placed through the desk, somebody else offers as well, and a candle
executes both offers without the desk knowing. -/
def bidAndOffer : List (Move Rat) :=
  [.wallet (.candle (Wallet.bar 100 100)), .call (.place (.limit .buy "BTCUSDT" (1 / 2) 90)),
    .wallet (.place (.limit .sell "BTCUSDT" (1 / 4) 150)),
    .call (.place (.limit .sell "BTCUSDT" (1 / 2) 200)),
    .wallet (.candle (Wallet.bar 200 200))]

/-- When the bid is withdrawn the desk finds out that its offer has been executed. -/
theorem agrees_of_run_bidAndOffer :
    let d := (ofBroker (Wallet.start Wallet.oneCoin)).run (bidAndOffer.map Move.event)
    d.book.orders.map (fun o => (o.id, o.status)) = [(1, .new), (3, .new)] ∧
    (d.cancel 1).1 = .ok () ∧ (d.cancel 1).2.Agrees [1, 3] ∧
    (d.cancel 1).2.book.orders.map (fun o => (o.id, o.status)) = [(1, .canceled), (3, .filled)] ∧
    (d.cancel 1).2.book.signed "BTCUSDT" = -1 / 2 ∧
    (d.observe { Wallet.bar 200 200 with complete := true }).Agrees [1, 3] := by
  intro d
  obtain ⟨-, hobserve, hcancel⟩ := agrees_of_run Wallet.oneCoin bidAndOffer
  have hids : (ofBroker (Wallet.start Wallet.oneCoin)).created bidAndOffer = [1, 3] := by
    decide +kernel
  rw [hids] at hobserve hcancel
  have hok : (d.cancel 1).1 = .ok () := by
    cases hc : (d.cancel 1).1 with
    | ok _ => rfl
    | error _ =>
      have hisOk : (d.cancel 1).1.toBool = true := by decide +kernel
      rw [hc] at hisOk
      cases hisOk
  exact ⟨by decide +kernel, hok, hcancel 1 hok, by decide +kernel, by decide +kernel,
    hobserve _ rfl⟩

end Desk

end Candlewick
