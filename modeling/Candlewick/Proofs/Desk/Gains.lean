import Candlewick.Proofs.Desk.Position

/-! # What fills gain

What the closed trades of a pair have gained, less what its open position has cost at its average
price, is what its sales have brought in less what its purchases have taken: opening and adding only
change the cost, closing turns a part of it into a gain, and turning round does one after the other
(`foldFill_gain`). `Balances` says that of the book which some fills have been folded into, with
what else the book tells of a pair. Every fill keeps it (`Balances.fill`), so it holds after any
list of fills (`balances_of_fills`). -/

namespace Candlewick

/-- The average price of a position, nothing where none is open. -/
def averageOf (p : Option (OpenPosition Rat)) : Rat := p.elim 0 (·.average)

/-- What a position has cost; one that was sold has brought that in. -/
def costOf (p : Option (OpenPosition Rat)) : Rat := signedOf p * averageOf p

/-! ### One fill -/

theorem close_gain {p : OpenPosition Rat} {o : Order Rat} (hside : p.side ≠ o.side) :
    (p.close o).2 - costOf (p.close o).1 = -costOf (some p) - o.signed * o.price := by
  have hgain : (p.close o).2 = p.gain (min p.quantity o.quantity) o.price := by
    simp [OpenPosition.close]
  have hopposite : p.side = .buy ∧ o.side = .sell ∨ p.side = .sell ∧ o.side = .buy := by
    rcases hp : p.side with - | - <;> rcases ho : o.side with - | - <;> simp_all
  rw [hgain, OpenPosition.close_eq]
  rcases lt_trichotomy p.quantity o.quantity with hturn | hexact | hpart
  · rw [min_eq_left hturn.le, if_neg hturn.not_gt, if_pos hturn]
    rcases hopposite with ⟨hp, ho⟩ | ⟨hp, ho⟩ <;>
      simp [OpenPosition.gain, costOf, averageOf, signedOf, Order.signed, hp, ho] <;> ring
  · rw [hexact, min_self, if_neg (lt_irrefl _), if_neg (lt_irrefl _)]
    rcases hopposite with ⟨hp, ho⟩ | ⟨hp, ho⟩ <;>
      simp [OpenPosition.gain, costOf, averageOf, signedOf, Order.signed, hp, ho, hexact] <;> ring
  · rw [min_eq_right hpart.le, if_pos hpart]
    rcases hopposite with ⟨hp, ho⟩ | ⟨hp, ho⟩ <;>
      simp [OpenPosition.gain, costOf, averageOf, signedOf, Order.signed, hp, ho] <;> ring

theorem cost_grow {p : OpenPosition Rat} {o : Order Rat} (hside : p.side = o.side)
    (hp : 0 < p.quantity) (ho : 0 < o.quantity) :
    costOf (some (p.grow o)) = costOf (some p) + o.signed * o.price := by
  have hsum : p.quantity + o.quantity ≠ 0 := (add_pos hp ho).ne'
  have hshare : (p.quantity + o.quantity) *
      ((p.average * p.quantity + o.price * o.quantity) / (p.quantity + o.quantity)) =
      p.average * p.quantity + o.price * o.quantity := mul_div_cancel₀ _ hsum
  cases hs : o.side <;>
    simp only [costOf, averageOf, signedOf, OpenPosition.grow, Order.signed, hside, hs,
      Option.elim_some, neg_mul, hshare] <;> ring

/-- What a fill gains, less what is open after it has cost, is what it brings in or takes, less what
was open before it has cost. -/
theorem foldFill_gain {p : Option (OpenPosition Rat)} {o : Order Rat} (hp : NotEmpty p)
    (ho : 0 < o.quantity) :
    (foldFill p o).2.getD 0 - costOf (foldFill p o).1 = -costOf p - o.signed * o.price := by
  cases p with
  | none =>
    cases hs : o.side <;>
      simp [foldFill, costOf, averageOf, signedOf, OpenPosition.ofFill, Order.signed, hs]
  | some p =>
    by_cases hside : p.side = o.side
    · have hfold : foldFill (some p) o = (some (p.grow o), none) := if_pos hside
      rw [hfold, cost_grow hside (hp p rfl) ho, Option.getD_none]
      ring
    · have hfold : foldFill (some p) o = ((p.close o).1, some (p.close o).2) := if_neg hside
      rw [hfold, Option.getD_some, close_gain hside]

/-- A fill gains something, which may be nothing or less, where it meets a position of the other
side. -/
theorem isSome_gain (p : Option (OpenPosition Rat)) (o : Order Rat) :
    (foldFill p o).2.isSome = p.any (·.side ≠ o.side) := by
  cases p with
  | none => rfl
  | some p => by_cases hside : p.side = o.side <;> simp [foldFill, hside]

/-! ### The trades of a pair -/

namespace TradeSummary
variable {x : Rat}

theorem addTrade_win (s : TradeSummary Rat) (hx : 0 ≤ x) :
    s.addTrade x = { s with wins := s.wins ++ [x] } :=
  if_pos (decide_eq_true hx)

theorem addTrade_loss (s : TradeSummary Rat) (hx : x < 0) :
    s.addTrade x = { s with losses := s.losses ++ [x] } :=
  if_neg (by simpa using hx)

/-- The trades with the one that a fill closes, if it closes one. -/
def counting (s : TradeSummary Rat) (gain : Option Rat) : TradeSummary Rat :=
  gain.elim s s.addTrade

/-- Wins are not below zero, and losses are. -/
structure Signed (s : TradeSummary Rat) : Prop where
  wins : ∀ x ∈ s.wins, 0 ≤ x
  losses : ∀ x ∈ s.losses, x < 0

theorem Signed.counting {s : TradeSummary Rat} (hs : s.Signed) (gain : Option Rat) :
    (s.counting gain).Signed := by
  rcases gain with - | x
  · exact hs
  show (s.addTrade x).Signed
  rcases le_or_gt 0 x with hx | hx
  · rw [addTrade_win s hx]
    refine ⟨fun y hy => ?_, hs.losses⟩
    rcases List.mem_append.1 hy with hy | hy
    · exact hs.wins y hy
    · rwa [List.mem_singleton.1 hy]
  · rw [addTrade_loss s hx]
    refine ⟨hs.wins, fun y hy => ?_⟩
    rcases List.mem_append.1 hy with hy | hy
    · exact hs.losses y hy
    · rwa [List.mem_singleton.1 hy]

theorem profit_eq (s : TradeSummary Rat) : s.profit = s.wins.sum + s.losses.sum := by
  rw [profit, Amount.total_rat, Amount.total_rat]

theorem profit_counting (s : TradeSummary Rat) (gain : Option Rat) :
    (s.counting gain).profit = s.profit + gain.getD 0 := by
  rcases gain with - | x
  · exact (add_zero _).symm
  show (s.addTrade x).profit = s.profit + x
  rcases le_or_gt 0 x with hx | hx
  · rw [addTrade_win s hx]
    simp only [profit, Amount.total_rat, List.sum_append, List.sum_singleton]
    ring
  · rw [addTrade_loss s hx]
    simp only [profit, Amount.total_rat, List.sum_append, List.sum_singleton]
    ring

theorem trades_counting (s : TradeSummary Rat) (gain : Option Rat) :
    (s.counting gain).trades = s.trades + if gain.isSome then 1 else 0 := by
  rcases gain with - | x
  · rfl
  show (s.addTrade x).trades = s.trades + 1
  rcases le_or_gt 0 x with hx | hx
  · rw [addTrade_win s hx]
    simp only [trades, List.length_append, List.length_singleton]
    omega
  · rw [addTrade_loss s hx]
    simp only [trades, List.length_append, List.length_singleton]
    omega

theorem volume_counting (s : TradeSummary Rat) (gain : Option Rat) :
    (s.counting gain).volume = s.volume := by
  rcases gain with - | x
  · rfl
  show (s.addTrade x).volume = s.volume
  rcases le_or_gt 0 x with hx | hx
  · rw [addTrade_win s hx]
  · rw [addTrade_loss s hx]

end TradeSummary

/-! ### The book of some fills -/

namespace Book

/-- The book that fills are folded into, one after the other. -/
def ofFills (os : List (Order Rat)) : Book Rat := os.foldl applyFill .empty

theorem ofFills_concat (os : List (Order Rat)) (o : Order Rat) :
    ofFills (os ++ [o]) = (ofFills os).applyFill o :=
  List.foldl_concat ..

/-- The closed trades of a pair. -/
def tradesOf (b : Book Rat) (name : String) : TradeSummary Rat := b.trades.getD name (.empty name)

/-- The fills among some that meet a position of the other side. -/
def closing (b : Book Rat) : List (Order Rat) → List (Order Rat)
  | [] => []
  | o :: os =>
    (if (b.positions.get? o.pair).any (·.side ≠ o.side) then [o] else []) ++
      closing (b.applyFill o) os

theorem closing_concat (b : Book Rat) (os : List (Order Rat)) (o : Order Rat) :
    b.closing (os ++ [o]) = b.closing os ++
      if ((os.foldl applyFill b).positions.get? o.pair).any (·.side ≠ o.side) then [o] else [] := by
  induction os generalizing b with
  | nil => exact List.append_nil _
  | cons p os ih => rw [List.cons_append, closing, ih, closing, List.append_assoc]; rfl

theorem position_applyFill (b : Book Rat) (o : Order Rat) (name : String) :
    (b.applyFill o).positions.get? name =
      if name = o.pair then (foldFill (b.positions.get? o.pair) o).1
      else b.positions.get? name :=
  get?_setPosition ..

theorem tradesOf_applyFill (b : Book Rat) (o : Order Rat) (name : String) :
    (b.applyFill o).tradesOf name =
      if name = o.pair then
        ((b.tradesOf o.pair).addVolume (o.quantity * o.price)).counting
          (foldFill (b.positions.get? o.pair) o).2
      else b.tradesOf name := by
  have htrades : (b.applyFill o).trades = b.trades.set o.pair
      (((b.tradesOf o.pair).addVolume (o.quantity * o.price)).counting
        (foldFill (b.positions.get? o.pair) o).2) := by
    unfold applyFill TradeSummary.counting
    rcases foldFill (b.positions.get? o.pair) o with ⟨p, - | x⟩ <;> rfl
  rw [tradesOf, htrades, Table.getD_set]
  rfl

end Book

/-- What the fills of a pair on one side add up to. -/
def sumOn (side : Side) (name : String) (f : Order Rat → Rat) (os : List (Order Rat)) : Rat :=
  ((os.filter fun o => o.side = side && o.pair = name).map f).sum

theorem sumOn_concat (side : Side) (name : String) (f : Order Rat → Rat) (os : List (Order Rat))
    (o : Order Rat) :
    sumOn side name f (os ++ [o]) =
      sumOn side name f os + if o.side = side ∧ o.pair = name then f o else 0 := by
  by_cases ho : o.side = side ∧ o.pair = name <;> simp [sumOn, ho]

theorem net_quantity_concat (os : List (Order Rat)) (o : Order Rat) :
    sumOn .buy o.pair (·.quantity) (os ++ [o]) - sumOn .sell o.pair (·.quantity) (os ++ [o]) =
      sumOn .buy o.pair (·.quantity) os - sumOn .sell o.pair (·.quantity) os + o.signed := by
  rw [sumOn_concat, sumOn_concat, Order.signed]
  cases o.side <;> simp <;> ring

theorem net_value_concat (os : List (Order Rat)) (o : Order Rat) :
    sumOn .sell o.pair (fun o => o.quantity * o.price) (os ++ [o]) -
        sumOn .buy o.pair (fun o => o.quantity * o.price) (os ++ [o]) =
      sumOn .sell o.pair (fun o => o.quantity * o.price) os -
        sumOn .buy o.pair (fun o => o.quantity * o.price) os - o.signed * o.price := by
  rw [sumOn_concat, sumOn_concat, Order.signed]
  cases o.side <;> simp <;> ring

namespace Book

/-- What a book tells of a pair when some fills have been folded into it. -/
structure Balances (b : Book Rat) (name : String) (os : List (Order Rat)) : Prop where
  /-- What is open is what was bought less what was sold. -/
  signed : b.signed name = sumOn .buy name (·.quantity) os - sumOn .sell name (·.quantity) os
  /-- A position that is open is not empty. -/
  notEmpty : NotEmpty (b.positions.get? name)
  /-- What the trades have gained less what is open has cost is what the sales brought in less what
  the purchases took. -/
  gained : (b.tradesOf name).wins.sum + (b.tradesOf name).losses.sum -
      b.signed name * averageOf (b.positions.get? name) =
    sumOn .sell name (fun o => o.quantity * o.price) os -
      sumOn .buy name (fun o => o.quantity * o.price) os
  /-- The profit that is reported is what the trades have gained. -/
  profit : (b.tradesOf name).profit = (b.tradesOf name).wins.sum + (b.tradesOf name).losses.sum
  wins : ∀ x ∈ (b.tradesOf name).wins, 0 ≤ x
  losses : ∀ x ∈ (b.tradesOf name).losses, x < 0
  volume : (b.tradesOf name).volume =
    ((os.filter (·.pair = name)).map fun o => o.quantity * o.price).sum
  /-- Every fill that meets a position of the other side closes one trade. -/
  trades : (b.tradesOf name).trades = ((empty : Book Rat).closing os).countP (·.pair = name)

theorem balances_empty (name : String) : (ofFills []).Balances name [] where
  signed := (sub_self _).symm
  notEmpty := fun p hp => by cases hp
  gained := by simp [ofFills, empty, tradesOf, TradeSummary.empty, Book.signed, signedOf, sumOn,
    Table.getD]
  profit := TradeSummary.profit_eq _
  wins := fun x hx => by cases hx
  losses := fun x hx => by cases hx
  volume := rfl
  trades := rfl

theorem closing_ofFills (os : List (Order Rat)) (o : Order Rat) :
    (empty : Book Rat).closing (os ++ [o]) = empty.closing os ++
      if ((ofFills os).positions.get? o.pair).any (·.side ≠ o.side) then [o] else [] :=
  closing_concat empty os o

section Fill
variable {name : String} {os : List (Order Rat)} {o : Order Rat}

theorem Balances.fill_own (h : (ofFills os).Balances o.pair os) (ho : 0 < o.quantity) :
    (ofFills (os ++ [o])).Balances o.pair (os ++ [o]) := by
  have hposition := position_applyFill (ofFills os) o o.pair
  have htrades := tradesOf_applyFill (ofFills os) o o.pair
  rw [← ofFills_concat, if_pos rfl] at hposition htrades
  obtain ⟨hsigned, hopen⟩ := foldFill_signed h.notEmpty ho
  have hclosed : ((ofFills (os ++ [o])).tradesOf o.pair).Signed := by
    have hbefore : (((ofFills os).tradesOf o.pair).addVolume (o.quantity * o.price)).Signed :=
      ⟨h.wins, h.losses⟩
    rw [htrades]
    exact hbefore.counting _
  refine ⟨?_, hposition ▸ hopen, ?_, TradeSummary.profit_eq _, hclosed.wins, hclosed.losses, ?_,
    ?_⟩
  · rw [Book.signed, hposition, hsigned, net_quantity_concat, ← h.signed]
    rfl
  · have hgain := foldFill_gain h.notEmpty ho
    have hbefore : ((ofFills os).tradesOf o.pair).profit -
        costOf ((ofFills os).positions.get? o.pair) = _ := h.profit ▸ h.gained
    show _ - costOf ((ofFills (os ++ [o])).positions.get? o.pair) = _
    rw [← TradeSummary.profit_eq, htrades, TradeSummary.profit_counting, hposition,
      net_value_concat, ← hbefore]
    show ((ofFills os).tradesOf o.pair).profit + _ - _ = _
    linarith
  · rw [htrades, TradeSummary.volume_counting]
    show ((ofFills os).tradesOf o.pair).volume + _ = _
    rw [h.volume]
    simp
  · rw [htrades, TradeSummary.trades_counting, isSome_gain, closing_ofFills, List.countP_append,
      ← h.trades]
    show ((ofFills os).tradesOf o.pair).trades + _ = _
    split <;> simp

/-- A fill says nothing of any other pair. -/
theorem Balances.fill_other (h : (ofFills os).Balances name os) (hname : o.pair ≠ name) :
    (ofFills (os ++ [o])).Balances name (os ++ [o]) := by
  have hposition := position_applyFill (ofFills os) o name
  have htrades := tradesOf_applyFill (ofFills os) o name
  rw [← ofFills_concat, if_neg hname.symm] at hposition htrades
  have hsums : ∀ side f, sumOn side name f (os ++ [o]) = sumOn side name f os := fun side f => by
    rw [sumOn_concat, if_neg fun h => hname h.2, add_zero]
  have hsigned : (ofFills (os ++ [o])).signed name = (ofFills os).signed name := by
    rw [Book.signed, hposition, Book.signed]
  refine ⟨?_, hposition ▸ h.notEmpty, ?_, TradeSummary.profit_eq _, htrades ▸ h.wins,
    htrades ▸ h.losses, ?_, ?_⟩
  · rw [hsigned, hsums, hsums, h.signed]
  · rw [hsigned, hposition, htrades, hsums, hsums, h.gained]
  · rw [htrades, h.volume]
    simp [hname]
  · rw [htrades, h.trades, closing_ofFills, List.countP_append]
    split <;> simp [hname]

theorem Balances.fill (h : (ofFills os).Balances name os) (ho : 0 < o.quantity) :
    (ofFills (os ++ [o])).Balances name (os ++ [o]) := by
  by_cases hname : o.pair = name
  · subst hname
    exact h.fill_own ho
  · exact h.fill_other hname

end Fill

/-- Whatever fills of positive quantities are folded into a book, of any pairs and on any sides, it
balances on every pair. -/
theorem balances_of_fills {os : List (Order Rat)} (hos : ∀ o ∈ os, 0 < o.quantity)
    (name : String) : (ofFills os).Balances name os := by
  induction os using List.reverseRecOn with
  | nil => exact balances_empty name
  | append_singleton os o ih =>
    have hearlier := ih fun p hp => hos p (List.mem_append_left _ hp)
    exact hearlier.fill (hos o (List.mem_append_right _ (List.mem_singleton_self o)))

/-- An order that has been filled. -/
def fillOf (side : Side) (name : String) (quantity price : Rat) : Order Rat where
  id := 1
  group := none
  pair := name
  side := side
  kind := .market
  status := .filled
  price := price
  stop := none
  quantity := quantity
  created := .now
  updated := .now

/-- Two coins are bought at 100 and two at 200; six are sold at 300, which closes the four and opens
a short position of two; one of these is bought back at 400. On another pair one coin is sold. -/
def turnedShort : List (Order Rat) :=
  [fillOf .buy "BTCUSDT" 2 100, fillOf .sell "ETHUSDT" 1 50, fillOf .buy "BTCUSDT" 2 200,
    fillOf .sell "BTCUSDT" 6 300, fillOf .buy "BTCUSDT" 1 400]

/-- The four coins gain 600 and the one loses 100, and the one that is still owed was sold at 300:
800 more came in than went out. -/
theorem balances_of_fills_turnedShort :
    (∀ o ∈ turnedShort, 0 < o.quantity) ∧ (ofFills turnedShort).Balances "BTCUSDT" turnedShort ∧
    ((ofFills turnedShort).tradesOf "BTCUSDT").wins = [600] ∧
    ((ofFills turnedShort).tradesOf "BTCUSDT").losses = [-100] ∧
    (ofFills turnedShort).positions.get? "BTCUSDT" = some ⟨.sell, 1, 300⟩ := by
  have hpositive : ∀ o ∈ turnedShort, 0 < o.quantity := by decide +kernel
  exact ⟨hpositive, balances_of_fills hpositive "BTCUSDT", by decide +kernel, by decide +kernel,
    by decide +kernel⟩

end Book

end Candlewick
