import Candlewick.Proofs.Wallet.Lock

/-! # What is held back for a resting order

An order that rests was covered when it was placed, at a price that no candle executes it above
(`Admits`), and what covers it is held back for its owner (`Step.placed`). `Held P` says that every
resting order and what is held back for it satisfy `P`. It is enough to show that of what is
admitted: nothing that happens to an order changes what is held back for it as long as it rests
(`Step.held`). -/

namespace Candlewick.Wallet
variable {w w' : Wallet Rat} {pair : Pair} {P : Reservation Rat → Order Rat → Prop}

/-- An order is covered by a reservation at a price that no candle executes it above. -/
def Admits (w : Wallet Rat) (pair : Pair) (r : Reservation Rat) (o : Order Rat) : Prop :=
  0 < o.quantity ∧ ∃ top, 0 < top ∧
    w.cover o.side o.pair pair o.quantity top w.makerFee = .ok r ∧
    ∀ c price, trigger? o c = some price → 0 < price ∧ price ≤ top

/-- What is accepted has traded at the last close, or it rests on one reservation that admits it. -/
theorem Step.placed {t : Ticket Rat} (h : Step (.place t) w w') (hs : w.split? t.pair = some pair) :
    (∃ quantity price r, 0 < quantity ∧ w.lastPrice? t.pair = some price ∧
      w.cover t.side t.pair pair quantity price w.takerFee = .ok r ∧
      w' = (w.execute t.side t.pair pair quantity price w.takerFee).log (w.lastId + 1)
        [{ w.newOrder (w.lastId + 1) t.side t.pair .market quantity price with
          status := .filled }]) ∨
    ∃ r id os, os ≠ [] ∧ w' = (w.reserve (w.lastId + 1) r).log id os ∧
      ∀ o ∈ os, o.status = .new ∧ owner o = w.lastId + 1 ∧ o.pair = t.pair ∧ w.Admits pair r o := by
  have hpair : ∀ {p}, w.split? t.pair = some p → p = pair := fun hp =>
    Option.some.inj (hp.symm.trans hs)
  cases h with
  | @trade _ _ quantity price p r hq hp hlast hc =>
    obtain rfl := hpair hp
    exact .inl ⟨quantity, price, r, by simpa using hq, hlast, hc, rfl⟩
  | @rest _ _ _ quantity price _ p r hq hprice hst hp hc =>
    obtain rfl := hpair hp
    have hprice : 0 < price := by simpa using hprice
    refine .inr ⟨r, _, _, List.cons_ne_nil _ _, rfl, fun o ho => ?_⟩
    obtain rfl := List.mem_singleton.1 ho
    refine ⟨rfl, rfl, rfl, by simpa [newOrder] using hq, price, hprice, hc, fun c x hx => ?_⟩
    have hx : x = price := (price_of_trigger hx).elim (·.2) (·.2.trans hst)
    exact ⟨hx ▸ hprice, hx.le⟩
  | @link _ _ quantity price stop stopLimit p r hq hprice hstop hp hc =>
    obtain rfl := hpair hp
    rw [Amount.max_rat] at hc
    have hprice : 0 < price := by simpa using hprice
    have hstop : 0 < stop := by simpa using hstop
    have hq : 0 < quantity := by simpa using hq
    refine .inr ⟨r, _, _, List.cons_ne_nil _ _, rfl, fun o ho => ?_⟩
    have htop : 0 < max price stop := lt_max_of_lt_left hprice
    rcases List.mem_pair.1 ho with rfl | rfl
    · refine ⟨rfl, rfl, rfl, hq, _, htop, hc, fun c x hx => ?_⟩
      have hx : x = price := (price_of_trigger hx).elim (·.2) (·.2)
      exact ⟨hx ▸ hprice, hx.trans_le (le_max_left ..)⟩
    · refine ⟨rfl, rfl, rfl, hq, _, htop, hc, fun c x hx => ?_⟩
      have hx : x = stop := (price_of_trigger hx).elim (fun h => by cases h.1) (·.2)
      exact ⟨hx ▸ hstop, hx.trans_le (le_max_right ..)⟩

/-- Every resting order and what is held back for it satisfy `P`. -/
def Held (P : Reservation Rat → Order Rat → Prop) (w : Wallet Rat) : Prop :=
  ∀ o ∈ w.orders, o.status = .new → ∀ r, w.reservations.get? (owner o) = some r → P r o

namespace Held

theorem of_eq (hw : Held P w) (hres : w'.reservations = w.reservations)
    (hmem : ∀ o ∈ w'.orders, o.status = .new → o ∈ w.orders) : Held P w' := by
  intro o ho hn r hr
  rw [hres] at hr
  exact hw o (hmem o ho hn) hn r hr

theorem reserve (hw : Held P w) {k id : Int} {r : Reservation Rat} {os : List (Order Rat)}
    (hk : ∀ o ∈ w.orders, owner o ≠ k) (hos : ∀ o ∈ os, owner o = k ∧ P r o) :
    Held P ((w.reserve k r).log id os) := by
  intro o ho hn x hx
  have hx : (w.reservations.set k r).get? (owner o) = some x := hx
  rw [Table.get?_set] at hx
  rcases List.mem_append.1 (show o ∈ w.orders ++ os from ho) with ho | ho
  · rw [if_neg (hk o ho)] at hx
    exact hw o ho hn x hx
  · rw [if_pos (hos o ho).1] at hx
    exact Option.some.inj hx ▸ (hos o ho).2

theorem settle (hw : Held P w) {k : Int} {f : Order Rat → Order Rat}
    (hres : w'.reservations = (w.release k).reservations) (horders : w'.orders = w.orders.map f)
    (hf : ∀ p ∈ w.orders, p.Becomes (f p)) : Held P w' := by
  intro o ho hn r hr
  rw [horders] at ho
  obtain ⟨p, hp, rfl⟩ := List.mem_map.1 ho
  have hkept := (hf p hp).kept hn
  rw [hkept] at hn hr ⊢
  refine hw p hp hn r ?_
  rw [hres, release_reservations] at hr
  split at hr
  · rw [Table.get?_erase] at hr
    split at hr
    · cases hr
    · exact hr
  · exact hr

end Held

/-- What holds of all that is admitted holds of all that rests. -/
theorem Step.held {e : Event Rat} (h : Step e w w') (hlog : w.LogOk)
    (hadmits : ∀ t pair r o, e = .place t → w.split? t.pair = some pair → o.pair = t.pair →
      w.Admits pair r o → P r o)
    (hw : Held P w) : Held P w' := by
  have hplace : ∀ t pair, e = .place t → w.split? t.pair = some pair → Held P w' := by
    rintro t pair rfl hs
    rcases h.placed hs with ⟨_, _, _, _, _, _, rfl⟩ | ⟨r, id, os, -, rfl, hos⟩
    · refine hw.of_eq (by simp [log]) fun o ho hn => ?_
      rw [show Wallet.orders _ = _ ++ [_] from rfl, execute_orders] at ho
      rcases List.mem_append.1 ho with ho | ho
      · exact ho
      · rw [List.mem_singleton.1 ho] at hn
        cases hn
    · refine hw.reserve (fun _ => hlog.owner_ne_next) fun o ho => ?_
      obtain ⟨-, howner, hpair, hadm⟩ := hos o ho
      exact ⟨howner, hadmits t pair r o rfl hs hpair hadm⟩
  cases h with
  | trade hq hs => exact hplace _ _ rfl hs
  | rest hq hp hst hs => exact hplace _ _ rfl hs
  | link hq hp hst hs => exact hplace _ _ rfl hs
  | withdraw => exact hw.settle rfl rfl fun p _ => becomes_withdrawn ..
  | note => exact hw
  | fill ho hr hn ht hs =>
    exact hw.settle (reservations_fill hs ..) (orders_fill hs ..)
      fun p hp => becomes_filled hlog.ascending ho hr hp ..
  | mark => exact hw

end Candlewick.Wallet
