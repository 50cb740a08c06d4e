import Candlewick.Proofs.Wallet.Lock

/-! # One market without fees

Runs in which all orders and candles are on one pair with two different sides, in a wallet that pays
no fees (`OneMarket`). The terms of a wallet never change, so this is kept by every step
(`Step.oneMarket`), and executions do to the two sides what `OneMarket.free_quote_execute` and
`OneMarket.free_asset_execute` say. -/

namespace Candlewick.Wallet

/-- Everything that an event names a pair for is on the pair of that name. -/
def Event.On {α : Type} (name : String) : Event α → Prop
  | .place t => t.pair = name
  | .cancel _ => True
  | .candle c => c.pair = name

/-- A candle closes at a positive price. -/
def Event.Priced : Event Rat → Prop
  | .candle c => 0 < c.close
  | _ => True

theorem Step.terms {α : Type} [Amount α] {e : Event α} {w w' : Wallet α} (h : Step e w w') :
    w'.base = w.base ∧ w'.makerFee = w.makerFee ∧ w'.takerFee = w.takerFee := by
  cases h with
  | trade => simp [log]
  | rest => exact ⟨rfl, rfl, rfl⟩
  | link => exact ⟨rfl, rfl, rfl⟩
  | withdraw => simp
  | note => exact ⟨rfl, rfl, rfl⟩
  | fill ho hr hn ht hs => simp [fill_eq hs]
  | mark => exact ⟨rfl, rfl, rfl⟩

theorem split?_congr {α : Type} {w w' : Wallet α} (h : w'.base = w.base) (name : String) :
    w'.split? name = w.split? name := by
  unfold split?
  rw [h]

/-- A wallet without fees in which a name stands for two different sides. -/
structure OneMarket (name : String) (pair : Pair) (w : Wallet Rat) : Prop where
  split : w.split? name = some pair
  apart : pair.asset ≠ pair.quote
  makerFee : w.makerFee = 0
  takerFee : w.takerFee = 0

theorem Step.oneMarket {name : String} {pair : Pair} {e : Event Rat} {w w' : Wallet Rat}
    (h : Step e w w') (hw : OneMarket name pair w) : OneMarket name pair w' := by
  obtain ⟨hbase, hmaker, htaker⟩ := h.terms
  exact ⟨(split?_congr hbase name).trans hw.split, hw.apart, hmaker.trans hw.makerFee,
    htaker.trans hw.takerFee⟩

namespace OneMarket
variable {name : String} {pair : Pair} {w : Wallet Rat}

theorem pair_eq (hw : OneMarket name pair w) {p : Pair} (h : w.split? name = some p) : p = pair :=
  Option.some.inj (h.symm.trans hw.split)

end OneMarket

/-- Only positive quantities are asked for. -/
def Sized (w : Wallet Rat) : Prop := ∀ o ∈ w.orders, 0 < o.quantity

theorem Step.sized {e : Event Rat} {w w' : Wallet Rat} (h : Step e w w') (hw : Sized w) :
    Sized w' := by
  have happend : ∀ {os}, (∀ o ∈ os, 0 < o.quantity) → ∀ o ∈ w.orders ++ os, 0 < o.quantity :=
    fun hos o ho => (List.mem_append.1 ho).elim (hw o) (hos o)
  cases h with
  | trade hq =>
    intro o ho
    rw [show Wallet.orders _ = _ ++ [_] from rfl, execute_orders] at ho
    exact happend (by simpa [newOrder] using hq) o ho
  | rest hq => exact happend (by simpa [newOrder] using hq)
  | link hq => exact happend (by simpa [newOrder] using hq)
  | withdraw =>
    intro o ho
    obtain ⟨p, hp, rfl⟩ := List.mem_map.1 ho
    rw [(becomes_withdrawn ..).quantity]
    exact hw p hp
  | note => exact hw
  | fill ho hr hn ht hs =>
    intro o ho
    rw [orders_fill hs] at ho
    obtain ⟨p, hp, rfl⟩ := List.mem_map.1 ho
    rw [quantity_filled]
    exact hw p hp
  | mark => exact hw

/-- Whatever happens to a wallet keeps its log in order and its quantities positive, and extends the
log. -/
theorem sized_after {w : Wallet Rat} (hw : w.LogOk) (hs : w.Sized) (e : Event Rat) :
    (w.after e).LogOk ∧ (w.after e).Sized ∧ w.Extends (w.after e) :=
  induction_of_steps (P := fun _ => True) (I := fun v => v.LogOk ∧ v.Sized ∧ w.Extends v)
    (fun _ _ _ _ hstep h => ⟨hstep.logOk h.1, hstep.sized h.2.1, h.2.2.trans (hstep.extends h.1)⟩)
    trivial (steps_of_after hw.ascending e) ⟨hw, hs, .refl w⟩

/-! ### A small market -/

/-- A candle of `BTCUSDT` that never leaves its close but for a high. -/
def bar (close high : Rat) : Candle Rat :=
  { (default : Candle Rat) with pair := "BTCUSDT", opening := close, high, low := close, close }

/-- One `BTC` and a hundred `USDT`, in which values are reckoned, without fees. -/
def oneCoin : WalletConfig Rat := ⟨"USDT", .ofList [("BTC", 1), ("USDT", 100)], 0, 0⟩

theorem oneMarket_oneCoin : OneMarket "BTCUSDT" ⟨"BTC", "USDT"⟩ (start oneCoin) where
  split := by decide +kernel
  apart := by decide
  makerFee := rfl
  takerFee := rfl

theorem oneCoin_nonneg : ∀ k x, oneCoin.assets.get? k = some x → 0 ≤ x := by
  intro k x hx
  have hmem := Table.mem_of_get?_ofList hx
  simp only [List.mem_cons, Prod.mk.injEq, List.not_mem_nil, or_false] at hmem
  rcases hmem with ⟨-, rfl⟩ | ⟨-, rfl⟩ <;> decide

/-- The one coin is offered at 200 while the market is at 100. -/
def offered : List (Event Rat) := [.candle (bar 100 100), .place (.limit .sell "BTCUSDT" 1 200)]

theorem offered_on_priced : ∀ e ∈ offered, e.On "BTCUSDT" ∧ e.Priced := by
  simp [offered, Event.On, Event.Priced, bar, Ticket.pair]

end Candlewick.Wallet
