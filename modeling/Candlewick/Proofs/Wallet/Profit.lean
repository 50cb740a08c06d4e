import Candlewick.Proofs.Wallet.Equity
import Candlewick.Proofs.Wallet.Reconciliation
import Candlewick.Proofs.Wallet.TradeValue

/-! # The profit of a wallet that only holds

A wallet none of whose orders is ever filled holds at the end what it held at the start, so the
closes alone decide what it is worth. Its profit is counted from the value at the first candle,
when only the pair of that candle has a close: what is held of a pair that shows up later is not
in it. So the profit is what the moves of the closes brought (`moves`) and, on top of it, what is
held of the later pairs at their first closes (`arrivals`).

`Step.shown` says once which steps touch what the market has shown; how the closes and the list of
values grow along a run follows from it. -/

namespace Candlewick.Wallet

/-! ### What the market has shown -/

section Shown
variable {α : Type}

/-- The pairs that were seen, in the order of their first candles. -/
def seen (w : Wallet α) : List String := w.first.keys

variable [Amount α] {e : Event α} {w w' : Wallet α}

theorem fill_shown (w : Wallet α) (o : Order α) (price : α) (time : Instant) :
    (w.fill o price time).first = w.first ∧ (w.fill o price time).last = w.last ∧
      (w.fill o price time).marks = w.marks := by
  cases hs : w.split? o.pair with
  | none => simp [fill, hs]
  | some pair =>
    rw [fill_eq hs, execute_frame, release_frame]
    exact ⟨rfl, rfl, rfl⟩

/-- A step leaves alone what the market has shown, unless it is one of two things a candle does. -/
theorem Step.shown (h : Step e w w') :
    (w'.first = w.first ∧ w'.last = w.last ∧ w'.marks = w.marks) ∨
      ∃ c, e = .candle c ∧ (w' = w.note c ∨ w' = w.markToMarket c.time) := by
  cases h with
  | trade => exact .inl (by simp only [log]; rw [execute_frame]; exact ⟨rfl, rfl, rfl⟩)
  | rest => exact .inl ⟨rfl, rfl, rfl⟩
  | link => exact .inl ⟨rfl, rfl, rfl⟩
  | withdraw => exact .inl (by rw [release_frame]; exact ⟨rfl, rfl, rfl⟩)
  | note => exact .inr ⟨_, rfl, .inl rfl⟩
  | fill => exact .inl (fill_shown ..)
  | mark => exact .inr ⟨_, rfl, .inr rfl⟩

/-- From `w` to `w'` no pair loses its first close or its place, and no value that was written down
is lost. -/
structure Shows (w w' : Wallet α) : Prop where
  first : w.first.entries <+: w'.first.entries
  marks : w.marks <:+ w'.marks

theorem Step.shows (h : Step e w w') : w.Shows w' := by
  rcases h.shown with ⟨hfirst, -, hmarks⟩ | ⟨c, -, rfl | rfl⟩
  · exact ⟨hfirst ▸ List.prefix_rfl, hmarks ▸ List.suffix_rfl⟩
  · refine ⟨?_, List.suffix_rfl⟩
    show w.first.entries <+: (w.first.setNew c.pair c.close).entries
    by_cases hc : c.pair ∈ w.first.keys
    · rw [Table.setNew_of_mem _ hc]
    · rw [Table.entries_setNew _ hc]
      exact List.prefix_append ..
  · exact ⟨List.prefix_rfl, List.suffix_cons ..⟩

/-- The pairs that have a first close are those that have a last one. -/
theorem Step.first_keys (h : Step e w w') (hw : w.first.keys = w.last.keys) :
    w'.first.keys = w'.last.keys := by
  rcases h.shown with ⟨hfirst, hlast, -⟩ | ⟨c, -, rfl | rfl⟩
  · rw [hfirst, hlast, hw]
  · show (w.first.setNew c.pair c.close).keys = (w.last.set c.pair _).keys
    rw [Table.keys_setNew, Table.keys_set, hw]
  · exact hw

theorem shows_run {w : Wallet α} (hw : w.LogOk) (es : List (Event α)) : w.Shows (w.run es) :=
  (run_induction (P := fun _ => True) (I := fun v => v.LogOk ∧ w.Shows v) (fun _ h => h.1.ascending)
    (fun _ _ _ _ hs h => ⟨hs.logOk h.1, h.2.first.trans hs.shows.first,
      h.2.marks.trans hs.shows.marks⟩)
    (fun _ _ => trivial) ⟨hw, List.prefix_rfl, List.suffix_rfl⟩).2

theorem first_keys_run (c : WalletConfig α) (es : List (Event α)) :
    ((start c).run es).seen = ((start c).run es).last.keys :=
  (run_induction (P := fun _ => True) (I := fun v => v.LogOk ∧ v.first.keys = v.last.keys)
    (fun _ h => h.1.ascending) (fun _ _ _ _ hs h => ⟨hs.logOk h.1, hs.first_keys h.2⟩)
    (fun _ _ => trivial) ⟨logOk_start c, rfl⟩).2

/-- Without a candle nothing is shown. -/
theorem unseen_run (c : WalletConfig α) {es : List (Event α)} (h : ∀ e ∈ es, ∀ k, e ≠ .candle k) :
    ((start c).run es).first.entries = [] ∧ ((start c).run es).marks = [] :=
  (run_induction (P := fun e => ∀ k, e ≠ .candle k)
    (I := fun v => v.LogOk ∧ v.first.entries = [] ∧ v.marks = []) (fun _ h => h.1.ascending)
    (fun e v v' he hs hv => by
      refine ⟨hs.logOk hv.1, ?_⟩
      rcases hs.shown with ⟨hfirst, -, hmarks⟩ | ⟨k, hk, -⟩
      · rw [hfirst, hmarks]
        exact hv.2
      · exact absurd hk (he k))
    h ⟨logOk_start c, rfl, rfl⟩).2

theorem midway_shown (w : Wallet α) (k : Candle α) (n : Nat) :
    (w.midway k n).first = (w.note k).first ∧ (w.midway k n).last = (w.note k).last ∧
      (w.midway k n).marks = w.marks := by
  have hfold : ∀ (os : List (Order α)) (v : Wallet α),
      (os.foldl (tryFill k) v).first = v.first ∧ (os.foldl (tryFill k) v).last = v.last ∧
        (os.foldl (tryFill k) v).marks = v.marks := by
    intro os
    induction os with
    | nil => exact fun v => ⟨rfl, rfl, rfl⟩
    | cons o os ih =>
      intro v
      obtain ⟨hfirst, hlast, hmarks⟩ := ih (tryFill k v o)
      rcases tryFill_eq_or v k o with heq | ⟨price, -, -, heq⟩
      · rw [heq] at hfirst hlast hmarks
        rw [List.foldl_cons, heq]
        exact ⟨hfirst, hlast, hmarks⟩
      · obtain ⟨hfirst', hlast', hmarks'⟩ := fill_shown v o price k.time
        rw [heq] at hfirst hlast hmarks
        rw [List.foldl_cons, heq]
        exact ⟨hfirst.trans hfirst', hlast.trans hlast', hmarks.trans hmarks'⟩
  exact hfold _ (w.note k)

/-- The first candle is all that is shown after it, and it is valued if it is complete. -/
theorem observe_first {w : Wallet α} (hfirst : w.first.entries = []) (hmarks : w.marks = [])
    {k : Candle α} (hk : k.complete = true) :
    (w.observe k).first.entries = [(k.pair, k.close)] ∧
      (w.observe k).lastPrice? k.pair = some k.close ∧ ∃ m, (w.observe k).marks = [m] := by
  obtain ⟨hfirst', hlast', hmarks'⟩ := midway_shown w k (w.touched k).length
  rw [observe_eq]
  dsimp only
  rw [if_pos hk]
  refine ⟨?_, ?_, ?_⟩
  · show (w.midway k _).first.entries = _
    rw [hfirst']
    have hnew : k.pair ∉ w.first.keys := by simp [Table.keys, hfirst]
    exact (Table.entries_setNew _ hnew).trans (by rw [hfirst]; rfl)
  · show ((w.midway k _).last.get? k.pair).map _ = _
    rw [hlast']
    simp [note, Table.get?_set]
  · exact ⟨_, congrArg (List.cons _) (hmarks'.trans hmarks)⟩

end Shown

/-! ### What is held, at the first and at the last closes -/

/-- What is held of the asset of a pair. -/
def heldOn (w : Wallet Rat) (name : String) : Rat :=
  (w.split? name).elim 0 fun p => (w.holding p.asset).total

/-- The first close of a pair. -/
def firstClose (w : Wallet Rat) (name : String) : Rat := w.first.getD name 0

/-- The last close of a pair. -/
def lastClose (w : Wallet Rat) (name : String) : Rat := (w.lastPrice? name).getD 0

/-- What the closes of all pairs brought by their moves since the first ones. -/
def moves (w : Wallet Rat) : Rat :=
  (w.seen.map fun name => w.heldOn name * (w.lastClose name - w.firstClose name)).sum

/-- What is held of all pairs but the one that was seen first, at their first closes. -/
def arrivals (w : Wallet Rat) : Rat :=
  (w.seen.tail.map fun name => w.heldOn name * w.firstClose name).sum

theorem valueOn_of_held {w : Wallet Rat} {name : String} (hseen : name ∈ w.last.keys)
    (hheld : ∀ a, 0 ≤ (w.holding a).total) : w.valueOn name = w.heldOn name * w.lastClose name := by
  obtain ⟨m, hm⟩ := Table.mem_keys_iff.1 hseen
  unfold valueOn heldOn lastClose lastPrice?
  rw [hm]
  cases w.split? name with
  | none => simp
  | some p => exact holdingValue_of_nonneg w name (hheld p.asset) m.value

/-- With nothing owed, the final value is what is held at the last closes. -/
theorem finalValue_of_held {w : Wallet Rat} (hkeys : w.seen = w.last.keys)
    (hheld : ∀ a, 0 ≤ (w.holding a).total) :
    w.summary.finalValue =
      (w.seen.map fun name => w.heldOn name * w.lastClose name).sum + w.baseBalance := by
  have hnodup : w.seen.Nodup := w.first.distinct
  rw [finalValue_eq, ← hkeys, List.sum_toFinset _ hnodup]
  refine congrArg (·.sum + w.baseBalance) (List.map_congr_left fun name hname => ?_)
  exact valueOn_of_held (hkeys ▸ hname) hheld

/-- As long as nothing is filled, what is held of an asset is what was held at the start. -/
theorem total_of_unfilled {c : WalletConfig Rat} {es : List (Event Rat)}
    (h : ((start c).run es).executed = []) (a : String) :
    (((start c).run es).holding a).total = ((start c).holding a).total := by
  have htotal := (reconciles_run c es).total a (by simp [h])
  simpa [filledOf, h] using htotal

/-- What is not filled at the end was not filled before. -/
theorem unfilled_of_append {c : WalletConfig Rat} {es fs : List (Event Rat)}
    (h : ((start c).run (es ++ fs)).executed = []) : ((start c).run es).executed = [] := by
  have hlog : ((start c).run es).LogOk := ((logOk_start c).run es).1
  rw [run_append] at h
  refine List.eq_nil_iff_forall_not_mem.2 fun o ho => ?_
  obtain ⟨hmem, hfilled⟩ := List.mem_filter.1 ho
  obtain ⟨i, hi⟩ := List.getElem?_of_mem hmem
  obtain ⟨p, hp, hbecomes⟩ := (hlog.run fs).2 i o hi
  have hsame : p = o := hbecomes.settled (by simpa using fun hn => by simp [hn] at hfilled)
  have hlater : o ∈ (((start c).run es).run fs).executed :=
    List.mem_filter.2 ⟨hsame ▸ List.mem_of_getElem? hp, hfilled⟩
  rw [h] at hlater
  cases hlater

theorem total_nonneg_of_unfilled {c : WalletConfig Rat} {es : List (Event Rat)}
    (hfunds : ∀ k x, c.assets.get? k = some x → 0 ≤ x) (h : ((start c).run es).executed = [])
    (a : String) : 0 ≤ (((start c).run es).holding a).total := by
  rw [total_of_unfilled h]
  obtain ⟨x, hx, -⟩ := holding_start c a
  have hfree := free_start_nonneg hfunds a
  rw [hx] at hfree ⊢
  simpa [Holding.total, Amount.zero_rat] using hfree

/-- The last closes are the first ones and the moves since then. -/
theorem moves_add_first (w : Wallet Rat) :
    w.moves + (w.seen.map fun name => w.heldOn name * w.firstClose name).sum =
      (w.seen.map fun name => w.heldOn name * w.lastClose name).sum := by
  rw [moves, ← List.sum_map_add]
  refine congrArg List.sum (List.map_congr_left fun name _ => ?_)
  ring

/-! ### The value at the first candle -/

theorem exists_first_candle {α : Type} (es : List (Event α)) :
    (∀ e ∈ es, ∀ k, e ≠ .candle k) ∨
      ∃ fs k gs, es = fs ++ .candle k :: gs ∧ ∀ e ∈ fs, ∀ k, e ≠ .candle k := by
  induction es with
  | nil => exact .inl (by simp)
  | cons e es ih =>
    by_cases he : ∃ k, e = .candle k
    · obtain ⟨k, rfl⟩ := he
      exact .inr ⟨[], k, es, rfl, by simp⟩
    · have he := not_exists.1 he
      rcases ih with h | ⟨fs, k, gs, rfl, h⟩
      · exact .inl (List.forall_mem_cons.2 ⟨he, h⟩)
      · exact .inr ⟨e :: fs, k, gs, rfl, List.forall_mem_cons.2 ⟨he, h⟩⟩

section FirstCandle
variable {c : WalletConfig Rat} {fs : List (Event Rat)} {k : Candle Rat}
  (hquiet : ∀ e ∈ fs, ∀ k, e ≠ .candle k) (hk : k.complete = true)
include hquiet hk

/-- After the first candle, its close is all that is shown, and one value is written down. -/
theorem shown_first :
    let v := (start c).run (fs ++ [.candle k])
    v.first.entries = [(k.pair, k.close)] ∧ v.lastClose k.pair = k.close ∧
      v.marks = [⟨k.time, v.worth⟩] := by
  intro v
  have hv : v = ((start c).run fs).observe k := run_append ..
  obtain ⟨hfirst, hmarks⟩ := unseen_run c hquiet
  obtain ⟨hvfirst, hvlast, m, hm⟩ := observe_first hfirst hmarks hk
  have hmarkets : v.MarketsOk := marketsOk_run c _
  have hequity := equity_observe (hv ▸ hmarkets) hk
  rw [← hv] at hvfirst hvlast hm hequity
  rw [equity, hm, List.reverse_singleton, List.getLast?_singleton] at hequity
  exact ⟨hvfirst, by rw [lastClose, hvlast]; rfl, hm.trans (congrArg (fun m => [m])
    (Option.some.inj hequity))⟩

/-- The profit is counted from what the account is worth after the first candle. -/
theorem initialValue_run (gs : List (Event Rat)) :
    let v := (start c).run (fs ++ [.candle k])
    (v.run gs).summary.initialValue = v.worth := by
  intro v
  obtain ⟨-, -, hmarks⟩ := shown_first (c := c) hquiet hk
  have hlog : v.LogOk := ((logOk_start c).run _).1
  obtain ⟨ms, hms⟩ := (shows_run hlog gs).marks
  rw [show v.marks = [⟨k.time, v.worth⟩] from hmarks] at hms
  simp [summary, equity, ← hms]

/-- After one complete candle of a market the account is worth what is held there and the base coin
besides. -/
theorem worth_first (hfunds : ∀ k x, c.assets.get? k = some x → 0 ≤ x)
    (hpair : ∃ a, a ≠ (start c).base ∧ (start c).split? k.pair = some ⟨a, (start c).base⟩)
    (hunfilled : ((start c).run (fs ++ [.candle k])).executed = []) :
    let v := (start c).run (fs ++ [.candle k])
    v.worth = v.heldOn k.pair * k.close + v.baseBalance := by
  intro v
  have hbase : v.base = (start c).base := (reconciles_run c _).base
  have hmarkets : v.MarketsOk := marketsOk_run c _
  have hkeys : v.seen = v.last.keys := first_keys_run c _
  obtain ⟨hfirst, hlast, -⟩ := shown_first (c := c) hquiet hk
  have hseen : v.seen = [k.pair] := congrArg (List.map Prod.fst) hfirst
  have hone : v.OnePairEach := by
    obtain ⟨a, ha, hsplit⟩ := hpair
    intro name hname
    rw [← hkeys, hseen, List.mem_singleton] at hname
    rw [split?_congr hbase, hbase, hname]
    refine ⟨a, ha, hsplit, fun name' hname' _ => ?_⟩
    rwa [← hkeys, hseen, List.mem_singleton] at hname'
  have hworth : v.summary.finalValue = v.worth := by
    rw [finalValue_eq_add hmarkets, hone.offMarket_eq_zero hmarkets, add_zero]
  rw [← hworth, finalValue_of_held hkeys (total_nonneg_of_unfilled hfunds hunfilled), hseen,
    List.map_singleton, List.sum_singleton, show v.lastClose k.pair = k.close from hlast]

/-- The pair of the first candle stays the first one that was seen, with its first close. -/
theorem seen_run (gs : List (Event Rat)) :
    let w := (start c).run (fs ++ [.candle k] ++ gs)
    w.firstClose k.pair = k.close ∧ ∃ later, w.seen = k.pair :: later := by
  intro w
  have hw : w = ((start c).run (fs ++ [.candle k])).run gs := run_append ..
  have hlog : ((start c).run (fs ++ [.candle k])).LogOk := ((logOk_start c).run _).1
  obtain ⟨later, hlater⟩ := (shows_run hlog gs).first
  rw [(shown_first hquiet hk).1, ← hw] at hlater
  have hclose : w.first.get? k.pair = some k.close :=
    Table.get?_of_mem_entries (hlater ▸ List.mem_cons_self ..)
  exact ⟨by rw [firstClose, Table.getD, hclose]; rfl, later.map Prod.fst,
    congrArg (List.map Prod.fst) hlater.symm⟩

/-- As long as nothing is filled, the profit is counted from what is held of the pair of the first
candle at its close, and of the base coin. -/
theorem initialValue_of_unfilled (hfunds : ∀ k x, c.assets.get? k = some x → 0 ≤ x)
    {gs : List (Event Rat)} (hpairs : ((start c).run (fs ++ [.candle k] ++ gs)).OnePairEach)
    (hunfilled : ((start c).run (fs ++ [.candle k] ++ gs)).executed = []) :
    let w := (start c).run (fs ++ [.candle k] ++ gs)
    w.summary.initialValue = w.heldOn k.pair * k.close + w.baseBalance := by
  intro w
  let v := (start c).run (fs ++ [.candle k])
  have hw : w = v.run gs := run_append ..
  -- the value was written down in `v`, and as much is held there as in `w`
  have hvunfilled : v.executed = [] := unfilled_of_append hunfilled
  have hbase : w.base = (start c).base := (reconciles_run c _).base
  have hvbase : v.base = w.base := (reconciles_run c _).base.trans hbase.symm
  have htotal : ∀ a, (v.holding a).total = (w.holding a).total := fun a =>
    (total_of_unfilled hvunfilled a).trans (total_of_unfilled hunfilled a).symm
  have hpair : ∃ a, a ≠ (start c).base ∧ (start c).split? k.pair = some ⟨a, (start c).base⟩ := by
    obtain ⟨-, later, hseen⟩ := seen_run (c := c) hquiet hk gs
    have hkeys : w.seen = w.last.keys := first_keys_run c _
    obtain ⟨a, ha, hsplit, -⟩ := hpairs k.pair (hkeys ▸ hseen ▸ List.mem_cons_self ..)
    rw [split?_congr hbase, hbase] at hsplit
    exact ⟨a, hbase ▸ ha, hsplit⟩
  have hheld : v.heldOn k.pair = w.heldOn k.pair := by
    simp only [heldOn, split?_congr hvbase, htotal]
  have hcoin : v.baseBalance = w.baseBalance := by
    rw [baseBalance, baseBalance, htotal, hvbase]
  rw [hw, initialValue_run hquiet hk gs, worth_first hquiet hk hfunds hpair hvunfilled, ← hw,
    hheld, hcoin]

end FirstCandle

theorem profit_eq_add (c : WalletConfig Rat) (es : List (Event Rat))
    (hfunds : ∀ k x, c.assets.get? k = some x → 0 ≤ x)
    (hcomplete : ∀ k, .candle k ∈ es → k.complete = true)
    (hpairs : ((start c).run es).OnePairEach) (hunfilled : ((start c).run es).executed = []) :
    ((start c).run es).summary.profit = ((start c).run es).moves + ((start c).run es).arrivals := by
  set w := (start c).run es with hw
  have hsummary : w.summary.profit = w.summary.finalValue - w.summary.initialValue := rfl
  rcases exists_first_candle es with hquiet | ⟨fs, k, gs, hes, hquiet⟩
  · obtain ⟨hfirst, hmarks⟩ := unseen_run c hquiet
    rw [← hw] at hfirst hmarks
    have hinitial : w.summary.initialValue = w.summary.finalValue := by
      simp [summary, equity, hmarks]
    rw [hsummary, hinitial, sub_self]
    simp [moves, arrivals, seen, Table.keys, hfirst]
  · obtain rfl : es = fs ++ [.candle k] ++ gs := by simpa using hes
    have hk : k.complete = true := hcomplete k (by simp)
    obtain ⟨hclose, later, hseen⟩ := seen_run (c := c) hquiet hk gs
    have hinitial := initialValue_of_unfilled hquiet hk hfunds hpairs hunfilled
    have hfinal := finalValue_of_held (first_keys_run c _)
      (total_nonneg_of_unfilled hfunds hunfilled)
    rw [← hw] at hclose hseen hinitial hfinal
    have hmoves := w.moves_add_first
    have harrivals : (w.seen.map fun name => w.heldOn name * w.firstClose name).sum =
        w.heldOn k.pair * k.close + w.arrivals := by
      rw [arrivals, hseen, List.map_cons, List.sum_cons, List.tail_cons, hclose]
    rw [hsummary, hfinal, ← hmoves, harrivals, hinitial]
    ring

/-- If every candle is complete and every pair seen is against the base coin, no two of them of one
asset, the profit of a wallet that fills nothing is what the closes brought by their moves and what
is held of the pairs that were not seen first, at their first closes. So it is what the closes
brought exactly when that is nothing. -/
theorem profit_of_unfilled (c : WalletConfig Rat) (es : List (Event Rat))
    (hfunds : ∀ k x, c.assets.get? k = some x → 0 ≤ x)
    (hcomplete : ∀ k, .candle k ∈ es → k.complete = true)
    (hpairs : ((start c).run es).OnePairEach) (hunfilled : ((start c).run es).executed = []) :
    let w := (start c).run es
    w.summary.profit = w.moves + w.arrivals ∧
      (w.summary.profit = w.moves ↔ w.arrivals = 0) := by
  intro w
  have hprofit : w.summary.profit = w.moves + w.arrivals :=
    profit_eq_add c es hfunds hcomplete hpairs hunfilled
  refine ⟨hprofit, ?_⟩
  rw [hprofit]
  exact add_eq_left

/-- One `BTC`, two `ETH` and a hundred `USDT`, in which values are reckoned. -/
def twoCoins : WalletConfig Rat := ⟨"USDT", .ofList [("BTC", 1), ("ETH", 2), ("USDT", 100)], 0, 0⟩

/-- A complete candle that never leaves its close. -/
def closing (name : String) (close : Rat) : Candle Rat :=
  { bar close close with pair := name, complete := true }

/-- The coins are seen one after the other, and one of them is offered at a price that is not
reached. -/
def bothHeld : List (Event Rat) :=
  [.candle (closing "BTCUSDT" 100), .place (.limit .sell "BTCUSDT" 1 500),
    .candle (closing "ETHUSDT" 50), .candle (closing "BTCUSDT" 120), .candle (closing "ETHUSDT" 45)]

theorem twoCoins_nonneg : ∀ k x, twoCoins.assets.get? k = some x → 0 ≤ x := by
  intro k x hx
  have hmem := Table.mem_of_get?_ofList hx
  simp only [List.mem_cons, Prod.mk.injEq, List.not_mem_nil, or_false] at hmem
  rcases hmem with ⟨-, rfl⟩ | ⟨-, rfl⟩ | ⟨-, rfl⟩ <;> decide

theorem bothHeld_complete : ∀ k, .candle k ∈ bothHeld → k.complete = true := by
  simp [bothHeld, closing]

theorem onePairEach_bothHeld : ((start twoCoins).run bothHeld).OnePairEach := by
  have hkeys : ((start twoCoins).run bothHeld).last.keys = ["BTCUSDT", "ETHUSDT"] := by
    decide +kernel
  have hbtc : ((start twoCoins).run bothHeld).split? "BTCUSDT" = some ⟨"BTC", "USDT"⟩ := by
    decide +kernel
  have heth : ((start twoCoins).run bothHeld).split? "ETHUSDT" = some ⟨"ETH", "USDT"⟩ := by
    decide +kernel
  have hbase : ((start twoCoins).run bothHeld).base = "USDT" := by decide +kernel
  unfold OnePairEach
  rw [hkeys, hbase]
  intro name hname
  simp only [List.mem_cons, List.not_mem_nil, or_false] at hname
  rcases hname with rfl | rfl
  · exact ⟨"BTC", by decide, hbtc, by simp [heth]⟩
  · exact ⟨"ETH", by decide, heth, by simp [hbtc]⟩

theorem moves_bothHeld : ((start twoCoins).run bothHeld).moves = 10 := by decide +kernel

theorem arrivals_bothHeld : ((start twoCoins).run bothHeld).arrivals = 100 := by decide +kernel

theorem profit_of_unfilled_bothHeld :
    let w := (start twoCoins).run bothHeld
    w.executed = [] ∧ w.orders ≠ [] ∧ w.seen = ["BTCUSDT", "ETHUSDT"] ∧ w.summary.profit = 110 := by
  intro w
  have hunfilled : w.executed = [] := by decide +kernel
  have hprofit := (profit_of_unfilled twoCoins bothHeld twoCoins_nonneg bothHeld_complete
    onePairEach_bothHeld hunfilled).1
  refine ⟨hunfilled, by decide +kernel, by decide +kernel, hprofit.trans ?_⟩
  rw [moves_bothHeld, arrivals_bothHeld]
  norm_num

/-- Nothing is filled, and the profit is not what the closes brought. -/
theorem profit_ne_moves :
    let w := (start twoCoins).run bothHeld
    (∀ k x, twoCoins.assets.get? k = some x → 0 ≤ x) ∧
      (∀ k, .candle k ∈ bothHeld → k.complete = true) ∧ w.OnePairEach ∧ w.executed = [] ∧
      w.summary.profit ≠ w.moves := by
  intro w
  have hunfilled : w.executed = [] := by decide +kernel
  have hprofit := profit_eq_add twoCoins bothHeld twoCoins_nonneg bothHeld_complete
    onePairEach_bothHeld hunfilled
  refine ⟨twoCoins_nonneg, bothHeld_complete, onePairEach_bothHeld, hunfilled, ?_⟩
  rw [hprofit, arrivals_bothHeld, show w.moves = 10 from moves_bothHeld]
  norm_num

end Candlewick.Wallet
