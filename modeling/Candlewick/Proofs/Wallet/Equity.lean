import Candlewick.Proofs.Wallet.OneMarket
import Mathlib.Algebra.BigOperators.Group.Finset.Piecewise

/-! # Two valuations

A complete candle has every asset valued once, on the market that it was last seen on against the
base coin, and a summary values what is held on every pair that was ever seen. So the value of a
summary is the one that was written down last and, on top of it, what the same assets come to on
all other pairs (`offMarket`), and the profit is off by as much (`finalValue_of_complete`). The two
agree exactly where that is nothing, as it is where every pair is against the base coin and no two
pairs are of one asset. -/

namespace Candlewick.Wallet

section Markets
variable {α : Type}

/-- Whether a pair is the one that its asset is valued on. -/
def isMarket (w : Wallet α) (name : String) : Bool :=
  (w.split? name).any fun p => p.asset ≠ w.base && w.marketOf.get? p.asset = some name

/-- Every asset is valued on a pair that was seen and is against the base coin, and it is valued as
soon as there is one. -/
structure MarketsOk (w : Wallet α) : Prop where
  market : ∀ a name, w.marketOf.get? a = some name →
    w.split? name = some ⟨a, w.base⟩ ∧ name ∈ w.last.keys
  known : ∀ name ∈ w.last.keys, ∀ a, w.split? name = some ⟨a, w.base⟩ →
    ∃ name', w.marketOf.get? a = some name'

theorem MarketsOk.of_eq {w w' : Wallet α} (h : w.MarketsOk) (hbase : w'.base = w.base)
    (hlast : w'.last = w.last) (hmarket : w'.marketOf = w.marketOf) : w'.MarketsOk := by
  have hsplit := split?_congr hbase
  constructor
  · intro a name hname
    rw [hmarket] at hname
    rw [hsplit, hbase, hlast]
    exact h.market a name hname
  · intro name hname a ha
    rw [hlast] at hname
    rw [hsplit, hbase] at ha
    rw [hmarket]
    exact h.known name hname a ha

theorem isMarket_iff {w : Wallet α} (h : w.MarketsOk) {name : String} :
    w.isMarket name = true ↔ ∃ a, a ≠ w.base ∧ w.marketOf.get? a = some name := by
  unfold isMarket
  constructor
  · intro hany
    obtain ⟨p, -, hp⟩ := (Option.any_eq_true ..).1 hany
    rw [Bool.and_eq_true, decide_eq_true_eq, decide_eq_true_eq] at hp
    exact ⟨p.asset, hp⟩
  · rintro ⟨a, ha, hname⟩
    rw [(h.market a name hname).1]
    simp [ha, hname]

/-- A candle makes its pair the market of the asset, if it is against the base coin. -/
theorem get?_marketOf_note (w : Wallet α) (c : Candle α) (a : String) :
    (w.note c).marketOf.get? a =
      if w.split? c.pair = some ⟨a, w.base⟩ then some c.pair else w.marketOf.get? a := by
  unfold note
  dsimp only
  rcases w.split? c.pair with - | ⟨asset, quote⟩
  · simp
  · by_cases hquote : quote = w.base
    · by_cases hasset : a = asset
      · simp [hquote, hasset, Table.get?_set]
      · simp [hquote, hasset, Ne.symm hasset, Table.get?_set]
    · simp [hquote]

theorem MarketsOk.note {w : Wallet α} (h : w.MarketsOk) (c : Candle α) : (w.note c).MarketsOk := by
  have hkeys : ∀ {k}, k ∈ (w.note c).last.keys ↔ k = c.pair ∨ k ∈ w.last.keys :=
    Table.mem_keys_set
  have hget := get?_marketOf_note w c
  constructor
  · intro a name hname
    rw [hget] at hname
    split at hname
    next hsplit =>
      cases hname
      exact ⟨hsplit, hkeys.2 (.inl rfl)⟩
    next =>
      obtain ⟨hsplit, hmem⟩ := h.market a name hname
      exact ⟨hsplit, hkeys.2 (.inr hmem)⟩
  · intro name hname a ha
    have ha : w.split? name = some ⟨a, w.base⟩ := ha
    rw [hget]
    split
    next => exact ⟨_, rfl⟩
    next hnot =>
      rcases hkeys.1 hname with rfl | hname
      · exact absurd ha hnot
      · exact h.known name hname a ha

variable [Amount α]

theorem Step.marketsOk {e : Event α} {w w' : Wallet α} (h : Step e w w') (hw : w.MarketsOk) :
    w'.MarketsOk := by
  cases h with
  | trade => exact hw.of_eq (by simp [log]) (by simp [log]) (by simp [log])
  | rest => exact hw.of_eq rfl rfl rfl
  | link => exact hw.of_eq rfl rfl rfl
  | withdraw => exact hw.of_eq (release_base ..) (release_last ..) (release_marketOf ..)
  | note => exact hw.note _
  | fill ho hr hn ht hs =>
    rw [fill_eq hs]
    exact hw.of_eq (by simp) (by simp) (by simp)
  | mark => exact hw.of_eq rfl rfl rfl

theorem marketsOk_start (c : WalletConfig α) : (start c).MarketsOk := by
  constructor
  · intro a name h
    cases h
  · intro name h
    cases h

end Markets

/-! ### What is valued -/

/-- The value, on a pair, of what is held of its asset. -/
def valueOn (w : Wallet Rat) (name : String) : Rat :=
  match w.split? name, w.lastPrice? name with
  | some p, some close => w.holdingValue name (w.holding p.asset).total close
  | _, _ => 0

/-- The value of an asset where it is valued. -/
def valueNow (w : Wallet Rat) (asset : String) : Rat :=
  if asset = w.base then 0 else (w.marketOf.get? asset).elim 0 w.valueOn

/-- The value of the account, every asset being valued where it is. -/
def worth (w : Wallet Rat) : Rat :=
  ∑ a ∈ w.holdings.keys.toFinset, w.valueNow a + w.baseBalance

/-- The values of what is held on all pairs but those that their assets are valued on. -/
def offMarket (w : Wallet Rat) : Rat :=
  ∑ name ∈ w.last.keys.toFinset with w.isMarket name = false, w.valueOn name

theorem sum_filterMap {σ τ : Type} (f : σ → Option τ) (g : τ → Rat) (l : List σ) :
    ((l.filterMap f).map g).sum = (l.map fun x => (f x).elim 0 g).sum := by
  induction l with
  | nil => rfl
  | cons x l ih =>
    rw [List.map_cons, List.sum_cons, ← ih]
    cases hf : f x with
    | none => rw [List.filterMap_cons_none hf, Option.elim_none, zero_add]
    | some y => rw [List.filterMap_cons_some hf, List.map_cons, List.sum_cons, Option.elim_some]

theorem finalValue_eq (w : Wallet Rat) :
    w.summary.finalValue = ∑ name ∈ w.last.keys.toFinset, w.valueOn name + w.baseBalance := by
  have hsorted := w.last.sum_sorted fun name m =>
    (w.heldAsset? name m.value).elim 0 HeldAsset.value
  simp only [summary, sum_rat]
  refine congrArg (· + w.baseBalance) ?_
  refine (sum_filterMap ..).trans (hsorted.trans (Finset.sum_congr rfl fun name hname => ?_))
  obtain ⟨m, hm⟩ := Table.mem_keys_iff.1 (List.mem_toFinset.1 hname)
  simp only [valueOn, lastPrice?, heldAsset?, hm, Option.elim_some, Option.map_some]
  cases w.split? name <;> rfl

theorem sum_assetValuesNow {w : Wallet Rat} (h : w.MarketsOk) :
    sum (w.assetValuesNow.map (·.2)) = ∑ a ∈ w.holdings.keys.toFinset, w.valueNow a := by
  have hsorted := w.holdings.sum_sorted fun a x =>
    (if a = w.base then none
      else do
        let name ← w.marketOf.get? a
        let close ← w.lastPrice? name
        return (a, w.holdingValue name x.total close) : Option (String × Rat)).elim 0 (·.2)
  rw [sum_rat]
  refine (sum_filterMap ..).trans (hsorted.trans (Finset.sum_congr rfl fun a ha => ?_))
  obtain ⟨x, hx⟩ := Table.mem_keys_iff.1 (List.mem_toFinset.1 ha)
  have hheld : w.holding a = x := by simp [holding, Table.getD, hx]
  simp only [hx, Option.elim_some, valueNow]
  by_cases hbase : a = w.base
  · rw [if_pos hbase, if_pos hbase, Option.elim_none]
  rw [if_neg hbase, if_neg hbase]
  cases hmarket : w.marketOf.get? a with
  | none => rfl
  | some name =>
    simp only [Option.elim_some, valueOn, (h.market a name hmarket).1]
    cases hprice : w.lastPrice? name <;> simp [hprice, hheld]

/-- What is not held is worth nothing. -/
theorem valueNow_of_not_held {w : Wallet Rat} (h : w.MarketsOk) {a : String}
    (ha : a ∉ w.holdings.keys) : w.valueNow a = 0 := by
  have hnone : w.holdings.get? a = none := by
    cases hget : w.holdings.get? a with
    | none => rfl
    | some x => exact absurd (Table.mem_keys_iff.2 ⟨x, hget⟩) ha
  have htotal : (w.holding a).total = 0 := by simp [holding, Table.getD, hnone, Holding.total,
    Holding.zero]
  unfold valueNow
  split
  · rfl
  · cases hmarket : w.marketOf.get? a with
    | none => rfl
    | some name =>
      simp only [Option.elim_some, valueOn, (h.market a name hmarket).1]
      cases w.lastPrice? name <;> simp [holdingValue, htotal]

/-- Assets and the pairs that they are valued on belong together one by one. -/
theorem sum_valueNow {w : Wallet Rat} (h : w.MarketsOk) :
    ∑ a ∈ w.holdings.keys.toFinset, w.valueNow a =
      ∑ name ∈ w.last.keys.toFinset with w.isMarket name = true, w.valueOn name := by
  have hmarket : ∀ a, w.valueNow a ≠ 0 →
      a ≠ w.base ∧ ∃ name, w.marketOf.get? a = some name ∧ w.valueNow a = w.valueOn name := by
    intro a ha
    have hbase : a ≠ w.base := fun hbase => ha (if_pos hbase)
    refine ⟨hbase, ?_⟩
    cases hget : w.marketOf.get? a with
    | none => exact absurd (by simp [valueNow, hbase, hget]) ha
    | some name => exact ⟨name, rfl, by simp [valueNow, hbase, hget]⟩
  refine Finset.sum_bij_ne_zero (fun a _ _ => w.marketOf.getD a a) ?_ ?_ ?_ ?_
  · intro a _ ha
    obtain ⟨hbase, name, hget, -⟩ := hmarket a ha
    rw [Table.getD, hget, Option.getD_some, Finset.mem_filter, List.mem_toFinset]
    exact ⟨(h.market a name hget).2, (isMarket_iff h).2 ⟨a, hbase, hget⟩⟩
  · intro a _ ha b _ hb heq
    obtain ⟨-, name, hget, -⟩ := hmarket a ha
    obtain ⟨-, name', hget', -⟩ := hmarket b hb
    simp only [Table.getD, hget, hget', Option.getD_some] at heq
    subst heq
    have hpair := (h.market a name hget).1.symm.trans (h.market b name hget').1
    exact congrArg Pair.asset (Option.some.inj hpair)
  · intro name hname hvalue
    obtain ⟨a, hbase, hget⟩ := (isMarket_iff h).1 (Finset.mem_filter.1 hname).2
    have heq : w.valueNow a = w.valueOn name := by simp [valueNow, hbase, hget]
    refine ⟨a, ?_, heq ▸ hvalue, by simp [Table.getD, hget]⟩
    by_contra ha
    exact hvalue (heq ▸ valueNow_of_not_held h (fun hmem => ha (List.mem_toFinset.2 hmem)))
  · intro a _ ha
    obtain ⟨-, name, hget, heq⟩ := hmarket a ha
    rw [heq, Table.getD, hget, Option.getD_some]

/-- A summary counts what a valuation counts and what is off the market. -/
theorem finalValue_eq_add {w : Wallet Rat} (h : w.MarketsOk) :
    w.summary.finalValue = w.worth + w.offMarket := by
  have hsplit := Finset.sum_filter_add_sum_filter_not w.last.keys.toFinset
    (fun name => w.isMarket name = true) w.valueOn
  simp only [Bool.not_eq_true] at hsplit
  rw [finalValue_eq, worth, sum_valueNow h, ← hsplit, offMarket]
  ring

/-- What a complete candle writes down, of the wallet that it leaves. -/
theorem equity_observe {w : Wallet Rat} {k : Candle Rat} (h : (w.observe k).MarketsOk)
    (hk : k.complete = true) :
    (w.observe k).equity.getLast? = some ⟨k.time, (w.observe k).worth⟩ := by
  rw [worth, ← sum_assetValuesNow h, observe_eq, if_pos hk, equity, List.getLast?_reverse]
  rfl

/-- Every pair that was seen is against the base coin, and no two of them are of one asset. -/
def OnePairEach {α : Type} (w : Wallet α) : Prop :=
  ∀ name ∈ w.last.keys, ∃ a, a ≠ w.base ∧ w.split? name = some ⟨a, w.base⟩ ∧
    ∀ name' ∈ w.last.keys, w.split? name' = some ⟨a, w.base⟩ → name' = name

theorem OnePairEach.offMarket_eq_zero {w : Wallet Rat} (hone : w.OnePairEach) (h : w.MarketsOk) :
    w.offMarket = 0 := by
  refine Finset.sum_eq_zero fun name hname => ?_
  obtain ⟨hmem, hoff⟩ := Finset.mem_filter.1 hname
  rw [List.mem_toFinset] at hmem
  obtain ⟨a, hbase, hsplit, hunique⟩ := hone name hmem
  obtain ⟨name', hmarket⟩ := h.known name hmem a hsplit
  obtain ⟨hsplit', hmem'⟩ := h.market a name' hmarket
  rw [hunique name' hmem' hsplit'] at hmarket
  rw [(isMarket_iff h).2 ⟨a, hbase, hmarket⟩] at hoff
  cases hoff

theorem marketsOk_run {α : Type} [Amount α] (c : WalletConfig α) (es : List (Event α)) :
    ((start c).run es).MarketsOk :=
  (run_induction (P := fun _ => True) (I := fun w => w.LogOk ∧ w.MarketsOk)
    (fun _ hw => hw.1.ascending)
    (fun _ _ _ _ hs hw => ⟨hs.logOk hw.1, hs.marketsOk hw.2⟩) (fun _ _ => trivial)
    ⟨logOk_start c, marketsOk_start c⟩).2

/-- After every complete candle the value of a summary is the last one written down and what is off
the market, and so is the profit. -/
theorem finalValue_of_complete (c : WalletConfig Rat) (es : List (Event Rat)) (k : Candle Rat)
    (hk : k.complete = true) :
    let w := ((start c).run es).observe k
    ∃ v, w.equity.getLast? = some ⟨k.time, v⟩ ∧
      w.summary.finalValue = v + w.offMarket ∧
      w.equity.head?.map (·.value) = some w.summary.initialValue ∧
      w.summary.profit = v - w.summary.initialValue + w.offMarket ∧
      (w.summary.finalValue = v ↔ w.offMarket = 0) ∧
      (w.OnePairEach → w.summary.finalValue = v) := by
  intro w
  have hmarkets : w.MarketsOk := by
    have hrun := marketsOk_run c (es ++ [.candle k])
    rw [run_append] at hrun
    exact hrun
  have hlast : w.equity.getLast? = some ⟨k.time, w.worth⟩ := equity_observe hmarkets hk
  have hfinal := finalValue_eq_add hmarkets
  have hiff : w.summary.finalValue = w.worth ↔ w.offMarket = 0 := by
    rw [hfinal]
    exact add_eq_left
  refine ⟨w.worth, hlast, ?_⟩
  refine ⟨hfinal, ?_, ?_, hiff, fun hone => hiff.2 (hone.offMarket_eq_zero hmarkets)⟩
  · cases hhead : w.equity.head? with
    | none =>
      rw [List.head?_eq_none_iff.1 hhead] at hlast
      cases hlast
    | some m => simp [summary, hhead]
  · show w.summary.finalValue - w.summary.initialValue = _
    rw [hfinal]
    ring

/-- The one coin is seen at 100 on its market, and at 90 against another quote. -/
def seenTwice : Wallet Rat :=
  ((start oneCoin).run [.candle { bar 100 100 with complete := true }]).observe
    { bar 90 90 with pair := "BTCEUR", complete := true }

theorem marketsOk_seenTwice : seenTwice.MarketsOk :=
  marketsOk_run oneCoin [.candle { bar 100 100 with complete := true },
    .candle { bar 90 90 with pair := "BTCEUR", complete := true }]

theorem finalValue_of_complete_seenTwice :
    ∃ v, seenTwice.equity.getLast?.map (·.value) = some v ∧ v = 200 ∧
      seenTwice.summary.finalValue = v + 90 := by
  obtain ⟨v, hlast, hfinal, -⟩ := finalValue_of_complete oneCoin
    [.candle { bar 100 100 with complete := true }]
    { bar 90 90 with pair := "BTCEUR", complete := true } rfl
  have hworth := equity_observe marketsOk_seenTwice rfl
  have hv : v = seenTwice.worth := by
    cases hlast.symm.trans hworth
    rfl
  have hoff : seenTwice.offMarket = 90 := by decide +kernel
  exact ⟨v, congrArg _ hlast, hv.trans (by decide +kernel), hoff ▸ hfinal⟩

theorem finalValue_ne_lastEquity :
    seenTwice.equity.getLast?.map (·.value) ≠ some seenTwice.summary.finalValue := by
  have hlast := equity_observe marketsOk_seenTwice rfl
  rw [show seenTwice.equity.getLast? = _ from hlast, finalValue_eq_add marketsOk_seenTwice]
  decide +kernel

end Candlewick.Wallet
