import Candlewick.Proofs.ReplayOrder
import Candlewick.Proofs.Table
import Candlewick.Strategy.Basic

/-! # Bars and the candles they tell

A list of bars takes in candles (`Frame.pushBar`): a candle is compared with the newest bar only, so
there is one bar for each time, in order, as long as no candle comes that opens before an earlier one
(`Frame.Tells.push`). Then a bar is what the candles of its time come to: the prices are those of the
last one, and a metric is the one that was told last (`Bar.Merges`). -/

namespace Candlewick

/-- One bar of the history. -/
structure Bar (α : Type) where
  time : Instant
  opening : α
  high : α
  low : α
  close : α
  volume : α
  metrics : Table Metric α

/-- The bar that a candle tells, on top of the metrics told before. -/
def Bar.ofCandle {α : Type} (c : Candle α) (metrics : Table Metric α) : Bar α where
  time := c.time
  opening := c.opening
  high := c.high
  low := c.low
  close := c.close
  volume := c.volume
  metrics := c.metadata.metrics.entries.foldl (fun t (k, a) => t.set k a) metrics

/-- What some candles of one bar come to. -/
structure Bar.Merges {α : Type} (b : Bar α) (cs : List (Candle α)) : Prop where
  /-- The prices are those of the last candle. -/
  prices : ∃ c, cs.getLast? = some c ∧ b.time = c.time ∧ b.opening = c.opening ∧ b.high = c.high ∧
    b.low = c.low ∧ b.close = c.close ∧ b.volume = c.volume
  /-- A metric is that of the last candle that carries it. -/
  metrics : ∀ m, b.metrics.get? m = (cs.filterMap fun c => c.metadata.metrics.get? m).getLast?

namespace Frame
variable {α : Type}

/-- The bars after a candle, newest first: a new one, or the newest one told anew. -/
def pushBar (c : Candle α) : List (Bar α) → List (Bar α)
  | [] => [.ofCandle c .empty]
  | b :: bs =>
    if b.time = c.time then .ofCandle c b.metrics :: bs else .ofCandle c .empty :: b :: bs

theorem get?_metrics_ofCandle (c : Candle α) (metrics : Table Metric α) (m : Metric) :
    (Bar.ofCandle c metrics).metrics.get? m =
      (c.metadata.metrics.get? m).or (metrics.get? m) :=
  Table.get?_foldl_set ..

theorem filter_time_concat (cs : List (Candle α)) (c : Candle α) (t : Instant) :
    (cs ++ [c]).filter (fun k => k.time = t) =
      (cs.filter fun k => k.time = t) ++ if c.time = t then [c] else [] := by
  rw [List.filter_append]
  by_cases h : c.time = t <;> simp [h]

theorem merges_ofCandle {metrics : Table Metric α} {bar : List (Candle α)} {c : Candle α}
    (h : ∀ m, metrics.get? m = (bar.filterMap fun k => k.metadata.metrics.get? m).getLast?) :
    (Bar.ofCandle c metrics).Merges (bar ++ [c]) := by
  refine ⟨⟨c, List.getLast?_concat, rfl, rfl, rfl, rfl, rfl, rfl⟩, fun m => ?_⟩
  rw [get?_metrics_ofCandle, h, List.filterMap_append, List.getLast?_append]
  cases hm : c.metadata.metrics.get? m <;> simp [hm]

theorem merges_newest {metrics : Table Metric α} {cs : List (Candle α)} {c : Candle α}
    (h : ∀ m, metrics.get? m = ((cs.filter fun k => k.time = c.time).filterMap
      fun k => k.metadata.metrics.get? m).getLast?) :
    (Bar.ofCandle c metrics).Merges ((cs ++ [c]).filter fun k => k.time = c.time) := by
  rw [filter_time_concat, if_pos rfl]
  exact merges_ofCandle h

/-- The bars, newest first, are those of some candles: one for each time, in order. -/
structure Tells (bars : List (Bar α)) (cs : List (Candle α)) : Prop where
  ordered : bars.Pairwise fun a b => b.time.before a.time = true
  merges : ∀ b ∈ bars, b.Merges (cs.filter fun c => c.time = b.time)
  told : ∀ c ∈ cs, ∃ b ∈ bars, b.time = c.time

theorem tells_nil : Tells ([] : List (Bar α)) [] := by
  refine ⟨.nil, ?_, ?_⟩ <;> simp

theorem Tells.exists_candle {bars : List (Bar α)} {cs : List (Candle α)} (h : Tells bars cs)
    {b : Bar α} (hb : b ∈ bars) : ∃ c ∈ cs, b.time = c.time := by
  obtain ⟨c, hc, htime, -⟩ := (h.merges b hb).prices
  exact ⟨c, List.mem_of_mem_filter (List.mem_of_getLast? hc), htime⟩

theorem Tells.nil_of_nil {cs : List (Candle α)} (h : Tells [] cs) : cs = [] := by
  refine List.eq_nil_iff_forall_not_mem.2 fun c hc => ?_
  obtain ⟨b, hb, -⟩ := h.told c hc
  cases hb

/-- What a candle is to bars of earlier times. -/
theorem Tells.merges_concat {bars : List (Bar α)} {cs : List (Candle α)} (h : Tells bars cs)
    {c : Candle α} {b : Bar α} (hb : b ∈ bars) (hbefore : b.time.before c.time = true) :
    b.Merges ((cs ++ [c]).filter fun k => k.time = b.time) := by
  rw [filter_time_concat, if_neg (Instant.ne_of_before hbefore).symm, List.append_nil]
  exact h.merges b hb

/-- A candle that does not open before any other joins the newest bar or begins one. -/
theorem Tells.push {bars : List (Bar α)} {cs : List (Candle α)} (h : Tells bars cs) {c : Candle α}
    (hlast : ∀ k ∈ cs, k.time.upTo c.time = true) : Tells (pushBar c bars) (cs ++ [c]) := by
  cases bars with
  | nil =>
    rw [h.nil_of_nil]
    refine ⟨List.pairwise_singleton .., fun b hb => ?_,
      fun k hk => ⟨_, List.mem_singleton_self _, ?_⟩⟩
    · obtain rfl := List.mem_singleton.1 hb
      have hfirst : (Bar.ofCandle c .empty).Merges (([] ++ [c]).filter fun k => k.time = c.time) :=
        merges_newest fun m => rfl
      exact hfirst
    · rw [List.mem_singleton.1 hk]
      rfl
  | cons b bs =>
    obtain ⟨hnewest, hordered⟩ := List.pairwise_cons.1 h.ordered
    rw [pushBar]
    split
    next htime =>
      -- the newest bar is told anew
      have hmetrics := (h.merges b (List.mem_cons_self ..)).metrics
      rw [htime] at hnewest hmetrics
      refine ⟨List.pairwise_cons.2 ⟨hnewest, hordered⟩, fun b' hb' => ?_, fun k hk => ?_⟩
      · rcases List.mem_cons.1 hb' with rfl | hb'
        · exact merges_newest hmetrics
        · exact h.merges_concat (List.mem_cons_of_mem _ hb') (hnewest b' hb')
      · rcases List.mem_append.1 hk with hk | hk
        · obtain ⟨b', hb', heq⟩ := h.told k hk
          rcases List.mem_cons.1 hb' with rfl | hb'
          · exact ⟨_, List.mem_cons_self .., htime.symm.trans heq⟩
          · exact ⟨b', List.mem_cons_of_mem _ hb', heq⟩
        · rw [List.mem_singleton.1 hk]
          exact ⟨_, List.mem_cons_self .., rfl⟩
    next hne =>
      have hall : ∀ b' ∈ b :: bs, b'.time.before c.time = true := by
        intro b' hb'
        obtain ⟨k, hk, hkb⟩ := h.exists_candle (List.mem_cons_self ..)
        have hbefore := Instant.before_of_upTo (hkb ▸ hlast k hk) hne
        rcases List.mem_cons.1 hb' with rfl | hb'
        · exact hbefore
        · exact Instant.before_trans (hnewest b' hb') hbefore
      refine ⟨List.pairwise_cons.2 ⟨hall, h.ordered⟩, fun b' hb' => ?_, fun k hk => ?_⟩
      · rcases List.mem_cons.1 hb' with rfl | hb'
        · have hnone : cs.filter (fun k => k.time = c.time) = [] := by
            refine List.filter_eq_nil_iff.2 fun k hk htime => ?_
            obtain ⟨b', hb', heq⟩ := h.told k hk
            exact Instant.ne_of_before (hall b' hb') (heq.trans (of_decide_eq_true htime))
          exact merges_newest fun m => by rw [hnone]; rfl
        · exact h.merges_concat hb' (hall b' hb')
      · rcases List.mem_append.1 hk with hk | hk
        · obtain ⟨b', hb', heq⟩ := h.told k hk
          exact ⟨b', List.mem_cons_of_mem _ hb', heq⟩
        · rw [List.mem_singleton.1 hk]
          exact ⟨_, List.mem_cons_self .., rfl⟩

/-- Later candles that join no bar but the newest leave the others as they were told. -/
theorem Tells.merges_older {bars : List (Bar α)} {cs later : List (Candle α)} (h : Tells bars cs)
    (hlater : ∀ k ∈ cs, ∀ c ∈ later, k.time.upTo c.time = true) {b : Bar α} (hb : b ∈ bars.tail) :
    b.Merges ((cs ++ later).filter fun c => c.time = b.time) := by
  cases bars with
  | nil => cases hb
  | cons newest bs =>
    obtain ⟨hnewest, -⟩ := List.pairwise_cons.1 h.ordered
    obtain ⟨k, hk, hkb⟩ := h.exists_candle (List.mem_cons_self ..)
    have hnone : later.filter (fun c => c.time = b.time) = [] := by
      refine List.filter_eq_nil_iff.2 fun c hc htime => ?_
      have hbefore := hnewest b hb
      have hupTo := hlater k hk c hc
      rw [of_decide_eq_true htime, ← hkb] at hupTo
      exact Instant.ne_of_before (Instant.before_trans hbefore
        (Instant.before_of_upTo hupTo (Instant.ne_of_before hbefore).symm)) rfl
    rw [List.filter_append, hnone, List.append_nil]
    exact h.merges b (List.mem_cons_of_mem _ hb)

end Frame
end Candlewick
