import Candlewick.Feed.History
import Candlewick.Proofs.ReplayOrder
import Candlewick.Proofs.Table
import Mathlib.Data.List.DropRight

/-! # What a history answers

A query for the newest candles is answered with the end of the stored series, one for a period with
the part of the series in it, forming candles among them (`History.answers_of_stores`). The closed
candles of a period are never missing from the answer, but a query for the newest `n` reaches back
for fewer closed ones than `n` where forming ones take their places. The answers are the closed
candles alone exactly if no forming candle falls into the part that is asked for. -/

namespace Candlewick

/-! ### The end of a list -/

section Ends
variable {τ : Type} {p : τ → Bool}

theorem rtake_filter_countP (l : List τ) (n : Nat) :
    (l.filter p).rtake ((l.rtake n).countP p) = (l.rtake n).filter p := by
  have hsplit : l.filter p = (l.take (l.length - n)).filter p ++ (l.rtake n).filter p := by
    rw [← List.filter_append, List.rtake, List.take_append_drop]
  rw [List.countP_eq_length_filter, hsplit, List.rtake, List.length_append, Nat.add_sub_cancel,
    List.drop_left]

theorem rtake_eq_rtake_filter_iff (l : List τ) (n : Nat) :
    l.rtake n = (l.filter p).rtake n ↔ ∀ a ∈ l.rtake n, p a = true := by
  constructor
  · intro h a ha
    rw [h] at ha
    exact (List.mem_filter.1 (List.mem_of_mem_drop ha)).2
  · intro h
    have hend : (l.rtake n).filter p = l.rtake n := List.filter_eq_self.2 h
    rcases le_total l.length n with hle | hle
    · have hall : l.rtake n = l := by simp [List.rtake, Nat.sub_eq_zero_of_le hle]
      rw [hall] at hend
      rw [hend]
    · have hcount : (l.rtake n).countP p = n := by
        rw [List.countP_eq_length_filter, hend, List.rtake, List.length_drop]
        omega
      rw [← hend, ← rtake_filter_countP, hcount]

end Ends

namespace History
variable {α : Type} {n : Nat} {stores : List (FeedKey × List (Candle α))} {key : FeedKey}
  {cs : List (Candle α)} {first last : Instant}

/-! ### What is stored -/

/-- A history in which some series are stored, one after the other. -/
def ofStores (capacity : Nat) (stores : List (FeedKey × List (Candle α))) : History α :=
  stores.foldl (fun h store => h.insert store.1 store.2) (.empty capacity)

/-- The candles that were stored last for a feed, in the order in which they were given. -/
def given? (stores : List (FeedKey × List (Candle α))) (key : FeedKey) :
    Option (List (Candle α)) :=
  (stores.reverse.find? (·.1 = key)).map (·.2)

theorem get?_series_insert (h : History α) (key : FeedKey) (cs : List (Candle α)) (key' : FeedKey) :
    (h.insert key cs).series.get? key' =
      if key' = key then some (Candle.sort cs) else h.series.get? key' :=
  Table.get?_set ..

theorem get?_series_ofStores (capacity : Nat) (stores : List (FeedKey × List (Candle α)))
    (key : FeedKey) :
    (ofStores capacity stores).series.get? key = (given? stores key).map Candle.sort := by
  induction stores using List.reverseRecOn with
  | nil => rfl
  | append_singleton stores store ih =>
    have hlast : ofStores capacity (stores ++ [store]) =
        (ofStores capacity stores).insert store.1 store.2 := by simp [ofStores]
    rw [hlast, get?_series_insert, given?, List.reverse_concat]
    by_cases hkey : key = store.1
    · simp [hkey]
    · rw [if_neg hkey, ih, given?, List.find?_cons_of_neg (by simpa using Ne.symm hkey)]

theorem find_ofStores (capacity : Nat) (hgiven : given? stores key = some cs) :
    (ofStores capacity stores).find key = .ok (Candle.sort cs) := by
  have hseries := get?_series_ofStores capacity stores key
  rw [hgiven] at hseries
  simp [find, hseries]

/-! ### What is asked for -/

/-- The last closed candles of some in replay order, as many as there are up to a number. -/
def latestClosed (cs : List (Candle α)) (n : Nat) : List (Candle α) :=
  (Candle.sort (cs.filter (·.complete))).rtake n

/-- Whether a candle is of a bar that opens from one instant to another. -/
def within (first last : Instant) (c : Candle α) : Bool := first.upTo c.time && c.time.upTo last

/-- The closed candles of the bars that open from one instant to another, in replay order. -/
def closedWithin (cs : List (Candle α)) (first last : Instant) : List (Candle α) :=
  Candle.sort (cs.filter fun c => c.complete && within first last c)

theorem byLimit_ofStores (capacity : Nat) (hgiven : given? stores key = some cs) (n : Nat) :
    (ofStores capacity stores).byLimit key n = .ok ((Candle.sort cs).rtake n) := by
  rw [byLimit, find_ofStores _ hgiven]
  rfl

theorem byPeriod_ofStores (capacity : Nat) (hgiven : given? stores key = some cs)
    (first last : Instant) :
    (ofStores capacity stores).byPeriod key first last =
      .ok ((Candle.sort cs).filter (within first last)) := by
  rw [byPeriod, find_ofStores _ hgiven]
  rfl

theorem rtake_eq_latestClosed_iff :
    (Candle.sort cs).rtake n = latestClosed cs n ↔
      ∀ c ∈ (Candle.sort cs).rtake n, c.complete = true := by
  rw [latestClosed, ← Candle.filter_sort]
  exact rtake_eq_rtake_filter_iff ..

theorem closedWithin_eq_filter : closedWithin cs first last =
    ((Candle.sort cs).filter (within first last)).filter (·.complete) := by
  rw [closedWithin, ← Candle.filter_sort, List.filter_filter]

theorem filter_eq_closedWithin_iff :
    (Candle.sort cs).filter (within first last) = closedWithin cs first last ↔
      ∀ c ∈ (Candle.sort cs).filter (within first last), c.complete = true := by
  rw [closedWithin_eq_filter, eq_comm, List.filter_eq_self]

theorem mem_sort {c : Candle α} : c ∈ Candle.sort cs ↔ c ∈ cs := List.mem_mergeSort

theorem within_self (c : Candle α) : within c.time c.time c = true := by
  have hself : c.time.compare c.time = .eq := Std.ReflCmp.compare_self
  simp [within, Instant.upTo, hself]

/-- The newest candles of a series, and those of a period, are answered with forming ones among
them. The closed ones among the newest are the latest closed ones, fewer than asked for by the
forming ones; no closed candle of a period is missing. The answers are the closed candles that are
asked for exactly if there is no forming one among them, and all answers are so exactly if no
forming candle is stored. -/
theorem answers_of_stores (capacity : Nat) (hgiven : given? stores key = some cs) :
    let h : History α := ofStores capacity stores
    (∀ n, ∃ answer, h.byLimit key n = .ok answer ∧ answer = (Candle.sort cs).rtake n ∧
      answer.filter (·.complete) = latestClosed cs (answer.countP (·.complete)) ∧
      (answer = latestClosed cs n ↔ ∀ c ∈ answer, c.complete = true)) ∧
    (∀ first last, ∃ answer, h.byPeriod key first last = .ok answer ∧
      answer = (Candle.sort cs).filter (within first last) ∧
      answer.filter (·.complete) = closedWithin cs first last ∧
      (answer = closedWithin cs first last ↔ ∀ c ∈ answer, c.complete = true)) ∧
    ((∀ n, h.byLimit key n = .ok (latestClosed cs n)) ↔ ∀ c ∈ cs, c.complete = true) ∧
    ((∀ first last, h.byPeriod key first last = .ok (closedWithin cs first last)) ↔
      ∀ c ∈ cs, c.complete = true) := by
  have hlimit := byLimit_ofStores capacity hgiven
  have hperiod := byPeriod_ofStores capacity hgiven
  refine ⟨fun n => ?_, fun first last => ?_, ?_, ?_⟩
  · refine ⟨_, hlimit n, rfl, ?_, rtake_eq_latestClosed_iff⟩
    rw [latestClosed, ← Candle.filter_sort, rtake_filter_countP]
  · exact ⟨_, hperiod first last, rfl, closedWithin_eq_filter.symm, filter_eq_closedWithin_iff⟩
  · simp only [hlimit, Except.ok.injEq, rtake_eq_latestClosed_iff]
    constructor
    · intro h c hc
      refine h cs.length c ?_
      have hlength : (Candle.sort cs).length = cs.length := List.length_mergeSort ..
      simpa [List.rtake, hlength] using mem_sort.2 hc
    · intro h n c hc
      exact h c (mem_sort.1 (List.mem_of_mem_drop hc))
  · simp only [hperiod, Except.ok.injEq, filter_eq_closedWithin_iff]
    constructor
    · intro h c hc
      exact h c.time c.time c (List.mem_filter.2 ⟨mem_sort.2 hc, within_self c⟩)
    · intro h first last c hc
      exact h c (mem_sort.1 (List.mem_filter.1 hc).1)

/-! ### A bar that is still forming -/

/-- What is told of the bar of a minute at a later one. -/
def bar (opens told : Int) (complete : Bool) : Candle Rat :=
  { (default : Candle Rat) with
    pair := "BTCUSDT", time := ⟨60 * opens, 0⟩, updated := ⟨60 * told, 0⟩, complete }

/-- The latest bar is still forming, and the one before it was told while it was forming too. -/
def formingAtEnd : List (Candle Rat) := [bar 2 2 false, bar 1 2 true, bar 1 1 false, bar 0 1 true]

/-- The bars are stored in the place of others, before those of another coin. -/
def formingStores : List (FeedKey × List (Candle Rat)) :=
  [(⟨"BTCUSDT", .m1⟩, [bar 7 8 true]), (⟨"BTCUSDT", .m1⟩, formingAtEnd), (⟨"ETHUSDT", .m1⟩, [])]

theorem sort_formingAtEnd : Candle.sort formingAtEnd =
    [bar 0 1 true, bar 1 1 false, bar 1 2 true, bar 2 2 false] := by
  simp +decide [Candle.sort, formingAtEnd, List.mergeSort]

theorem answers_of_stores_formingAtEnd :
    let h : History Rat := ofStores 1 formingStores
    given? formingStores ⟨"BTCUSDT", .m1⟩ = some formingAtEnd ∧
    (∃ answer, h.byLimit ⟨"BTCUSDT", .m1⟩ 3 = .ok answer ∧ answer.length = 3 ∧
      answer.filter (·.complete) = latestClosed formingAtEnd 1) ∧
    h.byPeriod ⟨"BTCUSDT", .m1⟩ ⟨0, 0⟩ ⟨59, 0⟩ =
      .ok (closedWithin formingAtEnd ⟨0, 0⟩ ⟨59, 0⟩) := by
  intro h
  have hgiven : given? formingStores ⟨"BTCUSDT", .m1⟩ = some formingAtEnd := by rfl
  obtain ⟨hlimit, hperiod, -, -⟩ := answers_of_stores 1 hgiven
  refine ⟨hgiven, ?_, ?_⟩
  · obtain ⟨answer, hanswer, rfl, hclosed, -⟩ := hlimit 3
    rw [sort_formingAtEnd] at hanswer hclosed
    exact ⟨_, hanswer, rfl, hclosed⟩
  · obtain ⟨answer, hanswer, rfl, -, hiff⟩ := hperiod ⟨0, 0⟩ ⟨59, 0⟩
    rw [sort_formingAtEnd] at hanswer hiff
    rw [hanswer, hiff.2 (by decide)]

/-- The bar that is still forming takes the place of a closed one in the answer, and a bar that was
told while it was forming is answered twice. -/
theorem answers_not_closed :
    let h : History Rat := ofStores 1 formingStores
    given? formingStores ⟨"BTCUSDT", .m1⟩ = some formingAtEnd ∧
    h.byLimit ⟨"BTCUSDT", .m1⟩ 2 = .ok [bar 1 2 true, bar 2 2 false] ∧
    h.byLimit ⟨"BTCUSDT", .m1⟩ 2 ≠ .ok (latestClosed formingAtEnd 2) ∧
    h.byPeriod ⟨"BTCUSDT", .m1⟩ ⟨60, 0⟩ ⟨60, 0⟩ = .ok [bar 1 1 false, bar 1 2 true] ∧
    h.byPeriod ⟨"BTCUSDT", .m1⟩ ⟨60, 0⟩ ⟨60, 0⟩ ≠
      .ok (closedWithin formingAtEnd ⟨60, 0⟩ ⟨60, 0⟩) := by
  intro h
  have hgiven : given? formingStores ⟨"BTCUSDT", .m1⟩ = some formingAtEnd := by rfl
  have hlimit := byLimit_ofStores 1 hgiven 2
  have hperiod := byPeriod_ofStores 1 hgiven ⟨60, 0⟩ ⟨60, 0⟩
  refine ⟨hgiven, ?_, ?_, ?_, ?_⟩
  · rw [hlimit, sort_formingAtEnd]
    rfl
  · rw [hlimit, ne_eq, Except.ok.injEq, rtake_eq_latestClosed_iff, sort_formingAtEnd]
    decide
  · rw [hperiod, sort_formingAtEnd]
    rfl
  · rw [hperiod, ne_eq, Except.ok.injEq, filter_eq_closedWithin_iff, sort_formingAtEnd]
    decide

end History

end Candlewick
