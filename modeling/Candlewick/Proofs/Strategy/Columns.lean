import Candlewick.Proofs.Strategy.Tabulation
import Mathlib.Data.List.SplitBy

/-! # Columns

All that was pushed to a frame and stored in it is a list of edits, and what a frame shows can be
read off that list. The pushed candles fall into bars, which are the longest stretches that open at
one time (`Candle.byBar`). A frame keeps the columns of one bar for each stretch
(`Frame.Collects.push`): the columns tell the last candle of each, and the series of a metric tells
the value that came last in each (`Frame.shows_of_edits`). Indicators are what was stored with a name
and with one value for each bar there was at the time. -/

namespace Candlewick

namespace Candle
variable {α : Type} {cs : List (Candle α)} {c k : Candle α}

/-- The candles of each bar: the longest stretches that open at one time. -/
def byBar (cs : List (Candle α)) : List (List (Candle α)) :=
  cs.splitBy fun a b => a.time = b.time

/-- The last candle of each bar. -/
def closing (cs : List (Candle α)) : List (Candle α) := (byBar cs).filterMap List.getLast?

/-- The value of a metric that came last in a bar. -/
def lastTold? (m : Metric) (bar : List (Candle α)) : Option α :=
  (bar.filterMap (·.metadata.get? m)).getLast?

theorem byBar_concat_new (h : ∀ k ∈ cs.getLast?, k.time ≠ c.time) :
    byBar (cs ++ [c]) = byBar cs ++ [[c]] :=
  List.splitBy_append_cons [] fun k hk => by simpa using h k hk

theorem byBar_concat_same {older : List (List (Candle α))} {bar : List (Candle α)}
    (h : byBar cs = older ++ [bar]) (hlast : bar.getLast? = some k) (htime : k.time = c.time) :
    byBar (cs ++ [c]) = older ++ [bar ++ [c]] := by
  have hbar : bar ≠ [] := by
    rintro rfl
    cases hlast
  obtain ⟨hflatten, hnil, hstretch, hapart⟩ := List.splitBy_eq_iff.1 h
  obtain ⟨hbefore, -, hborder⟩ := List.isChain_append.1 hapart
  refine List.splitBy_eq_iff.2 ⟨by simp [hflatten], ?_, fun m hm => ?_, ?_⟩
  · simpa using fun h => hnil (List.mem_append_left _ h)
  · rcases List.mem_append.1 hm with hm | hm
    · exact hstretch m (List.mem_append_left _ hm)
    · rw [List.mem_singleton.1 hm]
      refine List.isChain_append.2 ⟨hstretch bar (by simp), List.isChain_singleton _, ?_⟩
      intro a ha b hb
      obtain rfl := Option.some.inj (hlast.symm.trans ha)
      obtain rfl := Option.some.inj hb
      exact decide_eq_true htime
  · refine List.isChain_append.2 ⟨hbefore, List.isChain_singleton _, fun a ha b hb => ?_⟩
    obtain ⟨hne, _, hdiffer⟩ := hborder a ha bar rfl
    obtain rfl := Option.some.inj hb
    refine ⟨hne, by simp, ?_⟩
    rwa [List.head_append_of_ne_nil hbar]

theorem getLast?_of_byBar {older : List (List (Candle α))} {bar : List (Candle α)}
    (h : byBar cs = older ++ [bar]) : cs.getLast? = bar.getLast? := by
  obtain ⟨hflatten, hnil, -⟩ := List.splitBy_eq_iff.1 h
  have hbar : bar ≠ [] := by
    rintro rfl
    simp at hnil
  rw [hflatten]
  simp [List.getLast?_append, List.getLast?_eq_some_getLast hbar]

end Candle

namespace Frame
variable {α : Type} {f : Frame α} {cs : List (Candle α)} {c : Candle α}

open Candle (byBar closing lastTold?)

/-- Some bars are those of some candles, newest first on either side. -/
def Merges (bars : List (Bar α)) (cs : List (Candle α)) : Prop :=
  List.Forall₂ Bar.Merges bars (byBar cs).reverse

theorem merges_nil : Merges ([] : List (Bar α)) [] := .nil

theorem Merges.size_eq {bars : List (Bar α)} (h : Merges bars cs) :
    bars.length = (byBar cs).length := by
  simpa using h.length_eq

theorem Merges.push {bars : List (Bar α)} (h : Merges bars cs) (c : Candle α) :
    Merges (pushBar c bars) (cs ++ [c]) := by
  have hnew : (Bar.ofCandle c .empty).Merges ([] ++ [c]) := merges_ofCandle fun _ => rfl
  unfold Merges at h ⊢
  rcases hbars : (byBar cs).reverse with - | ⟨bar, older⟩
  · have hnone : cs = [] := by simpa [byBar] using hbars
    subst hnone
    cases bars with
    | nil => exact .cons hnew .nil
    | cons => cases h
  · have hsplit : byBar cs = older.reverse ++ [bar] := by
      rw [← List.reverse_reverse (byBar cs), hbars, List.reverse_cons]
    rw [hbars] at h
    obtain ⟨b, bs, hb, hbs, rfl⟩ := List.forall₂_cons_right_iff.1 h
    obtain ⟨k, hk, htime, -⟩ := hb.prices
    rw [pushBar]
    split
    next hsame =>
      rw [Candle.byBar_concat_same hsplit hk (htime.symm.trans hsame)]
      simpa using ⟨merges_ofCandle hb.metrics, hbs⟩
    next hother =>
      rw [Candle.byBar_concat_new, List.reverse_append, hbars]
      · exact .cons hnew (.cons hb hbs)
      · intro k' hk'
        rw [Candle.getLast?_of_byBar hsplit, hk] at hk'
        obtain rfl := Option.some.inj hk'
        exact fun heq => hother (htime.trans heq)

/-- What a frame was filled with: it is of a pair, and its columns are those of bars that merge some
candles. -/
structure Collects (f : Frame α) (pair : String) (cs : List (Candle α)) : Prop where
  pair : f.pair = pair
  merges : ∃ bars, f.Tabulates bars ∧ Merges bars cs
  updated : f.updated = cs.getLast?.map (·.updated)

theorem collects_ofPair (pair : String) : (ofPair pair : Frame α).Collects pair [] :=
  ⟨rfl, ⟨[], tabulates_ofPair pair, merges_nil⟩, rfl⟩

/-- A candle is pushed to the columns as it is to the bars. -/
theorem Collects.push {pair : String} (h : f.Collects pair cs) (c : Candle α) :
    (f.push c).Collects pair (cs ++ [c]) := by
  obtain ⟨bars, htable, hmerges⟩ := h.merges
  refine ⟨(f.pair_push c).trans h.pair, ⟨_, htable.push c, hmerges.push c⟩, ?_⟩
  rw [htable.updated_push, List.getLast?_concat, Option.map_some]

theorem Collects.setIndicators {pair : String} (h : f.Collects pair cs)
    (calls : List (String × Series α)) : (f.setIndicators calls).Collects pair cs := by
  obtain ⟨bars, htable, hmerges⟩ := h.merges
  obtain ⟨series, heq, -⟩ := f.setIndicators_eq calls
  refine ⟨?_, ⟨bars, htable.setIndicators calls, hmerges⟩, ?_⟩
  · rw [heq, h.pair]
  · rw [heq, h.updated]

theorem Collects.size_eq {pair : String} (h : f.Collects pair cs) :
    f.size = (byBar cs).length := by
  obtain ⟨bars, htable, hmerges⟩ := h.merges
  rw [htable.size_eq, hmerges.size_eq]

/-! ### Columns and metrics -/

theorem Merges.column_eq {bars : List (Bar α)} (h : Merges bars cs) {τ : Type} {g : Bar α → τ}
    {g' : Candle α → τ}
    (hg : ∀ b bar k, b.Merges bar → bar.getLast? = some k → g b = g' k) :
    (bars.map g).reverse = (closing cs).map g' := by
  have hmap : ∀ {bars : List (Bar α)} {told : List (List (Candle α))},
      List.Forall₂ Bar.Merges bars told →
      bars.map g = (told.filterMap List.getLast?).map g' := by
    intro bars told h
    induction h with
    | nil => rfl
    | cons hb _ ih =>
      obtain ⟨k, hk, -⟩ := hb.prices
      rw [List.map_cons, ih, List.filterMap_cons_some hk, List.map_cons, hg _ _ k hb hk]
  rw [hmap h, List.filterMap_reverse, List.map_reverse, List.reverse_reverse]
  rfl

theorem prices_of_last {b : Bar α} {bar : List (Candle α)} {k : Candle α} (hb : b.Merges bar)
    (hk : bar.getLast? = some k) : b.time = k.time ∧ b.opening = k.opening ∧ b.high = k.high ∧
      b.low = k.low ∧ b.close = k.close ∧ b.volume = k.volume := by
  obtain ⟨k', hk', hprices⟩ := hb.prices
  obtain rfl := Option.some.inj (hk.symm.trans hk')
  exact hprices

theorem Merges.metricColumn_eq {bars : List (Bar α)} (h : Merges bars cs) (m : Metric) :
    metricColumn bars m = (byBar cs).map (lastTold? m) := by
  have hmap : ∀ {bars : List (Bar α)} {told : List (List (Candle α))},
      List.Forall₂ Bar.Merges bars told →
      bars.map (·.metrics.get? m) = told.map (lastTold? m) := by
    intro bars told h
    induction h with
    | nil => rfl
    | cons hb _ ih => rw [List.map_cons, ih, List.map_cons, hb.metrics]; rfl
  rw [metricColumn, hmap h, List.map_reverse, List.reverse_reverse]

theorem isSome_lastTold? (m : Metric) (bar : List (Candle α)) :
    (lastTold? m bar).isSome = bar.any fun k => (k.metadata.get? m).isSome := by
  rw [Bool.eq_iff_iff, lastTold?, List.getLast?_isSome, List.any_eq_true]
  simp [List.filterMap_eq_nil_iff, Option.isSome_iff_ne_none]

/-- A bar carries a metric exactly if a candle does. -/
theorem Merges.any_contains {bars : List (Bar α)} (h : Merges bars cs) (m : Metric) :
    bars.any (·.metrics.contains m) = cs.any fun k => (k.metadata.get? m).isSome := by
  calc bars.any (·.metrics.contains m)
      = (metricColumn bars m).any Option.isSome := by
        rw [metricColumn, List.any_reverse, List.any_map]
        rfl
    _ = (byBar cs).any fun bar => (lastTold? m bar).isSome := by
        rw [h.metricColumn_eq, List.any_map]
        rfl
    _ = (byBar cs).flatten.any fun k => (k.metadata.get? m).isSome := by
        simp only [isSome_lastTold?, List.any_flatten]
    _ = cs.any fun k => (k.metadata.get? m).isSome := by rw [byBar, List.flatten_splitBy]

/-- A frame has a series of a metric exactly if some candle carried it. -/
theorem Collects.metric?_eq {pair : String} (h : f.Collects pair cs) (m : Metric) :
    f.metric? m = if cs.any fun k => (k.metadata.get? m).isSome then
      some ((byBar cs).map (lastTold? m)) else none := by
  obtain ⟨bars, htable, hmerges⟩ := h.merges
  rw [htable.metric, hmerges.any_contains, hmerges.metricColumn_eq]

/-! ### Edits -/

/-- What is done to a frame. -/
inductive Edit (α : Type) where
  | push (c : Candle α)
  | store (name : String) (values : Series α)

/-- The frame after an edit. One that is refused changes nothing. -/
def after (f : Frame α) : Edit α → Frame α
  | .push c => f.push c
  | .store name values => f.setIndicators [(name, values)]

/-- The frame after some edits. -/
def run (f : Frame α) (edits : List (Edit α)) : Frame α := edits.foldl after f

namespace Edit

/-- The candles that some edits push. -/
def pushed (edits : List (Edit α)) : List (Candle α) :=
  edits.filterMap fun
    | push c => some c
    | store _ _ => none

/-- The series that some edits store under a name when some candles have been pushed before. -/
def stored (name : String) (cs : List (Candle α)) : List (Edit α) → List (Series α)
  | [] => []
  | push c :: edits => stored name (cs ++ [c]) edits
  | store n values :: edits =>
    (if n = name ∧ allBlank n = false ∧ values.length = (byBar cs).length then [values] else []) ++
      stored name cs edits

theorem pushed_concat (edits : List (Edit α)) (edit : Edit α) :
    pushed (edits ++ [edit]) = pushed edits ++ pushed [edit] :=
  List.filterMap_append

theorem stored_append (name : String) (cs : List (Candle α)) (edits later : List (Edit α)) :
    stored name cs (edits ++ later) =
      stored name cs edits ++ stored name (cs ++ pushed edits) later := by
  induction edits generalizing cs with
  | nil => simp [stored, pushed]
  | cons edit edits ih =>
    cases edit with
    | push c => simp [stored, pushed, ih]
    | store n values => simp [stored, pushed, ih]

end Edit

/-- A series is stored if it has a name and a value for each bar, and else nothing changes. -/
theorem after_store (f : Frame α) (name : String) (values : Series α) :
    f.after (.store name values) =
      if allBlank name = false ∧ values.length = f.size then
        { f with series := f.series.set (.indicator name) values } else f := by
  unfold after setIndicators setIndicator
  by_cases hname : allBlank name = true
  · simp [hname, Except.toOption]
  · by_cases hlength : values.length = f.size
    · simp [hname, hlength, Except.toOption]
    · simp [hname, hlength, Except.toOption]

/-- The state of a frame of a pair after some edits. -/
structure Follows (f : Frame α) (pair : String) (edits : List (Edit α)) : Prop
    extends Collects f pair (Edit.pushed edits) where
  indicators : ∀ name, f.indicator? name = (Edit.stored name [] edits).getLast?

variable {pair : String} {edits : List (Edit α)}

theorem Follows.push (h : f.Follows pair edits) (c : Candle α) :
    (f.push c).Follows pair (edits ++ [.push c]) := by
  have hpushed : Edit.pushed (edits ++ [.push c]) = Edit.pushed edits ++ [c] :=
    Edit.pushed_concat ..
  refine ⟨?_, fun name => ?_⟩
  · rw [hpushed]
    exact h.toCollects.push c
  · rw [Edit.stored_append, Edit.stored, Edit.stored, List.append_nil, indicator?_push]
    exact h.indicators name

theorem Follows.store (h : f.Follows pair edits) (name : String) (values : Series α) :
    (f.after (.store name values)).Follows pair (edits ++ [.store name values]) := by
  have hpushed : Edit.pushed (edits ++ [.store name values]) = Edit.pushed edits :=
    (Edit.pushed_concat ..).trans (List.append_nil _)
  have hstored : ∀ k, Edit.stored k [] (edits ++ [.store name values]) = Edit.stored k [] edits ++
      if name = k ∧ allBlank name = false ∧ values.length = f.size then [values] else [] := by
    intro k
    rw [Edit.stored_append, Edit.stored, Edit.stored, List.append_nil, List.nil_append,
      h.toCollects.size_eq]
  refine ⟨hpushed ▸ h.toCollects.setIndicators _, fun k => ?_⟩
  rw [hstored, after_store]
  split
  next haccepted =>
    rw [indicator?, Table.get?_set]
    by_cases hk : k = name
    · subst hk
      simp [haccepted]
    · have hk' : ¬ name = k := fun heq => hk heq.symm
      rw [if_neg fun heq => hk (SeriesKey.indicator.inj heq), if_neg fun hall => hk' hall.1,
        List.append_nil]
      exact h.indicators k
  next hrefused =>
    have hnot : ¬ (name = k ∧ allBlank name = false ∧ values.length = f.size) :=
      fun hall => hrefused hall.2
    rw [if_neg hnot, List.append_nil]
    exact h.indicators k

theorem follows_run (pair : String) (edits : List (Edit α)) :
    ((ofPair pair).run edits).Follows pair edits := by
  induction edits using List.reverseRecOn with
  | nil => exact ⟨collects_ofPair pair, fun _ => rfl⟩
  | append_singleton edits edit ih =>
    rw [run, List.foldl_concat]
    cases edit with
    | push c => exact ih.push c
    | store name values => exact ih.store name values

/-- What a frame shows after some edits, and what a further edit does to it. -/
structure Shows (f : Frame α) (edits : List (Edit α)) : Prop where
  times : f.bars.time = (closing (Edit.pushed edits)).map (·.time)
  openings : f.bars.opening = (closing (Edit.pushed edits)).map (·.opening)
  highs : f.bars.high = (closing (Edit.pushed edits)).map (·.high)
  lows : f.bars.low = (closing (Edit.pushed edits)).map (·.low)
  closes : f.bars.close = (closing (Edit.pushed edits)).map (·.close)
  volumes : f.bars.volume = (closing (Edit.pushed edits)).map (·.volume)
  size : f.size = (byBar (Edit.pushed edits)).length
  updated : f.updated = (Edit.pushed edits).getLast?.map (·.updated)
  /-- A metric has a series exactly if some candle carried it, with one value for each bar. -/
  metrics : ∀ m, f.metric? m =
    if (Edit.pushed edits).any fun c => (c.metadata.get? m).isSome then
      some ((byBar (Edit.pushed edits)).map (lastTold? m)) else none
  /-- An indicator is the series that was stored last. -/
  indicators : ∀ name, f.indicator? name = (Edit.stored name [] edits).getLast?
  push : ∀ c name, (f.push c).indicator? name = f.indicator? name
  refused : ∀ name values e, f.setIndicator name values = .error e →
    f.after (.store name values) = f

/-- Whatever is pushed to an empty frame and stored in it, the frame shows the bars that the pushed
candles tell and the indicators that were stored. -/
theorem shows_of_edits (pair : String) (edits : List (Edit α)) :
    ((ofPair pair).run edits).Shows edits := by
  have h := follows_run pair edits
  obtain ⟨bars, htable, hmerges⟩ := h.merges
  refine ⟨?_, ?_, ?_, ?_, ?_, ?_, h.toCollects.size_eq, h.updated, h.toCollects.metric?_eq,
    h.indicators, fun c => indicator?_push _ c, fun name values e he => ?_⟩
  · rw [htable.columns]
    exact hmerges.column_eq fun b bar k hb hk => (prices_of_last hb hk).1
  · rw [htable.columns]
    exact hmerges.column_eq fun b bar k hb hk => (prices_of_last hb hk).2.1
  · rw [htable.columns]
    exact hmerges.column_eq fun b bar k hb hk => (prices_of_last hb hk).2.2.1
  · rw [htable.columns]
    exact hmerges.column_eq fun b bar k hb hk => (prices_of_last hb hk).2.2.2.1
  · rw [htable.columns]
    exact hmerges.column_eq fun b bar k hb hk => (prices_of_last hb hk).2.2.2.2.1
  · rw [htable.columns]
    exact hmerges.column_eq fun b bar k hb hk => (prices_of_last hb hk).2.2.2.2.2
  · simp [after, setIndicators, he, Except.toOption]

end Frame

end Candlewick
