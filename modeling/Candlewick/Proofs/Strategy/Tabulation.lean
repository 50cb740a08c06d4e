import Candlewick.Proofs.Strategy.Bars

/-! # Frames and the bars in them

A frame keeps its bars in columns, and the series of a metric only from the candle on that first
carried it. `Frame.Tabulates` says that these are the columns of a list of bars, with the series that
the bars make of each metric. To push a candle does to the columns what `pushBar` does to the list
(`Tabulates.push`): what `resize` fills in is what the bars say that had the metric not, and where it
is filled in already it changes nothing. Indicators lie beside the bars and do not touch them. -/

namespace Candlewick

theorem Series.resize_length {α : Type} (s : Series α) : s.resize s.length = s := by
  simp [resize]

theorem Series.resize_nil {α : Type} (n : Nat) : resize ([] : Series α) n = .replicate n none := by
  simp [resize]

namespace Columns
variable {α : Type}

/-- The columns of some bars, which are given newest first. -/
def ofBars (bars : List (Bar α)) : Columns α where
  time := (bars.map (·.time)).reverse
  opening := (bars.map (·.opening)).reverse
  high := (bars.map (·.high)).reverse
  low := (bars.map (·.low)).reverse
  close := (bars.map (·.close)).reverse
  volume := (bars.map (·.volume)).reverse

theorem append_ofBars (bars : List (Bar α)) (c : Candle α) (metrics : Table Metric α) :
    (ofBars bars).append c = ofBars (.ofCandle c metrics :: bars) := by
  simp [append, ofBars, Bar.ofCandle]

theorem replace_ofBars {b : Bar α} {bs : List (Bar α)} {c : Candle α} (h : b.time = c.time)
    (metrics : Table Metric α) :
    (ofBars (b :: bs)).replace bs.length c = ofBars (.ofCandle c metrics :: bs) := by
  simp [replace, ofBars, Bar.ofCandle, h]

end Columns

namespace Frame
variable {α : Type} {f : Frame α} {bars : List (Bar α)}

/-! ### Metrics -/

/-- What some bars, newest first, say of a metric. -/
def metricColumn (bars : List (Bar α)) (m : Metric) : Series α :=
  (bars.map (·.metrics.get? m)).reverse

theorem metricColumn_of_untold {m : Metric} (h : bars.any (·.metrics.contains m) = false) :
    metricColumn bars m = .replicate bars.length none := by
  rw [metricColumn, List.reverse_eq_iff, List.reverse_replicate, List.eq_replicate_iff]
  refine ⟨List.length_map .., fun a ha => ?_⟩
  obtain ⟨b, hb, rfl⟩ := List.mem_map.1 ha
  have huntold : b.metrics.contains m = false := by simpa using List.any_eq_false.1 h b hb
  exact Option.isNone_iff_eq_none.1 (Option.isSome_eq_false_iff.1 huntold)

/-- What is done for each metric reaches its own series only. -/
theorem get?_foldl_metric
    {step : Table SeriesKey (Series α) → Metric → Table SeriesKey (Series α)}
    {change : Metric → Option (Series α) → Option (Series α)}
    (hstep : ∀ t m k, (step t m).get? k = if k = .metric m then change m (t.get? k) else t.get? k)
    (t : Table SeriesKey (Series α)) :
    (∀ m, (Metric.all.foldl step t).get? (.metric m) = change m (t.get? (.metric m))) ∧
      ∀ name, (Metric.all.foldl step t).get? (.indicator name) = t.get? (.indicator name) := by
  have hfold : ∀ (ms : List Metric) (t : Table SeriesKey (Series α)), ms.Nodup →
      (∀ m, (ms.foldl step t).get? (.metric m) =
        if m ∈ ms then change m (t.get? (.metric m)) else t.get? (.metric m)) ∧
      ∀ name, (ms.foldl step t).get? (.indicator name) = t.get? (.indicator name) := by
    intro ms
    induction ms with
    | nil => exact fun t _ => ⟨fun m => (if_neg List.not_mem_nil).symm, fun _ => rfl⟩
    | cons k ms ih =>
      intro t hnodup
      obtain ⟨hnew, hnodup⟩ := List.nodup_cons.1 hnodup
      obtain ⟨hmetric, hindicator⟩ := ih (step t k) hnodup
      refine ⟨fun m => ?_, fun name => ?_⟩
      · rw [List.foldl_cons, hmetric, hstep]
        by_cases hm : m = k
        · subst hm
          simp [hnew]
        · simp [hm]
      · rw [List.foldl_cons, hindicator, hstep, if_neg (by simp)]
  have hall : ∀ m, m ∈ Metric.all := by
    intro m
    cases m <;> decide
  obtain ⟨hmetric, hindicator⟩ := hfold Metric.all t (by decide)
  exact ⟨fun m => (hmetric m).trans (if_pos (hall m)), hindicator⟩

/-- The series of a metric, if there is one, after a candle that begins a bar. -/
def extended (c : Candle α) (size : Nat) (m : Metric) (s : Option (Series α)) :
    Option (Series α) :=
  if c.metadata.get? m = none ∧ s = none then none
  else some ((s.getD []).resize (size - 1) ++ [c.metadata.get? m])

theorem get?_extendMetric (c : Candle α) (size : Nat) (t : Table SeriesKey (Series α)) (m : Metric)
    (k : SeriesKey) : (extendMetric c size t m).get? k =
      if k = .metric m then extended c size m (t.get? k) else t.get? k := by
  unfold extendMetric extended
  by_cases hk : k = .metric m
  · subst hk
    cases hvalue : c.metadata.get? m <;> cases hold : t.get? (.metric m) <;>
      simp [Table.contains, Table.update, Table.getD, Table.get?_set, hold]
  · dsimp only
    rw [if_neg hk]
    split
    · rfl
    · rw [Table.update, Table.get?_set, if_neg hk]

/-- The series of a metric, if there is one, after another candle of the last bar. -/
def retold (c : Candle α) (size : Nat) (m : Metric) (s : Option (Series α)) : Option (Series α) :=
  (c.metadata.get? m).elim s fun a => some (((s.getD []).resize size).set (size - 1) (some a))

theorem get?_retellMetric (c : Candle α) (size : Nat) (t : Table SeriesKey (Series α)) (m : Metric)
    (k : SeriesKey) : (retellMetric c size t m).get? k =
      if k = .metric m then retold c size m (t.get? k) else t.get? k := by
  unfold retellMetric retold
  cases c.metadata.get? m with
  | none => simp
  | some a =>
    by_cases hk : k = .metric m
    · subst hk
      simp [Table.update, Table.get?_set, Table.getD]
    · simp [Table.update, Table.get?_set, hk]

/-! ### The bars of a frame -/

/-- The columns of a frame are those of some bars, newest first, and a metric has a series if a bar
carries it. -/
structure Tabulates (f : Frame α) (bars : List (Bar α)) : Prop where
  columns : f.bars = .ofBars bars
  metric : ∀ m, f.metric? m =
    if bars.any (·.metrics.contains m) then some (metricColumn bars m) else none

theorem tabulates_ofPair (pair : String) : (ofPair pair : Frame α).Tabulates [] :=
  ⟨rfl, fun _ => rfl⟩

namespace Tabulates

theorem congr {f' : Frame α} (h : f.Tabulates bars) (hbars : f'.bars = f.bars)
    (hmetric : ∀ m, f'.metric? m = f.metric? m) : f'.Tabulates bars :=
  ⟨hbars.trans h.columns, fun m => (hmetric m).trans (h.metric m)⟩

theorem size_eq (h : f.Tabulates bars) : f.size = bars.length := by
  rw [size, h.columns]
  simp [Columns.ofBars]

theorem resize_metric (h : f.Tabulates bars) (m : Metric) :
    ((f.metric? m).getD []).resize bars.length = metricColumn bars m := by
  rw [h.metric]
  cases htold : bars.any (·.metrics.contains m) with
  | true =>
    have hsize : (metricColumn bars m).length = bars.length := by simp [metricColumn]
    rw [if_pos rfl, Option.getD_some, ← hsize, Series.resize_length]
  | false =>
    rw [if_neg Bool.false_ne_true, Option.getD_none, Series.resize_nil, metricColumn_of_untold htold]

theorem metric?_eq_none (h : f.Tabulates bars) (m : Metric) :
    f.metric? m = none ↔ bars.any (·.metrics.contains m) = false := by
  rw [h.metric]
  cases bars.any (·.metrics.contains m) <;> simp

/-- A new bar extends the columns by one entry each. -/
theorem append (h : f.Tabulates bars) (c : Candle α) :
    (f.append c).Tabulates (.ofCandle c .empty :: bars) := by
  have hbars : (f.append c).bars = .ofBars (.ofCandle c .empty :: bars) := by
    rw [← Columns.append_ofBars, ← h.columns]
    rfl
  refine ⟨hbars, fun m => ?_⟩
  have hsize : (f.bars.append c).close.length - 1 = bars.length := by
    rw [Columns.append, List.length_append, ← h.size_eq]
    rfl
  have hget : (f.append c).metric? m =
      extended c (f.bars.append c).close.length m (f.metric? m) :=
    (get?_foldl_metric (get?_extendMetric c _) f.series).1 m
  have hvalue : (Bar.ofCandle c .empty).metrics.get? m = c.metadata.get? m := by
    rw [get?_metrics_ofCandle, Table.get?_empty, Option.or_none]
    rfl
  rw [hget, extended, hsize, h.resize_metric, List.any_cons, Table.contains, hvalue]
  simp only [h.metric?_eq_none]
  cases hc : c.metadata.get? m with
  | none => cases htold : bars.any (·.metrics.contains m) <;> simp [metricColumn, hvalue, hc]
  | some a => simp [metricColumn, hvalue, hc]

/-- A candle of the newest bar changes the last entry of the columns. -/
theorem replaceLast {b : Bar α} {bs : List (Bar α)} (h : f.Tabulates (b :: bs)) {c : Candle α}
    (htime : b.time = c.time) : (f.replaceLast c).Tabulates (.ofCandle c b.metrics :: bs) := by
  unfold Frame.replaceLast
  rw [h.size_eq, List.length_cons]
  refine ⟨?_, fun m => ?_⟩
  · rw [← Columns.replace_ofBars htime, ← h.columns]
  have hget : (Metric.all.foldl (retellMetric c (bs.length + 1)) f.series).get? (.metric m) =
      retold c (b :: bs).length m (f.metric? m) :=
    (get?_foldl_metric (get?_retellMetric c _) f.series).1 m
  have hvalue : (Bar.ofCandle c b.metrics).metrics.get? m =
      (c.metadata.get? m).or (b.metrics.get? m) := get?_metrics_ofCandle ..
  refine hget.trans ?_
  rw [retold, h.resize_metric, List.any_cons, Table.contains, hvalue]
  cases hc : c.metadata.get? m with
  | none =>
    rw [h.metric]
    simp [metricColumn, hvalue, hc, Table.contains]
  | some a => simp [metricColumn, hvalue, hc]

/-- The columns of a frame after a candle are those of its bars after the candle. -/
theorem push (h : f.Tabulates bars) (c : Candle α) : (f.push c).Tabulates (pushBar c bars) := by
  unfold Frame.push
  rw [h.columns]
  cases bars with
  | nil => exact h.append c
  | cons b bs =>
    have hlast : (Columns.ofBars (b :: bs)).time.getLast? = some b.time := by
      simp [Columns.ofBars]
    rw [hlast, pushBar]
    by_cases htime : b.time = c.time
    · rw [if_pos (congrArg some htime), if_pos htime]
      exact h.replaceLast htime
    · rw [if_neg fun heq => htime (Option.some.inj heq), if_neg htime]
      exact h.append c

theorem updated_push (h : f.Tabulates bars) (c : Candle α) : (f.push c).updated = some c.updated := by
  unfold Frame.push
  split
  next hlast =>
    cases bars with
    | nil =>
      rw [h.columns] at hlast
      cases hlast
    | cons b bs =>
      unfold Frame.replaceLast
      rw [h.size_eq]
      rfl
  · rfl

end Tabulates

theorem pair_push (f : Frame α) (c : Candle α) : (f.push c).pair = f.pair := by
  unfold push replaceLast
  split
  · split <;> rfl
  · rfl

/-- A candle changes no indicator. -/
theorem indicator?_push (f : Frame α) (c : Candle α) (name : String) :
    (f.push c).indicator? name = f.indicator? name := by
  unfold push replaceLast
  split
  · split
    · rfl
    · exact (get?_foldl_metric (get?_retellMetric c _) f.series).2 name
  · exact (get?_foldl_metric (get?_extendMetric c _) f.series).2 name

/-! ### Indicators -/

/-- Calls of `setIndicator` one after the other. One that is refused changes nothing. -/
def setIndicators (f : Frame α) (calls : List (String × Series α)) : Frame α :=
  calls.foldl (fun f call => ((f.setIndicator call.1 call.2).toOption).getD f) f

theorem setIndicators_eq (f : Frame α) (calls : List (String × Series α)) :
    ∃ series, f.setIndicators calls = { f with series } ∧
      ∀ m, series.get? (.metric m) = f.metric? m := by
  induction calls generalizing f with
  | nil => exact ⟨f.series, rfl, fun _ => rfl⟩
  | cons call calls ih =>
    obtain ⟨series, hset, hmetric⟩ :
        ∃ series, (f.setIndicator call.1 call.2).toOption.getD f = { f with series } ∧
          ∀ m, series.get? (.metric m) = f.metric? m := by
      unfold setIndicator
      split
      · exact ⟨f.series, rfl, fun _ => rfl⟩
      · split
        · exact ⟨f.series, rfl, fun _ => rfl⟩
        · exact ⟨_, rfl, fun m => (Table.get?_set ..).trans (if_neg (by simp))⟩
    obtain ⟨series', hcalls, hmetric'⟩ := ih { f with series }
    refine ⟨series', ?_, fun m => (hmetric' m).trans (hmetric m)⟩
    rw [setIndicators, List.foldl_cons, hset]
    exact hcalls

theorem Tabulates.setIndicators (h : f.Tabulates bars) (calls : List (String × Series α)) :
    (f.setIndicators calls).Tabulates bars := by
  obtain ⟨series, heq, hmetric⟩ := f.setIndicators_eq calls
  rw [heq]
  exact h.congr rfl hmetric

theorem store_singleton (f : Frame α) (name : String) (values : Series α) :
    (f.store [(name, values)]).1 = f.setIndicators [(name, values)] := by
  rcases hset : f.setIndicator name values with _ | f'
  · simp [store, setIndicators, hset, Except.toOption]
  · simp [store, setIndicators, hset, Except.toOption]

end Frame

/-- The indicators of a strategy do nothing to a frame but call `setIndicator`. -/
def Strategy.OnlySetsIndicators {α σ : Type} (s : Strategy α σ) : Prop :=
  ∀ m f, ∃ calls, (s.indicators m f).1.1 = f.setIndicators calls

end Candlewick
