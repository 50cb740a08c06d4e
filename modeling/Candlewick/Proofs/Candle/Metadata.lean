import Candlewick.Candle.Record
import Candlewick.Json.Reader
import Candlewick.Proofs.Table

/-! # What metadata keeps

All metadata is what some entries make of it that were stored one after the other: first those that
are written in the JSON form it was read from (`Metadata.Writes`), then those that the setters took
(`Metadata.tellAll_ofEntries`). So a lookup finds the last entry under its name, and all values are
finite. The names are another matter: the setters refuse blank names and those of metrics, and
reading does not, so that metadata is valid exactly if the text that it was read from names its
extensions as a setter would have let it (`Metadata.kept_of_calls`). -/

namespace Candlewick

/-! ### Readings of lists and records -/

theorem mapM_eq_some_iff {τ υ : Type} {f : τ → Option υ} {l : List τ} {r : List υ} :
    l.mapM f = some r ↔ l.map f = r.map some := by
  induction l generalizing r with
  | nil => cases r <;> simp
  | cons a l ih =>
    rw [List.mapM_cons, List.map_cons]
    cases ha : f a with
    | none => cases r <;> simp
    | some b => cases r <;> simp [ih, and_comm, Option.bind_eq_some_iff]

theorem bind_mapM {τ υ φ : Type} (f : τ → Option υ) (g : υ → Option φ) (l : List τ) :
    (l.mapM f).bind (·.mapM g) = l.mapM fun a => (f a).bind g := by
  induction l with
  | nil => rfl
  | cons a l ih =>
    rw [List.mapM_cons, List.mapM_cons, ← ih]
    cases f a with
    | none => rfl
    | some b => cases l.mapM f <;> cases hb : g b <;> simp [hb]

namespace Json

theorem slots?_eq_pair_iff {v : Json} {a b : String} {x y : Json} :
    slots? [a, b] v = some [.given x, .given y] ↔
      (∃ fields, v = .obj fields ∧ valuesOf a fields = [x] ∧ valuesOf b fields = [y]) ∨
      v = .arr [x, y] := by
  cases v with
  | obj fields =>
    simp only [slots?, mapM_eq_some_iff, List.map_cons, List.map_nil, List.cons.injEq, and_true,
      obj.injEq, exists_eq_left', reduceCtorEq, or_false]
    constructor
    · rintro ⟨ha, hb⟩
      constructor
      · split at ha <;> simp_all
      · split at hb <;> simp_all
    · rintro ⟨ha, hb⟩
      simp [ha, hb]
  | arr elements =>
    rcases elements with _ | ⟨e, _ | ⟨f, _ | ⟨g, elements⟩⟩⟩ <;> simp [slots?]
  | _ => simp [slots?]

theorem required_eq_some_iff {τ : Type} {read : Json → Option τ} {s : Slot} {x : τ} :
    s.required read = some x ↔ ∃ v, s = .given v ∧ read v = some x := by
  cases s <;> simp [Slot.required]

end Json

/-! ### Names of extensions -/

theorem Metric.ofName?_eq_none_iff {name : String} :
    ofName? name = none ↔ ∀ k : Metric, k.name ≠ name := by
  have hall : ∀ k : Metric, k ∈ all := by intro k; cases k <;> decide
  simp [ofName?, hall]

/-- A name that an extension may have: it is not blank, and no metric has it. -/
structure FreeName (name : String) : Prop where
  not_blank : allBlank name = false
  not_metric : ∀ k : Metric, k.name ≠ name

namespace Metadata
variable {α : Type}

/-- A value for a metric or for an extension. -/
inductive Entry (α : Type) where
  | metric (k : Metric) (value : α)
  | extension (name : String) (value : α)

namespace Entry

/-- The value. -/
def value : Entry α → α
  | .metric _ x => x
  | .extension _ x => x

/-- The value, if it is one for the metric. -/
def under? (k : Metric) : Entry α → Option α
  | .metric j x => if j = k then some x else none
  | .extension .. => none

/-- The value, if it is one for the extension. -/
def named? (name : String) : Entry α → Option α
  | .metric .. => none
  | .extension other x => if other = name then some x else none

/-- The metadata with the entry in it. -/
def store (m : Metadata α) : Entry α → Metadata α
  | .metric k x => { m with metrics := m.metrics.set k x }
  | .extension name x => { m with extra := m.extra.set name x }

variable {m : Metadata α} {e : Entry α} {k : Metric} {name : String}

theorem under?_eq_some_iff {x : α} : e.under? k = some x ↔ e = .metric k x := by
  cases e <;> simp [under?]

theorem named?_eq_some_iff {x : α} : e.named? name = some x ↔ e = .extension name x := by
  cases e <;> simp [named?]

theorem get?_store : (e.store m).get? k = (e.under? k).or (m.get? k) := by
  cases e with
  | metric j x =>
    have hset : ((Entry.metric j x).store m).get? k = if k = j then some x else m.get? k :=
      Table.get?_set ..
    rw [hset, under?]
    by_cases hk : k = j
    · simp [hk]
    · simp [hk, Ne.symm hk]
  | extension name x => rfl

theorem extra?_store : (e.store m).extra? name = (e.named? name).or (m.extra? name) := by
  cases e with
  | metric k x => rfl
  | extension other x =>
    have hset : ((Entry.extension other x).store m).extra? name =
        if name = other then some x else m.extra? name := Table.get?_set ..
    rw [hset, named?]
    by_cases hname : name = other
    · simp [hname]
    · simp [hname, Ne.symm hname]

end Entry

/-- The metadata into which some entries were stored, one after the other. -/
def ofEntries (es : List (Entry α)) : Metadata α := es.foldl Entry.store .empty

theorem ofEntries_concat (es : List (Entry α)) (e : Entry α) :
    ofEntries (es ++ [e]) = e.store (ofEntries es) := List.foldl_concat ..

/-- A lookup that sees one stored entry after the other finds the last one that it looks for. -/
theorem lookup_ofEntries {τ : Type} (lookup : Metadata α → Option τ) (seen : Entry α → Option τ)
    (hempty : lookup .empty = none)
    (hstore : ∀ m e, lookup (e.store m) = (seen e).or (lookup m)) (es : List (Entry α)) :
    lookup (ofEntries es) = (es.filterMap seen).getLast? := by
  induction es using List.reverseRecOn with
  | nil => exact hempty
  | append_singleton es e ih =>
    rw [ofEntries_concat, hstore, ih, List.filterMap_append]
    cases he : seen e <;> simp [he]

theorem get?_ofEntries (es : List (Entry α)) (k : Metric) :
    (ofEntries es).get? k = (es.filterMap (Entry.under? k)).getLast? :=
  lookup_ofEntries (·.get? k) _ rfl (fun _ _ => Entry.get?_store) es

theorem extra?_ofEntries (es : List (Entry α)) (name : String) :
    (ofEntries es).extra? name = (es.filterMap (Entry.named? name)).getLast? :=
  lookup_ofEntries (·.extra? name) _ rfl (fun _ _ => Entry.extra?_store) es

theorem mem_of_get?_ofEntries {es : List (Entry α)} {k : Metric} {x : α}
    (h : (ofEntries es).get? k = some x) : .metric k x ∈ es := by
  rw [get?_ofEntries] at h
  obtain ⟨e, he, hx⟩ := List.mem_filterMap.1 (List.mem_of_getLast? h)
  exact Entry.under?_eq_some_iff.1 hx ▸ he

theorem mem_of_extra?_ofEntries {es : List (Entry α)} {name : String} {x : α}
    (h : (ofEntries es).extra? name = some x) : .extension name x ∈ es := by
  rw [extra?_ofEntries] at h
  obtain ⟨e, he, hx⟩ := List.mem_filterMap.1 (List.mem_of_getLast? h)
  exact Entry.named?_eq_some_iff.1 hx ▸ he

theorem exists_extra?_ofEntries {es : List (Entry α)} {name : String} {x : α}
    (h : .extension name x ∈ es) : ∃ y, (ofEntries es).extra? name = some y := by
  have hmem : x ∈ es.filterMap (Entry.named? name) :=
    List.mem_filterMap.2 ⟨_, h, Entry.named?_eq_some_iff.2 rfl⟩
  rw [extra?_ofEntries, List.getLast?_eq_some_getLast (List.ne_nil_of_mem hmem)]
  exact ⟨_, rfl⟩

/-! ### Setters -/

section Setters
variable [Amount α] {m m' : Metadata α} {e : Entry α}

namespace Entry

/-- Hands the value to its setter. -/
def give (m : Metadata α) : Entry α → Except (MetadataError α) (Metadata α)
  | .metric k x => m.set k x
  | .extension name x => m.setExtra name x

/-- What the setters ask for. -/
def accepted : Entry α → Bool
  | .metric _ x => Amount.finite x
  | .extension name x => !allBlank name && (Metric.ofName? name).isNone && Amount.finite x

theorem finite_of_accepted (h : e.accepted = true) : Amount.finite e.value = true := by
  cases e with
  | metric k x => exact h
  | extension name x =>
    simp only [accepted, Bool.and_eq_true] at h
    exact h.2

theorem freeName_of_accepted {name : String} {x : α}
    (h : (Entry.extension name x).accepted = true) : FreeName name := by
  simp only [accepted, Bool.and_eq_true, Bool.not_eq_true', Option.isNone_iff_eq_none] at h
  exact ⟨h.1.1, Metric.ofName?_eq_none_iff.1 h.1.2⟩

theorem give_of_accepted (h : e.accepted = true) : e.give m = .ok (e.store m) := by
  cases e with
  | metric k x => exact if_pos h
  | extension name x =>
    simp only [accepted, Bool.and_eq_true, Bool.not_eq_true', Option.isNone_iff_eq_none] at h
    simp [give, setExtra, store, h]

theorem give_of_not_accepted (h : e.accepted = false) : ∃ err, e.give m = .error err := by
  cases e with
  | metric k x => exact ⟨_, if_neg (by simpa [accepted] using h)⟩
  | extension name x =>
    rw [give, setExtra]
    split
    · exact ⟨_, rfl⟩
    split
    · exact ⟨_, rfl⟩
    · rw [if_neg]
      · exact ⟨_, rfl⟩
      · intro hfinite
        simp_all [accepted]

end Entry

/-- The metadata after a value was handed to its setter, which may refuse it. -/
def tell (m : Metadata α) (e : Entry α) : Metadata α :=
  match e.give m with
  | .ok m' => m'
  | .error _ => m

/-- The metadata after some values were handed to their setters. -/
def tellAll (m : Metadata α) (es : List (Entry α)) : Metadata α := es.foldl tell m

theorem tell_of_accepted (h : e.accepted = true) : m.tell e = e.store m := by
  rw [tell, Entry.give_of_accepted h]

theorem tell_of_not_accepted (h : e.accepted = false) : m.tell e = m := by
  obtain ⟨err, herr⟩ := Entry.give_of_not_accepted (m := m) h
  rw [tell, herr]

theorem tellAll_ofEntries (es calls : List (Entry α)) :
    (ofEntries es).tellAll calls = ofEntries (es ++ calls.filter Entry.accepted) := by
  induction calls generalizing es with
  | nil => simp [tellAll]
  | cons e calls ih =>
    have hstep : (ofEntries es).tellAll (e :: calls) = ((ofEntries es).tell e).tellAll calls := rfl
    rw [hstep]
    cases he : e.accepted with
    | true =>
      rw [tell_of_accepted he, ← ofEntries_concat, ih, List.filter_cons_of_pos he,
        List.append_assoc, List.singleton_append]
    | false => rw [tell_of_not_accepted he, ih, List.filter_cons_of_neg (by simp [he])]

end Setters

/-! ### Reading -/

section Reading
variable {v : Json} {m : Metadata Float} {metrics : List (Metric × Float)}
  {extra : List (String × Float)}

/-- The value that is written under the name of a metric. -/
def writtenMetric? (field : String × Json) : Option (Metric × Float) :=
  (Json.float? field.2).bind fun x => (Metric.ofName? field.1).map fun k => (k, x)

/-- The value that is written under the name of an extension. -/
def writtenExtension? (field : String × Json) : Option (String × Float) :=
  (Json.float? field.2).map fun x => (field.1, x)

/-- A JSON form, and the values that it gives in the order in which they are written. -/
inductive Writes : Json → List (Metric × Float) → List (String × Float) → Prop
  | object {fields ms es : List (String × Json)} {metrics extra}
      (hmetrics : Json.valuesOf "metrics" fields = [.obj ms])
      (hextra : Json.valuesOf "extra" fields = [.obj es])
      (hms : ms.map writtenMetric? = metrics.map some)
      (hes : es.map writtenExtension? = extra.map some) : Writes (.obj fields) metrics extra
  | array {ms es : List (String × Json)} {metrics extra}
      (hms : ms.map writtenMetric? = metrics.map some)
      (hes : es.map writtenExtension? = extra.map some) :
      Writes (.arr [.obj ms, .obj es]) metrics extra

theorem readMetrics_eq_some_iff :
    ((Json.pairs? Json.float? v).bind (·.mapM fun (name, x) =>
      (Metric.ofName? name).map fun k => (k, x))) = some metrics ↔
      ∃ ms, v = .obj ms ∧ ms.map writtenMetric? = metrics.map some := by
  cases v with
  | obj ms =>
    have hfield : ∀ field : String × Json, (((Json.float? field.2).map fun x => (field.1, x)).bind
        fun (name, x) => (Metric.ofName? name).map fun k => (k, x)) = writtenMetric? field := by
      intro field
      rw [writtenMetric?]
      cases Json.float? field.2 <;> rfl
    simp only [Json.pairs?, bind_mapM, hfield, mapM_eq_some_iff, Json.obj.injEq, exists_eq_left']
  | _ => simp [Json.pairs?]

theorem readExtra_eq_some_iff : Json.pairs? Json.float? v = some extra ↔
    ∃ es, v = .obj es ∧ es.map writtenExtension? = extra.map some := by
  cases v with
  | obj es =>
    simp only [Json.pairs?, mapM_eq_some_iff, Json.obj.injEq, exists_eq_left']
    rfl
  | _ => simp [Json.pairs?]

theorem writes_iff : Writes v metrics extra ↔
    ∃ x y, Json.slots? ["metrics", "extra"] v = some [.given x, .given y] ∧
      (∃ ms, x = .obj ms ∧ ms.map writtenMetric? = metrics.map some) ∧
      ∃ es, y = .obj es ∧ es.map writtenExtension? = extra.map some := by
  simp only [Json.slots?_eq_pair_iff]
  constructor
  · intro h
    cases h with
    | object hmetrics hextra hms hes =>
      exact ⟨_, _, .inl ⟨_, rfl, hmetrics, hextra⟩, ⟨_, rfl, hms⟩, _, rfl, hes⟩
    | array hms hes => exact ⟨_, _, .inr rfl, ⟨_, rfl, hms⟩, _, rfl, hes⟩
  · rintro ⟨_, _, ⟨fields, rfl, hmetrics, hextra⟩ | rfl, ⟨ms, rfl, hms⟩, es, rfl, hes⟩
    · exact .object hmetrics hextra hms hes
    · exact .array hms hes

theorem read?_eq_some_iff : read? v = some m ↔
    ∃ metrics extra, Writes v metrics extra ∧ m = ⟨.ofList metrics, .ofList extra⟩ := by
  constructor
  · intro h
    simp only [read?, Option.bind_eq_bind, Option.bind_eq_some_iff] at h
    obtain ⟨slots, hslots, h⟩ := h
    split at h
    · rename_i s t
      simp only [Option.bind_eq_some_iff, Json.required_eq_some_iff] at h
      obtain ⟨named, ⟨x, rfl, hnamed⟩, metrics, hmetrics, extra, ⟨y, rfl, hextra⟩, hm⟩ := h
      have hread := readMetrics_eq_some_iff.1 (Option.bind_eq_some_iff.2 ⟨named, hnamed, hmetrics⟩)
      exact ⟨metrics, extra, writes_iff.2 ⟨x, y, hslots, hread, readExtra_eq_some_iff.1 hextra⟩,
        (Option.some.inj hm).symm⟩
    · cases h
  · rintro ⟨metrics, extra, hwrites, rfl⟩
    obtain ⟨x, y, hslots, hms, hes⟩ := writes_iff.1 hwrites
    obtain ⟨named, hnamed, hmetrics⟩ := Option.bind_eq_some_iff.1 (readMetrics_eq_some_iff.2 hms)
    simp [read?, hslots, Json.Slot.required, hnamed, hmetrics, readExtra_eq_some_iff.2 hes]

/-! ### What is kept -/

/-- Metadata before any call: it is empty, or it was read from a text, on its own or in a candle. -/
def Initial (m : Metadata Float) : Prop :=
  m = .empty ∨ ∃ text v, Json.read? text = some v ∧
    (read? v = some m ∨ ∃ c, Candle.read? v = some c ∧ c.metadata = m)

/-- The entries that metadata got before any call: none, or those that are written in the JSON form
that it was read from. -/
inductive Origin : Metadata Float → List (Entry Float) → Prop
  | default : Origin .empty []
  | read {v : Json} {m : Metadata Float} {metrics extra} (hwrites : Writes v metrics extra)
      (hread : read? v = some m) :
      Origin m (metrics.map (fun p => .metric p.1 p.2) ++ extra.map fun p => .extension p.1 p.2)

theorem ofEntries_written (metrics : List (Metric × Float)) (extra : List (String × Float)) :
    ofEntries (metrics.map (fun p => .metric p.1 p.2) ++ extra.map fun p => .extension p.1 p.2) =
      ⟨.ofList metrics, .ofList extra⟩ := by
  have hmetrics : ∀ m : Metadata Float,
      (metrics.map fun p => Entry.metric p.1 p.2).foldl Entry.store m =
        { m with metrics := metrics.foldl (fun t p => t.set p.1 p.2) m.metrics } := by
    induction metrics with
    | nil => exact fun m => rfl
    | cons p metrics ih => exact fun m => ih _
  have hextra : ∀ m : Metadata Float,
      (extra.map fun p => Entry.extension p.1 p.2).foldl Entry.store m =
        { m with extra := extra.foldl (fun t p => t.set p.1 p.2) m.extra } := by
    induction extra with
    | nil => exact fun m => rfl
    | cons p extra ih => exact fun m => ih _
  rw [ofEntries, List.foldl_append, hmetrics, hextra]
  rfl

variable {given : List (Entry Float)}

theorem Origin.eq_ofEntries (h : Origin m given) : m = ofEntries given := by
  cases h with
  | default => rfl
  | read hwrites hread =>
    have hm := read?_eq_some_iff.2 ⟨_, _, hwrites, rfl⟩
    rw [ofEntries_written]
    exact Option.some.inj (hread.symm.trans hm)

theorem exists_origin_of_read? (h : read? v = some m) : ∃ given, Origin m given := by
  obtain ⟨metrics, extra, hwrites, -⟩ := read?_eq_some_iff.1 h
  exact ⟨_, .read hwrites h⟩

theorem read?_metadata_of_candle {c : Candle Float} (h : Candle.read? v = some c) :
    c.metadata = .empty ∨ ∃ field, read? field = some c.metadata := by
  simp only [Candle.read?, Option.bind_eq_bind, Option.bind_eq_some_iff] at h
  obtain ⟨slots, -, h⟩ := h
  split at h
  · rename_i slot
    simp only [Option.bind_eq_some_iff] at h
    obtain ⟨_, -, _, -, _, -, _, -, _, -, _, -, _, -, _, -, _, -, metadata, hmetadata, h⟩ := h
    cases h
    cases slot with
    | given field => exact .inr ⟨field, hmetadata⟩
    | _ =>
      cases hmetadata
      exact .inl rfl
  · cases h

theorem Initial.exists_origin (h : Initial m) : ∃ given, Origin m given := by
  rcases h with rfl | ⟨text, v, -, hread | ⟨c, hcandle, rfl⟩⟩
  · exact ⟨[], .default⟩
  · exact exists_origin_of_read? hread
  · rcases read?_metadata_of_candle hcandle with hempty | ⟨field, hfield⟩
    · rw [hempty]
      exact ⟨[], .default⟩
    · exact exists_origin_of_read? hfield

theorem isFinite_of_float? {x : Float} (h : Json.float? v = some x) : x.isFinite = true := by
  cases v with
  | num n =>
    simp only [Json.float?, Option.ite_none_right_eq_some, Option.some.injEq] at h
    rw [← h.2]
    exact h.1
  | _ => simp [Json.float?] at h

theorem isFinite_of_writtenMetric? {field : String × Json} {p : Metric × Float}
    (h : writtenMetric? field = some p) : p.2.isFinite = true := by
  obtain ⟨x, hx, hk⟩ := Option.bind_eq_some_iff.1 h
  obtain ⟨k, -, rfl⟩ := Option.map_eq_some_iff.1 hk
  exact isFinite_of_float? hx

theorem isFinite_of_writtenExtension? {field : String × Json} {p : String × Float}
    (h : writtenExtension? field = some p) : p.2.isFinite = true := by
  obtain ⟨x, hx, rfl⟩ := Option.map_eq_some_iff.1 h
  exact isFinite_of_float? hx

theorem Origin.isFinite (h : Origin m given) : ∀ e ∈ given, e.value.isFinite = true := by
  intro e he
  cases h with
  | default => cases he
  | read hwrites _ =>
    obtain ⟨_, _, -, ⟨ms, -, hms⟩, es, -, hes⟩ := writes_iff.1 hwrites
    rcases List.mem_append.1 he with he | he
    · obtain ⟨p, hp, rfl⟩ := List.mem_map.1 he
      obtain ⟨field, -, hfield⟩ := List.mem_map.1 (hms ▸ List.mem_map_of_mem hp)
      exact isFinite_of_writtenMetric? hfield
    · obtain ⟨p, hp, rfl⟩ := List.mem_map.1 he
      obtain ⟨field, -, hfield⟩ := List.mem_map.1 (hes ▸ List.mem_map_of_mem hp)
      exact isFinite_of_writtenExtension? hfield

end Reading

/-- Only finite values, and only names that an extension may have. -/
structure Valid (m : Metadata Float) : Prop where
  metrics_finite : ∀ k x, m.get? k = some x → x.isFinite = true
  extra_finite : ∀ name x, m.extra? name = some x → x.isFinite = true
  names : ∀ name x, m.extra? name = some x → FreeName name

section Valid
variable {es given : List (Entry Float)} {m₀ : Metadata Float}

theorem valid_ofEntries_iff (h : ∀ e ∈ es, e.value.isFinite = true) :
    (ofEntries es).Valid ↔ ∀ name x, .extension name x ∈ es → FreeName name := by
  constructor
  · intro hvalid name x hx
    obtain ⟨y, hy⟩ := exists_extra?_ofEntries hx
    exact hvalid.names name y hy
  · intro hfree
    exact ⟨fun k x hx => h (.metric k x) (mem_of_get?_ofEntries hx),
      fun name x hx => h (.extension name x) (mem_of_extra?_ofEntries hx),
      fun name x hx => hfree name x (mem_of_extra?_ofEntries hx)⟩

theorem Origin.isFinite_taken (h : Origin m₀ given) (calls : List (Entry Float)) :
    ∀ e ∈ given ++ calls.filter Entry.accepted, e.value.isFinite = true := by
  intro e he
  rcases List.mem_append.1 he with he | he
  · exact h.isFinite e he
  · exact Entry.finite_of_accepted (List.mem_filter.1 he).2

theorem freeName_taken_iff (calls : List (Entry Float)) :
    (∀ name x, .extension name x ∈ given ++ calls.filter Entry.accepted → FreeName name) ↔
      ∀ name x, .extension name x ∈ given → FreeName name := by
  constructor
  · exact fun h name x hx => h name x (List.mem_append_left _ hx)
  · intro h name x hx
    rcases List.mem_append.1 hx with hx | hx
    · exact h name x hx
    · exact Entry.freeName_of_accepted (List.mem_filter.1 hx).2

/-- All values are finite, whatever is read and set, and a lookup finds the last value that was
taken; a refused value changes nothing. The metadata is valid exactly if the names of extensions
that were read are free. -/
theorem kept_of_calls (hinitial : Initial m₀) :
    (∃ given, Origin m₀ given) ∧ ∀ given, Origin m₀ given → ∀ calls : List (Entry Float),
      let m := m₀.tellAll calls
      let taken := given ++ calls.filter Entry.accepted
      ((∀ k x, m.get? k = some x → x.isFinite = true) ∧
        ∀ name x, m.extra? name = some x → x.isFinite = true) ∧
      (m.Valid ↔ ∀ name x, .extension name x ∈ given → FreeName name) ∧
      (∀ (m' : Metadata Float) e, (e.accepted = true → e.give m' = .ok (m'.tell e)) ∧
        (e.accepted = false → (∃ err, e.give m' = .error err) ∧ m'.tell e = m')) ∧
      (∀ k, m.get? k = (taken.filterMap (Entry.under? k)).getLast?) ∧
      ∀ name, m.extra? name = (taken.filterMap (Entry.named? name)).getLast? := by
  refine ⟨hinitial.exists_origin, ?_⟩
  intro given h calls m taken
  have hm : m = ofEntries taken := by rw [← tellAll_ofEntries, ← h.eq_ofEntries]
  have hfinite := h.isFinite_taken calls
  rw [hm]
  refine ⟨⟨fun k x hx => hfinite (.metric k x) (mem_of_get?_ofEntries hx),
      fun name x hx => hfinite (.extension name x) (mem_of_extra?_ofEntries hx)⟩,
    (valid_ofEntries_iff hfinite).trans (freeName_taken_iff calls),
    fun m' e => ⟨fun he => ?_,
      fun he => ⟨Entry.give_of_not_accepted he, tell_of_not_accepted he⟩⟩,
    get?_ofEntries taken, extra?_ofEntries taken⟩
  rw [tell_of_accepted he, Entry.give_of_accepted he]

/-! ### A blank name -/

/-- A text that names one of its extensions with a blank. -/
def blankName : String :=
  "\x7b\"metrics\":\x7b\x7d,\"extra\":\x7b\" \":1,\"skew\":2\x7d\x7d"

/-- The value that the text holds. -/
def blankNameForm : Json :=
  .obj [("metrics", .obj []), ("extra", .obj [(" ", .num (.ofInt 1)), ("skew", .num (.ofInt 2))])]

/-- The metadata that the value gives. -/
def blankNamed : Metadata Float := ⟨.ofList [], .ofList [(" ", 1), ("skew", 2)]⟩

theorem writes_blankName : Writes blankNameForm [] [(" ", 1), ("skew", 2)] := by
  have hmetrics : ([] : List (String × Json)).map writtenMetric? = [].map some := rfl
  exact .object rfl rfl hmetrics (by decide +kernel)

theorem read?_blankName : Json.read? blankName = some blankNameForm := by rfl

theorem read?_blankNameForm : read? blankNameForm = some blankNamed :=
  read?_eq_some_iff.2 ⟨_, _, writes_blankName, rfl⟩

/-- The text is accepted, and the blank name with it. -/
theorem not_valid_of_read :
    ∃ m, (Json.read? blankName).bind read? = some m ∧ ¬ m.Valid := by
  refine ⟨blankNamed, by rw [read?_blankName]; exact read?_blankNameForm, fun hvalid => ?_⟩
  have hblank := (hvalid.names " " 1 (by decide +kernel)).not_blank
  exact absurd hblank (by decide)

/-- The setters refuse the blank name that was read, and what was read under it stays. -/
theorem kept_of_calls_blankName :
    Initial blankNamed ∧
      let m := blankNamed.tellAll [.extension "skew" (1 / 0), .extension " " 3,
        .extension "trades" 1, .metric .trades 5, .extension "skew" 4]
      m.extra? " " = some 1 ∧ m.extra? "skew" = some 4 ∧ m.get? .trades = some 5 ∧ ¬ m.Valid := by
  have hinitial : Initial blankNamed :=
    .inr ⟨blankName, blankNameForm, read?_blankName, .inl read?_blankNameForm⟩
  have horigin : Origin blankNamed [.extension " " 1, .extension "skew" 2] :=
    .read writes_blankName read?_blankNameForm
  obtain ⟨-, hvalid, -, hget, hextra⟩ := (kept_of_calls hinitial).2 _ horigin
    [.extension "skew" (1 / 0), .extension " " 3, .extension "trades" 1, .metric .trades 5,
      .extension "skew" 4]
  refine ⟨hinitial, ?_, ?_, ?_, fun h => ?_⟩
  · rw [hextra]
    decide +kernel
  · rw [hextra]
    decide +kernel
  · rw [hget]
    decide +kernel
  · exact absurd (hvalid.1 h " " 1 (by simp)).not_blank (by decide)

end Valid

end Metadata

end Candlewick
