import Candlewick.Proofs.Session.Causality
import Candlewick.Proofs.Strategy.Columns
import Candlewick.Strategy.Scripted

/-! # What a watcher calls its strategy for

A watcher is started at some time and takes in candles, each as a session takes it in
(`Session.process_eq_feed`). What it calls its strategy for is told by the candles and the place of
the start alone (`Watcher.told_eq_flatMap`): a candle is seen after some complete candles, and calls
for what these and the candle come to (`Sighting`). A candle that is not complete is among these for
no other, so the calls on closed bars are the same without it (`Watcher.calls_of_candles`). -/

namespace Candlewick

/-- The indicators of a strategy as a frame determines them: the calls of `setIndicator`, and
whether they count as a success. -/
structure Indicators (α : Type) where
  stored : Frame α → List (String × Series α)
  succeeds : Frame α → Bool

/-- The strategy computes such indicators, whatever it remembers, and does nothing else to a
frame. -/
structure Strategy.Computes {α σ : Type} (s : Strategy α σ) (ind : Indicators α) : Prop where
  frame : ∀ m f, (s.indicators m f).1.1 = f.setIndicators (ind.stored f)
  succeeds : ∀ m f, (s.indicators m f).1.2.isNone = ind.succeeds f

theorem Strategy.Computes.noted {α σ : Type} {s : Strategy α σ} {ind : Indicators α}
    (h : s.Computes ind) : s.noted.Computes ind :=
  ⟨fun m f => h.frame m.1 f, fun m f => h.succeeds m.1 f⟩

namespace Indicators
variable {α : Type} (ind : Indicators α) (warmup : Nat)

/-- The closed bars after a complete candle, with the indicators once there are enough bars. -/
def close (f : Frame α) (c : Candle α) : Frame α :=
  if warmup ≤ (f.push c).size then (f.push c).setIndicators (ind.stored (f.push c)) else f.push c

/-- The closed bars after some complete candles. -/
def history (pair : String) (cs : List (Candle α)) : Frame α :=
  cs.foldl (ind.close warmup) (.ofPair pair)

theorem history_concat (pair : String) (cs : List (Candle α)) (c : Candle α) :
    ind.history warmup pair (cs ++ [c]) = ind.close warmup (ind.history warmup pair cs) c :=
  List.foldl_concat ..

theorem history_collects (pair : String) (cs : List (Candle α)) :
    (ind.history warmup pair cs).Collects pair cs := by
  induction cs using List.reverseRecOn with
  | nil => exact Frame.collects_ofPair pair
  | append_singleton cs c ih =>
    rw [history_concat, close]
    split
    · exact (ih.push c).setIndicators _
    · exact ih.push c

end Indicators

/-- A candle as a watcher sees it: whether it has been started, and the complete candles before. -/
structure Sighting (α : Type) where
  started : Bool
  past : List (Candle α)
  candle : Candle α

namespace Sighting
variable {α : Type} (ind : Indicators α) (warmup : Nat) (pair : String) (a : Sighting α)

/-- The frame that the strategy is shown with the candle on top of the closed bars, if it is. -/
def forming? : Option (Frame α) :=
  if a.started ∧ warmup ≤ (Candle.byBar a.past).length then
    some ((ind.history warmup pair a.past).push a.candle)
  else none

/-- The frame that the indicators are computed on, if they are. -/
def computed? : Option (Frame α) :=
  if a.candle.complete ∧ warmup ≤ (Candle.byBar (a.past ++ [a.candle])).length then
    some ((ind.history warmup pair a.past).push a.candle)
  else none

/-- The frame on which the strategy trades on closed bars, if it does. -/
def closed? : Option (Frame α) :=
  if a.started ∧ a.candle.complete ∧ warmup ≤ (Candle.byBar (a.past ++ [a.candle])).length ∧
      ind.succeeds ((ind.history warmup pair a.past).push a.candle) then
    some (ind.history warmup pair (a.past ++ [a.candle]))
  else none

/-- What the strategy is called for at a candle. -/
def calls : List (Callback α) :=
  ((a.forming? ind warmup pair).map .forming).toList ++
    (((a.computed? ind warmup pair).map .indicators).toList ++
      ((a.closed? ind warmup pair).map .closed).toList)

end Sighting

namespace Callback
variable {α : Type} (ind : Indicators α) (warmup : Nat) (pair : String)

/-- The frame of a call on closed bars. -/
def closed? : Callback α → Option (Frame α)
  | closed f => some f
  | _ => none

/-- The frame of a call on a forming bar. -/
def forming? : Callback α → Option (Frame α)
  | forming f => some f
  | _ => none

/-- What some sightings call for, as one reads it off the calls. -/
theorem filterMap_calls {τ : Type} (g : Callback α → Option τ) (as : List (Sighting α)) :
    (as.flatMap (·.calls ind warmup pair)).filterMap g = as.flatMap fun a =>
      ((a.forming? ind warmup pair).bind (g ∘ forming)).toList ++
        (((a.computed? ind warmup pair).bind (g ∘ indicators)).toList ++
          ((a.closed? ind warmup pair).bind (g ∘ closed)).toList) := by
  have hkind : ∀ (kind : Frame α → Callback α) (x : Option (Frame α)),
      (x.map kind).toList.filterMap g = (x.bind (g ∘ kind)).toList := by
    intro kind x
    cases x with
    | none => rfl
    | some f => cases h : g (kind f) <;> simp [h]
  rw [List.filterMap_flatMap]
  simp only [Sighting.calls, List.filterMap_append, hkind]

theorem filterMap_closed? (as : List (Sighting α)) :
    (as.flatMap (·.calls ind warmup pair)).filterMap closed? =
      as.filterMap (·.closed? ind warmup pair) := by
  rw [filterMap_calls, List.filterMap_eq_flatMap_toList]
  simp [Function.comp_def, closed?]

theorem filterMap_forming? (as : List (Sighting α)) :
    (as.flatMap (·.calls ind warmup pair)).filterMap forming? =
      as.filterMap (·.forming? ind warmup pair) := by
  rw [filterMap_calls, List.filterMap_eq_flatMap_toList]
  simp [Function.comp_def, forming?]

end Callback

namespace Watcher
variable {α β σ : Type}

/-- What happens while a pair is watched. -/
inductive Event (α β σ : Type) where
  | start
  | candle (c : Candle α)
  /-- What the strategy remembers and the broker change for another reason. -/
  | elsewhere (change : σ × β → σ × β)

namespace Event

/-- The candles that come, each as it is seen. -/
def sightings (started : Bool) (past : List (Candle α)) : List (Event α β σ) → List (Sighting α)
  | [] => []
  | start :: es => sightings true past es
  | candle c :: es =>
    ⟨started, past, c⟩ :: sightings started (if c.complete then past ++ [c] else past) es
  | elsewhere _ :: es => sightings started past es

/-- Whether it is the start or a complete candle. -/
def lasting : Event α β σ → Bool
  | start => true
  | candle c => c.complete
  | elsewhere _ => false

/-- The same with a strategy that remembers its calls. -/
def noted : Event α β σ → Event α β (σ × List (Callback α))
  | start => start
  | candle c => candle c
  | elsewhere change =>
    elsewhere fun ((m, calls), b) => (((change (m, b)).1, calls), (change (m, b)).2)

theorem closed?_sightings_lasting (ind : Indicators α) (warmup : Nat) (pair : String)
    (started : Bool) (past : List (Candle α)) (es : List (Event α β σ)) :
    (sightings started past (es.filter lasting)).filterMap (·.closed? ind warmup pair) =
      (sightings started past es).filterMap (·.closed? ind warmup pair) := by
  induction es generalizing started past with
  | nil => rfl
  | cons e es ih =>
    cases e with
    | start => exact ih true past
    | elsewhere change => exact ih started past
    | candle c =>
      by_cases hcomplete : c.complete = true
      · rw [List.filter_cons_of_pos (by exact hcomplete)]
        simp only [sightings, List.filterMap_cons, ih]
      · have hnone : (⟨started, past, c⟩ : Sighting α).closed? ind warmup pair = none :=
          if_neg fun h => hcomplete h.2.1
        rw [List.filter_cons_of_neg (by exact hcomplete), sightings,
          List.filterMap_cons_none hnone, if_neg hcomplete]
        exact ih started past

end Event

variable [Broker β α]

/-- Takes in a candle: on top of the closed bars, and if it is complete as the last of these. -/
def feed (w : Watcher α) (s : Strategy α σ) (c : Candle α) (memory : σ) (broker : β) :
    Watcher α × σ × β :=
  let (memory, broker) := w.onForming s c memory broker
  if c.complete then w.onClosed s c memory broker else (w, memory, broker)

/-- A watcher, what the strategy remembers and the broker after an event. -/
def after (s : Strategy α σ) : Watcher α × σ × β → Event α β σ → Watcher α × σ × β
  | (w, x), .start => (w.start, x)
  | (w, memory, broker), .candle c => w.feed s c memory broker
  | (w, x), .elsewhere change => (w, change x)

/-- These after some events. -/
def run (s : Strategy α σ) (x : Watcher α × σ × β) (es : List (Event α β σ)) :
    Watcher α × σ × β :=
  es.foldl (after s) x

/-- What a strategy is called for by the watcher of a pair. -/
def told (s : Strategy α σ) (pair : String) (memory : σ) (broker : β) (es : List (Event α β σ)) :
    List (Callback α) :=
  (run s.noted (ofPair pair, (memory, []), broker) (es.map Event.noted)).2.1.2

/-- A watcher, what the strategy remembers without its calls, and the broker. -/
def plain (x : Watcher α × (σ × List (Callback α)) × β) : Watcher α × σ × β :=
  (x.1, x.2.1.1, x.2.2)

/-- To remember the calls changes nothing else. -/
theorem run_noted (s : Strategy α σ) (x : Watcher α × (σ × List (Callback α)) × β)
    (es : List (Event α β σ)) :
    plain (run s.noted x (es.map Event.noted)) = run s (plain x) es := by
  induction es generalizing x with
  | nil => rfl
  | cons e es ih =>
    refine (ih _).trans (congrArg (run s · es) ?_)
    obtain ⟨w, m, b⟩ := x
    cases e with
    | start => rfl
    | elsewhere change => rfl
    | candle c =>
      obtain ⟨hmemory, hbroker⟩ := w.onForming_noted s c m b
      simp only [Event.noted, after, feed, plain]
      split
      · obtain ⟨hwatcher, hmemory', hbroker'⟩ := w.onClosed_noted s c
          (w.onForming s.noted c m b).1 (w.onForming s.noted c m b).2
        rw [hwatcher, hmemory', hbroker', hmemory, hbroker]
      · rw [hmemory, hbroker]

/-! ### Calls -/

section Calls
variable {s : Strategy α σ} {ind : Indicators α} (hs : s.Computes ind) (pair : String)
  (started : Bool) (past : List (Candle α)) (c : Candle α) (m : σ × List (Callback α)) (b : β)
include hs

theorem feed_watcher :
    (feed ⟨ind.history s.warmup pair past, started⟩ s.noted c m b).1 =
      ⟨ind.history s.warmup pair (if c.complete then past ++ [c] else past), started⟩ := by
  simp only [feed]
  split
  · have hframe := frame_onClosed ⟨ind.history s.warmup pair past, started⟩ s.noted c
      (onForming ⟨ind.history s.warmup pair past, started⟩ s.noted c m b).1
      (onForming ⟨ind.history s.warmup pair past, started⟩ s.noted c m b).2
    rw [show s.noted.warmup = s.warmup from rfl, hs.noted.frame] at hframe
    rw [ind.history_concat]
    exact congrArg₂ Watcher.mk hframe (started_onClosed ..)
  · rfl

/-- What a candle calls for when some complete candles have come before. -/
theorem feed_calls :
    (feed ⟨ind.history s.warmup pair past, started⟩ s.noted c m b).2.1.2 =
      m.2 ++ (⟨started, past, c⟩ : Sighting α).calls ind s.warmup pair := by
  have hpast := ind.history_collects s.warmup pair past
  have hforming := onForming_calls ⟨ind.history s.warmup pair past, started⟩ s c m b
  simp only [warm, hpast.size_eq] at hforming
  simp only [feed]
  split
  next hcomplete =>
    have hclosed := ind.history_concat s.warmup pair past c
    rw [Indicators.close, (hpast.push c).size_eq] at hclosed
    rw [onClosed_calls, hforming, hs.frame, hs.succeeds, (hpast.push c).size_eq, List.append_assoc]
    simp only [Sighting.calls, Sighting.forming?, Sighting.computed?, Sighting.closed?, hcomplete]
    by_cases hwarm : s.warmup ≤ (Candle.byBar (past ++ [c])).length
    · simp [hwarm, hclosed, apply_ite Option.toList, and_comm]
    · simp [hwarm, apply_ite Option.toList]
  next hcomplete =>
    rw [hforming]
    simp [Sighting.calls, Sighting.forming?, Sighting.computed?, Sighting.closed?, hcomplete,
      apply_ite Option.toList]

/-- What a run calls for when some complete candles have come before. -/
theorem run_calls (es : List (Event α β σ)) :
    (run s.noted (⟨ind.history s.warmup pair past, started⟩, m, b) (es.map Event.noted)).2.1.2 =
      m.2 ++ (Event.sightings started past es).flatMap (·.calls ind s.warmup pair) := by
  induction es generalizing started past m b with
  | nil => exact (List.append_nil _).symm
  | cons e es ih =>
    rw [List.map_cons, run, List.foldl_cons]
    cases e with
    | start => exact ih true past m b
    | elsewhere change => exact ih started past _ _
    | candle c =>
      -- the next event finds the history of the complete candles, whatever was called for
      have hwatcher := feed_watcher hs pair started past c m b
      have hcalls := feed_calls hs pair started past c m b
      simp only [Event.noted, after, Event.sightings, List.flatMap_cons]
      rw [← List.append_assoc, ← hcalls, ← ih, ← hwatcher]
      rfl

end Calls

/-- What a strategy is called for, one sighting after the other. -/
theorem told_eq_flatMap {s : Strategy α σ} {ind : Indicators α} (hs : s.Computes ind)
    (pair : String) (m : σ) (b : β) (es : List (Event α β σ)) :
    told s pair m b es = (Event.sightings false [] es).flatMap (·.calls ind s.warmup pair) :=
  run_calls hs pair false [] (m, []) b es

/-- The strategy trades on closed bars for the complete candles after the start for which there are
enough bars and the indicators succeed, and is shown the bars of the complete candles up to there.
Other candles change nothing of this. On a forming bar it is called for the candles after the start
for which there were enough closed bars already, and is shown these and the candle. -/
theorem calls_of_candles {s : Strategy α σ} {ind : Indicators α} (hs : s.Computes ind)
    (pair : String) (m : σ) (b : β) (es : List (Event α β σ)) :
    (told s pair m b es).filterMap Callback.closed? =
      (Event.sightings false [] es).filterMap (·.closed? ind s.warmup pair) ∧
    (told s pair m b es).filterMap Callback.forming? =
      (Event.sightings false [] es).filterMap (·.forming? ind s.warmup pair) ∧
    (∀ cs, (ind.history s.warmup pair cs).Collects pair cs) ∧
    ∀ (m' : σ) (b' : β) (es' : List (Event α β σ)),
      es'.filter Event.lasting = es.filter Event.lasting →
      (told s pair m' b' es').filterMap Callback.closed? =
        (told s pair m b es).filterMap Callback.closed? := by
  have hclosed : ∀ (m : σ) (b : β) (es : List (Event α β σ)),
      (told s pair m b es).filterMap Callback.closed? =
        (Event.sightings false [] es).filterMap (·.closed? ind s.warmup pair) := by
    intro m b es
    rw [told_eq_flatMap hs, Callback.filterMap_closed?]
  refine ⟨hclosed m b es, ?_, ind.history_collects s.warmup pair, fun m' b' es' hlasting => ?_⟩
  · rw [told_eq_flatMap hs, Callback.filterMap_forming?]
  · rw [hclosed, hclosed, ← Event.closed?_sightings_lasting, hlasting,
      Event.closed?_sightings_lasting]

end Watcher

/-- A candle goes the way of a watcher, after the broker has followed the market and before the desk
reacts. -/
theorem Session.process_eq_feed {α β σ : Type} [Amount α] [Broker β α] (e : Setup β α σ)
    {s : Session β α σ} {pair : String} {w : Watcher α} (hw : s.watchers.get? pair = some w)
    (c : Candle α) :
    s.process e pair c =
      let (w, memory, desk) := w.feed e.strategy c s.memory
        { s.desk with broker := e.follow s.desk.broker c }
      { desk := Desk.observe desk c, memory
        watchers := if c.complete then s.watchers.set pair w else s.watchers } := by
  simp only [process, hw, Watcher.feed]
  by_cases hcomplete : c.complete = true
  · simp [hcomplete, closeBar]
  · simp [hcomplete, Desk.observe]

/-! ### A script -/

/-- The indicator of a script, which a frame determines. -/
def Script.indicators {α : Type} [Amount α] (s : Script α) : Indicators α where
  stored := s.series
  succeeds f := (f.store (s.series f)).2.isNone

theorem Script.computes_indicators {α : Type} [Amount α] (s : Script α) :
    s.strategy.Computes s.indicators := by
  refine ⟨fun m f => ?_, fun m f => rfl⟩
  show (f.store (s.series f)).1 = f.setIndicators (s.series f)
  unfold series
  cases s.indicator with
  | none => rfl
  | double shortAt => exact f.store_singleton ..
  | blank => exact f.store_singleton ..

/-- Two bars are needed, and with three bars the indicator is one value short. -/
def shortAtThree : Script Rat := ⟨.m1, 2, .double [3], [], some []⟩

/-- A bar, the start, a bar that is told twice, and two more bars, with candles that are forming in
between. -/
def formingBetween : List (Watcher.Event Rat (Wallet Rat) (Journal Rat)) :=
  [.candle { minute "BTCUSDT" 0 with complete := false }, .candle (minute "BTCUSDT" 0), .start,
    .candle (minute "BTCUSDT" 1), .candle { minute "BTCUSDT" 2 with complete := false },
    .candle { minute "BTCUSDT" 1 with close := 3 }, .candle (minute "BTCUSDT" 2),
    .candle { minute "BTCUSDT" 3 with complete := false }, .candle (minute "BTCUSDT" 3)]

theorem calls_of_candles_formingBetween :
    shortAtThree.strategy.Computes shortAtThree.indicators ∧
    let told := Watcher.told shortAtThree.strategy "BTCUSDT" [] (default : Wallet Rat)
    ((told formingBetween).filterMap Callback.closed?).map (·.size) = [2, 2, 4] ∧
    ((told formingBetween).filterMap Callback.forming?).map (·.size) = [3, 2, 3, 4, 4] ∧
    (told (formingBetween.filter Watcher.Event.lasting)).filterMap Callback.closed? =
      (told formingBetween).filterMap Callback.closed? := by
  have hscript := shortAtThree.computes_indicators
  obtain ⟨hclosed, hforming, -, hsame⟩ :=
    Watcher.calls_of_candles hscript "BTCUSDT" [] (default : Wallet Rat) formingBetween
  refine ⟨hscript, ?_, ?_, hsame _ _ _ ?_⟩
  · rw [hclosed]
    decide +kernel
  · rw [hforming]
    decide +kernel
  · rw [List.filter_filter]
    simp only [Bool.and_self]

end Candlewick
