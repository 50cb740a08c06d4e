import Candlewick.Proofs.Desk.Position
import Candlewick.Proofs.Wallet.OneMarket
import Mathlib.Algebra.BigOperators.Group.Finset.Piecewise

/-! # The books and the order log

What a wallet keeps beside its log can be computed from the log. The orders that have been filled
(`executed`) tell the volume of every pair, the volume of the summary, and what is held of every
asset that nothing is paid in (`reconciles_of_run`). A step either keeps all of that (`Keeps`) or
fills one order and books just that order (`Fills`); an event that fills nothing is made of steps of
the first kind, so it moves funds between free and locked at most. -/

namespace Candlewick.Wallet

/-- The orders that have been filled, oldest first. -/
def executed {α : Type} (w : Wallet α) : List (Order α) := w.orders.filter (·.status = .filled)

/-- What some orders are worth at their prices. -/
def tradedValue (os : List (Order Rat)) : Rat := (os.map fun o => o.quantity * o.price).sum

/-- What has been filled on one side of the pairs of an asset. -/
def filledOf (w : Wallet Rat) (side : Side) (asset : String) : Rat :=
  ((w.executed.filter fun o => o.side = side && (w.split? o.pair).any (·.asset = asset)).map
    (·.quantity)).sum

/-- From `w` to `w'` nothing is filled, and funds move between free and locked at most. -/
structure Keeps (w w' : Wallet Rat) : Prop where
  executed : w'.executed = w.executed
  volume : ∀ name, w'.volume name = w.volume name
  total : ∀ a, (w'.holding a).total = (w.holding a).total

/-- From `w` to `w'` one order is filled and booked. -/
structure Fills (w w' : Wallet Rat) (o : Order Rat) (pair : Pair) : Prop where
  executed : w'.executed.Perm (o :: w.executed)
  volume : ∀ name,
    w'.volume name = w.volume name + if name = o.pair then o.quantity * o.price else 0
  split : w.split? o.pair = some pair
  total : ∀ a, a ≠ pair.quote →
    (w'.holding a).total = (w.holding a).total + if a = pair.asset then o.signed else 0

/-! ### What settlement does to totals and volumes -/

section Settlement
variable (w : Wallet Rat) {side : Side} {name : String} {pair : Pair}
  {quantity price feeRate : Rat}

theorem total_reserve (k : Int) (r : Reservation Rat) (a : String) :
    ((w.reserve k r).holding a).total = (w.holding a).total := by
  unfold Holding.total
  rw [free_reserve, lock_reserve]
  ring

theorem LockOk.total_release {w : Wallet Rat} (h : w.LockOk) (k : Int) (a : String) :
    ((w.release k).holding a).total = (w.holding a).total := by
  cases hr : w.reservations.get? k with
  | none => rw [release_of_get?_none hr]
  | some r =>
    unfold Holding.total
    rw [free_release w hr, h.lock_release hr]
    ring

theorem total_execute {a : String} (ha : a ≠ pair.quote) :
    ((w.execute side name pair quantity price feeRate).holding a).total =
      (w.holding a).total +
        if a = pair.asset then (match side with | .buy => quantity | .sell => -quantity) else 0 := by
  have hlock : ((w.execute side name pair quantity price feeRate).holding a).lock =
      (w.holding a).lock := lock_execute ..
  unfold Holding.total
  rw [hlock, holding_execute, holding_updateHolding]
  by_cases hasset : a = pair.asset
  · rw [if_pos hasset, if_pos hasset, holding_updateHolding, if_neg (hasset ▸ ha), ← hasset]
    cases side <;> simp only [Holding.trade, Holding.credit, Holding.debit] <;> ring
  · rw [if_neg hasset, if_neg hasset, holding_updateHolding, if_neg ha, add_zero]

theorem volume_execute (k : String) :
    (w.execute side name pair quantity price feeRate).volume k =
      w.volume k + if k = name then quantity * price else 0 := by
  have htraded : (w.execute side name pair quantity price feeRate).traded =
      w.traded.update name Amount.zero (· + quantity * price) := by
    unfold execute
    dsimp only
    rw [updateAverages_frame]
    rfl
  unfold volume
  rw [htraded, Table.getD_update]
  by_cases hk : k = name
  · rw [if_pos hk, if_pos hk, hk]
  · rw [if_neg hk, if_neg hk, add_zero]

theorem volume_release (k : Int) (name : String) : (w.release k).volume name = w.volume name := by
  rw [release_frame]
  rfl

end Settlement

/-! ### What a step books -/

theorem executed_append {α : Type} {w w' : Wallet α} {os : List (Order α)}
    (h : w'.orders = w.orders ++ os) :
    w'.executed = w.executed ++ os.filter (·.status = .filled) := by
  unfold executed
  rw [h, List.filter_append]

/-- A change that fills no order and changes none that is filled. -/
theorem executed_map {α : Type} {w w' : Wallet α} {f : Order α → Order α}
    (h : w'.orders = w.orders.map f)
    (hf : ∀ o ∈ w.orders, o.Becomes (f o) ∧ ((f o).status = .filled → o.status = .filled)) :
    w'.executed = w.executed := by
  have hstatus : ∀ o ∈ w.orders, ((f o).status = .filled ↔ o.status = .filled) := by
    intro o ho
    refine ⟨(hf o ho).2, fun hs => ?_⟩
    rw [(hf o ho).1.settled (by rw [hs]; simp)]
    exact hs
  unfold executed
  rw [h, List.filter_map, List.filter_congr (q := fun o => decide (o.status = .filled))
    fun o ho => by simp [hstatus o ho]]
  have hself : ∀ o ∈ w.orders.filter (·.status = .filled), f o = o := by
    intro o ho
    obtain ⟨ho, hs⟩ := List.mem_filter.1 ho
    exact (hf o ho).1.settled (by simpa using fun hn => by simp [hn] at hs)
  exact (List.map_congr_left hself).trans (List.map_id' _)

theorem status_withdrawn_filled {α : Type} {p : Order α → Bool} {time : Moment} {o : Order α}
    (h : (withdrawn p time o).status = .filled) : o.status = .filled := by
  unfold withdrawn at h
  split at h
  · cases h
  · exact h

/-- An execution adds its order to those that are filled. -/
theorem executed_fill {w : Wallet Rat} {o : Order Rat} {pair : Pair} (hlog : w.LogOk)
    (ho : o ∈ w.orders) (hr : o.resting = true) (hs : w.split? o.pair = some pair) (price : Rat)
    (time : Instant) :
    (w.fill o price time).executed.Perm
      ({ o with status := .filled, price, updated := .at time } :: w.executed) := by
  have hn := Order.resting_iff.1 hr
  obtain ⟨before, later, horders⟩ := List.append_of_mem ho
  have hasc := hlog.ascending
  unfold Ascending at hasc
  rw [horders] at hasc
  obtain ⟨-, hlater, hcross⟩ := List.pairwise_append.1 hasc
  -- the other orders keep what they say, as far as they are filled
  have hother : ∀ os : List (Order Rat), (∀ p ∈ os, p ∈ w.orders ∧ p.id ≠ o.id) →
      (os.map (filled o price time)).filter (·.status = .filled) =
        os.filter (·.status = .filled) := by
    intro os hos
    induction os with
    | nil => rfl
    | cons p os ih =>
      obtain ⟨hp, hid⟩ := hos p (List.mem_cons_self ..)
      have ih := ih fun q hq => hos q (List.mem_cons_of_mem _ hq)
      have hbecomes := becomes_filled hlog.ascending ho hr hp price time
      rw [List.map_cons]
      by_cases hpf : p.status = .filled
      · have hsame : filled o price time p = p := hbecomes.settled (by simp [hpf])
        rw [hsame, List.filter_cons_of_pos (by simpa using hpf),
          List.filter_cons_of_pos (by simpa using hpf), ih]
      · have hnot : (filled o price time p).status ≠ .filled := by
          intro h
          rw [filled, if_neg hid] at h
          exact hpf (status_withdrawn_filled h)
        rw [List.filter_cons_of_neg (by simpa using hnot),
          List.filter_cons_of_neg (by simpa using hpf), ih]
  have hbefore := hother before fun p hp =>
    ⟨horders ▸ List.mem_append_left _ hp, Int.ne_of_lt (hcross p hp o (List.mem_cons_self ..))⟩
  have hafter := hother later fun p hp =>
    ⟨horders ▸ List.mem_append_right _ (List.mem_cons_of_mem _ hp),
      (Int.ne_of_lt (List.rel_of_pairwise_cons hlater hp)).symm⟩
  have hself : filled o price time o =
      { o with status := .filled, price, updated := .at time } := by
    simp [filled]
  unfold executed
  rw [orders_fill hs, horders, List.map_append, List.map_cons, List.filter_append, hbefore, hself,
    List.filter_cons_of_pos (by simp), hafter, List.filter_append,
    List.filter_cons_of_neg (by simp [hn])]
  exact List.perm_middle

/-- Every step is of one of the two kinds. A market order is filled on a pair that has shown a
candle, and a candle fills orders of its own pair. -/
theorem Step.keeps_or_fills {e : Event Rat} {w w' : Wallet Rat} (h : Step e w w')
    (hlog : w.LogOk) (hlock : w.LockOk) : w.Keeps w' ∨ ∃ o pair, w.Fills w' o pair ∧
      (o.pair ∈ w.last.keys ∨ ∃ c, e = .candle c ∧ o.pair = c.pair) := by
  cases h with
  | @trade _ t quantity price pair _ _ hs hp =>
    let o : Order Rat := { w.newOrder (w.lastId + 1) t.side t.pair .market quantity price with
      status := .filled }
    have hexecuted : ((w.execute t.side t.pair pair quantity price w.takerFee).log (w.lastId + 1)
        [o]).executed = w.executed ++ [o].filter (·.status = .filled) :=
      executed_append (congrArg (· ++ [o]) (execute_orders ..))
    have hnoted : t.pair ∈ w.last.keys := by
      obtain ⟨m, hm, -⟩ := Option.map_eq_some_iff.1 hp
      exact Table.mem_keys_iff.2 ⟨m, hm⟩
    refine .inr ⟨o, pair, ⟨?_, fun name => ?_, hs, fun a ha => ?_⟩, .inl hnoted⟩
    · rw [hexecuted]
      exact List.perm_append_singleton ..
    · exact volume_execute w name
    · rw [holding_log, total_execute w ha]
      rfl
  | rest =>
    refine .inl ⟨?_, fun name => rfl, total_reserve w (w.lastId + 1) _⟩
    exact (executed_append rfl).trans (List.append_nil _)
  | link =>
    refine .inl ⟨?_, fun name => rfl, total_reserve w (w.lastId + 1) _⟩
    exact (executed_append rfl).trans (List.append_nil _)
  | @withdraw _ o ho hr =>
    refine .inl ⟨?_, fun name => volume_release .., fun a => hlock.total_release ..⟩
    exact executed_map rfl fun p _ => ⟨becomes_withdrawn .., status_withdrawn_filled⟩
  | note => exact .inl ⟨rfl, fun _ => rfl, fun _ => rfl⟩
  | @fill _ c o price pair ho hr hn ht hs =>
    refine .inr ⟨_, pair, ⟨executed_fill hlog ho hr hs price c.time, fun name => ?_, hs,
      fun a ha => ?_⟩, .inr ⟨c, rfl, hn⟩⟩
    · rw [fill_eq hs]
      exact (volume_execute _ name).trans (by rw [volume_release])
    · rw [holding_fill hs, total_execute _ ha, hlock.total_release]
      rfl
  | mark => exact .inl ⟨rfl, fun _ => rfl, fun _ => rfl⟩

/-! ### Runs -/

theorem tradedValue_perm {os ps : List (Order Rat)} (h : os.Perm ps) :
    tradedValue os = tradedValue ps :=
  (h.map _).sum_eq

/-- What the log says of the volumes, and of what is held of the assets that nothing was paid in. -/
structure Reconciles (w₀ w : Wallet Rat) : Prop where
  base : w.base = w₀.base
  volume : ∀ name, w.volume name = tradedValue (w.executed.filter (·.pair = name))
  total : ∀ a, (∀ o ∈ w.executed, ∀ p ∈ w.split? o.pair, p.quote ≠ a) →
    (w.holding a).total = (w₀.holding a).total + w.filledOf .buy a - w.filledOf .sell a

theorem filledOf_congr {w w' : Wallet Rat} (hbase : w'.base = w.base)
    (h : w'.executed = w.executed) (side : Side) (a : String) :
    w'.filledOf side a = w.filledOf side a := by
  unfold filledOf
  rw [h]
  simp only [split?_congr hbase]

theorem Fills.filledOf {w w' : Wallet Rat} {o : Order Rat} {pair : Pair} (h : w.Fills w' o pair)
    (hbase : w'.base = w.base) (side : Side) (a : String) :
    w'.filledOf side a =
      w.filledOf side a + if o.side = side ∧ a = pair.asset then o.quantity else 0 := by
  unfold Wallet.filledOf
  rw [((h.executed.filter _).map _).sum_eq]
  simp only [split?_congr hbase]
  by_cases hside : o.side = side ∧ a = pair.asset
  · rw [if_pos hside, List.filter_cons_of_pos (by simp [hside, h.split]), List.map_cons,
      List.sum_cons, add_comm]
  · have hno : (o.side = side && (w.split? o.pair).any (·.asset = a)) = false := by
      refine Bool.eq_false_iff.2 fun hand => hside ?_
      rw [h.split, Option.any_some, Bool.and_eq_true, decide_eq_true_eq, decide_eq_true_eq] at hand
      exact ⟨hand.1, hand.2.symm⟩
    rw [if_neg hside, List.filter_cons_of_neg (by simp [hno]), add_zero]

theorem Reconciles.step {e : Event Rat} {w₀ w w' : Wallet Rat} (hs : Step e w w') (hlog : w.LogOk)
    (hlock : w.LockOk) (h : Reconciles w₀ w) : Reconciles w₀ w' := by
  have hbase := hs.terms.1
  rcases hs.keeps_or_fills hlog hlock with hkeeps | ⟨o, pair, hfills, -⟩
  · refine ⟨hbase.trans h.base, fun name => ?_, fun a ha => ?_⟩
    · rw [hkeeps.volume, h.volume, hkeeps.executed]
    · simp only [hkeeps.executed, split?_congr hbase] at ha
      rw [hkeeps.total, h.total a ha, filledOf_congr hbase hkeeps.executed,
        filledOf_congr hbase hkeeps.executed]
  · refine ⟨hbase.trans h.base, fun name => ?_, fun a ha => ?_⟩
    · rw [hfills.volume, h.volume, tradedValue_perm (hfills.executed.filter _)]
      by_cases hname : name = o.pair
      · rw [if_pos hname, List.filter_cons_of_pos (by simp [hname])]
        simp [tradedValue, add_comm]
      · rw [if_neg hname, List.filter_cons_of_neg (by simpa [eq_comm] using hname), add_zero]
    · have hold : ∀ q ∈ w.executed, ∀ p ∈ w.split? q.pair, p.quote ≠ a := by
        intro q hq p hp
        refine ha q (hfills.executed.mem_iff.2 (List.mem_cons_of_mem _ hq)) p ?_
        rwa [split?_congr hbase]
      have hquote : a ≠ pair.quote := by
        refine (ha o (hfills.executed.mem_iff.2 (List.mem_cons_self ..)) pair ?_).symm
        rw [split?_congr hbase, hfills.split]
        rfl
      rw [hfills.total a hquote, h.total a hold, hfills.filledOf hbase, hfills.filledOf hbase]
      by_cases hasset : a = pair.asset
      · rcases hside : o.side with - | - <;> simp [hasset, hside, Order.signed] <;> ring
      · simp [hasset]

theorem reconciles_run (c : WalletConfig Rat) (es : List (Event Rat)) :
    Reconciles (start c) ((start c).run es) := by
  have hstart : Reconciles (start c) (start c) := by
    refine ⟨rfl, fun name => rfl, fun a _ => ?_⟩
    simp [filledOf, executed, start]
  exact (run_induction (P := fun _ => True)
    (I := fun w => w.LogOk ∧ w.LockOk ∧ Reconciles (start c) w) (fun _ h => h.1.ascending)
    (fun _ _ _ _ hs h => ⟨hs.logOk h.1, hs.lockOk h.1 h.2.1, h.2.2.step hs h.1 h.2.1⟩)
    (fun _ _ => trivial) ⟨logOk_start c, lockOk_start c, hstart⟩).2.2

/-! ### The volume of the summary -/

/-- Orders are filled only on pairs that have shown a candle. -/
def Noted (w : Wallet Rat) : Prop := ∀ o ∈ w.executed, o.pair ∈ w.last.keys

theorem Step.last_keys {e : Event Rat} {w w' : Wallet Rat} (h : Step e w w') :
    ∀ k ∈ w.last.keys, k ∈ w'.last.keys := by
  cases h with
  | trade => simp [log]
  | rest => exact fun _ hk => hk
  | link => exact fun _ hk => hk
  | withdraw => simp
  | note => exact fun _ hk => Table.mem_keys_set.2 (.inr hk)
  | fill ho hr hn ht hs => simp [fill_eq hs]
  | mark => exact fun _ hk => hk

theorem Noted.step {e : Event Rat} {w w' : Wallet Rat} (h : w.Noted) (hs : Step e w w')
    (hlog : w.LogOk) (hlock : w.LockOk) (hcandle : ∀ c, e = .candle c → c.pair ∈ w.last.keys) :
    w'.Noted := by
  intro o ho
  refine hs.last_keys _ ?_
  rcases hs.keeps_or_fills hlog hlock with hkeeps | ⟨q, pair, hfills, hq⟩
  · exact h o (hkeeps.executed ▸ ho)
  · rcases List.mem_cons.1 (hfills.executed.mem_iff.1 ho) with rfl | ho
    · rcases hq with hq | ⟨c, he, hc⟩
      · exact hq
      · exact hc ▸ hcandle c he
    · exact h o ho

/-- A candle is noted before it executes anything, so this is kept by events though not by single
steps. -/
theorem Noted.after {w : Wallet Rat} (h : w.Noted) (hlog : w.LogOk) (hlock : w.LockOk)
    (e : Event Rat) : (w.after e).Noted := by
  by_cases he : ∃ c, e = .candle c
  · obtain ⟨c, rfl⟩ := he
    have hnote : Step (.candle c) w (w.note c) := .note
    have hseen : c.pair ∈ (w.note c).last.keys := Table.mem_keys_set.2 (.inl rfl)
    have hsteps : Relation.ReflTransGen (Step (.candle c)) (w.note c)
        (w.midway c (w.touched c).length) := by
      refine steps_of_foldl fun o ho => ?_
      obtain ⟨ho, hn, -⟩ := mem_touched.1 (List.mem_of_mem_take ho)
      exact ⟨hn, fun p hp hid _ => hlog.ascending.eq_of_id ho hp hid⟩
    have hmidway := induction_of_steps (P := fun e => e = .candle c)
      (I := fun v => v.LogOk ∧ v.LockOk ∧ v.Noted ∧ c.pair ∈ v.last.keys)
      (fun e v v' he hs hv => ⟨hs.logOk hv.1, hs.lockOk hv.1 hv.2.1,
        hv.2.2.1.step hs hv.1 hv.2.1 fun d hd => by cases he; cases hd; exact hv.2.2.2,
        hs.last_keys _ hv.2.2.2⟩)
      rfl hsteps ⟨hnote.logOk hlog, hnote.lockOk hlog hlock,
        fun o ho => hnote.last_keys _ (h o ho), hseen⟩
    rw [Wallet.after, observe_eq]
    dsimp only
    split
    · exact hmidway.2.2.1
    · exact hmidway.2.2.1
  · rcases after_eq_or_step w (not_exists.1 he) with heq | hs
    · rwa [heq]
    · exact h.step hs hlog hlock fun c hc => absurd ⟨c, hc⟩ he

theorem noted_run (c : WalletConfig Rat) (es : List (Event Rat)) : ((start c).run es).Noted := by
  induction es using List.reverseRecOn with
  | nil => simp [Noted, run, executed, start]
  | append_singleton es e ih =>
    obtain ⟨hlog, hlock⟩ := lockOk_of_run c es
    rw [run_append]
    exact ih.after hlog hlock e

theorem sum_tradedValue {names : Finset String} {os : List (Order Rat)}
    (h : ∀ o ∈ os, o.pair ∈ names) :
    ∑ name ∈ names, tradedValue (os.filter (·.pair = name)) = tradedValue os := by
  induction os with
  | nil => simp [tradedValue]
  | cons o os ih =>
    have hone : ∀ name, tradedValue ((o :: os).filter (·.pair = name)) =
        (if o.pair = name then o.quantity * o.price else 0) +
          tradedValue (os.filter (·.pair = name)) := by
      intro name
      by_cases hname : o.pair = name <;> simp [tradedValue, hname]
    have hmem : o.pair ∈ names := h o (List.mem_cons_self ..)
    simp only [hone]
    rw [Finset.sum_add_distrib, Finset.sum_ite_eq, if_pos hmem,
      ih fun p hp => h p (List.mem_cons_of_mem _ hp)]
    rfl

theorem summary_volume {w : Wallet Rat} (hnoted : w.Noted)
    (hvolume : ∀ name, w.volume name = tradedValue (w.executed.filter (·.pair = name))) :
    w.summary.volume = tradedValue w.executed := by
  have hsum : w.summary.volume = ∑ name ∈ w.last.keys.toFinset, w.volume name := by
    have hsorted := w.last.sum_sorted fun name _ => w.volume name
    simp only [summary, sum_rat]
    refine hsorted.trans (Finset.sum_congr rfl fun name hname => ?_)
    obtain ⟨m, hm⟩ := Table.mem_keys_iff.1 (List.mem_toFinset.1 hname)
    rw [hm]
    rfl
  simp only [hsum, hvolume]
  exact sum_tradedValue fun o ho => List.mem_toFinset.2 (hnoted o ho)

/-! ### Events that fill nothing -/

theorem executed_nodup {α : Type} {w : Wallet α} (hlog : w.LogOk) : w.executed.Nodup := by
  refine List.Nodup.filter _ ?_
  exact hlog.ascending.imp fun hlt heq => Int.ne_of_lt hlt (congrArg Order.id heq)

/-- Along the steps of an event the filled orders only get more, so if in the end there are none
that were not there before, no step has filled any. -/
theorem total_after_of_unfilled {w : Wallet Rat} (hlog : w.LogOk) (hlock : w.LockOk) {e : Event Rat}
    (h : ∀ o ∈ (w.after e).executed, o ∈ w.executed) (a : String) :
    ((w.after e).holding a).total = (w.holding a).total := by
  have hchain := induction_of_steps (P := fun _ => True)
    (I := fun v => v.LogOk ∧ v.LockOk ∧ (w.executed.length < v.executed.length ∨
      w.executed.length = v.executed.length ∧ (v.holding a).total = (w.holding a).total))
    (fun e v v' _ hs ⟨hvlog, hvlock, hv⟩ => by
      refine ⟨hs.logOk hvlog, hs.lockOk hvlog hvlock, ?_⟩
      rcases hs.keeps_or_fills hvlog hvlock with hkeeps | ⟨o, pair, hfills, -⟩
      · rw [hkeeps.executed, hkeeps.total]
        exact hv
      · have hlength := hfills.executed.length_eq
        rw [List.length_cons] at hlength
        rcases hv with hlt | ⟨heq, -⟩
        · exact .inl (by omega)
        · exact .inl (by omega))
    trivial (steps_of_after hlog.ascending e) ⟨hlog, hlock, .inr ⟨rfl, rfl⟩⟩
  have hle : (w.after e).executed.length ≤ w.executed.length :=
    ((executed_nodup hchain.1).subperm h).length_le
  rcases hchain.2.2 with hlt | ⟨-, htotal⟩
  · exact absurd hle (Nat.not_le.2 hlt)
  · exact htotal

/-- The volume of a pair is what was filled on it, by the name that it was filled under, and that of
the summary is what was filled at all; what is held of an asset that nothing was paid in is what
was held at the start and what was bought since, less what was sold; and what fills no order moves
nothing in or out of any asset. -/
theorem reconciles_of_run (c : WalletConfig Rat) (es : List (Event Rat)) :
    let w := (start c).run es
    (∀ name, w.volume name = tradedValue (w.executed.filter (·.pair = name))) ∧
    w.summary.volume = tradedValue w.executed ∧
    (∀ a, (∀ o ∈ w.executed, ∀ p ∈ w.split? o.pair, p.quote ≠ a) →
      (w.holding a).total =
        ((start c).holding a).total + w.filledOf .buy a - w.filledOf .sell a) ∧
    (∀ e, (∀ o ∈ (w.after e).executed, o ∈ w.executed) →
      ∀ a, ((w.after e).holding a).total = (w.holding a).total) := by
  intro w
  have h := reconciles_run c es
  obtain ⟨hlog, hlock⟩ := lockOk_of_run c es
  exact ⟨h.volume, summary_volume (noted_run c es) h.volume, h.total,
    fun e he a => total_after_of_unfilled hlog hlock he a⟩

/-- One coin is bought and sold under two spellings of its market, the second time by one of two
linked orders. -/
def twoSpellings : List (Event Rat) :=
  [.candle (bar 100 100), .place (.market .buy "BTCUSDT" (1 / 2)),
    .place (.oco .sell "BTCUSDT" 1 150 80 70), .candle (bar 160 160),
    .candle { bar 120 120 with pair := "BTC/USDT" }, .place (.market .sell "BTC/USDT" (1 / 4))]

theorem reconciles_of_run_twoSpellings :
    let w := (start oneCoin).run twoSpellings
    let offer : Event Rat := .place (.limit .sell "BTCUSDT" (1 / 8) 500)
    w.volume "BTCUSDT" = 200 ∧ w.summary.volume = 230 ∧
    (∀ o ∈ w.executed, ∀ p ∈ w.split? o.pair, p.quote ≠ "BTC") ∧
    (w.holding "BTC").total = 1 + 1 / 2 - (1 + 1 / 4) ∧
    (∀ o ∈ (w.after offer).executed, o ∈ w.executed) ∧ (w.after offer).orders ≠ w.orders ∧
    ((w.after offer).holding "BTC").total = (w.holding "BTC").total := by
  intro w offer
  obtain ⟨hvolume, hsummary, htotal, hkept⟩ := reconciles_of_run oneCoin twoSpellings
  have hquote : ∀ o ∈ w.executed, ∀ p ∈ w.split? o.pair, p.quote ≠ "BTC" := by decide +kernel
  have hunfilled : ∀ o ∈ (w.after offer).executed, o ∈ w.executed := by decide +kernel
  refine ⟨?_, ?_, hquote, ?_, hunfilled, by decide +kernel, hkept offer hunfilled "BTC"⟩
  · exact (hvolume "BTCUSDT").trans (by decide +kernel)
  · exact hsummary.trans (by decide +kernel)
  · exact (htotal "BTC" hquote).trans (by decide +kernel)

end Candlewick.Wallet
