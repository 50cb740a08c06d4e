import Candlewick.Feed.Turns
import Mathlib.Algebra.GroupWithZero.Nat
import Mathlib.Data.List.Nodup
import Mathlib.Data.Nat.Pairing

/-! # Schedules of replays

Replays that run at the same time are a list with the feed of each. A `Turn` lets one party of one
replay act for a number of steps, and a schedule is a list of turns, or a sequence of them that does
not end; a party that cannot act lets its turn pass. With turns of one step these are all the ways
in which the parties can interleave.

`act_cases` says what one turn can do. Whatever the schedule, what is handed on of a feed and what
is still to come make up what the feed had at the beginning (`Follows`), so two schedules that come
to the end have handed on the same candles of each feed. As long as something is to come somebody
can act (`exists_ready`), and under a fair schedule everything is handed on (`Fair.finishes`). -/

namespace Candlewick

/-- A party acts for at most so many steps. -/
structure Turn where
  party : Party
  steps : Nat
deriving Repr, DecidableEq, Inhabited

namespace Schedule
variable {α : Type} {rs rs' rs'' : List (FeedKey × Replay α)} {ds ds' : List (FeedKey × Candle α)}

/-- A turn, with the candles that are handed on in it. -/
def act (rs : List (FeedKey × Replay α)) (t : Turn) :
    List (FeedKey × Candle α) × List (FeedKey × Replay α) :=
  match t.party with
  | .sender i =>
    match rs[i]? with
    | none => ([], rs)
    | some (key, r) => ([], rs.set i (key, r.send (min t.steps r.space)))
  | .reader i =>
    match rs[i]? with
    | none => ([], rs)
    | some (key, r) =>
      let (cs, r) := r.read t.steps
      (cs.map fun c => (key, c), rs.set i (key, r))

/-- Turns one after the other. -/
def actAll (rs : List (FeedKey × Replay α)) :
    List Turn → List (FeedKey × Candle α) × List (FeedKey × Replay α)
  | [] => ([], rs)
  | t :: ts =>
    let (ds, rs) := act rs t
    let (later, rs) := actAll rs ts
    (ds ++ later, rs)

/-- The candles of one feed among those that are handed on. -/
def ofFeed (key : FeedKey) (ds : List (FeedKey × Candle α)) : List (Candle α) :=
  (ds.filter (·.1 = key)).map (·.2)

/-- What is still to be done in a replay: every candle is sent and then read. -/
def work (r : Replay α) : Nat := 2 * r.unsent.length + r.waiting.length

/-- What is still to be done in all replays. -/
def totalWork (rs : List (FeedKey × Replay α)) : Nat := (rs.map fun a => work a.2).sum

/-- Whether everything has been handed on. -/
def Finished (rs : List (FeedKey × Replay α)) : Prop := ∀ a ∈ rs, a.2.remaining = []

/-- Whether a party can act. -/
def Ready (rs : List (FeedKey × Replay α)) : Party → Prop
  | .sender i => ∃ a, rs[i]? = some a ∧ a.2.unsent ≠ [] ∧ 0 < a.2.space
  | .reader i => ∃ a, rs[i]? = some a ∧ a.2.waiting ≠ []

/-! ### One turn -/

theorem work_send (r : Replay α) (n : Nat) :
    work (r.send n) < work r ∨ r.send n = r := by
  rcases Nat.eq_zero_or_pos (min n r.unsent.length) with h | h
  · right
    rcases Nat.min_eq_zero_iff.1 h with rfl | h
    · simp [Replay.send]
    · have hnone : r.unsent = [] := List.length_eq_zero_iff.1 h
      cases r
      simp_all [Replay.send]
  · left
    simp only [work, Replay.send, List.length_append, List.length_drop, List.length_take]
    omega

theorem work_read (r : Replay α) (n : Nat) :
    work (r.read n).2 < work r ∨ (r.read n).2 = r := by
  rcases Nat.eq_zero_or_pos (min n r.waiting.length) with h | h
  · right
    rcases Nat.min_eq_zero_iff.1 h with rfl | h
    · simp [Replay.read]
    · have hnone : r.waiting = [] := List.length_eq_zero_iff.1 h
      cases r
      simp_all [Replay.read]
  · left
    simp only [work, Replay.read, List.length_drop]
    omega

/-- What a turn can do: nothing, or it changes one replay, whose candles stay in their order, and
leaves less to be done unless it leaves everything. -/
theorem act_cases (rs : List (FeedKey × Replay α)) (t : Turn) :
    act rs t = ([], rs) ∨ ∃ i key r r' cs, rs[i]? = some (key, r) ∧
      act rs t = (cs.map fun c => (key, c), rs.set i (key, r')) ∧
      cs ++ r'.remaining = r.remaining ∧ r'.room = r.room ∧ (work r' < work r ∨ r' = r) := by
  obtain ⟨p, n⟩ := t
  rcases p with i | i
  · rcases hi : rs[i]? with - | ⟨key, r⟩
    · left; simp [act, hi]
    · right
      refine ⟨i, key, r, r.send (min n r.space), [], hi, by simp [act, hi], ?_, rfl, work_send ..⟩
      simp [Replay.send, Replay.remaining]
  · rcases hi : rs[i]? with - | ⟨key, r⟩
    · left; simp [act, hi]
    · right
      refine ⟨i, key, r, (r.read n).2, (r.read n).1, hi, by simp [act, hi], ?_, rfl, work_read ..⟩
      simp [Replay.read, Replay.remaining, ← List.append_assoc]

theorem totalWork_set {i : Nat} {a b : FeedKey × Replay α} (h : rs[i]? = some a) :
    totalWork (rs.set i b) + work a.2 = totalWork rs + work b.2 := by
  induction rs generalizing i with
  | nil => simp at h
  | cons c rs ih =>
    cases i with
    | zero =>
      obtain rfl : c = a := by simpa using h
      simp only [totalWork, List.set_cons_zero, List.map_cons, List.sum_cons]
      omega
    | succ i =>
      have hrest := ih (i := i) (by simpa using h)
      simp only [totalWork, List.set_cons_succ, List.map_cons, List.sum_cons] at hrest ⊢
      omega

theorem act_totalWork (rs : List (FeedKey × Replay α)) (t : Turn) :
    totalWork (act rs t).2 < totalWork rs ∨ (act rs t).2 = rs := by
  rcases act_cases rs t with h | ⟨i, key, r, r', cs, hi, h, -, -, hwork⟩
  · exact .inr (by rw [h])
  · rw [h]
    rcases hwork with hwork | rfl
    · have := totalWork_set (b := (key, r')) hi
      exact .inl (by dsimp only at this ⊢; omega)
    · obtain ⟨hlt, hget⟩ := List.getElem?_eq_some_iff.1 hi
      exact .inr (by rw [← hget]; exact List.set_getElem_self hlt)

/-! ### What is handed on -/

@[simp] theorem ofFeed_nil (key : FeedKey) : ofFeed key ([] : List (FeedKey × Candle α)) = [] := rfl

@[simp] theorem ofFeed_append (key : FeedKey) (ds ds' : List (FeedKey × Candle α)) :
    ofFeed key (ds ++ ds') = ofFeed key ds ++ ofFeed key ds' := by
  simp [ofFeed]

theorem ofFeed_self (key : FeedKey) (cs : List (Candle α)) :
    ofFeed key (cs.map fun c => (key, c)) = cs := by
  simp [ofFeed, List.filter_map, Function.comp_def]

theorem ofFeed_of_ne {key key' : FeedKey} (h : key' ≠ key) (cs : List (Candle α)) :
    ofFeed key (cs.map fun c => (key', c)) = [] := by
  simp [ofFeed, List.filter_map, Function.comp_def, h]

theorem ofFeed_eq_flatMap (key : FeedKey) (ds : List (FeedKey × Candle α)) :
    ofFeed key ds = ds.flatMap fun d => if d.1 = key then [d.2] else [] := by
  induction ds with
  | nil => rfl
  | cons d ds ih =>
    rw [List.flatMap_cons, ← ih]
    by_cases hd : d.1 = key <;> simp [ofFeed, hd]

/-- After some candles were handed on, every feed still has its other candles. -/
structure Follows (rs : List (FeedKey × Replay α)) (ds : List (FeedKey × Candle α))
    (rs' : List (FeedKey × Replay α)) : Prop where
  keys : rs'.map (·.1) = rs.map (·.1)
  lane : ∀ (i : Nat) (a : FeedKey × Replay α), rs[i]? = some a →
    ∃ r : Replay α, rs'[i]? = some (a.1, r) ∧ r.room = a.2.room ∧
      ofFeed a.1 ds ++ r.remaining = a.2.remaining
  known : ∀ d ∈ ds, d.1 ∈ rs.map (·.1)

theorem Follows.refl (rs : List (FeedKey × Replay α)) : Follows rs [] rs :=
  ⟨rfl, fun _ a ha => ⟨a.2, ha, rfl, rfl⟩, by simp⟩

theorem Follows.trans (h : Follows rs ds rs') (h' : Follows rs' ds' rs'') :
    Follows rs (ds ++ ds') rs'' := by
  refine ⟨h'.keys.trans h.keys, fun i a ha => ?_, fun d hd => ?_⟩
  · obtain ⟨r, hr, hroom, hrest⟩ := h.lane i a ha
    obtain ⟨r', hr', hroom', hrest'⟩ := h'.lane i _ hr
    refine ⟨r', hr', hroom'.trans hroom, ?_⟩
    rw [ofFeed_append, List.append_assoc, hrest', hrest]
  · rcases List.mem_append.1 hd with hd | hd
    · exact h.known d hd
    · exact h.keys ▸ h'.known d hd

theorem Follows.room (h : Follows rs ds rs') (hroom : ∀ a ∈ rs, 0 < a.2.room) :
    ∀ b ∈ rs', 0 < b.2.room := by
  intro b hb
  obtain ⟨i, hi, rfl⟩ := List.getElem_of_mem hb
  have hlength : rs'.length = rs.length := by simpa using congrArg List.length h.keys
  obtain ⟨r, hr, hr', -⟩ := h.lane i rs[i] (by simp)
  rw [List.getElem?_eq_getElem hi, Option.some.injEq] at hr
  rw [hr, hr']
  exact hroom _ (List.getElem_mem _)

/-- No feed has two replays. -/
def Distinct (rs : List (FeedKey × Replay α)) : Prop := (rs.map (·.1)).Nodup

theorem Distinct.index (hrs : Distinct rs) {i j : Nat} {a b : FeedKey × Replay α}
    (ha : rs[i]? = some a) (hb : rs[j]? = some b) (hab : a.1 = b.1) : i = j := by
  obtain ⟨hi, rfl⟩ := List.getElem?_eq_some_iff.1 ha
  obtain ⟨hj, rfl⟩ := List.getElem?_eq_some_iff.1 hb
  have hi' : i < (rs.map (·.1)).length := by simpa using hi
  have hj' : j < (rs.map (·.1)).length := by simpa using hj
  have hkeys : (rs.map (·.1))[i] = (rs.map (·.1))[j] := by simpa using hab
  exact (List.Nodup.getElem_inj_iff hrs).1 hkeys

theorem follows_act (hrs : Distinct rs) (t : Turn) : Follows rs (act rs t).1 (act rs t).2 := by
  rcases act_cases rs t with h | ⟨i, key, r, r', cs, hi, h, hrest, hroom, -⟩
  · rw [h]; exact .refl rs
  · rw [h]
    refine ⟨?_, fun j a ha => ?_, ?_⟩
    · obtain ⟨hlt, hget⟩ := List.getElem?_eq_some_iff.1 hi
      refine List.ext_getElem? fun j => ?_
      by_cases hij : i = j
      · subst hij
        simp [hlt, hget]
      · simp [hij]
    · by_cases hij : i = j
      · subst hij
        obtain rfl : (key, r) = a := by simpa [hi] using ha
        exact ⟨r', by simp [(List.getElem?_eq_some_iff.1 hi).1], hroom, by rw [ofFeed_self, hrest]⟩
      · -- the candles are of another feed, since no two replays share one
        have hne : key ≠ a.1 := fun hkey => hij (hrs.index hi ha hkey)
        exact ⟨a.2, by simpa [List.getElem?_set_ne hij] using ha, rfl, by simp [ofFeed_of_ne hne]⟩
    · intro d hd
      obtain ⟨c, -, rfl⟩ := List.mem_map.1 hd
      exact List.mem_map_of_mem (f := (·.1)) (List.mem_of_getElem? hi)

theorem follows_actAll (hrs : Distinct rs) (ts : List Turn) :
    Follows rs (actAll rs ts).1 (actAll rs ts).2 := by
  induction ts generalizing rs with
  | nil => exact .refl rs
  | cons t ts ih =>
    have h := follows_act hrs t
    exact h.trans (ih (by rw [Distinct, h.keys]; exact hrs))

/-- At the end everything that a feed had was handed on. -/
theorem Follows.ofFeed_eq (h : Follows rs ds rs') (hend : Finished rs') {a : FeedKey × Replay α}
    (ha : a ∈ rs) : ofFeed a.1 ds = a.2.remaining := by
  obtain ⟨i, hi, rfl⟩ := List.getElem_of_mem ha
  obtain ⟨r, hr, -, hrest⟩ := h.lane i rs[i] (by simp)
  have hnone := hend _ (List.mem_of_getElem? hr)
  simpa [hnone] using hrest

/-! ### Progress -/

theorem exists_ready (hroom : ∀ a ∈ rs, 0 < a.2.room) (h : ¬ Finished rs) :
    ∃ p, Ready rs p := by
  simp only [Finished, not_forall] at h
  obtain ⟨a, ha, hrest⟩ := h
  obtain ⟨i, hi, rfl⟩ := List.getElem_of_mem ha
  by_cases hwait : rs[i].2.waiting = []
  · refine ⟨.sender i, rs[i], by simp, fun hunsent => ?_, ?_⟩
    · exact hrest (by simp [Replay.remaining, hwait, hunsent])
    · simpa [Replay.space, hwait] using hroom _ ha
  · exact ⟨.reader i, rs[i], by simp, hwait⟩

theorem act_ready {t : Turn} (h : Ready rs t.party) (hsteps : 0 < t.steps) :
    totalWork (act rs t).2 < totalWork rs := by
  obtain ⟨p, n⟩ := t
  dsimp only at h hsteps
  rcases p with i | i
  · obtain ⟨⟨key, r⟩, hi, hunsent, hspace⟩ := h
    have hset := totalWork_set (b := (key, r.send (min n r.space))) hi
    have hlen := List.length_pos_iff.2 hunsent
    simp only [act, hi]
    simp only [work, Replay.send, List.length_append, List.length_drop, List.length_take] at hset ⊢
    dsimp only at hlen hspace
    omega
  · obtain ⟨⟨key, r⟩, hi, hwait⟩ := h
    have hset := totalWork_set (b := (key, (r.read n).2)) hi
    have hlen := List.length_pos_iff.2 hwait
    simp only [act, hi]
    simp only [work, Replay.read, List.length_drop] at hset ⊢
    dsimp only at hlen
    omega

/-- What is left after the first turns of a schedule that does not end. -/
def after (rs : List (FeedKey × Replay α)) (σ : Nat → Turn) (n : Nat) : List (FeedKey × Replay α) :=
  (actAll rs ((List.range n).map σ)).2

/-- Whoever can act has a turn some time. -/
def Fair (rs : List (FeedKey × Replay α)) (σ : Nat → Turn) : Prop :=
  ∀ n p, Ready (after rs σ n) p → ∃ m ≥ n, (σ m).party = p ∧ 0 < (σ m).steps

/-- A schedule on which every party has turns of one step again and again. -/
def again (n : Nat) : Turn :=
  let k := n.unpair.1
  ⟨if k % 2 = 0 then .sender (k / 2) else .reader (k / 2), 1⟩

theorem fair_again (rs : List (FeedKey × Replay α)) : Fair rs again := by
  have hagain : ∀ n k, (again (Nat.pair k n)).party =
      if k % 2 = 0 then .sender (k / 2) else .reader (k / 2) := by simp [again]
  intro n p _
  rcases p with i | i
  · refine ⟨Nat.pair (2 * i) n, Nat.right_le_pair .., ?_, Nat.zero_lt_one⟩
    rw [hagain, if_pos (by omega), Nat.mul_div_cancel_left i (by omega)]
  · refine ⟨Nat.pair (2 * i + 1) n, Nat.right_le_pair .., ?_, Nat.zero_lt_one⟩
    rw [hagain, if_neg (by omega), show (2 * i + 1) / 2 = i by omega]

theorem actAll_append (rs : List (FeedKey × Replay α)) (ts ts' : List Turn) :
    actAll rs (ts ++ ts') =
      ((actAll rs ts).1 ++ (actAll (actAll rs ts).2 ts').1, (actAll (actAll rs ts).2 ts').2) := by
  induction ts generalizing rs with
  | nil => rfl
  | cons t ts ih => simp [actAll, ih]

theorem after_succ (rs : List (FeedKey × Replay α)) (σ : Nat → Turn) (n : Nat) :
    after rs σ (n + 1) = (act (after rs σ n) (σ n)).2 := by
  simp [after, List.range_succ, actAll_append, actAll]

/-- While something is left, it becomes less under a fair schedule. -/
theorem Fair.decreases {σ : Nat → Turn} (hσ : Fair rs σ) (hrs : Distinct rs)
    (hroom : ∀ a ∈ rs, 0 < a.2.room) {n : Nat} (h : ¬ Finished (after rs σ n)) :
    ∃ m, totalWork (after rs σ m) < totalWork (after rs σ n) := by
  by_contra hnone
  simp only [not_exists, Nat.not_lt] at hnone
  -- nothing changes any more, so the party that can act keeps able to until it has its turn
  have hsame : ∀ k, after rs σ (n + k) = after rs σ n := by
    intro k
    induction k with
    | zero => rfl
    | succ k ih =>
      rw [← Nat.add_assoc, after_succ, ih]
      refine (act_totalWork (after rs σ n) (σ (n + k))).resolve_left fun hless => ?_
      have hmore := hnone (n + k + 1)
      rw [after_succ, ih] at hmore
      omega
  obtain ⟨p, hp⟩ : ∃ p, Ready (after rs σ n) p :=
    exists_ready ((follows_actAll hrs _).room hroom) h
  obtain ⟨m, hm, rfl, hsteps⟩ := hσ n p hp
  obtain ⟨k, rfl⟩ := Nat.exists_eq_add_of_le hm
  have hless := act_ready hp hsteps
  have hmore := hnone (n + k + 1)
  rw [after_succ, hsame] at hmore
  omega

theorem Fair.finishes {σ : Nat → Turn} (hσ : Fair rs σ) (hrs : Distinct rs)
    (hroom : ∀ a ∈ rs, 0 < a.2.room) : ∃ n, Finished (after rs σ n) := by
  by_contra hnone
  simp only [not_exists] at hnone
  have hbound : ∀ w n, totalWork (after rs σ n) < w → False := by
    intro w
    induction w with
    | zero => intro n h; omega
    | succ w ih =>
      intro n h
      obtain ⟨m, hm⟩ := hσ.decreases hrs hroom (hnone n)
      exact ih m (by omega)
  exact hbound _ 0 (Nat.lt_succ_self _)

end Schedule

end Candlewick
