import Candlewick.Proofs.Feed.Schedule

/-! # The turns of a router come to the end

The order in which a router hands candles on is one of the schedules: `Turns.deliveries` is what a
list of turns hands on, and these turns leave nothing (`Turns.deliveries_complete`).

Nobody is forgotten on the way (`Turns.Attended`): a sender that still has candles is to have a turn
or waits for room that is not there, and a reader to whom something is still to come is to have a
turn or waits while nothing lies between the two. Both cannot wait at a time, so when nobody is to
have a turn any more, all is done. The turns end before the fuel does, since all that is to be done,
with every turn that is due, becomes less from turn to turn (`Turns.take_toDo`). -/

namespace Candlewick

/-! ### Lanes -/

namespace Lane
variable {α : Type} {l : Lane α}

open Schedule (work)

/-- A lane between two turns: there is room for a candle, and a reader waits only for a sender that
still has candles, while nothing lies between the two. -/
structure Ok (l : Lane α) : Prop where
  room : 0 < l.replay.room
  starved : l.starved = true → l.replay.unsent ≠ [] ∧ l.replay.waiting = []

theorem Ok.heard (h : l.Ok) (hs : l.starved = true) :
    0 < min turnLength l.replay.space ∧ 0 < l.replay.unsent.length := by
  obtain ⟨hunsent, hwait⟩ := h.starved hs
  have hroom := h.room
  simp only [Replay.space, hwait, List.length_nil, turnLength, List.length_pos_iff]
  exact ⟨by omega, hunsent⟩

theorem Ok.send_wakes (h : l.Ok) (hs : l.starved = true) : l.send.1.2 = true := by
  simp [send, hs, (h.heard hs).1]

theorem Ok.send (h : l.Ok) : l.send.2.Ok := by
  refine ⟨h.room, fun hs => ?_⟩
  rcases hl : l.starved with - | -
  · simp [Lane.send, hl] at hs
  · simp [Lane.send, hl, (h.heard hl).1] at hs

theorem send_remaining (l : Lane α) : l.send.2.replay.remaining = l.replay.remaining := by
  simp [send, Replay.send, Replay.remaining]

/-- A sender that still has candles after its turn rests, or waits for room that is not there. -/
theorem send_rests (h : l.send.2.replay.unsent ≠ []) :
    l.send.1.1 = true ∨ l.send.2.blocked = true ∧ l.send.2.replay.space = 0 := by
  have hended : (l.replay.send (min turnLength l.replay.space)).ended = false :=
    List.isEmpty_eq_false_iff.2 h
  by_cases hn : min turnLength l.replay.space = turnLength
  · left
    rw [hn] at hended
    simp [send, hn, hended]
  · right
    refine ⟨by simp [send, hended, hn], ?_⟩
    have hlen : 0 < (l.replay.unsent.drop (min turnLength l.replay.space)).length :=
      List.length_pos_iff.2 h
    rw [List.length_drop] at hlen
    simp only [send, Replay.send, Replay.space, List.length_append, List.length_take] at hlen hn ⊢
    omega

/-- How many candles the sender sends in a turn. -/
def sent (l : Lane α) : Nat := min (min turnLength l.replay.space) l.replay.unsent.length

theorem send_work (l : Lane α) : work l.send.2.replay + l.sent = work l.replay := by
  simp only [work, sent, send, Replay.send, List.length_append, List.length_drop, List.length_take]
  omega

theorem Ok.wakes_sent (h : l.Ok) (hw : l.send.1.2 = true) : 0 < l.sent := by
  have hs : l.starved = true := by
    simp only [Lane.send, Bool.and_eq_true] at hw
    exact hw.1
  have := h.heard hs
  rw [sent]
  omega

theorem sent_of_rests (h : l.send.1.1 = true) : l.sent = turnLength := by
  simp only [send, Bool.and_eq_true, decide_eq_true_eq, Bool.not_eq_true', Replay.ended,
    List.isEmpty_eq_false_iff] at h
  have hlen : turnLength < l.replay.unsent.length := by
    simpa [Replay.send, h.1] using h.2
  rw [sent, h.1]
  omega

/-- How many steps the reader may take in a turn. -/
def steps (l : Lane α) : Nat :=
  if l.replay.ended && !l.noticed then turnLength - 1 else turnLength

theorem steps_pos (l : Lane α) : 3 ≤ l.steps := by
  unfold steps turnLength
  split <;> omega

theorem length_read (l : Lane α) : l.read.1.length = min l.steps l.replay.waiting.length := by
  simp [read, Replay.read, steps]

theorem read_work (l : Lane α) : work l.read.2.2.replay + l.read.1.length = work l.replay := by
  simp only [work, read, Replay.read, List.length_drop, List.length_take]
  omega

theorem length_of_rests (h : l.read.2.1.1 = true) : l.read.1.length = l.steps := by
  simpa [read, steps] using h

theorem read_wakes_iff : l.read.2.1.2 = true ↔ l.blocked = true ∧ 0 < l.read.1.length := by
  simp [read, List.length_pos_iff]

/-- A reader that does not rest has read everything. -/
theorem read_waiting (h : l.read.2.1.1 = false) : l.read.2.2.replay.waiting = [] := by
  simp only [read, Replay.read, List.length_take, decide_eq_false_iff_not] at h ⊢
  exact List.drop_eq_nil_iff.2 (by omega)

theorem read_starved : l.read.2.2.starved = true ↔
    l.read.2.1.1 = false ∧ l.read.2.2.replay.unsent ≠ [] := by
  simp [read, Replay.read, Replay.ended]

theorem Ok.read (h : l.Ok) : l.read.2.2.Ok :=
  ⟨h.room, fun hs => ⟨(read_starved.1 hs).2, read_waiting (read_starved.1 hs).1⟩⟩

/-- A reader to whom something is still to come after its turn rests, or waits for the sender. -/
theorem read_rests (h : l.read.2.2.replay.remaining ≠ []) :
    l.read.2.1.1 = true ∨ l.read.2.2.starved = true := by
  rcases hr : l.read.2.1.1 with - | -
  · refine .inr (read_starved.2 ⟨hr, fun hunsent => h ?_⟩)
    rw [Replay.remaining, hunsent, read_waiting hr, List.append_nil]
  · exact .inl rfl

end Lane

namespace Turns
variable {α : Type} {t : Turns α} {p : Party} {i : Nat} {l : Lane α}

open Schedule (act actAll totalWork work Finished)

/-- The replays with their feeds. -/
def replays (t : Turns α) : List (FeedKey × Replay α) := t.lanes.map fun l => (l.key, l.replay)

/-- Whether a party is to have a turn. -/
def Due (t : Turns α) (p : Party) : Prop := p ∈ t.queue ∨ p ∈ t.resting

/-- Who does not wait for the other side of a lane is to have a turn. -/
structure Attends (t : Turns α) (i : Nat) (l : Lane α) : Prop extends l.Ok where
  sender : l.replay.unsent ≠ [] → t.Due (.sender i) ∨ l.blocked = true ∧ l.replay.space = 0
  reader : l.replay.remaining ≠ [] → t.Due (.reader i) ∨ l.starved = true

def Attended (t : Turns α) : Prop := ∀ i l, t.lanes[i]? = some l → t.Attends i l

/-- What is still to be done, the turns that are due included. -/
def toDo (t : Turns α) : Nat := totalWork t.replays + t.queue.length + 2 * t.resting.length

/-! ### One turn -/

theorem replays_getElem? (t : Turns α) (i : Nat) :
    t.replays[i]? = t.lanes[i]?.map fun l => (l.key, l.replay) := by
  simp [replays]

theorem replays_after (t : Turns α) (i : Nat) (l : Lane α) (self other : Party)
    (rests wakes : Bool) :
    (t.after i l self other rests wakes).replays = t.replays.set i (l.key, l.replay) := by
  simp [replays, after, List.map_set]

/-- A turn of the router is a turn of a schedule. -/
theorem take_eq_act (t : Turns α) (p : Party) :
    ∃ n, act t.replays ⟨p, n⟩ = ((t.take p).1, (t.take p).2.replays) := by
  rcases p with i | i
  · refine ⟨turnLength, ?_⟩
    rcases hi : t.lanes[i]? with - | l
    · simp [act, take, replays_getElem?, hi]
    · simp [act, take, replays_getElem?, hi, Lane.send, replays_after]
  · rcases hi : t.lanes[i]? with - | l
    · exact ⟨0, by simp [act, take, replays_getElem?, hi]⟩
    · exact ⟨if l.replay.ended && !l.noticed then turnLength - 1 else turnLength, by
        simp [act, take, replays_getElem?, hi, Lane.read, replays_after]⟩

theorem Attends.of_due {t' : Turns α} (h : t.Attends i l)
    (hs : t.Due (.sender i) → t'.Due (.sender i)) (hr : t.Due (.reader i) → t'.Due (.reader i)) :
    t'.Attends i l :=
  ⟨h.toOk, fun hu => (h.sender hu).imp_left hs, fun hu => (h.reader hu).imp_left hr⟩

theorem Due.pop {q : List Party} {p' : Party} (h : t.Due p') (hq : t.queue = p :: q)
    (hne : p' ≠ p) : Due { t with queue := q } p' := by
  rcases h with h | h
  · rw [hq] at h
    exact .inl ((List.mem_cons.1 h).resolve_left hne)
  · exact .inr h

theorem Due.after {self other p' : Party} {rests wakes : Bool} (h : t.Due p') :
    (t.after i l self other rests wakes).Due p' := by
  rcases h with h | h
  · left
    cases wakes <;> simp [Turns.after, h]
  · right
    cases rests <;> simp [Turns.after, h]

theorem due_of_rests {self other : Party} {rests wakes : Bool} (h : rests = true) :
    (t.after i l self other rests wakes).Due self := by
  simp [Due, after, h]

theorem due_of_wakes {self other : Party} {rests wakes : Bool} (h : wakes = true) :
    (t.after i l self other rests wakes).Due other := by
  simp [Due, after, h]

/-- The sender of a lane has had its turn. -/
theorem Attends.send {q : List Party} (h : t.Attends i l) (hq : t.queue = .sender i :: q) :
    (after { t with queue := q } i l.send.2 (.sender i) (.reader i) l.send.1.1 l.send.1.2).Attends i
      l.send.2 := by
  refine ⟨h.toOk.send, fun hu => (Lane.send_rests hu).imp_left due_of_rests, fun hr => .inl ?_⟩
  rw [Lane.send_remaining] at hr
  rcases h.reader hr with hdue | hs
  · exact (hdue.pop hq (by simp)).after
  · exact due_of_wakes (h.toOk.send_wakes hs)

/-- The reader of a lane has had its turn. -/
theorem Attends.read {q : List Party} (h : t.Attends i l) (hq : t.queue = .reader i :: q) :
    (after { t with queue := q } i l.read.2.2 (.reader i) (.sender i) l.read.2.1.1
      l.read.2.1.2).Attends i l.read.2.2 := by
  refine ⟨h.toOk.read, fun hu => .inl ?_, fun hr => (Lane.read_rests hr).imp_left due_of_rests⟩
  rcases h.sender hu with hdue | ⟨hb, hspace⟩
  · exact (hdue.pop hq (by simp)).after
  · have hroom := h.room
    have hsteps := l.steps_pos
    refine due_of_wakes (Lane.read_wakes_iff.2 ⟨hb, ?_⟩)
    rw [Replay.space] at hspace
    rw [Lane.length_read]
    omega

/-- A party that has had its turn leaves nobody unattended. -/
theorem take_attended (h : t.Attended) {q : List Party} (hq : t.queue = p :: q) :
    (take { t with queue := q } p).2.Attended := by
  -- the parties of a lane lose no turn when it is the turn of another lane
  have hother : ∀ i, p = .sender i ∨ p = .reader i → ∀ j m, i ≠ j → t.lanes[j]? = some m →
      Attends { t with queue := q } j m := by
    intro i hp j m hij hm
    refine (h j m hm).of_due ?_ ?_ <;>
    · refine fun hdue => hdue.pop hq ?_
      rcases hp with rfl | rfl <;> simp [Ne.symm hij]
  have hset : ∀ i l self other rests wakes, (∀ j m, i ≠ j → t.lanes[j]? = some m →
      Attends { t with queue := q } j m) →
      (after { t with queue := q } i l self other rests wakes).Attends i l →
      (after { t with queue := q } i l self other rests wakes).Attended := by
    intro i l self other rests wakes hrest hl j m hm
    by_cases hij : i = j
    · subst hij
      have hm' : l = m := by
        simp only [after, List.getElem?_set_self'] at hm
        simpa using (Option.map_eq_some_iff.1 hm).choose_spec.2
      exact hm' ▸ hl
    · simp only [after, List.getElem?_set_ne hij] at hm
      exact (hrest j m hij hm).of_due Due.after Due.after
  rcases p with i | i
  · rcases hi : t.lanes[i]? with - | l
    · simp only [take, hi]
      exact fun j m hm => hother i (.inl rfl) j m (by rintro rfl; simp [hi] at hm) hm
    · simp only [take, hi]
      exact hset _ _ _ _ _ _ (hother i (.inl rfl)) ((h i l hi).send hq)
  · rcases hi : t.lanes[i]? with - | l
    · simp only [take, hi]
      exact fun j m hm => hother i (.inr rfl) j m (by rintro rfl; simp [hi] at hm) hm
    · simp only [take, hi]
      exact hset _ _ _ _ _ _ (hother i (.inr rfl)) ((h i l hi).read hq)

/-- The candles that a party moves in its turn pay for the turns that become due. -/
theorem toDo_after {m : Lane α} {n : Nat} (hi : t.lanes[i]? = some l) (self other : Party)
    {rests wakes : Bool} (hwork : work m.replay + n = work l.replay)
    (hwakes : wakes = true → 0 < n) (hrests : rests = true → 3 ≤ n) :
    (t.after i m self other rests wakes).toDo ≤ t.toDo := by
  have hlane : t.replays[i]? = some (l.key, l.replay) := by simp [replays_getElem?, hi]
  have hset := Schedule.totalWork_set (b := (m.key, m.replay)) hlane
  simp only [toDo, replays_after]
  dsimp only at hset
  cases wakes <;> cases rests <;> simp [after] at hwakes hrests ⊢ <;> omega

theorem take_toDo (h : t.Attended) {q : List Party} (hq : t.queue = p :: q) :
    (take { t with queue := q } p).2.toDo < t.toDo := by
  have hpop : toDo { t with queue := q } < t.toDo := by
    simp only [toDo, replays, hq, List.length_cons]
    omega
  refine Nat.lt_of_le_of_lt ?_ hpop
  rcases p with i | i
  · rcases hi : t.lanes[i]? with - | l
    · simp [take, hi]
    · simp only [take, hi]
      refine toDo_after (t := { t with queue := q }) hi _ _ l.send_work (h i l hi).toOk.wakes_sent
        fun hr => ?_
      rw [Lane.sent_of_rests hr]
      decide
  · rcases hi : t.lanes[i]? with - | l
    · simp [take, hi]
    · simp only [take, hi]
      refine toDo_after (t := { t with queue := q }) hi _ _ l.read_work
        (fun hw => (Lane.read_wakes_iff.1 hw).2) fun hr => ?_
      rw [Lane.length_of_rests hr]
      exact l.steps_pos

/-! ### All turns -/

/-- When nobody is to have a turn any more, all is done. -/
theorem Attended.finished (h : t.Attended) (hq : t.queue = []) (hr : t.resting = []) :
    Finished t.replays := by
  have hnone : ∀ p, ¬ t.Due p := by simp [Due, hq, hr]
  intro a ha
  obtain ⟨l, hl, rfl⟩ := List.mem_map.1 ha
  obtain ⟨i, hi, rfl⟩ := List.getElem_of_mem hl
  have hl := h i t.lanes[i] (by simp)
  by_contra hrest
  have hs := (hl.reader hrest).resolve_left (hnone _)
  obtain ⟨hunsent, hwait⟩ := hl.starved hs
  obtain ⟨-, hspace⟩ := (hl.sender hunsent).resolve_left (hnone _)
  have hroom := hl.room
  simp only [Replay.space, hwait, List.length_nil] at hspace
  omega

theorem run_eq_actAll {fuel : Nat} (h : t.Attended) (hfuel : t.toDo ≤ fuel)
    (done : List (FeedKey × Candle α)) :
    ∃ ts, run fuel done t = done.reverse ++ (actAll t.replays ts).1 ∧
      Finished (actAll t.replays ts).2 := by
  induction fuel generalizing t done with
  | zero =>
    have hq : t.queue = [] := List.length_eq_zero_iff.1 (by rw [toDo] at hfuel; omega)
    have hr : t.resting = [] := List.length_eq_zero_iff.1 (by rw [toDo] at hfuel; omega)
    exact ⟨[], by simp [run, actAll], by simpa [actAll] using h.finished hq hr⟩
  | succ fuel ih =>
    rcases hq : t.queue with - | ⟨p, q⟩
    · rcases hr : t.resting with - | ⟨p, resting⟩
      · exact ⟨[], by simp [run, actAll, hq, hr], by simpa [actAll] using h.finished hq hr⟩
      · -- those who rest come back
        have hback : Attended { t with queue := p :: resting, resting := [] } := by
          refine fun i l hl => (h i l hl).of_due ?_ ?_ <;>
          · rintro (hdue | hdue)
            · simp [hq] at hdue
            · exact .inl (hr ▸ hdue)
        have hless : toDo { t with queue := p :: resting, resting := [] } ≤ fuel := by
          simp only [toDo, hq, hr, replays, List.length_nil, List.length_cons] at hfuel ⊢
          omega
        obtain ⟨ts, hts, hend⟩ := ih hback hless done
        have hsame : replays { t with queue := p :: resting, resting := [] } = t.replays := rfl
        rw [hsame] at hts hend
        exact ⟨ts, by simpa [run, hq, hr] using hts, hend⟩
    · have hless := take_toDo h hq
      obtain ⟨n, hn⟩ := take_eq_act { t with queue := q } p
      obtain ⟨ts, hts, hend⟩ := ih (take_attended h hq) (by omega)
        ((take { t with queue := q } p).1.reverse ++ done)
      refine ⟨⟨p, n⟩ :: ts, ?_, ?_⟩
      · have hact : act t.replays ⟨p, n⟩ = _ := hn
        simp [run, hq, hts, actAll, hact]
      · have hact : act t.replays ⟨p, n⟩ = _ := hn
        simpa [actAll, hact] using hend

/-! ### The beginning -/

theorem totalWork_le (rs : List (FeedKey × Replay α)) :
    totalWork rs ≤ 2 * (rs.flatMap fun a => a.2.remaining).length := by
  induction rs with
  | nil => simp [totalWork]
  | cons a rs ih =>
    simp only [totalWork, List.map_cons, List.sum_cons, List.flatMap_cons, List.length_append,
      work, Replay.remaining] at ih ⊢
    omega

theorem replays_ofReplays (rs : List (FeedKey × Replay α)) : (ofReplays rs).replays = rs := by
  simp [replays, ofReplays, Lane.ofReplay, Function.comp_def]

theorem toDo_ofReplays (rs : List (FeedKey × Replay α)) :
    (ofReplays rs).toDo ≤ 2 * (rs.flatMap fun a => a.2.remaining).length + 2 * rs.length := by
  have hwork := totalWork_le rs
  have hqueue : (ofReplays rs).queue.length ≤ 2 * rs.length := by
    simp only [ofReplays, List.length_append, List.length_map, List.length_range, Nat.two_mul]
    exact Nat.add_le_add_right (List.length_zipIdx (l := rs) ▸ List.length_filter_le _ _) _
  have hresting : (ofReplays rs).resting = [] := rfl
  simp only [toDo, replays_ofReplays, hresting, List.length_nil]
  omega

/-- Replays that may begin: on each one nothing has happened yet, or its sender has gone on until it
had nothing to send or no room. -/
def Begins (rs : List (FeedKey × Replay α)) : Prop :=
  ∀ a ∈ rs, 0 < a.2.room ∧ (a.2.waiting = [] ∨ a.2.unsent = [] ∨ a.2.space = 0)

theorem attended_ofReplays {rs : List (FeedKey × Replay α)} (h : Begins rs) :
    (ofReplays rs).Attended := by
  intro i l hl
  simp only [ofReplays, List.getElem?_map, Option.map_eq_some_iff] at hl
  obtain ⟨⟨key, r⟩, hi, rfl⟩ := hl
  obtain ⟨hroom, hbegins⟩ := h _ (List.mem_of_getElem? hi)
  have hlt : i < rs.length := (List.getElem?_eq_some_iff.1 hi).1
  refine ⟨⟨hroom, by simp [Lane.ofReplay]⟩, fun hunsent => ?_, fun _ => .inl (.inl ?_)⟩
  · by_cases hwait : r.waiting = []
    · refine .inl (.inl ?_)
      simp only [ofReplays, List.mem_append, List.mem_map, List.mem_filter]
      exact .inl ⟨((key, r), i), ⟨List.mem_zipIdx_iff_getElem?.2 hi, by simp [hwait]⟩, rfl⟩
    · have hspace := (hbegins.resolve_left hwait).resolve_left hunsent
      refine .inr ⟨?_, hspace⟩
      simpa [Lane.ofReplay, hspace, Replay.ended] using hunsent
  · simp only [ofReplays, List.mem_append, List.mem_map, List.mem_range]
    exact .inr ⟨i, hlt, rfl⟩

/-- The deliveries of a router are those of a schedule that leaves nothing. -/
theorem deliveries_complete {rs : List (FeedKey × Replay α)} (h : Begins rs) :
    ∃ ts, deliveries rs = (actAll rs ts).1 ∧ Finished (actAll rs ts).2 := by
  have htoDo := toDo_ofReplays rs
  have hfuel : (ofReplays rs).toDo ≤
      8 * ((rs.flatMap fun a => a.2.remaining).length + rs.length + 1) := by omega
  obtain ⟨ts, hts, hend⟩ := run_eq_actAll (attended_ofReplays h) hfuel []
  rw [replays_ofReplays] at hts hend
  exact ⟨ts, by simpa [deliveries] using hts, hend⟩

end Turns

end Candlewick
