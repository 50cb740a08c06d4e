import Candlewick.Proofs.ReplayOrder
import Candlewick.Proofs.Sequencer.Heap
import Mathlib.Tactic.Set

/-! # Sequencers as queues

A `Waitlist` keeps events in a list, in the order in which they came, and releases the first of
those that no other precedes. A sequencer answers every sequence of calls as a waitlist does,
whenever the order of the events is a strict weak one (`sequencer_answers`): nothing is lost or
released twice, and to release everything is to sort it stably.

The order of arrivals is then a strict weak one too, and it tells any two arrivals apart. So a heap
of arrivals has only one element that may be on top, which is the one that the waitlist releases
(`Holds.pop`). -/

namespace Candlewick

/-! ### Waitlists -/

/-- A queue of events as the list of those that wait, in the order in which they came. -/
structure Waitlist (τ : Type) where
  events : List τ

namespace Waitlist
variable {τ : Type}

/-- No events yet. -/
def empty : Waitlist τ := ⟨[]⟩

/-- The waitlist with one more event at its end. -/
def push (q : Waitlist τ) (a : τ) : Waitlist τ := ⟨q.events ++ [a]⟩

variable [Sequenced τ]

/-- Whether an event has to wait for another one. -/
def waits (q : Waitlist τ) (a : τ) : Bool := q.events.any fun b => Sequenced.precedes b a

/-- Releases the first event that has not to wait for another one. -/
def pop? (q : Waitlist τ) : Option (τ × Waitlist τ) :=
  match q.events.dropWhile q.waits with
  | [] => none
  | a :: later => some (a, ⟨q.events.takeWhile q.waits ++ later⟩)

end Waitlist

/-! ### Calls -/

/-- What one asks of a queue. -/
inductive Call (τ : Type) where
  | push (item : τ)
  | pop
  | peek
  | size
  | isEmpty

/-- What is answered. -/
inductive Reply (τ : Type) where
  | done
  | item (item? : Option τ)
  | count (n : Nat)
  | flag (b : Bool)

variable {τ σ : Type}

/-- The replies to one call after the other, and the state at the end. -/
def respond (reply : σ → Call τ → Reply τ × σ) : σ → List (Call τ) → List (Reply τ) × σ
  | s, [] => ([], s)
  | s, c :: cs =>
    let (r, s) := reply s c
    let (rs, s) := respond reply s cs
    (r :: rs, s)

/-- The events that calls add. -/
def pushed (cs : List (Call τ)) : List τ :=
  cs.filterMap fun
    | .push a => some a
    | _ => none

/-- The events that calls take out, by the replies to them. -/
def popped : List (Call τ) → List (Reply τ) → List τ
  | .pop :: cs, .item (some a) :: rs => a :: popped cs rs
  | _ :: cs, _ :: rs => popped cs rs
  | _, _ => []

section Replies
variable [Sequenced τ]

/-- The reply of a sequencer. -/
def Sequencer.reply (s : Sequencer τ) : Call τ → Reply τ × Sequencer τ
  | .push a => (.done, s.push a)
  | .pop =>
    match s.pop? with
    | some (a, s) => (.item (some a), s)
    | none => (.item none, s)
  | .peek => (.item s.peek?, s)
  | .size => (.count s.size, s)
  | .isEmpty => (.flag s.isEmpty, s)

/-- The reply of a waitlist. -/
def Waitlist.reply (q : Waitlist τ) : Call τ → Reply τ × Waitlist τ
  | .push a => (.done, q.push a)
  | .pop =>
    match q.pop? with
    | some (a, q) => (.item (some a), q)
    | none => (.item none, q)
  | .peek => (.item (q.pop?.map (·.1)), q)
  | .size => (.count q.events.length, q)
  | .isEmpty => (.flag q.events.isEmpty, q)

end Replies

/-! ### The order of arrivals -/

section Order
variable [Sequenced τ]

theorem Arrival.before_iff {a b : Arrival τ} : a.before b = true ↔
    Sequenced.precedes a.item b.item = true ∨
      Sequenced.precedes b.item a.item = false ∧ a.number < b.number := by
  unfold before
  by_cases hab : Sequenced.precedes a.item b.item = true
  · simp [hab]
  · by_cases hba : Sequenced.precedes b.item a.item = true <;> simp [hab, hba]

variable [IsStrictWeakOrder τ fun a b => Sequenced.precedes a b = true]

instance Arrival.before_strictWeak :
    IsStrictWeakOrder (Arrival τ) fun a b => a.before b = true where
  irrefl a h := by
    rcases before_iff.1 h with h | ⟨-, h⟩
    · exact irrefl_of (fun a b : τ => Sequenced.precedes a b = true) a.item h
    · omega
  trans a b c hab hbc := by
    rw [before_iff] at hab hbc ⊢
    rcases hab with hab | ⟨hba, hn⟩ <;> rcases hbc with hbc | ⟨hcb, hn'⟩
    · exact .inl (StableSort.lt_trans hab hbc)
    · exact .inl (StableSort.lt_of_lt_of_not_lt hab hcb)
    · exact .inl (StableSort.lt_of_not_lt_of_lt hba hbc)
    · exact .inr ⟨StableSort.not_lt_trans hcb hba, by omega⟩
  incomp_trans a b c hab hbc := by
    simp only [before_iff, not_or, not_and, Bool.not_eq_true, Nat.not_lt] at hab hbc ⊢
    obtain ⟨⟨hab, hab'⟩, hba, hba'⟩ := hab
    obtain ⟨⟨hbc, hbc'⟩, hcb, hcb'⟩ := hbc
    have h₁ := hab' hba
    have h₂ := hba' hab
    have h₃ := hbc' hcb
    have h₄ := hcb' hbc
    exact ⟨⟨StableSort.not_lt_trans hab hbc, fun _ => by omega⟩,
      StableSort.not_lt_trans hcb hba, fun _ => by omega⟩

/-- What a waitlist releases lies between events that it precedes and events that do not precede
it. -/
theorem Waitlist.pop?_eq {a : τ} {earlier later : List τ}
    (he : ∀ b ∈ earlier, Sequenced.precedes a b = true)
    (hl : ∀ b ∈ later, Sequenced.precedes b a = false) :
    (⟨earlier ++ a :: later⟩ : Waitlist τ).pop? = some (a, ⟨earlier ++ later⟩) := by
  set q : Waitlist τ := ⟨earlier ++ a :: later⟩ with hq
  have hwaits : ∀ b ∈ earlier, q.waits b = true := by
    intro b hb
    exact List.any_eq_true.2 ⟨a, by simp [hq], he b hb⟩
  have hfree : ¬ q.waits a = true := by
    intro h
    obtain ⟨b, hb, hba⟩ := List.any_eq_true.1 h
    rcases List.mem_append.1 hb with hb | hb
    · rw [StableSort.lt_asymm (he b hb)] at hba
      cases hba
    rcases List.mem_cons.1 hb with rfl | hb
    · exact irrefl_of (fun a b : τ => Sequenced.precedes a b = true) b hba
    · rw [hl b hb] at hba
      cases hba
  have hdrop : q.events.dropWhile q.waits = a :: later := by
    rw [hq, List.dropWhile_append_of_pos hwaits, List.dropWhile_cons_of_neg hfree]
  have htake : q.events.takeWhile q.waits = earlier := by
    rw [hq, List.takeWhile_append_of_pos hwaits, List.takeWhile_cons_of_neg hfree,
      List.append_nil]
  rw [pop?, hdrop, htake]

end Order

/-! ### What a sequencer holds -/

namespace Sequencer
variable [Sequenced τ] {s s' : Sequencer τ} {as : List (Arrival τ)}

/-- A sequencer holds some arrivals, the first one first. -/
structure Holds (s : Sequencer τ) (as : List (Arrival τ)) : Prop where
  perm : s.heap.toList.Perm as
  ordered : s.heap.Ordered Arrival.before
  ascending : as.Pairwise fun a b => a.number < b.number
  fresh : ∀ a ∈ as, a.number < s.next

theorem holds_empty : (empty : Sequencer τ).Holds [] := by
  constructor <;> simp [empty, Heap.toList, Heap.Ordered]

theorem Holds.size_eq (h : s.Holds as) : s.size = as.length := by
  rw [size, ← Heap.length_toList]
  exact h.perm.length_eq

variable [IsStrictWeakOrder τ fun a b => Sequenced.precedes a b = true]

theorem Holds.push (h : s.Holds as) (a : τ) : (s.push a).Holds (as ++ [⟨a, s.next⟩]) where
  perm := by
    refine (Heap.toList_insert _ s.heap).trans ((h.perm.cons _).trans ?_)
    exact (List.perm_append_singleton _ as).symm
  ordered := h.ordered.insert
  ascending := by
    refine List.pairwise_append.2 ⟨h.ascending, List.pairwise_singleton .., fun b hb c hc => ?_⟩
    rw [List.mem_singleton.1 hc]
    exact h.fresh b hb
  fresh := by
    intro b hb
    show b.number < s.next + 1
    rcases List.mem_append.1 hb with hb | hb
    · have hlt := h.fresh b hb
      omega
    · rw [List.mem_singleton.1 hb]
      exact Nat.lt_succ_self s.next

theorem Holds.pop {x : τ} (h : s.Holds as) (hp : s.pop? = some (x, s')) :
    ∃ earlier a later, as = earlier ++ a :: later ∧ a.item = x ∧ s.peek? = some x ∧
      s'.Holds (earlier ++ later) ∧ (∀ b ∈ earlier, Sequenced.precedes a.item b.item = true) ∧
      ∀ b ∈ later, Sequenced.precedes b.item a.item = false := by
  obtain ⟨⟨a, heap⟩, hpop, heq⟩ := Option.map_eq_some_iff.1 hp
  obtain ⟨rfl, rfl⟩ := Prod.mk.inj heq
  obtain ⟨hfirst, hperm, hordered, hmin⟩ := h.ordered.pop hpop
  have ha : a ∈ as := h.perm.subset (hperm.symm.subset (List.mem_cons_self ..))
  obtain ⟨earlier, later, rfl⟩ := List.append_of_mem ha
  obtain ⟨hearlier, hlater, hcross⟩ := List.pairwise_append.1 h.ascending
  have hmin : ∀ b ∈ earlier ++ a :: later, b.before a = false :=
    fun b hb => hmin b (h.perm.symm.subset hb)
  have hrest : (earlier ++ later).Sublist (earlier ++ a :: later) :=
    (List.sublist_cons_self a later).append_left earlier
  refine ⟨earlier, a, later, rfl, rfl, by simp [peek?, hfirst], ⟨?_, hordered, ?_, ?_⟩,
    fun b hb => ?_, fun b hb => ?_⟩
  · have hall := hperm.symm.trans (h.perm.trans List.perm_middle)
    exact hall.cons_inv
  · exact h.ascending.sublist hrest
  · exact fun b hb => h.fresh b (hrest.subset hb)
  · -- `b` came first, so it can only wait for `a` because `a` precedes it
    have hb' := hmin b (List.mem_append_left _ hb)
    have hn := hcross b hb a (List.mem_cons_self ..)
    by_contra hab
    have hbefore : b.before a = true := by
      rw [Arrival.before_iff]
      exact .inr ⟨Bool.eq_false_iff.2 hab, hn⟩
    rw [hbefore] at hb'
    cases hb'
  · have hb' := hmin b (List.mem_append_right _ (List.mem_cons_of_mem _ hb))
    refine Bool.eq_false_iff.2 fun hba => ?_
    rw [Arrival.before_iff.2 (.inl hba)] at hb'
    cases hb'

omit [IsStrictWeakOrder τ fun a b => Sequenced.precedes a b = true] in
theorem Holds.pop_none (h : s.Holds as) (hp : s.pop? = none) : as = [] ∧ s.peek? = none := by
  have hnone := Option.map_eq_none_iff.1 hp
  obtain ⟨hfirst, hnil⟩ := Heap.pop?_eq_none hnone
  have hperm := h.perm
  rw [hnil] at hperm
  exact ⟨hperm.symm.eq_nil, by simp [peek?, hfirst]⟩

/-! ### Replies -/

/-- The waitlist that keeps the events of some arrivals. -/
def waitlist (as : List (Arrival τ)) : Waitlist τ := ⟨as.map (·.item)⟩

/-- One call is answered alike, and afterwards both hold the same events again. -/
theorem Holds.reply (h : s.Holds as) (c : Call τ) :
    (s.reply c).1 = ((waitlist as).reply c).1 ∧
      ∃ as', (s.reply c).2.Holds as' ∧ ((waitlist as).reply c).2 = waitlist as' := by
  have hpop : s.pop? = none ∧ (waitlist as).pop? = none ∧ s.peek? = none ∨
      ∃ x s' as', s.pop? = some (x, s') ∧ (waitlist as).pop? = some (x, waitlist as') ∧
        s.peek? = some x ∧ s'.Holds as' := by
    cases hp : s.pop? with
    | none =>
      obtain ⟨rfl, hpeek⟩ := h.pop_none hp
      exact .inl ⟨rfl, rfl, hpeek⟩
    | some r =>
      obtain ⟨x, s'⟩ := r
      obtain ⟨earlier, a, later, rfl, rfl, hpeek, hs', he, hl⟩ := h.pop hp
      refine .inr ⟨a.item, s', earlier ++ later, rfl, ?_, hpeek, hs'⟩
      have he' : ∀ x ∈ earlier.map (·.item), Sequenced.precedes a.item x = true := by
        simpa using he
      have hl' : ∀ x ∈ later.map (·.item), Sequenced.precedes x a.item = false := by
        simpa using hl
      simpa [waitlist] using Waitlist.pop?_eq he' hl'
  cases c with
  | push a => exact ⟨rfl, _, h.push a, by simp [Waitlist.reply, Waitlist.push, waitlist]⟩
  | pop =>
    rcases hpop with ⟨hs, hq, -⟩ | ⟨x, s', as', hs, hq, -, hs'⟩
    · exact ⟨by simp [Sequencer.reply, Waitlist.reply, hs, hq], as,
        by simpa [Sequencer.reply, hs] using h, by simp [Waitlist.reply, hq]⟩
    · exact ⟨by simp [Sequencer.reply, Waitlist.reply, hs, hq], as',
        by simpa [Sequencer.reply, hs] using hs', by simp [Waitlist.reply, hq]⟩
  | peek =>
    refine ⟨?_, as, h, rfl⟩
    rcases hpop with ⟨-, hq, hs⟩ | ⟨x, s', as', -, hq, hs, -⟩ <;>
      simp [Sequencer.reply, Waitlist.reply, hs, hq]
  | size => exact ⟨by simp [Sequencer.reply, Waitlist.reply, waitlist, h.size_eq], as, h, rfl⟩
  | isEmpty =>
    refine ⟨?_, as, h, rfl⟩
    cases as <;> simp [Sequencer.reply, Waitlist.reply, waitlist, isEmpty, h.size_eq]

theorem Holds.respond (h : s.Holds as) (cs : List (Call τ)) :
    (Candlewick.respond Sequencer.reply s cs).1 =
        (Candlewick.respond Waitlist.reply (waitlist as) cs).1 ∧
      ∃ as', (Candlewick.respond Sequencer.reply s cs).2.Holds as' ∧
        (Candlewick.respond Waitlist.reply (waitlist as) cs).2 = waitlist as' := by
  induction cs generalizing s as with
  | nil => exact ⟨rfl, as, h, rfl⟩
  | cons c cs ih =>
    obtain ⟨hr, as', hs', hq⟩ := h.reply c
    obtain ⟨hrs, as'', hs'', hq'⟩ := ih hs'
    simp only [Candlewick.respond, hr, hq, hrs, true_and]
    exact ⟨as'', hs'', hq'⟩

/-! ### Release of everything -/

omit [IsStrictWeakOrder τ fun a b => Sequenced.precedes a b = true] in
theorem before_of_apart {a : Arrival τ} {earlier later : List (Arrival τ)}
    (h : (earlier ++ a :: later).Pairwise fun a b => a.number < b.number)
    (he : ∀ b ∈ earlier, Sequenced.precedes a.item b.item = true)
    (hl : ∀ b ∈ later, Sequenced.precedes b.item a.item = false) :
    ∀ b ∈ earlier ++ later, a.before b = true := by
  intro b hb
  rw [Arrival.before_iff]
  rcases List.mem_append.1 hb with hb | hb
  · exact .inl (he b hb)
  · have hlater := (List.pairwise_append.1 h).2.1
    exact .inr ⟨hl b hb, List.rel_of_pairwise_cons hlater hb⟩

theorem Holds.release {n : Nat} (h : s.Holds as) (hn : as.length = n) :
    ∃ bs : List (Arrival τ), bs.Perm as ∧ (bs.Pairwise fun a b => a.before b = true) ∧
      (s.release n).1 = bs.map (·.item) ∧ (s.release n).2.Holds [] := by
  induction n generalizing s as with
  | zero =>
    rw [List.length_eq_zero_iff] at hn
    subst hn
    exact ⟨[], .refl _, .nil, rfl, h⟩
  | succ n ih =>
    cases hp : s.pop? with
    | none =>
      rw [(h.pop_none hp).1] at hn
      cases hn
    | some r =>
      obtain ⟨x, s'⟩ := r
      obtain ⟨earlier, a, later, rfl, rfl, -, hs', he, hl⟩ := h.pop hp
      obtain ⟨bs, hperm, hbs, heq, hend⟩ := ih hs' (by simp at hn ⊢; omega)
      refine ⟨a :: bs, (hperm.cons a).trans List.perm_middle.symm,
        List.pairwise_cons.2 ⟨fun b hb => ?_, hbs⟩, ?_, ?_⟩
      · exact before_of_apart h.ascending he hl b (hperm.subset hb)
      · rw [Sequencer.release, hp]
        exact congrArg (a.item :: ·) heq
      · rw [Sequencer.release, hp]
        exact hend

/-- Arrivals in their order are a stable sort of the events in the order in which they came. -/
theorem map_item_eq_mergeSort {bs : List (Arrival τ)}
    (h : as.Pairwise fun a b => a.number < b.number) (hperm : bs.Perm as)
    (hbs : bs.Pairwise fun a b => a.before b = true) :
    bs.map (·.item) = (as.map (·.item)).mergeSort (StableSort.notAfter Sequenced.precedes) := by
  refine StableSort.eq_mergeSort StableSort.notAfter_trans StableSort.notAfter_total ?_ fun x => ?_
  · refine List.pairwise_map.2 (hbs.imp fun {a b} hab => StableSort.notAfter_iff.2 ?_)
    rcases Arrival.before_iff.1 hab with hab | ⟨hba, -⟩
    · exact StableSort.lt_asymm hab
    · exact hba
  · rw [List.filter_map, List.filter_map]
    refine congrArg (List.map _) ?_
    -- within one class of ties both lists ascend by number
    have hlt : ∀ a b : Arrival τ, a.number < b.number → b.number < a.number → a = b :=
      fun a b hab hba => by omega
    refine List.Perm.eq_of_pairwise (fun a b _ _ => hlt a b) ?_ (h.sublist List.filter_sublist)
      (hperm.filter _)
    refine (List.pairwise_filter.2 (hbs.imp fun {a b} hab ha hb => ?_))
    have hxa := StableSort.tied_iff.1 ha
    have hxb := StableSort.tied_iff.1 hb
    rcases Arrival.before_iff.1 hab with hab | ⟨-, hab⟩
    · have hba := StableSort.notAfter_trans _ _ _ hxb.2 hxa.1
      rw [StableSort.notAfter_iff, hab] at hba
      cases hba
    · exact hab

theorem Holds.drain (h : s.Holds as) :
    s.drain.1 = (as.map (·.item)).mergeSort (StableSort.notAfter Sequenced.precedes) ∧
      s.drain.2.Holds [] := by
  obtain ⟨bs, hperm, hbs, heq, hend⟩ := h.release rfl
  rw [Sequencer.drain, h.size_eq]
  exact ⟨heq.trans (map_item_eq_mergeSort h.ascending hperm hbs), hend⟩

end Sequencer

/-! ### Nothing is lost -/

section Waitlists
variable [Sequenced τ]

theorem Waitlist.perm_of_pop? {q q' : Waitlist τ} {a : τ} (h : q.pop? = some (a, q')) :
    q.events.Perm (a :: q'.events) := by
  unfold Waitlist.pop? at h
  split at h
  next => cases h
  next b later hd =>
    cases h
    calc q.events
      _ = q.events.takeWhile q.waits ++ q.events.dropWhile q.waits :=
        List.takeWhile_append_dropWhile.symm
      _ = q.events.takeWhile q.waits ++ a :: later := by rw [hd]
      List.Perm _ (a :: (q.events.takeWhile q.waits ++ later)) := List.perm_middle

/-- What was in a waitlist and what was added is what was taken out and what is in it. -/
theorem Waitlist.pushed_perm (q : Waitlist τ) (cs : List (Call τ)) :
    (q.events ++ pushed cs).Perm
      (popped cs (respond Waitlist.reply q cs).1 ++ (respond Waitlist.reply q cs).2.events) := by
  induction cs generalizing q with
  | nil => simp [respond, pushed, popped]
  | cons c cs ih =>
    cases c with
    | push a =>
      have h := ih (q.push a)
      simpa [respond, Waitlist.reply, pushed, popped, Waitlist.push] using h
    | pop =>
      cases hp : q.pop? with
      | none => simpa [respond, Waitlist.reply, hp, pushed, popped] using ih q
      | some r =>
        obtain ⟨a, q'⟩ := r
        have hq := Waitlist.perm_of_pop? hp
        have h := (hq.append_right (pushed cs)).trans ((ih q').cons a)
        simpa [respond, Waitlist.reply, hp, pushed, popped] using h
    | peek => simpa [respond, Waitlist.reply, pushed, popped] using ih q
    | size => simpa [respond, Waitlist.reply, pushed, popped] using ih q
    | isEmpty => simpa [respond, Waitlist.reply, pushed, popped] using ih q

end Waitlists

/-- Replay is a strict weak order, and under any such order a sequencer answers calls as a waitlist
does. What was pushed is what was popped and what a drain still releases, which is what the waitlist
has, in a stable order. -/
theorem sequencer_answers :
    (∀ α : Type, IsStrictWeakOrder (Candle α) fun a b => Sequenced.precedes a b = true) ∧
    ∀ (τ : Type) [Sequenced τ], (IsStrictWeakOrder τ fun a b => Sequenced.precedes a b = true) →
      ∀ cs : List (Call τ),
        let (replies, s) := respond Sequencer.reply .empty cs
        let (expected, q) := respond Waitlist.reply .empty cs
        replies = expected ∧
        s.drain.1 = q.events.mergeSort (fun a b => !Sequenced.precedes b a) ∧
        s.drain.2.isEmpty = true ∧
        (pushed cs).Perm (popped cs replies ++ s.drain.1) := by
  refine ⟨fun α => inferInstance, fun τ _ horder cs => ?_⟩
  obtain ⟨hreplies, as, hs, hq⟩ := Sequencer.holds_empty.respond cs
  obtain ⟨hdrain, hend⟩ := hs.drain
  refine ⟨hreplies, ?_, ?_, ?_⟩
  · show (respond Sequencer.reply .empty cs).2.drain.1 =
      (respond Waitlist.reply (Sequencer.waitlist []) cs).2.events.mergeSort _
    rw [hq]
    exact hdrain
  · simp [Sequencer.isEmpty, hend.size_eq]
  · have hperm := Waitlist.pushed_perm (Sequencer.waitlist []) cs
    have hall := List.mergeSort_perm (as.map (·.item))
      (StableSort.notAfter (Sequenced.precedes (τ := τ)))
    rw [← hdrain] at hall
    rw [hq] at hperm
    show (pushed cs).Perm (popped cs (respond Sequencer.reply .empty cs).1 ++ _)
    rw [hreplies]
    exact hperm.trans (hall.symm.append_left _)

/-- A telling of the bar of `BTCUSDT` that opens at a second. -/
def telling (second : Int) (close : Rat) : Candle Rat :=
  { (default : Candle Rat) with
    pair := "BTCUSDT", time := ⟨second, 0⟩, updated := ⟨second, 0⟩, close }

/-- Two tellings that replay does not tell apart, one of an earlier bar, and calls in between. -/
theorem sequencer_answers_tellings :
    (IsStrictWeakOrder (Candle Rat) fun a b => Sequenced.precedes a b = true) ∧
    (respond Sequencer.reply .empty [.push (telling 60 1), .push (telling 0 2), .pop,
      .push (telling 60 3), .peek, .pop, .size, .pop, .isEmpty]).1 =
      [.done, .done, .item (some (telling 0 2)), .done, .item (some (telling 60 1)),
        .item (some (telling 60 1)), .count 1, .item (some (telling 60 3)), .flag true] :=
  ⟨sequencer_answers.1 Rat,
    (sequencer_answers.2 (Candle Rat) (sequencer_answers.1 Rat) _).1.trans (by rfl)⟩

end Candlewick
