import Candlewick.Proofs.Session.Inboxes
import Candlewick.Proofs.Session.Processed
import Candlewick.Proofs.Session.Traffic

/-! # The streams of a live session

For one connection `Upstream` tells what lies between its source and the router, and for one pair
`Inbound` what lies between the router and the session. What the router hands out of a feed is told
with the connections over which it came (`Lanes`), since a feed has several of them where an earlier
run has left some. Every move preserves all this (`Carries.change`), so at any time it is known where
each candle is that a source has sent: it was processed, or it waits, or somebody has stopped. -/

namespace Candlewick.Traffic
variable {φ β α σ : Type}

/-! ### From the sources to the router -/

section Flow
variable {t t' : Traffic φ β α σ} {key : FeedKey} {id : LineId} {sent routed : List (Candle α)}

/-- Of the candles of a connection some were sent, and some of these were handed out. The others wait
while the connection is there. -/
structure Upstream (t : Traffic φ β α σ) (id : LineId) (sent routed : List (Candle α)) : Prop where
  connected : ∀ line, t.live.lines.get? id = some line → routed ++ line.waiting = sent ∧
    (line.isOpen = true ∨ t.halted = true ∨ t.unsent id = [])
  gone : t.live.lines.get? id = none → routed <+: sent ∧
    (t.halted = true ∨ routed = sent ∧ t.unsent id = [])

namespace Upstream

theorem congr (h : t.Upstream id sent routed)
    (hline : t'.live.lines.get? id = t.live.lines.get? id)
    (hunsent : t'.unsent id = t.unsent id)
    (hhalted : t.halted = true → t'.halted = true) : t'.Upstream id sent routed := by
  constructor
  · intro line hget
    obtain ⟨hsent, hopen⟩ := h.connected line (hline ▸ hget)
    exact ⟨hsent, hopen.imp_right (Or.imp hhalted hunsent.trans)⟩
  · intro hget
    obtain ⟨hrouted, hend⟩ := h.gone (hline ▸ hget)
    exact ⟨hrouted, hend.imp hhalted (And.imp_right hunsent.trans)⟩

theorem isPrefix (h : t.Upstream id sent routed) : routed <+: sent := by
  cases hline : t.live.lines.get? id with
  | none => exact (h.gone hline).1
  | some line => exact ⟨_, (h.connected line hline).1⟩

/-- What a connection with another state comes to. -/
theorem of_line {line : Line α} (hline : t.live.lines.get? id = some line)
    (hsent : routed ++ line.waiting = sent)
    (hopen : line.isOpen = true ∨ t.halted = true ∨ t.unsent id = []) :
    t.Upstream id sent routed := by
  constructor
  · intro line' hget
    rw [hline] at hget
    cases hget
    exact ⟨hsent, hopen⟩
  · intro hget
    rw [hline] at hget
    cases hget

/-- A connection is given up when nothing more will come, or after the signal. -/
theorem erase (h : t.Upstream id sent routed) {line : Line α}
    (hline : t.live.lines.get? id = some line)
    (hdone : t.halted = true ∨ line.isOpen = false ∧ line.waiting = [])
    (hlines : t'.live.lines = t.live.lines.erase id) (hunsent : t'.unsent = t.unsent)
    (hhalted : t'.halted = t.halted) : t'.Upstream id sent routed := by
  obtain ⟨hsent, hstate⟩ := h.connected line hline
  have hnone : t'.live.lines.get? id = none := by rw [hlines, Table.get?_erase, if_pos rfl]
  constructor
  · intro line' hget
    rw [hnone] at hget
    cases hget
  · intro _
    refine ⟨⟨_, hsent⟩, ?_⟩
    rw [hhalted, hunsent]
    rcases hdone with hdone | ⟨hclosed, hwaiting⟩
    · exact .inl hdone
    · rw [hwaiting, List.append_nil] at hsent
      rw [hclosed] at hstate
      rcases hstate with hstate | hstate | hstate
      · cases hstate
      · exact .inl hstate
      · exact .inr ⟨hsent, hstate⟩

end Upstream

/-- The candles among some that came over one connection. -/
def fromLine (id : LineId) (handed : List (LineId × Candle α)) : List (Candle α) :=
  (handed.filter (·.1 = id)).map Prod.snd

theorem fromLine_concat (id k : LineId) (handed : List (LineId × Candle α)) (c : Candle α) :
    fromLine id (handed ++ [(k, c)]) = fromLine id handed ++ if k = id then [c] else [] := by
  rw [fromLine, List.filter_append, List.map_append]
  by_cases hk : k = id <;> simp [fromLine, hk]

/-- The candles that were handed out of a feed came over its connections, and of what the source of
each one is to send they are a first part. -/
structure Lanes (t : Traffic φ β α σ) (key : FeedKey) (streams : LineId → List (Candle α))
    (handed : List (LineId × Candle α)) : Prop where
  feed : ∀ d ∈ handed, d.1.key = key
  lane : ∀ id : LineId, id.key = key → ∃ sent, streams id = sent ++ t.unsent id ∧
    t.Upstream id sent (fromLine id handed)

namespace Lanes
variable {streams : LineId → List (Candle α)} {handed : List (LineId × Candle α)}

/-- One connection changes at most. -/
theorem change (h : t.Lanes key streams handed)
    (hlines : ∀ k, k ≠ id → t'.live.lines.get? k = t.live.lines.get? k)
    (hunsent : ∀ k, k ≠ id → t'.unsent k = t.unsent k)
    (hhalted : t.halted = true → t'.halted = true)
    (hid : ∀ sent, streams id = sent ++ t.unsent id → t.Upstream id sent (fromLine id handed) →
      ∃ sent', streams id = sent' ++ t'.unsent id ∧ t'.Upstream id sent' (fromLine id handed)) :
    t'.Lanes key streams handed := by
  refine ⟨h.feed, fun k hk => ?_⟩
  obtain ⟨sent, hsent, hup⟩ := h.lane k hk
  by_cases heq : k = id
  · subst heq
    exact hid sent hsent hup
  · exact ⟨sent, by rw [hunsent k heq, hsent], hup.congr (hlines k heq) (hunsent k heq) hhalted⟩

theorem congr (h : t.Lanes key streams handed) (hlines : t'.live.lines = t.live.lines)
    (hunsent : t'.unsent = t.unsent) (hhalted : t.halted = true → t'.halted = true) :
    t'.Lanes key streams handed := by
  refine ⟨h.feed, fun k hk => ?_⟩
  obtain ⟨sent, hsent, hup⟩ := h.lane k hk
  exact ⟨sent, by rw [hunsent, hsent], hup.congr (by rw [hlines]) (by rw [hunsent]) hhalted⟩

/-- The oldest candle that waits on a connection is handed out. -/
theorem route (h : t.Lanes key streams handed) {line : Line α} {c : Candle α}
    {waiting : List (Candle α)} (hkey : id.key = key) (hline : t.live.lines.get? id = some line)
    (hwaiting : line.waiting = c :: waiting)
    (hlines : t'.live.lines = t.live.lines.set id { line with waiting })
    (hunsent : t'.unsent = t.unsent) (hhalted : t'.halted = t.halted) :
    t'.Lanes key streams (handed ++ [(id, c)]) := by
  refine ⟨fun d hd => ?_, fun k hk => ?_⟩
  · rcases List.mem_append.1 hd with hd | hd
    · exact h.feed d hd
    · rw [List.mem_singleton.1 hd, hkey]
  · obtain ⟨sent, hsent, hup⟩ := h.lane k hk
    refine ⟨sent, by rw [hunsent, hsent], ?_⟩
    rw [fromLine_concat]
    by_cases heq : id = k
    · subst heq
      obtain ⟨hrouted, hstate⟩ := hup.connected line hline
      rw [if_pos rfl]
      refine .of_line (by rw [hlines, Table.get?_set, if_pos rfl]) ?_ (by rwa [hhalted, hunsent])
      rw [← hrouted, hwaiting, List.append_assoc, List.singleton_append]
    · rw [if_neg heq, List.append_nil]
      refine hup.congr ?_ (by rw [hunsent]) hhalted.trans
      rw [hlines, Table.get?_set, if_neg (Ne.symm heq)]

end Lanes

/-! ### From the router to a pair -/

/-- Of the candles that were handed out for a pair some were processed. The others wait in its inbox
until it is given up. -/
structure Inbound (t : Traffic φ β α σ) (key : FeedKey) (n : Nat) (routed done : List (Candle α)) :
    Prop where
  owns : t.live.run.router.Owns key n
  kept : (t.live.run.router.box n).isOpen = true → done ++ t.live.run.router.waiting n = routed
  gone : (t.live.run.router.box n).isOpen = false → t.halted = true ∧
    t.live.run.router.waiting n = [] ∧ done <+: routed

namespace Inbound
variable {n : Nat} {done : List (Candle α)}

theorem congr (h : t.Inbound key n routed done)
    (hsubs : t'.live.run.router.subscribers = t.live.run.router.subscribers)
    (hbox : t'.live.run.router.box n = t.live.run.router.box n)
    (hhalted : t.halted = true → t'.halted = true) : t'.Inbound key n routed done := by
  refine ⟨h.owns.congr hsubs, fun hopen => ?_, fun hclosed => ?_⟩
  · rw [hbox] at hopen
    rw [Router.waiting, hbox]
    exact h.kept hopen
  · rw [hbox] at hclosed
    rw [Router.waiting, hbox]
    exact (h.gone hclosed).imp_left hhalted

theorem isPrefix (h : t.Inbound key n routed done) : done <+: routed := by
  cases hopen : (t.live.run.router.box n).isOpen with
  | true => exact ⟨_, h.kept hopen⟩
  | false => exact (h.gone hopen).2.2

theorem dispatch (h : t.Inbound key n routed done) {c : Candle α}
    (hrouter : t'.live.run.router = t.live.run.router.dispatch key c)
    (hhalted : t'.halted = t.halted) : t'.Inbound key n (routed ++ [c]) done := by
  have hsubs := (t.live.run.router.table_dispatch key c).1
  cases hopen : (t.live.run.router.box n).isOpen with
  | true =>
    obtain ⟨hstill, hwaiting⟩ := h.owns.dispatch hopen c
    refine ⟨hrouter ▸ h.owns.congr hsubs, fun _ => ?_, fun hclosed => ?_⟩
    · rw [hrouter, hwaiting, ← h.kept hopen, List.append_assoc]
    · rw [hrouter, hstill] at hclosed
      cases hclosed
  | false =>
    have hbox := t.live.run.router.box_dispatch_of_closed hopen key c
    obtain ⟨hhalt, hwaiting, hprefix⟩ := h.gone hopen
    refine ⟨hrouter ▸ h.owns.congr hsubs, fun hstill => ?_, fun _ => ⟨hhalted ▸ hhalt, ?_, ?_⟩⟩
    · rw [hrouter, hbox, hopen] at hstill
      cases hstill
    · rw [hrouter, Router.waiting, hbox]
      exact hwaiting
    · exact hprefix.trans (List.prefix_append ..)

theorem next (h : t.Inbound key n routed done) {c : Candle α}
    (hnext : t.live.run.router.next? n = some (c, t'.live.run.router)) :
    t'.Inbound key n routed (done ++ [c]) := by
  obtain ⟨hwaiting, hopen, -, hsubs⟩ := Router.next?_eq_some hnext
  refine ⟨h.owns.congr hsubs, fun hstill => ?_, fun hclosed => ?_⟩
  · rw [← h.kept (hopen ▸ hstill), hwaiting, List.append_assoc]
    rfl
  · obtain ⟨-, hnone, -⟩ := h.gone (hopen ▸ hclosed)
    rw [hnone] at hwaiting
    cases hwaiting

/-- After the signal a pair may give its inbox up. -/
theorem discard (h : t.Inbound key n routed done)
    (hrouter : t'.live.run.router = (t.live.run.router.discard n).2) (hhalt : t.halted = true)
    (hhalted : t'.halted = t.halted) : t'.Inbound key n routed done := by
  have hsubs : t'.live.run.router.subscribers = t.live.run.router.subscribers := by
    rw [hrouter]
    exact (Router.happen_table (e := .discard n) (by simp) (by simp)).1
  have hbox := t.live.run.router.box_discard n n
  rw [← hrouter] at hbox
  split at hbox
  · refine ⟨h.owns.congr hsubs, fun hopen => ?_, fun _ => ⟨hhalted ▸ hhalt, ?_, h.isPrefix⟩⟩
    · rw [hbox] at hopen
      cases hopen
    · rw [Router.waiting, hbox]
      rfl
  · exact h.congr hsubs hbox hhalted.trans

end Inbound

end Flow

/-! ### The whole way -/

variable [Amount α] [Broker β α]

/-- The candles of a pair on their way from their sources to a session that was at `s₀` when the
feeds opened. -/
structure Carries (e : Setup β α σ) (s₀ : Session β α σ) (pair : String) (n : Nat)
    (streams : LineId → List (Candle α)) (t : Traffic φ β α σ) : Prop where
  watched : s₀.watchers.contains pair = true
  inbox : t.live.inboxes.get? pair = some n
  alone : ∀ q, t.live.inboxes.get? q = some n → q = pair
  flow : ∃ handed, t.Lanes (e.key pair) streams handed ∧
    t.Inbound (e.key pair) n (handed.map Prod.snd) (s₀.processedFor e pair t.story)

namespace Carries
variable {e : Setup β α σ} {s₀ : Session β α σ} {pair : String} {n : Nat}
  {streams : LineId → List (Candle α)} {t t' : Traffic φ β α σ} {m : Move}

/-- What one move preserves. -/
theorem change (h : t.Carries e s₀ pair n streams) (hc : Change e t m t') :
    t'.Carries e s₀ pair n streams := by
  obtain ⟨hwatched, hinbox, halone, handed, hlanes, hin⟩ := h
  have hhalted := hc.isHalted
  -- a move on another feed or on the inbox of another pair leaves both handovers of this one alone
  cases hc with
  | @send i line c cs hline hopen hunsent =>
    refine ⟨hwatched, hinbox, halone, handed, ?_, hin.congr rfl rfl id⟩
    refine hlanes.change (fun k hk => (Table.get?_set ..).trans (if_neg hk))
      (fun k hk => Function.update_of_ne hk ..) id fun sent hsent hup => ⟨sent ++ [c], ?_, ?_⟩
    · simp [hsent, hunsent]
    · refine .of_line ((Table.get?_set ..).trans (if_pos rfl)) ?_ (.inl hopen)
      rw [← List.append_assoc, (hup.connected line hline).1]
  | @line _ i line line' _ hline hwaiting hopen =>
    refine ⟨hwatched, hinbox, halone, handed, ?_, hin.congr rfl rfl id⟩
    refine hlanes.change (fun k hk => (Table.get?_set ..).trans (if_neg hk)) (fun _ _ => rfl)
      id fun sent hsent hup => ⟨sent, hsent, ?_⟩
    obtain ⟨hrouted, hstate⟩ := hup.connected line hline
    refine .of_line ((Table.get?_set ..).trans (if_pos rfl)) (by rw [hwaiting, hrouted]) ?_
    rcases hopen with hopen | hopen
    · rw [hopen]
      exact hstate
    · exact .inr hopen
  | @route i line c waiting hline hwaiting =>
    by_cases hkey : i.key = e.key pair
    · refine ⟨hwatched, hinbox, halone, handed ++ [(i, c)],
        hlanes.route hkey hline hwaiting rfl rfl rfl, ?_⟩
      rw [List.map_append]
      exact hin.dispatch (congrArg (Router.dispatch _ · c) hkey) rfl
    · refine ⟨hwatched, hinbox, halone, handed, ⟨hlanes.feed, fun k hk => ?_⟩, ?_⟩
      · obtain ⟨sent, hsent, hup⟩ := hlanes.lane k hk
        have hne : k ≠ i := fun heq => hkey (heq ▸ hk)
        exact ⟨sent, hsent, hup.congr ((Table.get?_set ..).trans (if_neg hne)) rfl id⟩
      · exact hin.congr (Router.table_dispatch ..).1
          (Router.box_dispatch_of_unused (hin.owns.others i.key hkey) c) id
  | @hangUp i line hline hdone =>
    refine ⟨hwatched, hinbox, halone, handed, ?_, hin.congr rfl rfl id⟩
    exact hlanes.change (fun k hk => (Table.get?_erase ..).trans (if_neg hk)) (fun _ _ => rfl)
      id fun sent hsent hup => ⟨sent, hsent, hup.erase hline hdone rfl rfl rfl⟩
  | @process p m c router hp hnext =>
    refine ⟨hwatched, hinbox, halone, handed, hlanes.congr rfl rfl id, ?_⟩
    rw [Session.processedFor_append]
    by_cases hpair : p = pair
    · subst hpair
      rw [hinbox] at hp
      cases hp
      rw [Session.processedFor_process, if_pos ⟨rfl, Session.run_watches hwatched _⟩]
      exact hin.next hnext
    · have hne : n ≠ m := by
        rintro rfl
        exact hpair (halone p hp)
      obtain ⟨-, -, hothers, hsubs⟩ := Router.next?_eq_some hnext
      rw [Session.processedFor_process, if_neg fun h => hpair h.1, List.append_nil]
      exact hin.congr hsubs (hothers n hne) id
  | @quit p m hhalt hp =>
    -- what waits for the pair is dropped here, so from now on `done` is only a first part
    refine ⟨hwatched, hinbox, halone, handed, hlanes.congr rfl rfl id, ?_⟩
    by_cases hnm : n = m
    · subst hnm
      exact hin.discard rfl hhalt rfl
    · refine hin.congr (Router.happen_table (e := .discard m) (by simp) (by simp)).1 ?_ id
      rw [Router.box_discard, if_neg fun h => hnm h.1]
  | tick =>
    refine ⟨hwatched, hinbox, halone, handed, hlanes.congr rfl rfl id, ?_⟩
    rw [Session.processedFor_append, Session.processedFor, Session.processedFor, List.append_nil]
    · exact hin.congr rfl rfl id
    · simp
  | halt =>
    exact ⟨hwatched, hinbox, halone, handed, hlanes.congr rfl rfl hhalted, hin.congr rfl rfl hhalted⟩

theorem run (h : t.Carries e s₀ pair n streams) (capacity : LineId → Nat) (ms : List Move) :
    (t.run e capacity ms).Carries e s₀ pair n streams :=
  run_induction (fun _ hc h => h.change hc) h

theorem waiting_of_still {capacity : LineId → Nat} (hstill : t.Still e capacity)
    (hinbox : t.live.inboxes.get? pair = some n) : t.live.run.router.waiting n = [] := by
  cases hnext : t.live.run.router.next? n with
  | none => exact Router.waiting_of_next?_eq_none hnext
  | some next =>
    have hstuck := hstill.process pair
    simp [move?, act?, Live.act, Live.process?, hinbox, hnext] at hstuck

theorem line_of_still {capacity : LineId → Nat} (hstill : t.Still e capacity) {id : LineId}
    {line : Line α} (hline : t.live.lines.get? id = some line) :
    line.waiting = [] ∧ (line.isOpen = true → t.unsent id = []) := by
  have hwaiting : line.waiting = [] := by
    cases hwaiting : line.waiting with
    | nil => rfl
    | cons c waiting =>
      have hstuck := hstill.route id
      simp [move?, act?, Live.act, Live.route?, Line.next?, hline, hwaiting] at hstuck
  refine ⟨hwaiting, fun hopen => ?_⟩
  cases hunsent : t.unsent id with
  | nil => rfl
  | cons c cs =>
    have hstuck := hstill.send id
    simp [move?, act?, Live.act, Live.onLine, Line.send?, hline, hunsent, hwaiting, hopen] at hstuck

/-- Where nothing can move and nobody has stopped, nothing is left on the way. -/
theorem processed_of_still (h : t.Carries e s₀ pair n streams) (hhalted : t.halted = false)
    {capacity : LineId → Nat} (hstill : t.Still e capacity)
    {handed : List (LineId × Candle α)} (hlanes : t.Lanes (e.key pair) streams handed)
    (hin : t.Inbound (e.key pair) n (handed.map Prod.snd) (s₀.processedFor e pair t.story)) :
    s₀.processedFor e pair t.story = handed.map Prod.snd ∧
      ∀ id : LineId, id.key = e.key pair → fromLine id handed = streams id := by
  have hrunning : t.halted ≠ true := by
    rw [hhalted]
    exact Bool.false_ne_true
  -- from the end of the way to its beginning: the inbox is empty, then each connection and its source
  constructor
  · cases hopen : (t.live.run.router.box n).isOpen with
    | true => rw [← hin.kept hopen, waiting_of_still hstill h.inbox, List.append_nil]
    | false => exact absurd (hin.gone hopen).1 hrunning
  · intro id hid
    obtain ⟨sent, hsent, hup⟩ := hlanes.lane id hid
    have hrouted : fromLine id handed = sent ∧ t.unsent id = [] := by
      cases hline : t.live.lines.get? id with
      | none => exact (hup.gone hline).2.resolve_left hrunning
      | some line =>
        obtain ⟨hwaiting, hunsent⟩ := line_of_still hstill hline
        obtain ⟨hrouted, hstate⟩ := hup.connected line hline
        rw [hwaiting, List.append_nil] at hrouted
        exact ⟨hrouted, hstate.elim hunsent fun h => h.resolve_left hrunning⟩
    rw [hsent, hrouted.1, hrouted.2, List.append_nil]

end Carries

theorem session_run {e : Setup β α σ} {s₀ : Session β α σ} {t : Traffic φ β α σ}
    (h : t.live.run.session = s₀.run e t.story) (capacity : LineId → Nat) (ms : List Move) :
    (t.run e capacity ms).live.run.session = s₀.run e (t.run e capacity ms).story := by
  refine run_induction (P := fun t => t.live.run.session = s₀.run e t.story) (fun _ hc h => ?_) h
  obtain ⟨es, hstory, hsession⟩ := hc.session
  rw [hsession, hstory, h, Session.run_append]

theorem halted_run (e : Setup β α σ) (capacity : LineId → Nat) (t : Traffic φ β α σ)
    {ms : List Move} (h : .halt ∉ ms) : (t.run e capacity ms).halted = t.halted := by
  refine run_induction (P := fun t' => t'.halted = t.halted) (fun hm hc hsame => ?_) rfl
  rw [← hsame]
  refine hc.halted.resolve_right fun hhalt => h ?_
  rw [← hhalt.1]
  exact hm

theorem Carries.ofLive {e : Setup β α σ} {l : Live φ β α σ}
    {left : FeedKey → List (List (Candle α))} {pairs : List String} (h : l.Opened e left pairs)
    {pair : String} (hpair : pair ∈ pairs)
    (hwatched : l.run.session.watchers.contains pair = true) (streams : LineId → List (Candle α)) :
    ∃ n, (ofLive l streams).Carries e l.run.session pair n (ofLive l streams).unsent := by
  obtain ⟨n, hn, howns, hbox⟩ := h.inbox pair hpair
  refine ⟨n, hwatched, hn, fun q hq => h.alone q pair n hq hn, [], ⟨nofun, fun id _ => ?_⟩, howns,
    fun _ => ?_, fun hclosed => ?_⟩
  · refine ⟨[], rfl, ?_⟩
    have hget : (Traffic.ofLive l streams).live.lines.get? id =
        (l.lines.get? id).map fun line => { line with waiting := [] } := Table.get?_mapValues ..
    cases hline : l.lines.get? id with
    | some line =>
      rw [hline] at hget
      exact .of_line hget rfl (.inl (h.isOpen id line hline))
    | none =>
      rw [hline] at hget
      refine ⟨fun line hsome => ?_, fun _ => ⟨List.prefix_rfl, .inr ⟨rfl, if_neg ?_⟩⟩⟩
      · rw [hget] at hsome
        cases hsome
      · simp [Table.contains, hline]
  · show [] ++ l.run.router.waiting n = []
    rw [Router.waiting, hbox]
    rfl
  · change (l.run.router.box n).isOpen = false at hclosed
    rw [hbox] at hclosed
    cases hclosed

end Candlewick.Traffic
