import Candlewick.Proofs.Session.Priming
import Candlewick.Proofs.Table
import Mathlib.Logic.Function.Basic

/-! # Traffic

The sources of a live session, its router, its pairs, its timer and the signal that ends it act in
any order (`Traffic.Move`). Between a source and the router there is room for some candles only, and
between the router and a pair for any number. After the signal everybody may stop, at a time of its
own.

What a move comes to is said once, by `Traffic.Change`. -/

namespace Candlewick

/-- A live session between the sources that feed it and the signal that ends it. -/
structure Traffic (φ β α σ : Type) where
  live : Live φ β α σ
  /-- What the source of a connection has not sent yet. -/
  unsent : LineId → List (Candle α)
  /-- What has happened to the session. -/
  story : List (Session.Event α)
  /-- Whether the signal to end has been given. -/
  halted : Bool

namespace Traffic
variable {φ β α σ : Type}

inductive Move where
  | send (id : LineId)
  | fault (id : LineId)
  | closeFaults (id : LineId)
  /-- A source ends. -/
  | close (id : LineId)
  | route (id : LineId)
  /-- The router gives a connection up. -/
  | hangUp (id : LineId)
  | process (pair : String)
  /-- A pair gives its inbox up. -/
  | quit (pair : String)
  | tick
  | halt

/-- A session whose feeds were just opened, with what the source of each connection is to send. What
has come over an old connection already and waits is counted as not sent, and the source of one that
was told to stop by an earlier signal has no more than that. -/
def ofLive (l : Live φ β α σ) (streams : LineId → List (Candle α)) : Traffic φ β α σ where
  live := { l with lines := l.lines.mapValues fun _ line => { line with waiting := [] } }
  unsent id := if l.lines.contains id then streams id else []
  story := []
  halted := false

variable [Amount α] [Broker β α]

/-- An action of the session, with what it comes to. -/
def act? (e : Setup β α σ) (t : Traffic φ β α σ) (a : Action α) (told : List (Session.Event α)) :
    Option (Traffic φ β α σ) :=
  (t.live.act e a).map fun live => { t with live, story := t.story ++ told }

/-- A move, if it can be made. A source ends when it has sent everything, and the router gives a
connection up when it has handed out everything and nothing more will come; after the signal both
may do so at any time. -/
def move? (e : Setup β α σ) (capacity : LineId → Nat) (t : Traffic φ β α σ) :
    Move → Option (Traffic φ β α σ)
  | .send id => do
    let line ← t.live.lines.get? id
    let c ← (t.unsent id).head?
    if line.waiting.length < max (capacity id) 1 then
      let t' ← t.act? e (.send id c) []
      return { t' with unsent := Function.update t.unsent id (t.unsent id).tail }
    else none
  | .fault id => t.act? e (.fault id) []
  | .closeFaults id => t.act? e (.closeFaults id) []
  | .close id =>
    if t.halted || (t.unsent id).isEmpty then t.act? e (.close id) [] else none
  | .route id => t.act? e (.route id) []
  | .hangUp id => do
    let line ← t.live.lines.get? id
    if t.halted || (!line.isOpen && line.waiting.isEmpty) then
      return { t with live := { t.live with lines := t.live.lines.erase id } }
    else none
  | .process pair => do
    let (c, _) ← t.live.run.router.next? (← t.live.inboxes.get? pair)
    t.act? e (.process pair) [.process pair c]
  | .quit pair => do
    let n ← t.live.inboxes.get? pair
    if t.halted && (t.live.run.router.discard n).1 then
      let run := { t.live.run with router := (t.live.run.router.discard n).2 }
      return { t with live := { t.live with run } }
    else none
  | .tick => t.act? e .tick [.refresh]
  | .halt => some { t with halted := true }

/-- Move after move, those that cannot be made passed over. -/
def run (e : Setup β α σ) (capacity : LineId → Nat) (t : Traffic φ β α σ) (ms : List Move) :
    Traffic φ β α σ :=
  ms.foldl (fun t m => (t.move? e capacity m).getD t) t

/-- No source can send, nothing can be handed out and no pair can process. -/
structure Still (e : Setup β α σ) (capacity : LineId → Nat) (t : Traffic φ β α σ) : Prop where
  send : ∀ id, t.move? e capacity (.send id) = none
  route : ∀ id, t.move? e capacity (.route id) = none
  process : ∀ pair, t.move? e capacity (.process pair) = none

/-- Only connections that are there and pairs with an inbox can move. -/
theorem still_of_keys {e : Setup β α σ} {capacity : LineId → Nat} {t : Traffic φ β α σ}
    (hlines : ∀ id ∈ t.live.lines.keys,
      t.move? e capacity (.send id) = none ∧ t.move? e capacity (.route id) = none)
    (hinboxes : ∀ pair ∈ t.live.inboxes.keys, t.move? e capacity (.process pair) = none) :
    t.Still e capacity := by
  have hnone : ∀ id, t.live.lines.get? id = none →
      t.move? e capacity (.send id) = none ∧ t.move? e capacity (.route id) = none := by
    intro id hline
    simp [move?, act?, Live.act, Live.route?, hline]
  have hfeed : ∀ id, t.move? e capacity (.send id) = none ∧
      t.move? e capacity (.route id) = none := by
    intro id
    cases hline : t.live.lines.get? id with
    | none => exact hnone id hline
    | some line => exact hlines id (Table.mem_keys_iff.2 ⟨line, hline⟩)
  refine ⟨fun id => (hfeed id).1, fun id => (hfeed id).2, fun pair => ?_⟩
  cases hinbox : t.live.inboxes.get? pair with
  | none => simp [move?, hinbox]
  | some n => exact hinboxes pair (Table.mem_keys_iff.2 ⟨n, hinbox⟩)

/-! ### What a move does -/

/-- What comes of a move. -/
inductive Change (e : Setup β α σ) (t : Traffic φ β α σ) : Move → Traffic φ β α σ → Prop
  | send {id line c cs} (hline : t.live.lines.get? id = some line) (hopen : line.isOpen = true)
      (hunsent : t.unsent id = c :: cs) : Change e t (.send id)
        { t with
          live := { t.live with
            lines := t.live.lines.set id { line with waiting := line.waiting ++ [c] } }
          unsent := Function.update t.unsent id cs }
  | line {m id line line'} (hm : m ≠ .halt) (hline : t.live.lines.get? id = some line)
      (hwaiting : line'.waiting = line.waiting)
      (hopen : line'.isOpen = line.isOpen ∨ t.halted = true ∨ t.unsent id = []) :
      Change e t m { t with live := { t.live with lines := t.live.lines.set id line' } }
  | route {id line c waiting} (hline : t.live.lines.get? id = some line)
      (hwaiting : line.waiting = c :: waiting) : Change e t (.route id)
        { t with live := { t.live with
          lines := t.live.lines.set id { line with waiting }
          run := { t.live.run with router := t.live.run.router.dispatch id.key c } } }
  | hangUp {id line} (hline : t.live.lines.get? id = some line)
      (hdone : t.halted = true ∨ line.isOpen = false ∧ line.waiting = []) :
      Change e t (.hangUp id) { t with live := { t.live with lines := t.live.lines.erase id } }
  | process {pair n c router} (hinbox : t.live.inboxes.get? pair = some n)
      (hnext : t.live.run.router.next? n = some (c, router)) : Change e t (.process pair)
        { t with
          live := { t.live with
            run := { t.live.run with session := t.live.run.session.process e pair c, router } }
          story := t.story ++ [.process pair c] }
  | quit {pair n} (hhalted : t.halted = true) (hinbox : t.live.inboxes.get? pair = some n) :
      Change e t (.quit pair) { t with live := { t.live with
        run := { t.live.run with router := (t.live.run.router.discard n).2 } } }
  | tick : Change e t .tick { t with live := t.live.refreshAfter 1, story := t.story ++ [.refresh] }
  | halt : Change e t .halt { t with halted := true }

omit [Amount α] [Broker β α] in
theorem onLine_eq_some {l l' : Live φ β α σ} {id : LineId} {f : Line α → Option (Line α)}
    (h : l.onLine id f = some l') : ∃ line line', l.lines.get? id = some line ∧
      f line = some line' ∧ l' = { l with lines := l.lines.set id line' } := by
  simp only [Live.onLine, Option.bind_eq_bind, Option.bind_eq_some_iff, Option.pure_def,
    Option.some.injEq] at h
  obtain ⟨line, hline, line', hline', rfl⟩ := h
  exact ⟨line, line', hline, hline', rfl⟩

theorem act?_eq_some {e : Setup β α σ} {t t' : Traffic φ β α σ} {a : Action α}
    {told : List (Session.Event α)} (h : t.act? e a told = some t') :
    ∃ live, t.live.act e a = some live ∧ t' = { t with live, story := t.story ++ told } := by
  obtain ⟨live, hlive, rfl⟩ := Option.map_eq_some_iff.1 h
  exact ⟨live, hlive, rfl⟩

/-- A change of a connection that concerns no candle. -/
theorem change_of_line {e : Setup β α σ} {t t' : Traffic φ β α σ} {m : Move} {id : LineId}
    {f : Line α → Option (Line α)} (hm : m ≠ .halt)
    (hf : ∀ line line', f line = some line' → line'.waiting = line.waiting ∧
      (line'.isOpen = line.isOpen ∨ t.halted = true ∨ t.unsent id = []))
    (h : (t.live.onLine id f).map (fun live => { t with live, story := t.story ++ [] }) =
      some t') : Change e t m t' := by
  obtain ⟨live, hlive, rfl⟩ := Option.map_eq_some_iff.1 h
  obtain ⟨line, line', hline, hline', rfl⟩ := onLine_eq_some hlive
  obtain ⟨hwaiting, hopen⟩ := hf line line' hline'
  rw [List.append_nil]
  exact .line hm hline hwaiting hopen

theorem change_of_send {e : Setup β α σ} {capacity : LineId → Nat} {t t' : Traffic φ β α σ}
    {id : LineId} (h : t.move? e capacity (.send id) = some t') : Change e t (.send id) t' := by
  simp only [move?, Option.bind_eq_bind, Option.bind_eq_some_iff, Option.pure_def] at h
  obtain ⟨line, hline, c, hc, h⟩ := h
  obtain ⟨cs, hcs⟩ := List.head?_eq_some_iff.1 hc
  split at h
  · simp only [Option.bind_eq_some_iff, Option.some.injEq] at h
    obtain ⟨t₁, hact, rfl⟩ := h
    obtain ⟨live, hlive, rfl⟩ := act?_eq_some hact
    obtain ⟨line₁, line', hline₁, hsend, rfl⟩ := onLine_eq_some hlive
    rw [hline] at hline₁
    cases hline₁
    unfold Line.send? at hsend
    split at hsend
    next hopen =>
      cases hsend
      rw [List.append_nil, hcs]
      exact .send hline hopen hcs
    next => cases hsend
  · cases h

theorem change_of_move? {e : Setup β α σ} {capacity : LineId → Nat} {t t' : Traffic φ β α σ}
    {m : Move} (h : t.move? e capacity m = some t') : Change e t m t' := by
  cases m with
  | send id => exact change_of_send h
  | fault id =>
    refine change_of_line nofun (fun line line' hf => ?_) h
    obtain ⟨-, hf⟩ := Option.ite_none_right_eq_some.1 hf
    cases hf
    exact ⟨rfl, .inl rfl⟩
  | closeFaults id =>
    refine change_of_line nofun (fun line line' hf => ?_) h
    obtain ⟨-, hf⟩ := Option.ite_none_right_eq_some.1 hf
    cases hf
    exact ⟨rfl, .inl rfl⟩
  | close id =>
    simp only [move?, Bool.or_eq_true, List.isEmpty_iff] at h
    obtain ⟨hends, h⟩ := Option.ite_none_right_eq_some.1 h
    refine change_of_line nofun (fun line line' hf => ?_) h
    obtain ⟨-, hf⟩ := Option.ite_none_right_eq_some.1 hf
    cases hf
    exact ⟨rfl, .inr hends⟩
  | route id =>
    obtain ⟨live, hlive, rfl⟩ := act?_eq_some h
    simp only [Live.act, Live.route?, Option.bind_eq_bind, Option.bind_eq_some_iff, Option.pure_def,
      Option.some.injEq, Prod.exists] at hlive
    obtain ⟨line, hline, c, line', hnext, rfl⟩ := hlive
    rw [List.append_nil]
    unfold Line.next? at hnext
    split at hnext
    next => cases hnext
    next hwaiting =>
      cases hnext
      exact .route hline hwaiting
  | hangUp id =>
    simp only [move?, Option.bind_eq_bind, Option.bind_eq_some_iff, Option.pure_def,
      Bool.or_eq_true, Bool.and_eq_true, Bool.not_eq_true', List.isEmpty_iff, Option.ite_none_right_eq_some] at h
    obtain ⟨line, hline, hdone, h⟩ := h
    cases h
    exact .hangUp hline hdone
  | process pair =>
    simp only [move?, Option.bind_eq_bind, Option.bind_eq_some_iff, Prod.exists] at h
    obtain ⟨n, hinbox, c, router, hnext, h⟩ := h
    obtain ⟨live, hlive, rfl⟩ := act?_eq_some h
    simp only [Live.act, Live.process?, hinbox, hnext, Option.bind_eq_bind, Option.bind_some,
      Option.pure_def, Option.some.injEq] at hlive
    subst hlive
    exact .process hinbox hnext
  | quit pair =>
    simp only [move?, Option.bind_eq_bind, Option.bind_eq_some_iff, Option.pure_def,
      Bool.and_eq_true, Option.ite_none_right_eq_some] at h
    obtain ⟨n, hinbox, hhalted, h⟩ := h
    cases h
    exact .quit hhalted.1 hinbox
  | tick =>
    cases h
    exact .tick
  | halt =>
    cases h
    exact .halt

theorem Change.halted {e : Setup β α σ} {t t' : Traffic φ β α σ} {m : Move} (h : Change e t m t') :
    t'.halted = t.halted ∨ m = .halt ∧ t'.halted = true := by
  cases h with
  | halt => exact .inr ⟨rfl, rfl⟩
  | _ => exact .inl rfl

theorem Change.isHalted {e : Setup β α σ} {t t' : Traffic φ β α σ} {m : Move} (h : Change e t m t')
    (hhalted : t.halted = true) : t'.halted = true := by
  rcases h.halted with heq | ⟨-, heq⟩
  · rw [heq, hhalted]
  · exact heq

theorem Change.session {e : Setup β α σ} {t t' : Traffic φ β α σ} {m : Move} (h : Change e t m t') :
    ∃ es, t'.story = t.story ++ es ∧ t'.live.run.session = t.live.run.session.run e es := by
  cases h with
  | process => exact ⟨[_], rfl, rfl⟩
  | tick => exact ⟨[_], rfl, rfl⟩
  | _ => exact ⟨[], (List.append_nil _).symm, rfl⟩

/-- What every move preserves a run preserves. -/
theorem run_induction {e : Setup β α σ} {capacity : LineId → Nat} {ms : List Move}
    {P : Traffic φ β α σ → Prop}
    (hchange : ∀ {t t' m}, m ∈ ms → Change e t m t' → P t → P t') {t : Traffic φ β α σ} (h : P t) :
    P (t.run e capacity ms) := by
  induction ms generalizing t with
  | nil => exact h
  | cons m ms ih =>
    refine ih (fun hm => hchange (List.mem_cons_of_mem _ hm)) ?_
    dsimp only
    cases hm : t.move? e capacity m with
    | none => exact h
    | some t' => exact hchange (List.mem_cons_self ..) (change_of_move? hm) h

end Traffic
end Candlewick
