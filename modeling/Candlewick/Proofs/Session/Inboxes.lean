import Candlewick.Proofs.Feed.Connect
import Candlewick.Proofs.Feed.Ownership
import Candlewick.Proofs.Session.Priming

/-! # Inboxes and connections of a live session

Every pair of a live session takes its candles from an inbox of its own. It is given one when it has
been primed, so neither its own history comes into it nor the history of a pair that is primed later
(`Primed`), and when the feeds open all inboxes are empty (`Live.Opened`). Then every feed has a
connection of its own and an older one for each stream that was left open before
(`Line.get?_ofStreams`).

None of this depends on what the router has been through: whatever that was, no inbox is in use that
has not been given out (`Router.Allotted`). -/

namespace Candlewick

open Router (ofFeeder)

namespace Router
variable {φ α : Type} {r : Router φ α}

/-- No inbox is in use that has not been given out. -/
structure Allotted (r : Router φ α) : Prop where
  used : ∀ key, ∀ s ∈ r.subscribersOf key, ∀ n, s.inbox? = some n → n < r.nextId
  absent : ∀ n, r.nextId ≤ n → r.inboxes.get? n = none

/-- An inbox that is shared has been given out before. -/
def Event.Fits (nextId : Nat) : Event α → Prop
  | .subscribe _ _ (.shared inbox) => inbox < nextId
  | _ => True

theorem allotted_ofFeeder (feeder : φ) (backoff : Backoff α) :
    (ofFeeder feeder backoff).Allotted where
  used := by simp [ofFeeder, subscribersOf, Table.getD]
  absent := fun _ _ => rfl

/-- An inbox that is not there does not come from reading it. -/
theorem get?_happen_of_none {m n : Nat} {e : Event α}
    (he : e = .receive m ∨ e = .next m ∨ e = .discard m) (h : r.inboxes.get? n = none) :
    (r.happen e).inboxes.get? n = none := by
  have hset : ∀ {i j : Inbox α}, r.inboxes.get? m = some i →
      (r.inboxes.set m j).get? n = none := by
    intro i j hm
    have hne : n ≠ m := by
      rintro rfl
      rw [hm] at h
      cases h
    rw [Table.get?_set, if_neg hne, h]
  rcases he with rfl | rfl | rfl
  · rw [happen, receive]
    split
    · exact h
    next hm => exact hset hm
  · rw [happen, next?]
    cases hm : r.inboxes.get? m with
    | none => exact h
    | some i =>
      cases hc : i.candles.getLast? with
      | none => simpa [hc] using h
      | some c => simpa [hc] using hset hm
  · rw [happen, discard]
    split
    next hm => exact hset hm
    · exact h

namespace Allotted

theorem unused (h : r.Allotted) (key : FeedKey) {n : Nat} (hn : r.nextId ≤ n) :
    r.Unused key n := by
  intro s hs heq
  have hlt := h.used key s hs n heq
  omega

/-- Who is subscribed and what has been given out stay the same. -/
theorem congr {r' : Router φ α} (h : r.Allotted) (hsubs : r'.subscribers = r.subscribers)
    (hid : r'.nextId = r.nextId) (habsent : ∀ n, r.nextId ≤ n → r'.inboxes.get? n = none) :
    r'.Allotted := by
  refine ⟨fun k s hs n hn => ?_, fun n hn => habsent n (hid ▸ hn)⟩
  rw [subscribersOf, hsubs] at hs
  rw [hid]
  exact h.used k s hs n hn

theorem dispatch (h : r.Allotted) (key : FeedKey) (c : Candle α) : (r.dispatch key c).Allotted := by
  obtain ⟨hsubs, hid, -⟩ := r.table_dispatch key c
  refine h.congr hsubs hid fun n hn => ?_
  rw [get?_dispatch_of_unused (h.unused key hn), h.absent n hn]

theorem subscribe (h : r.Allotted) (key : FeedKey) (closedOnly : Bool) {sink : Sink}
    (hsink : ∀ n, sink = .shared n → n < r.nextId) :
    (r.subscribe key closedOnly sink).2.Allotted := by
  have hinbox : ∀ n, Subscriber.inbox? ⟨r.nextId, closedOnly, sink⟩ = some n → n ≤ r.nextId := by
    intro n hn
    cases sink with
    | inbox => exact Nat.le_of_eq (Option.some.inj hn).symm
    | shared m => exact Nat.le_of_lt (hsink n (congrArg Sink.shared (Option.some.inj hn)))
    | queue => cases hn
  refine ⟨fun k s hs n hn => ?_, fun n hn => ?_⟩
  · rw [subscribersOf_subscribe] at hs
    show n < r.nextId + 1
    rcases List.mem_append.1 hs with hs | hs
    · have hlt := h.used k s hs n hn
      omega
    · split at hs
      · obtain rfl := List.mem_singleton.1 hs
        have hle := hinbox n hn
        omega
      · cases hs
  · replace hn : r.nextId + 1 ≤ n := hn
    have habsent : r.inboxes.get? n = none := h.absent n (by omega)
    simp only [Router.subscribe]
    split
    next m hm =>
      have hle := hinbox m hm
      have hne : n ≠ m := by omega
      rw [Table.setNew]
      split
      · exact habsent
      · rwa [Table.get?_set, if_neg hne]
    next => exact habsent

theorem unsubscribe (h : r.Allotted) (id : Nat) : (r.unsubscribe id).2.Allotted := by
  refine ⟨fun k s hs n hn => ?_, h.absent⟩
  rw [subscribersOf_unsubscribe] at hs
  exact h.used k s (List.mem_of_mem_filter hs) n hn

theorem happen (h : r.Allotted) {e : Event α} (he : e.Fits r.nextId) : (r.happen e).Allotted := by
  have hread : ∀ {m : Nat} {e : Event α}, e = .receive m ∨ e = .next m ∨ e = .discard m →
      (r.happen e).Allotted := by
    intro m e hm
    obtain ⟨inboxes, heq⟩ := r.exists_inboxes hm
    refine h.congr (by rw [heq]) (by rw [heq]) fun n hn => ?_
    exact get?_happen_of_none hm (h.absent n hn)
  cases e with
  | subscribe key closedOnly sink =>
    refine h.subscribe key closedOnly fun n hn => ?_
    rw [hn] at he
    exact he
  | unsubscribe id => exact h.unsubscribe id
  | dispatch key c => exact h.dispatch key c
  | receive m => exact hread (.inl rfl)
  | next m => exact hread (.inr (.inl rfl))
  | discard m => exact hread (.inr (.inr rfl))
  | drain n => exact ⟨h.used, h.absent⟩

theorem after (h : r.Allotted) {es : List (Event α)} (hes : ∀ e ∈ es, ∀ n, e.Fits n) :
    (r.after es).Allotted := by
  induction es generalizing r with
  | nil => exact h
  | cons e es ih =>
    exact ih (h.happen (hes e (List.mem_cons_self ..) _))
      fun e' he' => hes e' (List.mem_cons_of_mem _ he')

end Allotted
end Router

/-! ### After priming -/

/-- Every one of some pairs has an empty inbox of its own. -/
structure Primed {φ β α σ : Type} (e : Setup β α σ) (r : Router φ α) (inboxes : Table String Nat)
    (pairs : List String) : Prop where
  allotted : r.Allotted
  inbox : ∀ pair ∈ pairs, ∃ n, inboxes.get? pair = some n ∧ r.Owns (e.key pair) n ∧
    r.box n = ⟨true, []⟩
  given : ∀ pair n, inboxes.get? pair = some n → n < r.nextId
  alone : ∀ p q n, inboxes.get? p = some n → inboxes.get? q = some n → p = q

namespace Primed
variable {φ β α σ : Type} {e : Setup β α σ} {r : Router φ α} {inboxes : Table String Nat}
  {pairs : List String}

/-- What is handed out of a feed does not come into the inboxes of other pairs. -/
theorem dispatch (h : Primed e r inboxes pairs) {key : FeedKey}
    (hkey : ∀ pair ∈ pairs, e.key pair ≠ key) (c : Candle α) :
    Primed e (r.dispatch key c) inboxes pairs := by
  obtain ⟨hsubs, hid, -⟩ := r.table_dispatch key c
  refine ⟨h.allotted.dispatch key c, fun pair hpair => ?_, fun pair n hn => ?_, h.alone⟩
  · obtain ⟨n, hn, howns, hbox⟩ := h.inbox pair hpair
    refine ⟨n, hn, howns.congr hsubs, ?_⟩
    rw [Router.box_dispatch_of_unused (howns.others key (hkey pair hpair).symm), hbox]
  · rw [hid]
    exact h.given pair n hn

theorem preload (h : Primed e r inboxes pairs) {key : FeedKey}
    (hkey : ∀ pair ∈ pairs, e.key pair ≠ key) (cs : List (Candle α)) :
    Primed e (r.preload key cs) inboxes pairs := by
  rw [Router.preload, Router.dispatchAll, List.foldl_map]
  induction cs generalizing r with
  | nil => exact h
  | cons c cs ih => exact ih (h.dispatch hkey c)

theorem subscribe (h : Primed e r inboxes pairs) {pair : String} (hpair : pair ∉ pairs) :
    Primed e (r.subscribe (e.key pair) false .inbox).2 (inboxes.set pair r.nextId)
      (pairs ++ [pair]) := by
  have hbox : ∀ n, (r.subscribe (e.key pair) false .inbox).2.box n = r.box n :=
    fun n => Table.getD_setNew ..
  refine ⟨h.allotted.subscribe _ _ nofun, fun p hp => ?_, fun p n hn => ?_, fun p q n hp hq => ?_⟩
  · rcases List.mem_append.1 hp with hp | hp
    · obtain ⟨n, hn, howns, hempty⟩ := h.inbox p hp
      have hne : p ≠ pair := fun heq => hpair (heq ▸ hp)
      have hlt := h.given p n hn
      refine ⟨n, by rw [Table.get?_set, if_neg hne, hn], ⟨?_, fun k hk s hs => ?_⟩,
        by rw [hbox, hempty]⟩
      · rw [Router.subscribersOf_subscribe, List.filter_append, howns.one,
          if_neg fun heq => hne (e.key_injective heq)]
        rfl
      · rw [Router.subscribersOf_subscribe] at hs
        rcases List.mem_append.1 hs with hs | hs
        · exact howns.others k hk s hs
        · split at hs
          · obtain rfl := List.mem_singleton.1 hs
            intro heq
            obtain rfl : r.nextId = n := Option.some.inj heq
            omega
          · cases hs
    · obtain rfl := List.mem_singleton.1 hp
      refine ⟨r.nextId, by rw [Table.get?_set, if_pos rfl], ⟨?_, fun k hk s hs => ?_⟩, ?_⟩
      · have hnone : (r.subscribersOf (e.key p)).filter (·.inbox? = some r.nextId) = [] := by
          refine List.filter_eq_nil_iff.2 fun s hs => ?_
          simpa using h.allotted.unused (e.key p) (Nat.le_refl _) s hs
        rw [Router.subscribersOf_subscribe, List.filter_append, hnone, if_pos rfl]
        simp [Subscriber.inbox?]
      · rw [Router.subscribersOf_subscribe, if_neg hk, List.append_nil] at hs
        exact h.allotted.unused k (Nat.le_refl _) s hs
      · rw [hbox]
        exact Router.box_of_get?_none (h.allotted.absent r.nextId (Nat.le_refl _))
  · show n < r.nextId + 1
    rw [Table.get?_set] at hn
    split at hn
    · cases hn
      omega
    · have hlt := h.given p n hn
      omega
  · rw [Table.get?_set] at hp hq
    split at hp <;> split at hq
    next hp' hq' => rw [hp', hq']
    next =>
      cases hp
      have hlt := h.given q _ hq
      omega
    next =>
      cases hq
      have hlt := h.given p _ hp
      omega
    next => exact h.alone p q n hp hq

end Primed

namespace Run
variable {φ β α σ : Type} [Feeder φ α] [Amount α] [Broker β α]

theorem primed_primeAll {e : Setup β α σ} {r r' : Run φ β α σ} {inboxes inboxes' : Table String Nat}
    {earlier pairs : List String} (h : Primed e r.router inboxes earlier)
    (hnodup : (earlier ++ pairs).Nodup) (hprime : r.primeAll e inboxes pairs = (.ok inboxes', r')) :
    Primed e r'.router inboxes' (earlier ++ pairs) := by
  induction pairs generalizing r inboxes earlier with
  | nil =>
    cases hprime
    rwa [List.append_nil]
  | cons pair pairs ih =>
    cases hrecent : e.recent r.router.feeder pair with
    | error failure =>
      rw [primeAll_of_error hrecent] at hprime
      cases hprime
    | ok cs =>
      rw [primeAll_of_ok hrecent] at hprime
      have hpair : pair ∉ earlier := by
        intro hmem
        exact (List.nodup_append.1 hnodup).2.2 pair hmem pair (List.mem_cons_self ..) rfl
      have hkey : ∀ p ∈ earlier, e.key p ≠ e.key pair := by
        intro p hp heq
        exact hpair (e.key_injective heq ▸ hp)
      have hcons : earlier ++ pair :: pairs = (earlier ++ [pair]) ++ pairs := by simp
      rw [hcons] at hnodup ⊢
      exact ih ((h.preload hkey cs).subscribe hpair) hnodup hprime

end Run

/-! ### Connections -/

namespace Line
variable {α : Type}

theorem age_lt_of_mem {rs : List (FeedKey × Replay α)} {id : LineId}
    (h : id ∈ (ofStreams rs).map Prod.fst) : id.age < rs.countP (·.1 = id.key) := by
  induction rs with
  | nil => cases h
  | cons a newer ih =>
    rw [ofStreams, List.map_cons, List.mem_cons] at h
    rw [List.countP_cons]
    rcases h with rfl | h
    · simp
    · have hlt := ih h
      omega

theorem nodup_ofStreams (rs : List (FeedKey × Replay α)) : ((ofStreams rs).map Prod.fst).Nodup := by
  induction rs with
  | nil => exact List.nodup_nil
  | cons a newer ih =>
    rw [ofStreams, List.map_cons, List.nodup_cons]
    refine ⟨fun hmem => ?_, ih⟩
    exact Nat.lt_irrefl _ (age_lt_of_mem hmem)

/-- The connections of a feed are its streams, newest first. -/
theorem get?_ofStreams (rs : List (FeedKey × Replay α)) (id : LineId) :
    (Table.ofList (ofStreams rs)).get? id =
      (((rs.filter (·.1 = id.key)).map Prod.snd).reverse[id.age]?).map ofReplay := by
  rw [Table.get?_ofList (nodup_ofStreams rs)]
  induction rs with
  | nil => rfl
  | cons a newer ih =>
    obtain ⟨key, r⟩ := a
    obtain ⟨k, age⟩ := id
    dsimp only [ofStreams] at ih ⊢
    by_cases hkey : key = k
    · subst hkey
      have hlength : ((newer.filter (·.1 = key)).map Prod.snd).reverse.length =
          newer.countP (·.1 = key) := by
        rw [List.length_reverse, List.length_map, List.countP_eq_length_filter]
      rw [List.filter_cons_of_pos (by simp), List.map_cons, List.reverse_cons]
      rcases Nat.lt_trichotomy age (newer.countP (·.1 = key)) with hlt | rfl | hgt
      · rw [List.find?_cons_of_neg (by simpa using hlt.ne'), ih, List.getElem?_append_left (by omega)]
      · rw [List.find?_cons_of_pos (by simp), ← hlength, List.getElem?_concat_length]
        rfl
      · rw [List.find?_cons_of_neg (by simpa using hgt.ne), ih, List.getElem?_eq_none (by omega),
          List.getElem?_eq_none (by rw [List.length_append, List.length_singleton]; omega)]
    · rw [List.find?_cons_of_neg (by simp [hkey]), List.filter_cons_of_neg (by simpa using hkey), ih]

end Line

/-- What the open streams of a feed still bring, oldest first. -/
def Router.streamsOf {φ α : Type} (r : Router φ α) (key : FeedKey) : List (List (Candle α)) :=
  (r.brings.filter (·.1 = key)).map Prod.snd

/-! ### When the feeds are open -/

/-- Every pair of a live session has an empty inbox of its own, and its feed a connection for a new
stream and one for each of the streams that were left. -/
structure Live.Opened {φ β α σ : Type} (e : Setup β α σ) (l : Live φ β α σ)
    (left : FeedKey → List (List (Candle α))) (pairs : List String) : Prop where
  inbox : ∀ pair ∈ pairs, ∃ n, l.inboxes.get? pair = some n ∧ l.run.router.Owns (e.key pair) n ∧
    l.run.router.box n = ⟨true, []⟩
  alone : ∀ p q n, l.inboxes.get? p = some n → l.inboxes.get? q = some n → p = q
  isOpen : ∀ id line, l.lines.get? id = some line → line.isOpen = true
  lines : ∀ pair ∈ pairs, ∃ own, ∀ age, (l.lines.get? ⟨e.key pair, age⟩).map Line.waiting =
    (own :: (left (e.key pair)).reverse)[age]?

/-- The feed of a pair with an inbox is one that is opened. -/
theorem Router.Owns.mem_feeds {φ α : Type} {r : Router φ α} {key : FeedKey} {n : Nat}
    (h : r.Owns key n) : key ∈ r.feeds := by
  rw [feeds, List.mem_mergeSort, Table.mem_keys_iff]
  cases hsubs : r.subscribers.get? key with
  | some subs => exact ⟨subs, rfl⟩
  | none =>
    have hone := h.one
    rw [subscribersOf, Table.getD, hsubs] at hone
    cases hone

/-- A feed that is opened has one new stream. -/
theorem Router.Opens.streamsOf {φ α : Type} [Amount α] [Feeder φ α] {r r' : Router φ α}
    {streams : List (FeedKey × List (Candle α))} (h : r.Opens r.feeds (.ok ()) r' streams)
    {key : FeedKey} (hkey : key ∈ r.feeds) :
    ∃ own, r'.streamsOf key = r.streamsOf key ++ [own] := by
  have hkeys := h.ok rfl
  have hone : ((streams.filter (·.1 = key)).map Prod.snd).length = 1 := by
    rw [List.length_map, ← List.countP_eq_length_filter, ← List.count_eq_one_of_mem r.feeds_nodup hkey,
      ← hkeys, List.count, List.countP_map]
    rfl
  obtain ⟨own, hown⟩ := List.length_eq_one_iff.1 hone
  refine ⟨own, ?_⟩
  rw [Router.streamsOf, h.brings, List.filter_append, List.map_append, hown]
  rfl

section Connect
variable {φ β α σ : Type} [Feeder φ α] [Amount α] {e : Setup β α σ} {r : Run φ β α σ}

theorem Live.connect_of_error {failure : FeedError} (h : r.router.connect.1 = .error failure)
    (inboxes : Table String Nat) : Live.connect e r inboxes =
      (.error (.feed failure), { r with router := r.router.connect.2.2 }) := by
  unfold Live.connect
  rcases hc : r.router.connect with ⟨_ | _, waited, router⟩
  · rw [hc] at h
    cases h
    rfl
  · rw [hc] at h
    cases h

/-- A run that has taken its streams over. -/
def Run.taken (r : Run φ β α σ) : Run φ β α σ :=
  { r with router := { r.router.connect.2.2 with connected := [] } }

theorem Run.router_taken (r : Run φ β α σ) :
    ∃ feeder, r.taken.router = { r.router with feeder, connected := [] } := by
  obtain ⟨streams, hopens⟩ := r.router.connect_opens
  obtain ⟨feeder, connected, hrest⟩ := hopens.rest
  exact ⟨feeder, congrArg (fun router => { router with connected := [] }) hrest⟩

theorem Live.connect_of_ok (h : r.router.connect.1 = .ok ()) (inboxes : Table String Nat) :
    Live.connect e r inboxes = (.ok ⟨r.taken, inboxes,
      .ofList (Line.ofStreams r.router.connect.2.2.connected), .set e.config.refreshPeriod⟩,
      r.taken) := by
  unfold Live.connect Run.taken
  rcases hc : r.router.connect with ⟨_ | _, waited, router⟩
  · rw [hc] at h
    cases h
  · rfl

theorem Live.opened_connect {inboxes : Table String Nat} {pairs : List String}
    (h : Primed e r.router inboxes pairs) {l : Live φ β α σ}
    (hconnect : (Live.connect e r inboxes).1 = .ok l) :
    l.Opened e r.router.streamsOf pairs := by
  obtain ⟨streams, hopens⟩ := r.router.connect_opens
  obtain ⟨feeder, hrouter⟩ := r.router_taken
  cases hc : r.router.connect.1 with
  | error failure =>
    rw [connect_of_error hc] at hconnect
    cases hconnect
  | ok =>
    rw [connect_of_ok hc] at hconnect
    rw [hc] at hopens
    cases hconnect
    refine ⟨fun pair hpair => ?_, h.alone, fun id line hline => ?_, fun pair hpair => ?_⟩
    · obtain ⟨n, hn, howns, hbox⟩ := h.inbox pair hpair
      show ∃ n, inboxes.get? pair = some n ∧ r.taken.router.Owns (e.key pair) n ∧
        r.taken.router.box n = ⟨true, []⟩
      rw [hrouter]
      exact ⟨n, hn, howns.congr rfl, hbox⟩
    · rw [Line.get?_ofStreams] at hline
      obtain ⟨r, -, rfl⟩ := Option.map_eq_some_iff.1 hline
      rfl
    · obtain ⟨n, hn, howns, hbox⟩ := h.inbox pair hpair
      obtain ⟨own, hown⟩ := hopens.streamsOf howns.mem_feeds
      refine ⟨own, fun age => ?_⟩
      rw [← List.reverse_concat, ← hown, Line.get?_ofStreams, Option.map_map, ← List.getElem?_map,
        List.map_reverse, Router.streamsOf, Router.brings, List.filter_map, List.map_map,
        List.map_map]
      rfl

end Connect

end Candlewick
