import Candlewick.Proofs.Text.Canonical
import Candlewick.Text.Utf8
import Candlewick.Wallet.Basic

/-! # How names are split

A name with a separator is cut at the first one (`CutAt`), any other before the longest known quote
that ends it with something in front (`QuotedBy`), and a wallet puts its base coin before all known
quotes (`split_grammar`). The places are counted in bytes: where a name ends in some text, the
bytes of that text counted from the end never lead into a character (`splitAtByte?_append`). -/

namespace Candlewick
variable {name ending asset quote : List Char}

/-! ### The grammar -/

/-- A name ends in a text and has something in front of it. -/
def EndsIn (name ending : List Char) : Prop := ∃ asset, asset ≠ [] ∧ name = asset ++ ending

/-- The parts before and after the first separator of a name. -/
def CutAt (name asset quote : List Char) : Prop :=
  (∀ c ∈ asset, isSeparator c = false) ∧ ∃ c, isSeparator c = true ∧ name = asset ++ c :: quote

/-- The quote is the longest known one that ends the name with something in front of it. -/
structure QuotedBy (name asset quote : List Char) : Prop where
  name_eq : name = asset ++ quote
  asset_ne_nil : asset ≠ []
  known : quote ∈ knownQuotes
  longest : ∀ q ∈ knownQuotes, EndsIn name q → q.length ≤ quote.length

theorem QuotedBy.endsIn (h : QuotedBy name asset quote) : EndsIn name quote :=
  ⟨asset, h.asset_ne_nil, h.name_eq⟩

/-! ### Endings -/

theorem beforeEnding?_eq_some_iff :
    beforeEnding? name ending = some asset ↔ asset ≠ [] ∧ name = asset ++ ending := by
  constructor
  · intro h
    rw [beforeEnding?, ite_eq_iff] at h
    rcases h with ⟨hcond, hasset⟩ | ⟨-, hnone⟩
    · simp only [Bool.and_eq_true, decide_eq_true_eq, List.isSuffixOf_iff_suffix] at hcond
      obtain ⟨hlen, before, rfl⟩ := hcond
      rw [List.length_append, Nat.add_sub_cancel, List.take_left] at hasset
      cases hasset
      refine ⟨fun hnil => ?_, rfl⟩
      rw [hnil] at hlen
      simp at hlen
    · cases hnone
  · rintro ⟨hne, rfl⟩
    have hpos := List.length_pos_iff.2 hne
    rw [beforeEnding?, if_pos, List.length_append, Nat.add_sub_cancel, List.take_left]
    simp only [List.length_append, Bool.and_eq_true, decide_eq_true_eq,
      List.isSuffixOf_iff_suffix]
    exact ⟨by omega, List.suffix_append _ _⟩

theorem isSome_beforeEnding? : (beforeEnding? name ending).isSome ↔ EndsIn name ending := by
  simp only [Option.isSome_iff_exists, beforeEnding?_eq_some_iff, EndsIn]

theorem beforeEnding?_eq_none_iff : beforeEnding? name ending = none ↔ ¬ EndsIn name ending := by
  rw [← isSome_beforeEnding?, Option.not_isSome_iff_eq_none]

/-- Two endings of one name that are equally long are the same. -/
theorem EndsIn.eq_of_length {ending' : List Char} (h : EndsIn name ending)
    (h' : EndsIn name ending') (hlen : ending.length = ending'.length) : ending = ending' := by
  obtain ⟨asset, -, rfl⟩ := h
  obtain ⟨asset', -, heq⟩ := h'
  exact (List.append_inj' heq hlen).2

/-! ### The longest known quote -/

/-- The search for the longest of some quotes. -/
def longest? (quotes : List (List Char)) : Option (List Char) :=
  quotes.foldl (fun best q => some (match best with
    | none => q
    | some b => longer b q)) none

theorem longest?_concat (quotes : List (List Char)) (q : List Char) :
    longest? (quotes ++ [q]) = some (match longest? quotes with
      | none => q
      | some b => longer b q) := by
  rw [longest?, List.foldl_concat]
  rfl

theorem longest?_eq_none_iff {quotes : List (List Char)} :
    longest? quotes = none ↔ quotes = [] := by
  rcases quotes.eq_nil_or_concat with rfl | ⟨quotes, q, rfl⟩
  · simp [longest?]
  · simp [longest?_concat]

theorem longest?_spec (quotes : List (List Char)) :
    ∀ kept ∈ longest? quotes, kept ∈ quotes ∧ ∀ q ∈ quotes, q.length ≤ kept.length := by
  induction quotes using List.reverseRecOn with
  | nil => simp [longest?]
  | append_singleton quotes q ih =>
    intro kept hkept
    rw [longest?_concat] at hkept
    cases hbest : longest? quotes with
    | none =>
      rw [hbest] at hkept
      cases hkept
      simp [longest?_eq_none_iff.1 hbest]
    | some b =>
      obtain ⟨hmem, hle⟩ := ih b hbest
      rw [hbest] at hkept
      cases hkept
      simp only [longer, List.mem_append, List.mem_singleton]
      split <;> rename_i hlen
      · refine ⟨.inl hmem, ?_⟩
        rintro q' (hq' | rfl)
        · exact hle q' hq'
        · omega
      · refine ⟨.inr rfl, ?_⟩
        rintro q' (hq' | rfl)
        · exact (hle q' hq').trans (by omega)
        · exact le_rfl

theorem mem_endings {q : List Char} :
    q ∈ (knownQuotes.filter fun q => (beforeEnding? name q).isSome) ↔
      q ∈ knownQuotes ∧ EndsIn name q := by
  rw [List.mem_filter, isSome_beforeEnding?]

theorem quoteOf?_eq_some_iff : quoteOf? name = some quote ↔
    quote ∈ knownQuotes ∧ EndsIn name quote ∧
      ∀ q ∈ knownQuotes, EndsIn name q → q.length ≤ quote.length := by
  have hspec := longest?_spec (knownQuotes.filter fun q => (beforeEnding? name q).isSome)
  simp only [mem_endings] at hspec
  constructor
  · intro h
    obtain ⟨⟨hknown, hends⟩, hlongest⟩ := hspec quote h
    exact ⟨hknown, hends, fun q hq hq' => hlongest q ⟨hq, hq'⟩⟩
  · rintro ⟨hknown, hends, hlongest⟩
    cases hfound : quoteOf? name with
    | none =>
      have hnil := longest?_eq_none_iff.1 hfound
      exact absurd (mem_endings.2 ⟨hknown, hends⟩) (by rw [hnil]; exact List.not_mem_nil)
    | some kept =>
      obtain ⟨⟨hkept, hkept'⟩, hle⟩ := hspec kept hfound
      rw [hkept'.eq_of_length hends
        (le_antisymm (hlongest kept hkept hkept') (hle quote ⟨hknown, hends⟩))]

theorem quoteOf?_eq_none_iff : quoteOf? name = none ↔ ∀ q ∈ knownQuotes, ¬ EndsIn name q := by
  have hnil : quoteOf? name = none ↔ _ := longest?_eq_none_iff
  simp only [hnil, List.filter_eq_nil_iff, isSome_beforeEnding?]

/-! ### Names -/

theorem splitAtSeparator?_of_cutAt (h : CutAt name asset quote) :
    splitAtSeparator? name = if asset = [] ∨ quote = [] then none else some (asset, quote) := by
  obtain ⟨hasset, c, hc, rfl⟩ := h
  have htake : (asset ++ c :: quote).takeWhile (!isSeparator ·) = asset := by
    rw [List.takeWhile_append_of_pos (by simpa using hasset)]
    simp [hc]
  have hdrop : (asset ++ c :: quote).dropWhile (!isSeparator ·) = c :: quote := by
    rw [List.dropWhile_append_of_pos (by simpa using hasset)]
    simp [hc]
  rw [splitAtSeparator?, htake, hdrop]
  simp

theorem exists_cutAt (h : ∃ c ∈ name, isSeparator c = true) :
    ∃ asset quote, CutAt name asset quote := by
  induction name with
  | nil => simp at h
  | cons d name ih =>
    by_cases hd : isSeparator d = true
    · exact ⟨[], name, by simp, d, hd, rfl⟩
    · obtain ⟨c, hc, hsep⟩ := h
      rcases List.mem_cons.1 hc with rfl | hc
      · exact absurd hsep hd
      · obtain ⟨asset, quote, hasset, c', hsep', rfl⟩ := ih ⟨c, hc, hsep⟩
        exact ⟨d :: asset, quote, by simpa [hd] using hasset, c', hsep', rfl⟩

theorem splitName?_of_separator (h : ∃ c ∈ name, isSeparator c = true) :
    splitName? name = splitAtSeparator? name := by
  rw [splitName?, if_pos (List.any_eq_true.2 h)]

theorem splitName?_of_joined (h : ∀ c ∈ name, isSeparator c = false) :
    splitName? name = (quoteOf? name).bind fun quote =>
      (beforeEnding? name quote).map fun asset => (asset, quote) := by
  rw [splitName?, if_neg (by simpa using h)]
  cases quoteOf? name with
  | none => rfl
  | some quote => cases hasset : beforeEnding? name quote <;> simp [hasset]

theorem splitName?_eq_some_iff (h : ∀ c ∈ name, isSeparator c = false) :
    splitName? name = some (asset, quote) ↔ QuotedBy name asset quote := by
  simp only [splitName?_of_joined h, Option.bind_eq_some_iff, Option.map_eq_some_iff,
    quoteOf?_eq_some_iff, beforeEnding?_eq_some_iff]
  constructor
  · rintro ⟨quote, ⟨hknown, -, hlongest⟩, asset, ⟨hne, hname⟩, ⟨⟩⟩
    exact ⟨hname, hne, hknown, hlongest⟩
  · intro hq
    exact ⟨quote, ⟨hq.known, hq.endsIn, hq.longest⟩, asset, ⟨hq.asset_ne_nil, hq.name_eq⟩, rfl⟩

theorem splitName?_eq_none_iff (h : ∀ c ∈ name, isSeparator c = false) :
    splitName? name = none ↔ ∀ q ∈ knownQuotes, ¬ EndsIn name q := by
  rw [splitName?_of_joined h, ← quoteOf?_eq_none_iff]
  cases hquote : quoteOf? name with
  | none => simp
  | some quote =>
    obtain ⟨asset, hasset⟩ := (quoteOf?_eq_some_iff.1 hquote).2.1
    simp [beforeEnding?_eq_some_iff.2 hasset]

/-! ### Places in bytes -/

/-- How many bytes a text takes. -/
def byteLength : List Char → Nat
  | [] => 0
  | c :: cs => c.utf8Size + byteLength cs

theorem byteLength_append (before after : List Char) :
    byteLength (before ++ after) = byteLength before + byteLength after := by
  induction before with
  | nil => simp [byteLength]
  | cons c before ih => simp [byteLength, ih, Nat.add_assoc]

theorem byteLength_pos {cs : List Char} (h : cs ≠ []) : 0 < byteLength cs := by
  obtain ⟨c, cs, rfl⟩ := List.exists_cons_of_ne_nil h
  have hc := c.utf8Size_pos
  rw [byteLength]
  omega

theorem splitAtByte?_append (before after : List Char) :
    splitAtByte? (byteLength before) (before ++ after) = some (before, after) := by
  induction before with
  | nil => simp [byteLength, splitAtByte?]
  | cons c before ih =>
    have hc := c.utf8Size_pos
    have hlen : byteLength (c :: before) = c.utf8Size + byteLength before := rfl
    obtain ⟨place, hplace⟩ : ∃ place, byteLength (c :: before) = place + 1 :=
      ⟨byteLength (c :: before) - 1, by omega⟩
    have hrest : place + 1 - c.utf8Size = byteLength before := by omega
    rw [hplace, List.cons_append, splitAtByte?, if_pos (by omega), hrest, ih]
    rfl

theorem endsIn_iff_byteLength :
    EndsIn name ending ↔ byteLength ending < byteLength name ∧ ending <:+ name := by
  constructor
  · rintro ⟨asset, hne, rfl⟩
    have hpos := byteLength_pos hne
    rw [byteLength_append]
    exact ⟨by omega, List.suffix_append _ _⟩
  · rintro ⟨hlt, asset, rfl⟩
    refine ⟨asset, ?_, rfl⟩
    rintro rfl
    simp at hlt

/-! ### Pairs and wallets -/

theorem Pair.ofParts_injective : Function.Injective Pair.ofParts := by
  rintro ⟨asset, quote⟩ ⟨asset', quote'⟩ h
  simpa [Pair.ofParts, String.ofList_inj] using h

theorem splitPair_canonicalName (pair : String) :
    splitPair (String.ofList (canonicalName pair)) = splitPair pair := by
  rw [splitPair, canonicalName_canonicalName, splitPair]

/-- The pair of a name with a separator. -/
theorem splitPair_of_cutAt {pair : String} (h : CutAt (canonicalName pair) asset quote) :
    splitPair pair = if asset = [] ∨ quote = [] then none
      else some ⟨String.ofList asset, String.ofList quote⟩ := by
  have hsep : ∃ c ∈ canonicalName pair, isSeparator c = true := by
    obtain ⟨-, c, hc, hname⟩ := h
    exact ⟨c, by simp [hname], hc⟩
  rw [splitPair, splitName?_of_separator hsep, splitAtSeparator?_of_cutAt h]
  split <;> rfl

theorem splitPair_eq_some_iff {pair : String}
    (h : ∀ c ∈ canonicalName pair, isSeparator c = false) :
    splitPair pair = some ⟨String.ofList asset, String.ofList quote⟩ ↔
      QuotedBy (canonicalName pair) asset quote := by
  have hparts : some (⟨String.ofList asset, String.ofList quote⟩ : Pair) =
      (some (asset, quote)).map .ofParts := rfl
  rw [splitPair, hparts, (Option.map_injective Pair.ofParts_injective).eq_iff,
    splitName?_eq_some_iff h]

namespace Wallet
variable {α : Type} (w : Wallet α) {pair : String}

theorem split_of_base (h : ∀ c ∈ canonicalName pair, isSeparator c = false) (hne : asset ≠ [])
    (hname : canonicalName pair = asset ++ w.base.toList) :
    w.split pair = .ok ⟨String.ofList asset, w.base⟩ := by
  have hbase : splitBefore? w.base.toList (canonicalName pair) = some (asset, w.base.toList) := by
    rw [splitBefore?, if_neg (by simpa using h), beforeEnding?_eq_some_iff.2 ⟨hne, hname⟩]
  rw [split, split?, hbase]
  simp [Pair.ofParts]

theorem split_of_not_base (h : (∃ c ∈ canonicalName pair, isSeparator c = true) ∨
    ¬ EndsIn (canonicalName pair) w.base.toList) :
    w.split pair = match splitPair pair with
      | some p => .ok p
      | none => .error (.unknownPair pair) := by
  have hname : splitBefore? w.base.toList (canonicalName pair) =
      splitName? (canonicalName pair) := by
    rw [splitBefore?, ite_eq_left_iff]
    intro hjoined
    rcases h with hsep | hends
    · exact absurd (List.any_eq_true.2 hsep) hjoined
    · rw [beforeEnding?_eq_none_iff.2 hends]
  cases hsplit : splitName? (canonicalName pair) <;> simp [split, split?, splitPair, hname, hsplit]

end Wallet

/-! ### What is split where -/

/-- Names are split by their grammar: at the first separator, or before the longest known quote; a
wallet splits a name without a separator before its base coin first. The name is canonical, and the
place of each cut, which is counted in bytes from the end, is between two characters. -/
theorem split_grammar {α : Type} (w : Wallet α) (pair : String) :
    let name := canonicalName pair
    let joined := ∀ c ∈ name, isSeparator c = false
    (canonicalName (String.ofList name) = name ∧
      splitPair (String.ofList name) = splitPair pair) ∧
    (¬ joined → ∃ asset quote, CutAt name asset quote ∧
      splitPair pair = if asset = [] ∨ quote = [] then none
        else some ⟨String.ofList asset, String.ofList quote⟩) ∧
    (joined →
      (∀ asset quote, splitPair pair = some ⟨String.ofList asset, String.ofList quote⟩ ↔
        QuotedBy name asset quote) ∧
      (splitPair pair = none ↔ ∀ q ∈ knownQuotes, ¬ EndsIn name q)) ∧
    (∀ asset, joined ∧ asset ≠ [] ∧ name = asset ++ w.base.toList →
      w.split pair = .ok ⟨String.ofList asset, w.base⟩) ∧
    (¬ (joined ∧ EndsIn name w.base.toList) →
      w.split pair = match splitPair pair with
        | some p => .ok p
        | none => .error (.unknownPair pair)) ∧
    (∀ ending, EndsIn name ending ↔ byteLength ending < byteLength name ∧ ending <:+ name) ∧
    (∀ asset ending, name = asset ++ ending →
      splitAtByte? (byteLength name - byteLength ending) name = some (asset, ending)) := by
  intro name joined
  have hsep : ¬ joined ↔ ∃ c ∈ name, isSeparator c = true := by simp [joined]
  refine ⟨⟨canonicalName_canonicalName pair, splitPair_canonicalName pair⟩, fun h => ?_,
    fun h => ⟨fun asset quote => splitPair_eq_some_iff h, ?_⟩, ?_, fun h => ?_,
    fun ending => endsIn_iff_byteLength, fun asset ending hname => ?_⟩
  · obtain ⟨asset, quote, hcut⟩ := exists_cutAt (hsep.1 h)
    exact ⟨asset, quote, hcut, splitPair_of_cutAt hcut⟩
  · rw [splitPair, Option.map_eq_none_iff, splitName?_eq_none_iff h]
  · rintro asset ⟨h, hne, hname⟩
    exact w.split_of_base h hne hname
  · refine w.split_of_not_base ?_
    rw [not_and_or, hsep] at h
    exact h
  · rw [hname, byteLength_append, Nat.add_sub_cancel, splitAtByte?_append]

/-- The account whose base coin ends a longer known quote. -/
def dollars : Wallet Float := .start (.ofBase "usd")

/-- A letter of two bytes stands before the quote. -/
theorem split_grammar_nestedQuotes :
    splitPair " éfdusd" = some ⟨"É", "FDUSD"⟩ ∧
      dollars.split " éfdusd" = .ok ⟨"ÉFD", "USD"⟩ ∧
      dollars.split "éfdusd-" = .error (.unknownPair "éfdusd-") ∧
      splitAtByte? 2 (canonicalName " éfdusd") = some (['É'], "FDUSD".toList) := by
  have hname : canonicalName " éfdusd" = "ÉFDUSD".toList := by decide
  have hjoined : ∀ c ∈ canonicalName " éfdusd", isSeparator c = false := by
    have hall : (canonicalName " éfdusd").all (!isSeparator ·) = true := by decide +kernel
    simpa using hall
  have hbase : dollars.base = "USD" := by decide
  obtain ⟨-, -, hquoted, hwallet, -, -, hplace⟩ := split_grammar dollars " éfdusd"
  have hquote : QuotedBy (canonicalName " éfdusd") ['É'] "FDUSD".toList := by
    have hlength : ∀ q ∈ knownQuotes, q.length ≤ 5 := by decide
    exact ⟨hname, by simp, by decide, fun q hq _ => hlength q hq⟩
  refine ⟨((hquoted hjoined).1 _ _).2 hquote, ?_, ?_, hplace ['É'] "FDUSD".toList hname⟩
  · rw [hwallet "ÉFD".toList ⟨hjoined, by simp, by rw [hname, hbase]; decide⟩, hbase]
    rfl
  · obtain ⟨-, -, -, -, hother, -⟩ := split_grammar dollars "éfdusd-"
    have hnone : splitPair "éfdusd-" = none := by decide +kernel
    have hdash : '-' ∈ canonicalName "éfdusd-" := by decide +kernel
    rw [hother (fun h => absurd (h.1 '-' hdash) (by decide)), hnone]

end Candlewick
