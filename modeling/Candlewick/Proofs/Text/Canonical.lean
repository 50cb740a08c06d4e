import Candlewick.Market.Pair
import Mathlib.Data.List.DropRight

/-! # Names stay canonical

To raise a text to upper case and to trim a name changes nothing the second time
(`upperCase_upperCase`, `canonicalName_canonicalName`). Both are read off the tables of `Upper`: no
code point that they map to is mapped by them again, and none of them is blank. The code points of
the tables are compared as sets of bits (`Upper.bits`), one bit for each code point. -/

namespace Candlewick

/-! ### Upper case -/

namespace Upper

/-- The code points that a run maps. -/
def Run.codes (r : Run) : List Nat :=
  List.range' r.first ((r.last - r.first) / r.step + 1) r.step

/-- The code point that a run maps one to. -/
def Run.image (r : Run) (n : Nat) : Nat := ((n : Int) + r.shift).toNat

/-- The code points that are mapped at all. -/
def domain : List Nat := runs.flatMap Run.codes ++ expansions.map (·.1)

/-- The code points that some are mapped to. -/
def images : List Nat := (runs.flatMap fun r => r.codes.map r.image) ++ expansions.flatMap (·.2)

/-- The blank code points. -/
def blanks : List Nat :=
  List.range' 9 5 ++ [0x20, 0x85, 0xa0, 0x1680] ++ List.range' 0x2000 11 ++
    [0x2028, 0x2029, 0x202f, 0x205f, 0x3000]

/-- Code points as the bits of one number. -/
def bits (codes : List Nat) : Nat := codes.foldl (fun b n => b ||| 1 <<< n) 0

theorem testBit_bits (codes : List Nat) (n : Nat) :
    (bits codes).testBit n = decide (n ∈ codes) := by
  have hfold : ∀ (codes : List Nat) (b : Nat),
      (codes.foldl (fun b n => b ||| 1 <<< n) b).testBit n =
        (b.testBit n || decide (n ∈ codes)) := by
    intro codes
    induction codes with
    | nil => simp
    | cons m codes ih =>
      intro b
      rw [List.foldl_cons, ih, Nat.testBit_or, Nat.one_shiftLeft, Nat.testBit_two_pow,
        Bool.or_assoc]
      congr 1
      by_cases hm : m = n
      · simp [hm]
      · simp [hm, Ne.symm hm]
  simpa [bits] using hfold codes 0

theorem not_mem_of_bits_disjoint {codes codes' : List Nat} (h : bits codes &&& bits codes' = 0)
    {n : Nat} (hn : n ∈ codes) : n ∉ codes' := by
  intro hn'
  have hbit : (bits codes &&& bits codes').testBit n = true := by
    rw [Nat.testBit_and, testBit_bits, testBit_bits]
    simp [hn, hn']
  rw [h, Nat.zero_testBit] at hbit
  cases hbit

theorem not_mem_domain_of_mem_images {n : Nat} (h : n ∈ images) : n ∉ domain :=
  not_mem_of_bits_disjoint (by decide +kernel) h

theorem not_mem_blanks_of_mem_images {n : Nat} (h : n ∈ images) : n ∉ blanks :=
  not_mem_of_bits_disjoint (by decide +kernel) h

theorem mem_codes_of_covers {r : Run} {n : Nat} (h : r.covers n = true) : n ∈ r.codes := by
  simp only [Run.covers, Bool.and_eq_true, decide_eq_true_eq] at h
  obtain ⟨⟨hfirst, hlast⟩, hstep⟩ := h
  have hdiv : r.step * ((n - r.first) / r.step) = n - r.first :=
    Nat.mul_div_cancel' (Nat.dvd_of_mod_eq_zero hstep)
  refine List.mem_range'.2 ⟨(n - r.first) / r.step, ?_, by omega⟩
  exact Nat.lt_succ_of_le (Nat.div_le_div_right (by omega))

theorem mem_blanks_of_isBlank {c : Char} (h : isBlank c = true) : c.toNat ∈ blanks := by
  simp only [isBlank, Bool.or_eq_true, Bool.and_eq_true, decide_eq_true_eq] at h
  simp only [blanks, List.mem_append, List.mem_range'_1, List.mem_cons, List.not_mem_nil, or_false]
  omega

/-- What the tables say of a character of seven bits. -/
theorem toUpper_ascii : ∀ n < 128, (Char.ofNat n).toUpper = Char.ofNat n ∨
    n ∈ domain ∧ ∃ m ∈ images, (Char.ofNat n).toUpper = Char.ofNat m := by
  decide +kernel

theorem ofChar_of_not_mem_domain {c : Char} (h : c.toNat ∉ domain) : ofChar c = [c] := by
  rw [ofChar]
  split
  · rename_i hascii
    rcases toUpper_ascii c.toNat hascii with hsame | ⟨hmem, -⟩
    · rw [Char.ofNat_toNat] at hsame
      rw [hsame]
    · exact absurd hmem h
  · simp only [domain, List.mem_append, not_or] at h
    split
    · rename_i e he
      exact absurd (List.mem_map.2 ⟨e, List.mem_of_find?_eq_some he, by
        simpa using List.find?_some he⟩) h.2
    · split
      · rename_i r hr
        have hcovers : r.covers c.toNat = true := by simpa using List.find?_some hr
        exact absurd (List.mem_flatMap.2 ⟨r, List.mem_of_find?_eq_some hr,
          mem_codes_of_covers hcovers⟩) h.1
      · rfl

/-- A character stays as it is or becomes some characters that the tables map to. -/
theorem ofChar_cases (c : Char) :
    ofChar c = [c] ∨ ofChar c ≠ [] ∧ ∀ d ∈ ofChar c, ∃ m ∈ images, d = Char.ofNat m := by
  by_cases hascii : c.toNat < 128
  · have hof : ofChar c = [c.toUpper] := by rw [ofChar, if_pos hascii]
    have hc := toUpper_ascii c.toNat hascii
    rw [Char.ofNat_toNat] at hc
    rcases hc with hsame | ⟨-, hupper⟩
    · exact .inl (hof.trans (by rw [hsame]))
    · exact .inr (by simpa [hof] using hupper)
  · rw [ofChar, if_neg hascii]
    split
    · rename_i e he
      have hmem := List.mem_of_find?_eq_some he
      have hne : ∀ e ∈ expansions, e.2 ≠ [] := by decide
      refine .inr ⟨by simpa using hne e hmem, fun d hd => ?_⟩
      obtain ⟨m, hm, rfl⟩ := List.mem_map.1 hd
      exact ⟨m, List.mem_append_right _ (List.mem_flatMap.2 ⟨e, hmem, hm⟩), rfl⟩
    · split
      · rename_i r hr
        have hcovers : r.covers c.toNat = true := by simpa using List.find?_some hr
        refine .inr ⟨by simp, fun d hd => ⟨r.image c.toNat, ?_, List.mem_singleton.1 hd⟩⟩
        exact List.mem_append_left _ (List.mem_flatMap.2 ⟨r, List.mem_of_find?_eq_some hr,
          List.mem_map_of_mem (mem_codes_of_covers hcovers)⟩)
      · exact .inl rfl

/-- A number that is no code point gives the null character, which is not mapped and not blank. -/
theorem ofNat_image {m : Nat} (h : m ∈ images) :
    ofChar (Char.ofNat m) = [Char.ofNat m] ∧ isBlank (Char.ofNat m) = false := by
  have hnat : (Char.ofNat m).toNat = m ∨ (Char.ofNat m).toNat = 0 := by
    by_cases hvalid : m.isValidChar
    · rw [Char.ofNat, dif_pos hvalid]
      exact .inl rfl
    · rw [Char.ofNat, dif_neg hvalid]
      exact .inr rfl
  have hmap : (Char.ofNat m).toNat ∉ domain := by
    rcases hnat with hm | hm <;> rw [hm]
    · exact not_mem_domain_of_mem_images h
    · decide +kernel
  have hblank : (Char.ofNat m).toNat ∉ blanks := by
    rcases hnat with hm | hm <;> rw [hm]
    · exact not_mem_blanks_of_mem_images h
    · decide
  exact ⟨ofChar_of_not_mem_domain hmap, by simpa using mt mem_blanks_of_isBlank hblank⟩

theorem ofChar_ne_nil (c : Char) : ofChar c ≠ [] := by
  rcases ofChar_cases c with hc | ⟨hc, -⟩ <;> simp [hc]

theorem ofChar_of_mem {c d : Char} (h : d ∈ ofChar c) : ofChar d = [d] := by
  rcases ofChar_cases c with hc | ⟨-, himages⟩
  · rw [hc, List.mem_singleton] at h
    rw [h, hc]
  · obtain ⟨m, hm, rfl⟩ := himages d h
    exact (ofNat_image hm).1

theorem not_isBlank_of_mem {c d : Char} (hc : isBlank c = false) (h : d ∈ ofChar c) :
    isBlank d = false := by
  rcases ofChar_cases c with hself | ⟨-, himages⟩
  · rw [hself, List.mem_singleton] at h
    rw [h, hc]
  · obtain ⟨m, hm, rfl⟩ := himages d h
    exact (ofNat_image hm).2

end Upper

theorem upperCase_upperCase (cs : List Char) : upperCase (upperCase cs) = upperCase cs := by
  rw [upperCase, upperCase, List.flatMap_assoc]
  refine List.flatMap_congr fun c _ => ?_
  calc (Upper.ofChar c).flatMap Upper.ofChar
      = (Upper.ofChar c).flatMap fun d => [d] :=
        List.flatMap_congr fun d hd => Upper.ofChar_of_mem hd
    _ = Upper.ofChar c := List.flatMap_singleton' _

/-! ### Trimming -/

/-- A text that neither starts nor ends with a blank. -/
structure Trimmed (cs : List Char) : Prop where
  first : ∀ c ∈ cs.head?, isBlank c = false
  last : ∀ c ∈ cs.getLast?, isBlank c = false

theorem trimBlank_of_trimmed {cs : List Char} (h : Trimmed cs) : trimBlank cs = cs := by
  have hstart : trimStart cs = cs := by
    refine List.dropWhile_eq_self_iff.2 fun hl => ?_
    have hfirst := h.first cs[0] (by rw [List.head?_eq_getElem?, List.getElem?_eq_getElem hl]; rfl)
    rw [hfirst]
    simp
  have hend : trimEnd cs = cs := by
    refine List.rdropWhile_eq_self_iff.2 fun hl => ?_
    simpa using h.last _ (List.getLast_mem_getLast? hl)
  rw [trimBlank, hstart, hend]

theorem trimmed_trimBlank (cs : List Char) : Trimmed (trimBlank cs) where
  first := by
    intro c hc
    have hprefix : trimBlank cs <+: trimStart cs := List.rdropWhile_prefix _ _
    have hc' : (cs.dropWhile isBlank).head? = some c := by
      obtain ⟨rest, hrest⟩ := hprefix
      rw [← trimStart, ← hrest, List.head?_append, hc, Option.some_or]
    have hnot := List.head?_dropWhile_not isBlank cs
    rwa [hc'] at hnot
  last := by
    intro c hc
    obtain ⟨hne, rfl⟩ := List.mem_getLast?_eq_getLast hc
    exact eq_false_of_ne_true (List.rdropWhile_last_not isBlank (trimStart cs) hne)

/-- Each character has an upper case, so the ends of the upper case are those of its ends. -/
theorem Trimmed.upperCase {cs : List Char} (h : Trimmed cs) : Trimmed (upperCase cs) where
  first := by
    intro d hd
    rw [Candlewick.upperCase, Option.mem_def, List.head?_flatMap] at hd
    cases cs with
    | nil => cases hd
    | cons c cs =>
      rw [List.findSome?_cons, List.head?_eq_some_head (Upper.ofChar_ne_nil c)] at hd
      cases hd
      exact Upper.not_isBlank_of_mem (h.first c rfl) (List.head_mem _)
  last := by
    intro d hd
    rw [Candlewick.upperCase, Option.mem_def, List.getLast?_flatMap] at hd
    rcases cs.eq_nil_or_concat with rfl | ⟨cs, c, rfl⟩
    · cases hd
    · rw [List.concat_eq_append, List.reverse_append, List.reverse_singleton,
        List.singleton_append, List.findSome?_cons,
        List.getLast?_eq_some_getLast (Upper.ofChar_ne_nil c)] at hd
      cases hd
      exact Upper.not_isBlank_of_mem (h.last c (by simp)) (List.getLast_mem _)

theorem canonicalName_canonicalName (pair : String) :
    canonicalName (String.ofList (canonicalName pair)) = canonicalName pair := by
  rw [canonicalName, String.toList_ofList]
  have htrim : trimBlank (canonicalName pair) = canonicalName pair :=
    trimBlank_of_trimmed (trimmed_trimBlank _).upperCase
  rw [htrim, canonicalName, upperCase_upperCase]

end Candlewick
