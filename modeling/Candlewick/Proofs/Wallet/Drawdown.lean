import Candlewick.Proofs.Rational
import Candlewick.Wallet.Drawdown
import Mathlib.Data.List.NodupEquivFin
import Mathlib.Tactic.Linarith
import Mathlib.Tactic.Ring

/-! # The largest decline

The search for a drawdown keeps two stretches of the series that it has passed. Of the stretches
that end at its last value the current one changes least (`Trails`), and of all its stretches the
worst one declines most (`Worst`). One more value keeps both (`Trails.advance`, `Worst.worse`), so
at the end the worst stretch is the largest decline of the whole series.

It is reported as a fraction of the value that it starts from. A smaller decline that starts from a
lower value can be a larger fraction, and `maxDrawdown_worst_iff` says when none is. -/

namespace Candlewick

namespace Excursion
variable {s before : List (Mark Rat)} {a b x y : Mark Rat} {e w : Excursion Rat}
  {current worst : Option (Excursion Rat)}

/-- The stretch goes from some value to `a`, and none from a value before `a` changes less. -/
structure Trails (before : List (Mark Rat)) (a : Mark Rat) (e : Excursion Rat) : Prop where
  spans : ∃ x ∈ before, e = ofStep x a
  least : ∀ y ∈ before, e.change ≤ a.value - y.value

/-- The stretch declines, and none of the series declines more. -/
structure Declines (s : List (Mark Rat)) (w : Excursion Rat) : Prop where
  spans : ∃ x y, [x, y].Sublist s ∧ w = ofStep x y
  below : w.change < 0
  least : s.Pairwise fun x y => w.change ≤ y.value - x.value

/-- What the search knows of the stretches that end at its last value. -/
def Current (before : List (Mark Rat)) (a : Mark Rat) : Option (Excursion Rat) → Prop
  | none => before = []
  | some e => Trails before a e

/-- What the search knows of all stretches that it has passed. -/
def Worst (s : List (Mark Rat)) : Option (Excursion Rat) → Prop
  | none => s.Pairwise fun x y => x.value ≤ y.value
  | some w => Declines s w

theorem pairwise_concat {R : Mark Rat → Mark Rat → Prop} :
    (s ++ [b]).Pairwise R ↔ s.Pairwise R ∧ ∀ x ∈ s, R x b := by
  simp [List.pairwise_append]

theorem trails_ofStep (h : ∀ y ∈ before, y.value ≤ a.value) :
    Trails (before ++ [a]) b (ofStep a b) := by
  refine ⟨⟨a, by simp, rfl⟩, fun y hy => ?_⟩
  show b.value - a.value ≤ b.value - y.value
  rcases List.mem_append.1 hy with hy | hy
  · have := h y hy
    linarith
  · rw [List.mem_singleton.1 hy]

theorem Trails.extend (h : Trails before a e) (he : e.change ≤ 0) :
    Trails (before ++ [a]) b { e with change := e.change + (b.value - a.value), stop := b.time } := by
  obtain ⟨⟨x, hx, rfl⟩, hleast⟩ := h
  refine ⟨⟨x, by simp [hx], ?_⟩, fun y hy => ?_⟩
  · simp only [ofStep, mk.injEq, and_true]
    ring
  · dsimp only
    rcases List.mem_append.1 hy with hy | hy
    · have := hleast y hy
      linarith
    · rw [List.mem_singleton.1 hy]
      linarith

theorem Current.advance (h : Current before a current) :
    Trails (before ++ [a]) b (advance current a b) := by
  cases current with
  | none =>
    obtain rfl : before = [] := h
    exact trails_ofStep (by simp)
  | some e =>
    simp only [Excursion.advance, Amount.lt_rat, Amount.zero_rat, decide_eq_true_eq]
    split
    next hrises =>
      -- even the least change up to `a` is a rise, so no value before lies above `a`
      refine trails_ofStep fun y hy => ?_
      have := h.least y hy
      linarith
    next hfalls => exact h.extend (not_lt.1 hfalls)

theorem Trails.declines (h : Trails s b e) (he : e.change < 0)
    (hleast : s.Pairwise fun x y => e.change ≤ y.value - x.value) : Declines (s ++ [b]) e := by
  refine ⟨?_, he, pairwise_concat.2 ⟨hleast, h.least⟩⟩
  obtain ⟨x, hx, rfl⟩ := h.spans
  exact ⟨x, b, (List.singleton_sublist.2 hx).append (.refl [b]), rfl⟩

theorem Worst.worse (h : Worst s worst) (he : Trails s b e) :
    Worst (s ++ [b]) (worse worst e) := by
  cases worst with
  | none =>
    simp only [Excursion.worse, Amount.lt_rat, Amount.zero_rat, Option.all_none, Bool.and_true,
      decide_eq_true_eq]
    have hrises : s.Pairwise fun x y => x.value ≤ y.value := h
    split
    next hfalls =>
      refine he.declines hfalls (hrises.imp fun hxy => ?_)
      linarith
    next hrise =>
      refine pairwise_concat.2 ⟨hrises, fun x hx => ?_⟩
      have := he.least x hx
      linarith
  | some w =>
    have hw : Declines s w := h
    simp only [Excursion.worse, Amount.lt_rat, Amount.zero_rat, Option.all_some, Bool.and_eq_true,
      decide_eq_true_eq]
    split
    next hlower => exact he.declines hlower.1 (hw.least.imp fun hxy => hlower.2.le.trans hxy)
    next hnot =>
      have hle : w.change ≤ e.change := by
        by_contra hlt
        exact hnot ⟨(not_le.1 hlt).trans hw.below, not_le.1 hlt⟩
      obtain ⟨x, y, hxy, rfl⟩ := hw.spans
      exact ⟨⟨x, y, hxy.trans (List.sublist_append_left ..), rfl⟩, hw.below,
        pairwise_concat.2 ⟨hw.least, fun x hx => hle.trans (he.least x hx)⟩⟩

theorem worst_search (rest : List (Mark Rat)) (hcurrent : Current before a current)
    (hworst : Worst (before ++ [a]) worst) :
    Worst (before ++ a :: rest) (search current worst a rest) := by
  induction rest generalizing before a current worst with
  | nil => exact hworst
  | cons b rest ih =>
    have htrails : Trails (before ++ [a]) b (advance current a b) := hcurrent.advance
    have hnext : Current (before ++ [a]) b (some (advance current a b)) := htrails
    have hrest := ih hnext (hworst.worse htrails)
    rwa [List.append_assoc] at hrest

/-- A stretch from one value to a later one, by their positions. -/
theorem exists_positions (h : [x, y].Sublist s) :
    ∃ i j, ∃ (hij : i < j) (hj : j < s.length), s[i] = x ∧ s[j] = y := by
  obtain ⟨f, hf⟩ := List.sublist_iff_exists_orderEmbedding_getElem?_eq.1 h
  have hij : f 0 < f 1 := f.strictMono Nat.zero_lt_one
  obtain ⟨hj, hy⟩ := List.getElem?_eq_some_iff.1 (hf 1).symm
  obtain ⟨hi, hx⟩ := List.getElem?_eq_some_iff.1 (hf 0).symm
  exact ⟨f 0, f 1, hij, hj, hx, hy⟩

end Excursion

open Excursion in
/-- The drawdown is that of a stretch which declines most, if any stretch declines. -/
theorem maxDrawdown_cases {s : List (Mark Rat)} (hs : ∀ m ∈ s, 0 < m.value) :
    (maxDrawdown s = none ∧ s.Pairwise fun x y => x.value ≤ y.value) ∨
    ∃ w, Declines s w ∧ maxDrawdown s = some ⟨w.change / w.base, w.start, w.stop⟩ := by
  cases s with
  | nil => exact .inl ⟨rfl, .nil⟩
  | cons a rest =>
    have hnone : Current [] a none := rfl
    have hworst : Worst (a :: rest) (search none none a rest) :=
      worst_search rest hnone (List.pairwise_singleton ..)
    rw [maxDrawdown]
    cases hsearch : search none none a rest with
    | none =>
      rw [hsearch] at hworst
      exact .inl ⟨rfl, hworst⟩
    | some w =>
      rw [hsearch] at hworst
      obtain ⟨x, y, hxy, hw⟩ := hworst.spans
      have hbase : w.base ≠ 0 := by
        rw [hw]
        exact (hs x (hxy.subset (by simp))).ne'
      refine .inr ⟨w, hworst, ?_⟩
      simp [hbase]

/-- A series of positive values has no drawdown exactly if its values never fall. Otherwise the
drawdown is that of two positions between which the values fall most, as a fraction of the value at
the first one. -/
theorem maxDrawdown_largest {s : List (Mark Rat)} (hs : ∀ m ∈ s, 0 < m.value) :
    (maxDrawdown s = none ↔ (s.map (·.value)).Pairwise (· ≤ ·)) ∧
    (s.length < 2 → maxDrawdown s = none) ∧
    ∀ d, maxDrawdown s = some d → ∃ i j, ∃ (hij : i < j) (hj : j < s.length),
      d.start = s[i].time ∧ d.stop = s[j].time ∧
      d.value = (s[j].value - s[i].value) / s[i].value ∧
      ∀ h k, ∀ (hhk : h < k) (hk : k < s.length),
        s[j].value - s[i].value ≤ s[k].value - s[h].value := by
  rw [List.pairwise_map]
  rcases maxDrawdown_cases hs with ⟨hnone, hrises⟩ | ⟨w, ⟨⟨x, y, hxy, rfl⟩, hbelow, hleast⟩, hsome⟩
  · exact ⟨iff_of_true hnone hrises, fun _ => hnone, fun d hd => by simp [hnone] at hd⟩
  · obtain ⟨i, j, hij, hj, rfl, rfl⟩ := Excursion.exists_positions hxy
    have hfalls : s[j].value - s[i].value < 0 := hbelow
    refine ⟨iff_of_false (by simp [hsome]) fun hrises => ?_, fun hshort => ?_, fun d hd => ?_⟩
    · have := List.pairwise_iff_getElem.1 hrises i j (hij.trans hj) hj hij
      linarith
    · omega
    · obtain rfl := Option.some.inj (hsome.symm.trans hd)
      exact ⟨i, j, hij, hj, rfl, rfl, rfl, fun h k hhk hk =>
        List.pairwise_iff_getElem.1 hleast h k (hhk.trans hk) hk hhk⟩

/-- From 100 a quarter is lost, and after a peak of 200 a fifth: the second loss is the larger
amount. -/
def twoPeaks : List (Mark Rat) :=
  [⟨⟨60, 0⟩, 100⟩, ⟨⟨120, 0⟩, 75⟩, ⟨⟨180, 0⟩, 200⟩, ⟨⟨240, 0⟩, 170⟩, ⟨⟨300, 0⟩, 190⟩,
    ⟨⟨360, 0⟩, 160⟩, ⟨⟨420, 0⟩, 180⟩]

theorem maxDrawdown_largest_twoPeaks :
    (∀ m ∈ twoPeaks, 0 < m.value) ∧
    maxDrawdown twoPeaks = some ⟨-1 / 5, ⟨180, 0⟩, ⟨360, 0⟩⟩ ∧
    ¬ (twoPeaks.map (·.value)).Pairwise (· ≤ ·) ∧
    ∃ i j, ∃ (hij : i < j) (hj : j < twoPeaks.length),
      twoPeaks[i].time = ⟨180, 0⟩ ∧ twoPeaks[j].time = ⟨360, 0⟩ ∧
      ∀ h k, ∀ (hhk : h < k) (hk : k < twoPeaks.length),
        twoPeaks[j].value - twoPeaks[i].value ≤ twoPeaks[k].value - twoPeaks[h].value := by
  have hpositive : ∀ m ∈ twoPeaks, 0 < m.value := by decide +kernel
  have hdrawdown : maxDrawdown twoPeaks = some ⟨-1 / 5, ⟨180, 0⟩, ⟨360, 0⟩⟩ := by decide +kernel
  obtain ⟨hnone, -, hsome⟩ := maxDrawdown_largest hpositive
  obtain ⟨i, j, hij, hj, hstart, hstop, -, hleast⟩ := hsome _ hdrawdown
  have hfalls : ¬ (twoPeaks.map (·.value)).Pairwise (· ≤ ·) := fun hrises => by
    simp [hnone.2 hrises] at hdrawdown
  exact ⟨hpositive, hdrawdown, hfalls, i, j, hij, hj, hstart.symm, hstop.symm, hleast⟩

/-! ### Declines as fractions -/

/-- The change from one value to another, as a fraction of the first. -/
def Mark.relativeChange (x y : Mark Rat) : Rat := (y.value - x.value) / x.value

/-- The relative changes from every position of a series to every later one. -/
def relativeChanges (s : List (Mark Rat)) : Set Rat :=
  {r | ∃ i j, ∃ (hij : i < j) (hj : j < s.length), r = s[i].relativeChange s[j]}

section Fractions
variable {s : List (Mark Rat)} {w : Excursion Rat} {a b : Mark Rat} {r : Rat}

theorem mem_lowerBounds_relativeChanges :
    r ∈ lowerBounds (relativeChanges s) ↔ s.Pairwise fun x y => r ≤ x.relativeChange y := by
  rw [List.pairwise_iff_getElem]
  constructor
  · intro h i j _ hj hij
    exact h ⟨i, j, hij, hj, rfl⟩
  · rintro h _ ⟨i, j, hij, hj, rfl⟩
    exact h i j (hij.trans hj) hj hij

theorem Excursion.Declines.change_div_le (h : Declines s w) (hs : ∀ m ∈ s, 0 < m.value) :
    s.Pairwise fun x y => w.change / x.value ≤ x.relativeChange y :=
  h.least.imp_of_mem fun hx _ hxy => div_le_div_of_nonneg_right hxy (hs _ hx).le

/-- Only a decline from a lower value can be a larger fraction. -/
theorem Excursion.Declines.fraction_le_iff (h : Declines s w) (hs : ∀ m ∈ s, 0 < m.value)
    (hbase : 0 < w.base) :
    (s.Pairwise fun x y => w.change / w.base ≤ x.relativeChange y) ↔
      s.Pairwise fun x y => x.value < w.base → w.change / w.base ≤ x.relativeChange y := by
  constructor
  · intro hall
    refine hall.imp ?_
    intro x y hxy _
    exact hxy
  · intro hlower
    refine (hlower.and (h.change_div_le hs)).imp ?_
    rintro x y ⟨hlow, hdiv⟩
    rcases lt_or_ge x.value w.base with hlt | hge
    · exact hlow hlt
    · have hfraction : w.change / w.base ≤ w.change / x.value := by
        rw [div_le_div_iff₀ hbase (hbase.trans_le hge)]
        exact mul_le_mul_of_nonpos_left hge h.below.le
      exact hfraction.trans hdiv

/-- From a highest value to a lowest one no fraction is larger. -/
theorem Mark.relativeChange_le_of_extremes (hs : ∀ m ∈ s, 0 < m.value)
    (hab : ∀ m ∈ s, m.value ≤ a.value ∧ b.value ≤ m.value) :
    s.Pairwise fun x y => a.relativeChange b ≤ x.relativeChange y := by
  refine List.pairwise_of_forall_mem_list fun x hx y hy => ?_
  have hx₀ : 0 < x.value := hs x hx
  have ha₀ : 0 < a.value := hx₀.trans_le (hab x hx).1
  have hratio : b.value / a.value ≤ y.value / x.value :=
    div_le_div₀ (hs y hy).le (hab y hy).2 hx₀ (hab x hx).1
  rw [relativeChange, relativeChange, sub_div, sub_div, div_self ha₀.ne', div_self hx₀.ne']
  exact sub_le_sub_right hratio 1

end Fractions

/-- The drawdown of a series of positive values that fall at all is the worst of its relative changes
exactly if no decline from a lower value than its own is a larger fraction. In any case a decline
from another value is a larger fraction by at most the ratio of the two values, and the drawdown is
the worst if a highest value of the series comes before a lowest one. -/
theorem maxDrawdown_worst_iff {s : List (Mark Rat)} (hs : ∀ m ∈ s, 0 < m.value)
    (hfalls : ¬ (s.map (·.value)).Pairwise (· ≤ ·)) :
    ∃ d i j, ∃ (hij : i < j) (hj : j < s.length), maxDrawdown s = some d ∧
      d.start = s[i].time ∧ d.stop = s[j].time ∧ d.value = s[i].relativeChange s[j] ∧
      (IsLeast (relativeChanges s) d.value ↔
        s.Pairwise fun x y => x.value < s[i].value → d.value ≤ x.relativeChange y) ∧
      (s.Pairwise fun x y => d.value * (s[i].value / x.value) ≤ x.relativeChange y) ∧
      ((∃ h k, ∃ (hhk : h < k) (hk : k < s.length),
          ∀ m ∈ s, m.value ≤ s[h].value ∧ s[k].value ≤ m.value) →
        IsLeast (relativeChanges s) d.value) := by
  rw [List.pairwise_map] at hfalls
  rcases maxDrawdown_cases hs with ⟨-, hrises⟩ | ⟨w, hw, hsome⟩
  · exact absurd hrises hfalls
  · obtain ⟨x, y, hxy, rfl⟩ := hw.spans
    obtain ⟨i, j, hij, hj, rfl, rfl⟩ := Excursion.exists_positions hxy
    have hi₀ : 0 < s[i].value := hs _ (List.getElem_mem _)
    have hmem : s[i].relativeChange s[j] ∈ relativeChanges s := ⟨i, j, hij, hj, rfl⟩
    have hleast : IsLeast (relativeChanges s) (s[i].relativeChange s[j]) ↔
        s.Pairwise fun x y => s[i].relativeChange s[j] ≤ x.relativeChange y := by
      rw [IsLeast, mem_lowerBounds_relativeChanges, and_iff_right hmem]
    refine ⟨_, i, j, hij, hj, hsome, rfl, rfl, rfl, ?_, ?_, ?_⟩
    · exact hleast.trans (hw.fraction_le_iff hs hi₀)
    · refine (hw.change_div_le hs).imp fun hchange => ?_
      have hcancel : s[i].relativeChange s[j] * s[i].value = s[j].value - s[i].value :=
        div_mul_cancel₀ _ hi₀.ne'
      rw [← mul_div_assoc]
      exact (congrArg (· / _) hcancel).trans_le hchange
    · rintro ⟨h, k, hhk, hk, hextremes⟩
      -- from the highest to the lowest value the series falls no less than by the largest decline
      have hfall : s[j].value - s[i].value ≤ s[k].value - s[h].value :=
        List.pairwise_iff_getElem.1 hw.least h k (hhk.trans hk) hk hhk
      have hi := hextremes s[i] (List.getElem_mem _)
      have hj := hextremes s[j] (List.getElem_mem _)
      have hhigh : s[i].value = s[h].value := by linarith
      have hlow : s[j].value = s[k].value := by linarith
      refine hleast.2 (Mark.relativeChange_le_of_extremes hs ?_)
      rwa [hhigh, hlow]

/-- Of ten a part is lost, won back in part and lost again in part. -/
def partialRecovery : List (Mark Rat) :=
  [⟨⟨60, 0⟩, 10⟩, ⟨⟨120, 0⟩, 6⟩, ⟨⟨180, 0⟩, 9⟩, ⟨⟨240, 0⟩, 7⟩]

theorem maxDrawdown_worst_partialRecovery :
    (∀ m ∈ partialRecovery, 0 < m.value) ∧
    ¬ (partialRecovery.map (·.value)).Pairwise (· ≤ ·) ∧
    maxDrawdown partialRecovery = some ⟨-2 / 5, ⟨60, 0⟩, ⟨120, 0⟩⟩ ∧
    IsLeast (relativeChanges partialRecovery) (-2 / 5) := by
  have hpositive : ∀ m ∈ partialRecovery, 0 < m.value := by decide +kernel
  have hfalls : ¬ (partialRecovery.map (·.value)).Pairwise (· ≤ ·) := by decide +kernel
  have hdrawdown : maxDrawdown partialRecovery = some ⟨-2 / 5, ⟨60, 0⟩, ⟨120, 0⟩⟩ := by
    decide +kernel
  obtain ⟨d, i, j, hij, hj, hsome, -, -, -, -, -, hworst⟩ := maxDrawdown_worst_iff hpositive hfalls
  obtain rfl := Option.some.inj (hdrawdown.symm.trans hsome)
  have hextremes : ∀ m ∈ partialRecovery, m.value ≤ 10 ∧ 6 ≤ m.value := by decide +kernel
  exact ⟨hpositive, hfalls, hdrawdown, hworst ⟨0, 1, by decide, by decide, hextremes⟩⟩

/-- The quarter that is lost first is a larger fraction than the fifth of the drawdown. -/
theorem maxDrawdown_not_worst :
    (∀ m ∈ twoPeaks, 0 < m.value) ∧ ¬ (twoPeaks.map (·.value)).Pairwise (· ≤ ·) ∧
    ∀ d, maxDrawdown twoPeaks = some d → ¬ IsLeast (relativeChanges twoPeaks) d.value := by
  refine ⟨by decide +kernel, by decide +kernel, fun d hd hleast => ?_⟩
  have hdrawdown : maxDrawdown twoPeaks = some ⟨-1 / 5, ⟨180, 0⟩, ⟨360, 0⟩⟩ := by decide +kernel
  obtain rfl := Option.some.inj (hdrawdown.symm.trans hd)
  have hquarter : (-1 / 4 : Rat) ∈ relativeChanges twoPeaks :=
    ⟨0, 1, by decide, by decide, by decide +kernel⟩
  have hle : (-1 / 5 : Rat) ≤ -1 / 4 := hleast.2 hquarter
  norm_num at hle

end Candlewick
