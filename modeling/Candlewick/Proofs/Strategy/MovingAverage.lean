import Candlewick.Proofs.Rational
import Candlewick.Strategy.MovingAverage
import Mathlib.Tactic.Ring

/-! # Moving averages are means of windows

The running sum takes in one value after the other and drops the one that leaves the window. On
rationals it is at every place the sum of the last `period` values (`sum_window_filling`,
`sum_window_full`), and so the moving average there is their mean (`movingAverage_windows`). -/

namespace Candlewick

section Steps
variable {α : Type} [Amount α] {period seen : Nat}

theorem length_movingFrom (period seen : Nat) (sum : α) (leaving values : List α) :
    (movingFrom period seen sum leaving values).length = values.length := by
  induction values generalizing seen sum leaving with
  | nil => rfl
  | cons a values ih => exact congrArg Nat.succ (ih _ _ _)

theorem length_movingAverage (values : List α) (period : Nat) :
    (movingAverage values period).length = values.length := by
  unfold movingAverage
  split
  · exact List.length_map _
  · exact length_movingFrom ..

/-- While the window fills, the running sum takes the next value in. -/
theorem movingFrom_filling (h : seen < period) (sum : α) (leaving : List α) (a : α)
    (rest : List α) : movingFrom period seen sum leaving (a :: rest) =
      (if period ≤ seen + 1 then some ((sum + a) / Amount.ofNat period) else none) ::
        movingFrom period (seen + 1) (sum + a) leaving rest := by
  conv_lhs => unfold movingFrom
  simp [Nat.not_le.2 h]

/-- When it is full, the oldest value leaves the sum as the next one comes in. -/
theorem movingFrom_full (h : period ≤ seen) (sum : α) (b : α) (leaving : List α) (a : α)
    (rest : List α) : movingFrom period seen sum (b :: leaving) (a :: rest) =
      some ((sum + a - b) / Amount.ofNat period) ::
        movingFrom period (seen + 1) (sum + a - b) leaving rest := by
  conv_lhs => unfold movingFrom
  simp [h, Nat.le_succ_of_le h]

end Steps

/-! ### Sums of windows -/

/-- The last `period` of the first `n` values, or all of these if they are fewer. -/
def window (values : List Rat) (period n : Nat) : List Rat := values.extract (n - period) n

section Windows
variable {values : List Rat} {period n : Nat}

theorem length_window (values : List Rat) (period : Nat) (hn : n ≤ values.length) :
    (window values period n).length = min n period := by
  simp only [window, List.extract_eq_take_drop, List.length_take, List.length_drop]
  omega

theorem sum_extract_concat {first : Nat} (hfirst : first ≤ n) (hn : n < values.length) :
    (values.extract first (n + 1)).sum = (values.extract first n).sum + values[n] := by
  have hlast : (values.drop first)[n - first]? = some values[n] := by
    rw [List.getElem?_drop, Nat.add_sub_cancel' hfirst, List.getElem?_eq_getElem hn]
  rw [List.extract_eq_take_drop, List.extract_eq_take_drop, Nat.succ_sub hfirst, List.take_add_one,
    hlast]
  simp

theorem sum_extract_cons {first : Nat} (hfirst : first < n) (hn : first < values.length) :
    (values.extract first n).sum = values[first] + (values.extract (first + 1) n).sum := by
  obtain ⟨k, rfl⟩ := Nat.exists_eq_add_of_lt hfirst
  rw [List.extract_eq_take_drop, List.extract_eq_take_drop, List.drop_eq_getElem_cons hn]
  have hsub : first + k + 1 - first = k + 1 := by omega
  have hsub' : first + k + 1 - (first + 1) = k := by omega
  rw [hsub, hsub', List.take_succ_cons, List.sum_cons]

/-- While the window fills, a value only comes in. -/
theorem sum_window_filling (hn : n < values.length) (hfill : n < period) :
    (window values period (n + 1)).sum = (window values period n).sum + values[n] := by
  have hfirst : n + 1 - period = n - period := by omega
  rw [window, window, hfirst]
  exact sum_extract_concat (Nat.sub_le ..) hn

/-- When it is full, the oldest value leaves it as the next one comes in. -/
theorem sum_window_full (hn : n < values.length) (hperiod : 0 < period) (hfull : period ≤ n) :
    (window values period (n + 1)).sum =
      (window values period n).sum + values[n] - values[n - period] := by
  have hfirst : n + 1 - period = n - period + 1 := by omega
  have hboth := sum_extract_concat (Nat.sub_le n period) hn
  rw [sum_extract_cons (by omega) (by omega)] at hboth
  rw [window, window, hfirst, ← hboth]
  ring

/-- The mean of the last `period` values at a place, if there are as many. -/
def meanAt (values : List Rat) (period i : Nat) : Option Rat :=
  if i + 1 < period then none else some ((window values period (i + 1)).sum / period)

/-- The running sum is the sum of the window, and what leaves it next is at its start. -/
theorem movingFrom_step (hperiod : 0 < period) (hn : n < values.length) (rest : List Rat) :
    movingFrom period n (window values period n).sum (values.drop (n - period))
        (values[n] :: rest) =
      meanAt values period n ::
        movingFrom period (n + 1) (window values period (n + 1)).sum
          (values.drop (n + 1 - period)) rest := by
  rcases Nat.lt_or_ge n period with hfill | hfull
  · have hfirst : n + 1 - period = n - period := by omega
    rw [movingFrom_filling hfill, ← sum_window_filling hn hfill, hfirst, meanAt]
    by_cases hlast : n + 1 < period
    · rw [if_pos hlast, if_neg (by omega)]
    · rw [if_neg hlast, if_pos (by omega)]
      rfl
  · have hfirst : n + 1 - period = n - period + 1 := by omega
    have hlast : ¬ n + 1 < period := by omega
    rw [List.drop_eq_getElem_cons (by omega), movingFrom_full hfull,
      ← sum_window_full hn hperiod hfull, hfirst, meanAt, if_neg hlast]
    rfl

/-- From any place on the moving average gives the means of the windows. -/
theorem getElem?_movingFrom (hperiod : 0 < period) {rest : List Rat} (hrest : values.drop n = rest)
    (k : Nat) (hk : n + k < values.length) :
    (movingFrom period n (window values period n).sum (values.drop (n - period)) rest)[k]? =
      some (meanAt values period (n + k)) := by
  induction rest generalizing n k with
  | nil =>
    have := List.drop_eq_nil_iff.1 hrest
    omega
  | cons a rest ih =>
    have hn : n < values.length := by omega
    obtain ⟨rfl, hlater⟩ := List.cons.inj ((List.drop_eq_getElem_cons hn).symm.trans hrest)
    rw [movingFrom_step hperiod hn]
    cases k with
    | zero => rfl
    | succ k =>
      have hplace : n + (k + 1) = n + 1 + k := by omega
      rw [List.getElem?_cons_succ, hplace]
      exact ih hlater k (by omega)

theorem getElem?_movingAverage (hperiod : 0 < period) (hn : n < values.length) :
    (movingAverage values period)[n]? = some (meanAt values period n) := by
  have hall := getElem?_movingFrom (n := 0) hperiod rfl n ((Nat.zero_add n).symm ▸ hn)
  rw [movingAverage, if_neg (Nat.ne_of_gt hperiod)]
  simpa [window] using hall

end Windows

/-- The moving average has an entry for each value: none as long as there are not `period` values,
and from there on the mean of the last `period` ones. So it depends on nothing else: places at which
the last `period` values are the same have the same entry. -/
theorem movingAverage_windows (values : List Rat) {period : Nat} (hperiod : 0 < period) :
    (movingAverage values period).length = values.length ∧
    (∀ i < values.length, (movingAverage values period)[i]? =
      some (if i + 1 < period then none
        else some ((values.extract (i + 1 - period) (i + 1)).sum / period))) ∧
    ∀ i < values.length, ∀ (values' : List Rat), ∀ j < values'.length,
      values.extract (i + 1 - period) (i + 1) = values'.extract (j + 1 - period) (j + 1) →
        (movingAverage values period)[i]? = (movingAverage values' period)[j]? := by
  refine ⟨length_movingAverage .., fun i hi => getElem?_movingAverage hperiod hi, ?_⟩
  intro i hi values' j hj hsame
  have hlength : min (i + 1) period = min (j + 1) period := by
    rw [← length_window values period hi, ← length_window values' period hj]
    exact congrArg List.length hsame
  have hwindow : window values period (i + 1) = window values' period (j + 1) := hsame
  rw [getElem?_movingAverage hperiod hi, getElem?_movingAverage hperiod hj, meanAt, meanAt, hwindow]
  congr 2
  exact propext (by omega)

theorem movingAverage_windows_fourValues :
    let values : List Rat := [1, 2, 3, 4]
    let values' : List Rat := [7, 2, 3]
    0 < 2 ∧ (movingAverage values 2).length = 4 ∧ (movingAverage values 2)[0]? = some none ∧
    (movingAverage values 2)[3]? = some (some (7 / 2)) ∧
    (movingAverage values 2)[2]? = (movingAverage values' 2)[2]? := by
  intro values values'
  have hperiod : 0 < 2 := by decide
  obtain ⟨hlength, hmeans, hsame⟩ := movingAverage_windows values hperiod
  refine ⟨hperiod, hlength, hmeans 0 (by decide), ?_, ?_⟩
  · rw [hmeans 3 (by decide)]
    decide +kernel
  · exact hsame 2 (by decide) values' 2 (by decide) rfl

end Candlewick
