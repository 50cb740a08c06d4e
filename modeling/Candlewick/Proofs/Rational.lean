import Candlewick.Wallet.Valuation
import Mathlib.Algebra.BigOperators.Group.List.Basic
import Mathlib.Algebra.Order.Ring.Rat

/-! # Amounts as rationals

On rationals the operations that `Amount` fixes are those of the ordered field. -/

namespace Candlewick
variable (a b : Rat)

@[simp] theorem Amount.max_rat : Amount.max a b = Max.max a b := by
  unfold Amount.max
  by_cases h : a < b
  · simp [h, max_eq_right h.le]
  · simp [h, max_eq_left (not_lt.1 h)]

@[simp] theorem Amount.min_rat : Amount.min a b = Min.min a b := by
  unfold Amount.min
  by_cases h : b < a
  · simp [h, min_eq_right h.le]
  · simp [h, min_eq_left (not_lt.1 h)]

theorem Amount.zero_rat : (Amount.zero : Rat) = 0 := rfl

theorem Amount.one_rat : (Amount.one : Rat) = 1 := rfl

theorem Amount.two_rat : (Amount.ofNat 2 : Rat) = 2 := rfl

@[simp] theorem Wallet.isPositive_rat : Wallet.isPositive a = decide (0 < a) := by
  simp [Wallet.isPositive]

theorem Wallet.sum_rat (as : List Rat) : Wallet.sum as = as.sum :=
  List.sum_eq_foldl.symm

theorem Amount.total_rat (as : List Rat) : Amount.total as = as.sum := by
  have hzero : -(Amount.zero : Rat) = 0 := neg_zero
  rw [Amount.total, hzero]
  exact List.sum_eq_foldl.symm

theorem Amount.powAux_rat {fuel n : Nat} (r a : Rat) (h : n < fuel) :
    Amount.powAux fuel r a n = r * a ^ n := by
  induction fuel generalizing n r a with
  | zero => cases h
  | succ fuel ih =>
    have hhalves : (if n % 2 = 1 then r * a else r) * (a * a) ^ (n / 2) = r * a ^ n := by
      have hn : a ^ n = a ^ (n % 2) * (a * a) ^ (n / 2) := by
        rw [← sq, ← pow_mul, ← pow_add, Nat.mod_add_div]
      rcases Nat.mod_two_eq_zero_or_one n with hbit | hbit
      · simp [hn, hbit]
      · simp [hn, hbit, mul_assoc]
    rw [Amount.powAux]
    split
    next hzero => simpa [hzero] using hhalves
    next => rw [ih _ _ (by omega), hhalves]

@[simp] theorem Amount.pow_rat (n : Nat) : Amount.pow a n = a ^ n := by
  rw [Amount.pow, Amount.powAux_rat _ _ (Nat.lt_succ_self n), Amount.one_rat, one_mul]

end Candlewick
