import Mathlib.Algebra.Order.Field.Power
import Mathlib.Data.Int.Log
import Mathlib.Data.Rat.Floor
import Mathlib.Tactic.FieldSimp
import Mathlib.Tactic.Linarith
import Mathlib.Tactic.NormNum
import Mathlib.Tactic.Positivity

/-!
# Doubles

The rational numbers, rounded as binary64 arithmetic rounds: to 53 significant bits, to the nearest,
and to the even one of two that are equally near. An operation on doubles is the exact operation,
then `round`.

The exponent is not bounded: overflow and subnormal numbers are not covered.

* `abs_round_sub_le`: the relative error of a rounding.
* `round_natCast`: the integers up to 2^53 are doubles.
* `trunc_eq_div`: a result that is near a fraction is truncated as the fraction is.
-/

namespace LibVsf

namespace Doubles

/-! ## Rounding to an integer -/

/-- The nearest integer, and the even one of two. -/
def roundEven (x : ℚ) : ℤ :=
  if Int.fract x < 1 / 2 then ⌊x⌋
  else if 1 / 2 < Int.fract x then ⌊x⌋ + 1
  else if ⌊x⌋ % 2 = 0 then ⌊x⌋ else ⌊x⌋ + 1

theorem abs_roundEven_sub_le (x : ℚ) : |(roundEven x : ℚ) - x| ≤ 1 / 2 := by
  have hx := Int.floor_add_fract x
  have hnonneg := Int.fract_nonneg x
  have hlt := Int.fract_lt_one x
  rw [abs_le]
  unfold roundEven
  split_ifs
  all_goals
    push_cast
    constructor <;> linarith

@[simp] theorem roundEven_intCast (n : ℤ) : roundEven n = n := by
  simp [roundEven]

theorem roundEven_nonneg {x : ℚ} (h : 0 ≤ x) : 0 ≤ roundEven x := by
  have hfloor : 0 ≤ ⌊x⌋ := Int.floor_nonneg.2 h
  unfold roundEven
  split_ifs <;> omega

/-! ## Rounding to a double -/

/-- The unit in the last of the 53 places. -/
def ulp (x : ℚ) : ℚ := 2 ^ (Int.log 2 |x| - 52)

def round (x : ℚ) : ℚ := roundEven (x / ulp x) * ulp x

theorem ulp_pos (x : ℚ) : 0 < ulp x := by
  unfold ulp
  positivity

theorem round_nonneg {x : ℚ} (h : 0 ≤ x) : 0 ≤ round x := by
  have hunit := ulp_pos x
  have hint : (0 : ℚ) ≤ roundEven (x / ulp x) := by
    exact_mod_cast roundEven_nonneg (div_nonneg h hunit.le)
  exact mul_nonneg hint hunit.le

theorem ulp_le {x : ℚ} (h : x ≠ 0) : ulp x ≤ |x| / 2 ^ 52 := by
  have hlog : (2 : ℚ) ^ Int.log 2 |x| ≤ |x| := by
    exact_mod_cast Int.zpow_log_le_self (b := 2) (by norm_num) (abs_pos.2 h)
  rw [ulp, zpow_sub₀ (by norm_num)]
  exact div_le_div_of_nonneg_right hlog (by norm_num)

@[simp] theorem round_zero : round 0 = 0 := by
  simp [round, roundEven]

/-- Rounding changes a number by at most 2^-53 of it. -/
theorem abs_round_sub_le (x : ℚ) : |round x - x| ≤ |x| / 2 ^ 53 := by
  by_cases hx : x = 0
  · simp [hx]
  · have hunit := ulp_pos x
    have hdiff : round x - x = (roundEven (x / ulp x) - x / ulp x) * ulp x := by
      rw [round, sub_mul, div_mul_cancel₀ _ hunit.ne']
    rw [hdiff, abs_mul, abs_of_pos hunit]
    calc
      |(roundEven (x / ulp x) : ℚ) - x / ulp x| * ulp x ≤ 1 / 2 * (|x| / 2 ^ 52) :=
        mul_le_mul (abs_roundEven_sub_le _) (ulp_le hx) hunit.le (by norm_num)
      _ = |x| / 2 ^ 53 := by ring

/-- An integer of at most 53 bits is a double. -/
theorem round_natCast {n : ℕ} (h : n < 2 ^ 53) : round n = n := by
  by_cases hn : n = 0
  · simp [hn]
  · have hunit := ulp_pos (n : ℚ)
    have hlog : Int.log 2 |(n : ℚ)| = Nat.log 2 n := by
      rw [Nat.abs_cast, Int.log_natCast]
    have hle : Nat.log 2 n ≤ 52 := by
      have hlt : Nat.log 2 n < 53 := Nat.log_lt_of_lt_pow hn h
      omega
    have hint : (n : ℚ) / ulp n = ((n * 2 ^ (52 - Nat.log 2 n) : ℕ) : ℤ) := by
      have hexp : (Nat.log 2 n : ℤ) - 52 = -((52 - Nat.log 2 n : ℕ) : ℤ) := by omega
      rw [ulp, hlog, hexp, zpow_neg, div_inv_eq_mul, zpow_natCast]
      push_cast
      rfl
    rw [round, hint, roundEven_intCast, ← hint, div_mul_cancel₀ _ hunit.ne']

/-! ## Truncation -/

/-- `static_cast<int>` of a double: toward zero. -/
def trunc (x : ℚ) : ℤ := if 0 ≤ x then ⌊x⌋ else ⌈x⌉

/-- A fraction that is no integer is truncated as what is nearer to it than to an integer. -/
theorem trunc_eq_div {n d : ℕ} {y : ℚ} (hd : 0 < d) (hnot : ¬ d ∣ n) (hnonneg : 0 ≤ y)
    (hnear : |y - n / d| < 1 / d) : trunc y = (n / d : ℕ) := by
  have hpos : (0 : ℚ) < d := by exact_mod_cast hd
  have hrem : 0 < n % d := Nat.pos_of_ne_zero fun hzero => hnot (Nat.dvd_of_mod_eq_zero hzero)
  have hlt : n % d + 1 ≤ d := Nat.mod_lt n hd
  have hsplit : (n : ℚ) / d = (n / d : ℕ) + (n % d : ℕ) / d := by
    have hcast : (n : ℚ) = d * (n / d : ℕ) + (n % d : ℕ) := by
      exact_mod_cast (Nat.div_add_mod n d).symm
    calc
      (n : ℚ) / d = (d * (n / d : ℕ) + (n % d : ℕ)) / d := by rw [← hcast]
      _ = (n / d : ℕ) + (n % d : ℕ) / d := by rw [add_div, mul_div_cancel_left₀ _ hpos.ne']
  have hlow : 1 / (d : ℚ) ≤ (n % d : ℕ) / d :=
    div_le_div_of_nonneg_right (by exact_mod_cast hrem) hpos.le
  have hhigh : ((n % d : ℕ) : ℚ) / d + 1 / d ≤ 1 := by
    rw [← add_div, div_le_one hpos]
    exact_mod_cast hlt
  rw [hsplit] at hnear
  obtain ⟨hleft, hright⟩ := abs_lt.1 hnear
  rw [trunc, if_pos hnonneg, Int.floor_eq_iff, Int.cast_natCast]
  constructor <;> linarith

end Doubles

end LibVsf
