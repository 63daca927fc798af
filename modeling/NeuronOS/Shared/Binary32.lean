import Mathlib.Data.Int.Log
import Mathlib.Data.Rat.Floor
import Mathlib.Tactic.Linarith
import Mathlib.Tactic.NormNum

set_option autoImplicit false

namespace NeuronOS.Shared

-- `float` values are rationals. `(float)x` and every `float` operation round the exact result
-- to nearest, ties to even; no value this program computes comes near the overflow bound 2^128.

def roundHalfEven (q : ℚ) : ℤ :=
  if q - ⌊q⌋ < 1 / 2 then ⌊q⌋
  else if 1 / 2 < q - ⌊q⌋ then ⌊q⌋ + 1
  else if ⌊q⌋ % 2 = 0 then ⌊q⌋ else ⌊q⌋ + 1

theorem roundHalfEven_near (q : ℚ) : |(roundHalfEven q : ℚ) - q| ≤ 1 / 2 := by
  have low := Int.floor_le q
  have high := Int.lt_floor_add_one q
  unfold roundHalfEven
  rw [abs_le]
  split_ifs <;> push_cast <;> constructor <;> linarith

theorem roundHalfEven_mono : Monotone roundHalfEven := by
  intro x y le
  by_contra over
  have gap : (roundHalfEven y : ℚ) + 1 ≤ roundHalfEven x := by exact_mod_cast not_le.mp over
  have nearX := abs_le.mp (roundHalfEven_near x)
  have nearY := abs_le.mp (roundHalfEven_near y)
  have same : x = y := by linarith
  subst same
  exact over le_rfl

@[simp] theorem roundHalfEven_intCast (n : ℤ) : roundHalfEven n = n := by
  simp [roundHalfEven]

@[simp] theorem roundHalfEven_zero : roundHalfEven 0 = 0 := by
  simpa using roundHalfEven_intCast 0

theorem roundHalfEven_neg (q : ℚ) : roundHalfEven (-q) = -roundHalfEven q := by
  by_cases whole : (⌊q⌋ : ℚ) = q
  next => rw [← whole, ← Int.cast_neg, roundHalfEven_intCast, roundHalfEven_intCast]
  next =>
    have strict : (⌊q⌋ : ℚ) < q := lt_of_le_of_ne (Int.floor_le q) whole
    have high := Int.lt_floor_add_one q
    have floorNeg : ⌊-q⌋ = -⌊q⌋ - 1 := by
      rw [Int.floor_eq_iff]
      push_cast
      constructor <;> linarith
    have frac : -q - ((-⌊q⌋ - 1 : ℤ) : ℚ) = 1 - (q - ⌊q⌋) := by push_cast; ring
    unfold roundHalfEven
    rw [floorNeg, frac]
    rcases lt_trichotomy (q - ⌊q⌋) (1 / 2) with below | half | above
    next => rw [if_neg (by linarith), if_pos (by linarith), if_pos below]; omega
    next =>
      rw [half, if_neg (by norm_num), if_neg (by norm_num), if_neg (lt_irrefl _), if_neg (lt_irrefl _)]
      split_ifs <;> omega
    next => rw [if_pos (by linarith), if_neg (not_lt.mpr above.le), if_pos above]; omega

-- Exponent of one unit in the last place: 24 significant bits, subnormal below 2^-126.
def ulpExponent (q : ℚ) : ℤ :=
  max (Int.log 2 |q|) (-126) - 23

def toBinary32 (q : ℚ) : ℚ :=
  roundHalfEven (q / 2 ^ ulpExponent q) * 2 ^ ulpExponent q

@[simp] theorem toBinary32_zero : toBinary32 0 = 0 := by
  simp [toBinary32]

theorem ulpExponent_neg (q : ℚ) : ulpExponent (-q) = ulpExponent q := by
  rw [ulpExponent, ulpExponent, abs_neg]

theorem toBinary32_neg (q : ℚ) : toBinary32 (-q) = -toBinary32 q := by
  rw [toBinary32, toBinary32, ulpExponent_neg, neg_div, roundHalfEven_neg]
  push_cast
  ring

theorem toBinary32_abs {q : ℚ} (float : toBinary32 q = q) : toBinary32 |q| = |q| := by
  rcases abs_choice q with same | same <;> rw [same]
  next => exact float
  next => rw [toBinary32_neg, float]

theorem toBinary32_two_zpow {e : ℤ} (normal : -126 ≤ e) : toBinary32 (2 ^ e) = 2 ^ e := by
  have log : Int.log 2 |(2 : ℚ) ^ e| = e := by
    rw [abs_of_pos (zpow_pos two_pos e)]
    exact_mod_cast Int.log_zpow (R := ℚ) (by norm_num : 1 < 2) e
  have scaled : (2 : ℚ) ^ e / 2 ^ (e - 23) = ((2 ^ 23 : ℤ) : ℚ) := by
    rw [← zpow_sub₀ two_ne_zero]
    norm_num
  rw [toBinary32, ulpExponent, log, max_eq_left normal, scaled, roundHalfEven_intCast, ← scaled,
    div_mul_cancel₀ _ (zpow_ne_zero _ two_ne_zero)]

theorem abs_lt_two_pow_ulp (q : ℚ) : |q| < 2 ^ (ulpExponent q + 24) := by
  have bound := Int.lt_zpow_succ_log_self (b := 2) one_lt_two |q|
  push_cast at bound
  calc |q| < 2 ^ (Int.log 2 |q| + 1) := bound
    _ ≤ 2 ^ (ulpExponent q + 24) := by
      apply zpow_le_zpow_right₀ one_le_two
      unfold ulpExponent
      omega

theorem two_pow_ulp_le_abs {q : ℚ} (nonzero : q ≠ 0) (normal : -126 < Int.log 2 |q|) :
    2 ^ (ulpExponent q + 23) ≤ |q| := by
  have bound := Int.zpow_log_le_self (b := 2) one_lt_two (abs_pos.mpr nonzero)
  push_cast at bound
  have exponent : ulpExponent q + 23 = Int.log 2 |q| := by unfold ulpExponent; omega
  rwa [exponent]

theorem toBinary32_le_of_le {q : ℚ} {n : ℤ} (le : q ≤ n * 2 ^ ulpExponent q) :
    toBinary32 q ≤ n * 2 ^ ulpExponent q := by
  have unit : (0 : ℚ) < 2 ^ ulpExponent q := zpow_pos two_pos _
  have scaled : roundHalfEven (q / 2 ^ ulpExponent q) ≤ n := by
    simpa using roundHalfEven_mono ((div_le_iff₀ unit).mpr le)
  exact mul_le_mul_of_nonneg_right (by exact_mod_cast scaled) unit.le

theorem le_toBinary32_of_le {q : ℚ} {n : ℤ} (le : n * 2 ^ ulpExponent q ≤ q) :
    n * 2 ^ ulpExponent q ≤ toBinary32 q := by
  have unit : (0 : ℚ) < 2 ^ ulpExponent q := zpow_pos two_pos _
  have scaled : n ≤ roundHalfEven (q / 2 ^ ulpExponent q) := by
    simpa using roundHalfEven_mono ((le_div_iff₀ unit).mpr le)
  exact mul_le_mul_of_nonneg_right (by exact_mod_cast scaled) unit.le

theorem toBinary32_nonneg {q : ℚ} (nonneg : 0 ≤ q) : 0 ≤ toBinary32 q := by
  simpa using le_toBinary32_of_le (n := 0) (by simpa using nonneg)

theorem toBinary32_nonpos {q : ℚ} (nonpos : q ≤ 0) : toBinary32 q ≤ 0 := by
  simpa using toBinary32_le_of_le (n := 0) (by simpa using nonpos)

theorem two_pow_ulp_add (q : ℚ) (k : ℕ) :
    (2 : ℚ) ^ (ulpExponent q + k) = ((2 ^ k : ℕ) : ℤ) * 2 ^ ulpExponent q := by
  rw [zpow_add₀ two_ne_zero, zpow_natCast]
  push_cast
  ring

theorem ulpExponent_mono {x y : ℚ} (nonzero : x ≠ 0) (le : |x| ≤ |y|) :
    ulpExponent x ≤ ulpExponent y := by
  have log := Int.log_mono_right (b := 2) (abs_pos.mpr nonzero) le
  unfold ulpExponent
  omega

theorem toBinary32_le_of_ulpExponent_lt {x y : ℚ} (pos : 0 < x) (le : x ≤ y)
    (lower : ulpExponent x < ulpExponent y) : toBinary32 x ≤ toBinary32 y := by
  have normal : -126 < Int.log 2 |y| := by unfold ulpExponent at lower; omega
  calc toBinary32 x ≤ ((2 ^ 24 : ℕ) : ℤ) * 2 ^ ulpExponent x := by
        apply toBinary32_le_of_le
        rw [← two_pow_ulp_add]
        exact (le_abs_self x).trans (abs_lt_two_pow_ulp x).le
    _ = 2 ^ (ulpExponent x + (24 : ℕ)) := (two_pow_ulp_add x 24).symm
    _ ≤ 2 ^ (ulpExponent y + (23 : ℕ)) := zpow_le_zpow_right₀ one_le_two (by omega)
    _ = ((2 ^ 23 : ℕ) : ℤ) * 2 ^ ulpExponent y := two_pow_ulp_add y 23
    _ ≤ toBinary32 y := by
        have big := two_pow_ulp_le_abs (pos.trans_le le).ne' normal
        rw [abs_of_pos (pos.trans_le le)] at big
        apply le_toBinary32_of_le
        rw [← two_pow_ulp_add]
        exact big

theorem toBinary32_mono : Monotone toBinary32 := by
  intro x y le
  by_cases cross : x ≤ 0 ∧ 0 ≤ y
  · exact (toBinary32_nonpos cross.1).trans (toBinary32_nonneg cross.2)
  rcases lt_trichotomy (ulpExponent x) (ulpExponent y) with lower | same | higher
  next =>
    have pos : 0 < x := by
      by_contra nonpos
      have neg : y < 0 := not_le.mp fun nonneg => cross ⟨not_lt.mp nonpos, nonneg⟩
      have below := ulpExponent_mono (y := x) neg.ne
        (by rw [abs_of_neg neg, abs_of_neg (le.trans_lt neg)]; linarith)
      omega
    exact toBinary32_le_of_ulpExponent_lt pos le lower
  next =>
    have unit : (0 : ℚ) < 2 ^ ulpExponent y := zpow_pos two_pos _
    unfold toBinary32
    rw [same]
    exact mul_le_mul_of_nonneg_right
      (by exact_mod_cast roundHalfEven_mono (div_le_div_of_nonneg_right le unit.le)) unit.le
  next =>
    have neg : y < 0 := by
      by_contra nonneg
      have pos : 0 < x := not_le.mp fun nonpos => cross ⟨nonpos, not_lt.mp nonneg⟩
      have above := ulpExponent_mono (y := y) pos.ne'
        (by rw [abs_of_pos pos, abs_of_pos (pos.trans_le le)]; exact le)
      omega
    have negated := toBinary32_le_of_ulpExponent_lt (neg_pos.mpr neg) (neg_le_neg le)
      (by rwa [ulpExponent_neg, ulpExponent_neg])
    rwa [toBinary32_neg, toBinary32_neg, neg_le_neg_iff] at negated

theorem toBinary32_intCast {n : ℤ} (small : |n| < 2 ^ 24) : toBinary32 n = n := by
  rcases eq_or_ne n 0 with rfl | nonzero
  next => simp
  have log : Int.log 2 |(n : ℚ)| < 24 := by
    rw [← Int.lt_zpow_iff_log_lt one_lt_two (by positivity)]
    rw [← Int.cast_abs]
    exact_mod_cast small
  obtain ⟨k, exponent⟩ : ∃ k : ℕ, ulpExponent n = -k :=
    ⟨(-ulpExponent n).toNat, by unfold ulpExponent at *; omega⟩
  have whole : (n : ℚ) / 2 ^ ulpExponent n = ((n * 2 ^ k : ℤ) : ℚ) := by
    rw [exponent, zpow_neg, zpow_natCast, div_inv_eq_mul]
    push_cast
    rfl
  rw [toBinary32, whole, roundHalfEven_intCast, exponent, zpow_neg, zpow_natCast]
  push_cast
  field_simp

end NeuronOS.Shared
