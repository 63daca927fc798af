import NeuronOS.Shared.Binary32

set_option autoImplicit false

namespace NeuronOS.Shared

-- `double` values are rationals too: 53 significant bits, subnormal below 2^-1022. An `int`
-- converts to `double` exactly.

def ulpExponent64 (q : ℚ) : ℤ :=
  max (Int.log 2 |q|) (-1022) - 52

def toBinary64 (q : ℚ) : ℚ :=
  roundHalfEven (q / 2 ^ ulpExponent64 q) * 2 ^ ulpExponent64 q

-- `(int)x` for an x in int's range: the fraction is dropped, toward zero.
def truncate (x : ℚ) : ℤ :=
  if 0 ≤ x then ⌊x⌋ else ⌈x⌉

theorem truncate_of_between {x : ℚ} {m : ℤ} (nonneg : 0 ≤ m) (low : (m : ℚ) ≤ x) (high : x < m + 1) :
    truncate x = m := by
  rw [truncate, if_pos (le_trans (by exact_mod_cast nonneg) low), Int.floor_eq_iff]
  exact ⟨low, high⟩

theorem roundHalfEven_eq_of_near {q : ℚ} {n : ℤ} (near : |q - n| < 1 / 2) : roundHalfEven q = n := by
  have close : |((roundHalfEven q - n : ℤ) : ℚ)| < 1 := by
    push_cast
    calc |(roundHalfEven q : ℚ) - n| ≤ |(roundHalfEven q : ℚ) - q| + |q - n| := abs_sub_le _ _ _
      _ < 1 := by linarith [roundHalfEven_near q]
  have zero : roundHalfEven q - n = 0 := Int.abs_lt_one_iff.mp (by exact_mod_cast close)
  omega

theorem abs_lt_two_pow_ulp64 (q : ℚ) : |q| < 2 ^ (ulpExponent64 q + 53) := by
  have bound := Int.lt_zpow_succ_log_self (b := 2) one_lt_two |q|
  push_cast at bound
  calc |q| < 2 ^ (Int.log 2 |q| + 1) := bound
    _ ≤ 2 ^ (ulpExponent64 q + 53) := by
      apply zpow_le_zpow_right₀ one_le_two
      unfold ulpExponent64
      omega

theorem two_pow_ulp64_le_abs {q : ℚ} (nonzero : q ≠ 0) (normal : -1022 < Int.log 2 |q|) :
    2 ^ (ulpExponent64 q + 52) ≤ |q| := by
  have bound := Int.zpow_log_le_self (b := 2) one_lt_two (abs_pos.mpr nonzero)
  push_cast at bound
  have exponent : ulpExponent64 q + 52 = Int.log 2 |q| := by unfold ulpExponent64; omega
  rwa [exponent]

theorem toBinary64_near (q : ℚ) : |toBinary64 q - q| ≤ 2 ^ ulpExponent64 q / 2 := by
  have unit : (0 : ℚ) < 2 ^ ulpExponent64 q := zpow_pos two_pos _
  have error : toBinary64 q - q =
      ((roundHalfEven (q / 2 ^ ulpExponent64 q) : ℚ) - q / 2 ^ ulpExponent64 q) * 2 ^ ulpExponent64 q := by
    rw [toBinary64, sub_mul, div_mul_cancel₀ _ unit.ne']
  rw [error, abs_mul, abs_of_pos unit]
  calc _ ≤ 1 / 2 * 2 ^ ulpExponent64 q := mul_le_mul_of_nonneg_right (roundHalfEven_near _) unit.le
    _ = 2 ^ ulpExponent64 q / 2 := by ring

theorem ulp64_of_range {q : ℚ} (low : 1 ≤ q) (high : q < 2 ^ 31) :
    ∃ k : ℕ, 22 ≤ k ∧ (2 : ℚ) ^ ulpExponent64 q = 1 / 2 ^ k ∧ q * 2 ^ k < 2 ^ 53 := by
  have pos : 0 < q := by linarith only [low]
  have normal : -1022 < Int.log 2 |q| := by
    have one : ((2 : ℕ) : ℚ) ^ (0 : ℤ) ≤ |q| := by rw [abs_of_pos pos]; simpa using low
    have := (Int.zpow_le_iff_le_log (b := 2) one_lt_two (abs_pos.mpr pos.ne')).mp one
    omega
  have upper : q < 2 ^ (ulpExponent64 q + 53) := by simpa [abs_of_pos pos] using abs_lt_two_pow_ulp64 q
  have lower : 2 ^ (ulpExponent64 q + 52) ≤ q := by
    simpa [abs_of_pos pos] using two_pow_ulp64_le_abs pos.ne' normal
  have tiny : ulpExponent64 q ≤ -22 := by
    have := (zpow_lt_zpow_iff_right₀ (by norm_num : (1 : ℚ) < 2)).mp
      (lower.trans_lt (high.trans_eq (by norm_num : (2 : ℚ) ^ 31 = 2 ^ (31 : ℤ))))
    omega
  obtain ⟨k, exponent⟩ := Int.exists_eq_neg_ofNat (by omega : ulpExponent64 q ≤ 0)
  have unit : (2 : ℚ) ^ ulpExponent64 q = 1 / 2 ^ k := by rw [exponent, zpow_neg, zpow_natCast, one_div]
  refine ⟨k, by omega, unit, ?_⟩
  have scale : (2 : ℚ) ^ (ulpExponent64 q + 53) = 2 ^ 53 / 2 ^ k := by
    rw [zpow_add₀ two_ne_zero, unit, one_div_mul_eq_div]
    norm_num
  rwa [scale, lt_div_iff₀ (by positivity)] at upper

-- The double nearest 0.6 lies 1/(5 * 2^53) below it.
theorem toBinary64_three_fifths : toBinary64 (3 / 5) = 3 / 5 - 1 / (5 * 2 ^ 53) := by
  have log : Int.log 2 |(3 / 5 : ℚ)| = -1 := by
    rw [abs_of_pos (by norm_num)]
    have low := (Int.zpow_le_iff_le_log (b := 2) one_lt_two (by norm_num : (0 : ℚ) < 3 / 5)).mp
      (by norm_num : ((2 : ℕ) : ℚ) ^ (-1 : ℤ) ≤ 3 / 5)
    have high := (Int.lt_zpow_iff_log_lt (b := 2) one_lt_two (by norm_num : (0 : ℚ) < 3 / 5)).mp
      (by norm_num : (3 / 5 : ℚ) < ((2 : ℕ) : ℚ) ^ (0 : ℤ))
    omega
  have rounded : roundHalfEven (3 / 5 / 2 ^ (-53 : ℤ)) = 5404319552844595 :=
    roundHalfEven_eq_of_near (by norm_num [abs_of_pos])
  rw [toBinary64, ulpExponent64, log, show max (-1 : ℤ) (-1022) - 52 = -53 by norm_num, rounded]
  norm_num

end NeuronOS.Shared
