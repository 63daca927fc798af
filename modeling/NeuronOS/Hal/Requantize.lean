import NeuronOS.Hal.Kernels

set_option autoImplicit false

namespace NeuronOS.Hal

open NeuronOS.Shared

-- The round trip the format is meant to have: weight i read back as (raw - 1) * scale.
def dequantizeI2 (q : QuantizedI2) (i : Nat) : ℚ :=
  ((codeAt q.packed i).toNat - 1 : ℚ) * q.scale

theorem orSlots_congr {q8 q8' : Nat → UInt8} (blk p : Nat) (b : UInt8) (group : Nat)
    (same : ∀ g < group, q8 (blk * scalarQkI2S + (32 * g + p)) = q8' (blk * scalarQkI2S + (32 * g + p))) :
    orSlots q8 blk p b group = orSlots q8' blk p b group := by
  induction group with
  | zero => rfl
  | succ group ih =>
    rw [orSlots, orSlots, ih fun g below => same g (by omega), same group (by omega)]

theorem packI2_congr {q8 q8' : Nat → UInt8} {n : Nat} (aligned : scalarQkI2S ∣ n)
    (same : ∀ i < n, q8 i = q8' i) (out out' : Nat → UInt8) {i : Nat} (written : i < n / 4) :
    packI2 q8 n out i = packI2 q8' n out' i := by
  obtain ⟨nb, rfl⟩ := aligned
  have inside : i < 32 * (scalarQkI2S * nb / scalarQkI2S) := by simp only [scalarQkI2S] at *; omega
  rw [packI2_apply, packI2_apply, if_pos inside, if_pos inside]
  exact orSlots_congr _ _ _ _ fun g below => same _ (by simp only [scalarQkI2S] at *; omega)

theorem maxAbs_le {src : Nat → ℚ} {n : Nat} {bound : ℚ} (nonneg : 0 ≤ bound)
    (below : ∀ i < n, |src i| ≤ bound) : maxAbs src n ≤ bound := by
  induction n with
  | zero => exact nonneg
  | succ n ih =>
    simp only [maxAbs, List.range_succ, List.foldl_append, List.foldl_cons, List.foldl_nil] at ih ⊢
    split_ifs
    exacts [below n (by omega), ih fun i earlier => below i (by omega)]

theorem maxAbs_attained (src : Nat → ℚ) (n : Nat) : maxAbs src n = 0 ∨ ∃ j < n, |src j| = maxAbs src n := by
  induction n with
  | zero => exact .inl rfl
  | succ n ih =>
    simp only [maxAbs, List.range_succ, List.foldl_append, List.foldl_cons, List.foldl_nil] at ih ⊢
    split_ifs
    next => exact .inr ⟨n, by omega, rfl⟩
    next => exact ih.imp_right fun ⟨j, earlier, attained⟩ => ⟨j, by omega, attained⟩

theorem maxAbs_eq {src : Nat → ℚ} {n : Nat} {bound : ℚ} (nonneg : 0 ≤ bound)
    (below : ∀ i < n, |src i| ≤ bound) (attained : bound = 0 ∨ ∃ j < n, |src j| = bound) :
    maxAbs src n = bound := by
  refine le_antisymm (maxAbs_le nonneg below) ?_
  rcases attained with zero | ⟨j, inside, reached⟩
  next => exact zero ▸ (le_maxAbs src n).1
  next => exact reached ▸ (le_maxAbs src n).2 j inside

theorem toBinary32_maxAbs {src : Nat → ℚ} {n : Nat} (floats : ∀ i < n, toBinary32 (src i) = src i) :
    toBinary32 (maxAbs src n) = maxAbs src n := by
  rcases maxAbs_attained src n with zero | ⟨j, inside, reached⟩
  next => rw [zero, toBinary32_zero]
  next => rw [← reached, toBinary32_abs (floats j inside)]

theorem codeAt_quantized (W : Nat → ℚ) (dst : Nat → UInt8) {nrow nPerRow : Nat}
    (aligned : scalarQkI2S ∣ nrow * nPerRow) {i : Nat} (inside : i < nrow * nPerRow) :
    codeAt (scalarQuantizeI2 W dst nrow nPerRow).packed i = quantCode (maxAbs W (nrow * nPerRow)) (W i) := by
  obtain ⟨nb, total⟩ := aligned
  simp only [scalarQuantizeI2]
  rw [total] at inside ⊢
  rw [codeAt_packI2 _ _ _ (fun k _ => (quantCode_toNat_le _ _).trans_lt (by decide)) i inside, ← total]

theorem dequantized_value {scale w : ℚ} (dominates : |w| ≤ scale) :
    ((quantCode scale w).toNat - 1 : ℚ) * scale =
      if |w| < zeroThreshold then 0 else if 0 < w then scale else -scale := by
  unfold quantCode
  by_cases small : |w| < zeroThreshold
  next => simp [small]
  next =>
    have positive : 0 < scale :=
      lt_of_lt_of_le (by unfold zeroThreshold at *; linarith) (le_trans (not_lt.mp small) dominates)
    by_cases sign : 0 < w
    next => simp [small, sign, mul_pos sign positive]; norm_num
    next =>
      have nonpos : ¬ 0 < w * scale := fun h => sign (pos_of_mul_pos_left h positive.le)
      simp [small, sign, nonpos]

theorem quantCode_dequantized {scale w : ℚ} (threshold : zeroThreshold ≤ scale) :
    quantCode scale (if |w| < zeroThreshold then 0 else if 0 < w then scale else -scale) = quantCode scale w := by
  have positive : 0 < scale := lt_of_lt_of_le (by norm_num [zeroThreshold]) threshold
  have large : ¬ |scale| < zeroThreshold := by rw [abs_of_pos positive]; exact not_lt.mpr threshold
  have zero : |(0 : ℚ)| < zeroThreshold := by norm_num [zeroThreshold]
  unfold quantCode
  by_cases small : |w| < zeroThreshold
  next => simp only [small, if_true, zero]
  by_cases sign : 0 < w
  next => simp [small, sign, large, mul_pos positive positive, mul_pos sign positive]
  next =>
    have opposite : ¬ 0 < -scale * scale := by nlinarith
    have nonpos : ¬ 0 < w * scale := fun h => sign (pos_of_mul_pos_left h positive.le)
    simp only [small, sign, if_false, abs_neg, large, opposite, nonpos]

theorem requantize_packed_and_scale_iff (nrow nPerRow : Nat) (aligned : scalarQkI2S ∣ nrow * nPerRow)
    (W : Nat → ℚ) (floats : ∀ i < nrow * nPerRow, toBinary32 (W i) = W i) (dst dst' : Nat → UInt8) :
    (∀ i < nrow * nPerRow / 4,
      (scalarQuantizeI2 (dequantizeI2 (scalarQuantizeI2 W dst nrow nPerRow)) dst' nrow nPerRow).packed i =
        (scalarQuantizeI2 W dst nrow nPerRow).packed i) ∧
    ((scalarQuantizeI2 (dequantizeI2 (scalarQuantizeI2 W dst nrow nPerRow)) dst' nrow nPerRow).scale =
        (scalarQuantizeI2 W dst nrow nPerRow).scale ↔
      maxAbs W (nrow * nPerRow) = 0 ∨ zeroThreshold ≤ maxAbs W (nrow * nPerRow)) := by
  have bound := le_maxAbs W (nrow * nPerRow)
  have back : ∀ i < nrow * nPerRow, dequantizeI2 (scalarQuantizeI2 W dst nrow nPerRow) i =
      if |W i| < zeroThreshold then 0 else if 0 < W i then maxAbs W (nrow * nPerRow)
      else -maxAbs W (nrow * nPerRow) := by
    intro i inside
    rw [dequantizeI2, codeAt_quantized W dst aligned inside]
    simp only [scalarQuantizeI2]
    rw [toBinary32_maxAbs floats]
    exact dequantized_value (bound.2 i inside)
  show (∀ i < nrow * nPerRow / 4, packI2 _ _ dst' i = packI2 _ _ dst i) ∧
    (toBinary32 (maxAbs (dequantizeI2 (scalarQuantizeI2 W dst nrow nPerRow)) (nrow * nPerRow)) =
      toBinary32 (maxAbs W (nrow * nPerRow)) ↔ _)
  by_cases big : zeroThreshold ≤ maxAbs W (nrow * nPerRow)
  next =>
    have same : maxAbs (dequantizeI2 (scalarQuantizeI2 W dst nrow nPerRow)) (nrow * nPerRow) =
        maxAbs W (nrow * nPerRow) := by
      refine maxAbs_eq bound.1 (fun i inside => ?_) ?_
      next =>
        rw [back i inside]
        split_ifs <;> simp [abs_neg, abs_of_nonneg bound.1, bound.1]
      next =>
        refine (maxAbs_attained W _).imp_right fun ⟨j, inside, reached⟩ => ⟨j, inside, ?_⟩
        have large : ¬ |W j| < zeroThreshold := by rw [reached]; exact not_lt.mpr big
        rw [back j inside, if_neg large]
        split_ifs <;> simp [abs_neg, abs_of_nonneg bound.1]
    refine ⟨fun i written => packI2_congr aligned (fun k inside => ?_) _ _ written, by rw [same]; simp [big]⟩
    rw [same, back k inside, quantCode_dequantized big]
  next =>
    have zero : ∀ i < nrow * nPerRow, dequantizeI2 (scalarQuantizeI2 W dst nrow nPerRow) i = 0 := fun i inside => by
      rw [back i inside, if_pos (lt_of_le_of_lt (bound.2 i inside) (not_le.mp big))]
    have none : maxAbs (dequantizeI2 (scalarQuantizeI2 W dst nrow nPerRow)) (nrow * nPerRow) = 0 :=
      maxAbs_eq le_rfl (fun i inside => by rw [zero i inside, abs_zero]) (.inl rfl)
    refine ⟨fun i written => packI2_congr aligned (fun k inside => ?_) _ _ written, ?_⟩
    next =>
      have small : |W k| < zeroThreshold := lt_of_le_of_lt (bound.2 k inside) (not_le.mp big)
      rw [none, zero k inside, quantCode, quantCode, if_pos (by norm_num [zeroThreshold]), if_pos small]
    next =>
      rw [none, toBinary32_zero, toBinary32_maxAbs floats]
      simp only [big, or_false]
      exact eq_comm

-- A tensor whose only nonzero weight, 2^-21, lies below the 1e-6 threshold.
def tinyTensor (i : Nat) : ℚ :=
  if i = 0 then 2 ^ (-21 : ℤ) else 0

theorem tiny_tensor_scale_lost :
    scalarQkI2S ∣ 1 * 128 ∧ (∀ i < 1 * 128, toBinary32 (tinyTensor i) = tinyTensor i) ∧
      (∀ i < 1 * 128 / 4,
        (scalarQuantizeI2 (dequantizeI2 (scalarQuantizeI2 tinyTensor (fun _ => 0) 1 128)) (fun _ => 0) 1 128).packed i =
          (scalarQuantizeI2 tinyTensor (fun _ => 0) 1 128).packed i) ∧
      (scalarQuantizeI2 (dequantizeI2 (scalarQuantizeI2 tinyTensor (fun _ => 0) 1 128)) (fun _ => 0) 1 128).scale ≠
        (scalarQuantizeI2 tinyTensor (fun _ => 0) 1 128).scale := by
  have aligned : scalarQkI2S ∣ 1 * 128 := dvd_refl _
  have floats : ∀ i < 1 * 128, toBinary32 (tinyTensor i) = tinyTensor i := fun i _ => by
    unfold tinyTensor
    split_ifs
    exacts [toBinary32_two_zpow (by norm_num), toBinary32_zero]
  have peak : maxAbs tinyTensor (1 * 128) = 2 ^ (-21 : ℤ) := by
    refine maxAbs_eq (by positivity) (fun i _ => ?_) (.inr ⟨0, by norm_num, by norm_num [tinyTensor]⟩)
    unfold tinyTensor
    split_ifs <;> norm_num [abs_of_pos]
  obtain ⟨packed, scale⟩ := requantize_packed_and_scale_iff 1 128 aligned tinyTensor floats (fun _ => 0) (fun _ => 0)
  refine ⟨aligned, floats, packed, fun same => ?_⟩
  rcases scale.mp same with zero | reached
  next => rw [peak] at zero; exact absurd zero (by positivity)
  next => rw [peak, zeroThreshold] at reached; norm_num at reached

end NeuronOS.Hal
