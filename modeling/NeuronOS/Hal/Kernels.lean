import NeuronOS.Hal.Packing
import NeuronOS.Shared.Binary32
import Mathlib.Algebra.BigOperators.Group.Finset
import Mathlib.Algebra.Order.BigOperators.Group.Finset

set_option autoImplicit false

namespace NeuronOS.Hal

open NeuronOS.Shared

-- `int32_t` accumulation wraps modulo 2^32.
def wrapInt32 (x : Int) : Int :=
  (x + 2147483648) % 4294967296 - 2147483648

theorem wrapInt32_of_range {x : Int} (low : -2147483648 ≤ x) (high : x < 2147483648) :
    wrapInt32 x = x := by
  unfold wrapInt32
  omega

theorem int8_toInt_range (x : Int8) : -128 ≤ x.toInt ∧ x.toInt ≤ 127 := by
  have byte := x.toBitVec.isLt
  simp only [Int8.toInt, BitVec.toInt_eq_toNat_cond]
  split <;> omega

-- A cell holds the float last stored at its offset, and `none` once a store at another offset has
-- overwritten some of its four bytes.
def storeFloat (mem : Nat → Option ℚ) (offset : Nat) (value : ℚ) : Nat → Option ℚ := fun o =>
  if o = offset then some value
  else if o < offset + 4 ∧ offset < o + 4 then none
  else mem o

def blockDot (packed : Nat → UInt8) (base : Nat) (y : Nat → Int8) (yBase : Nat) (sum : Int) : Int :=
  (List.range scalarQkI2S).foldl (fun sum j =>
    wrapInt32 (sum + (unpackI2 packed base j).toNat * (y (yBase + j)).toInt)) sum

def rowDot (packed : Nat → UInt8) (rowBase nb : Nat) (y : Nat → Int8) : Int :=
  (List.range nb).foldl (fun sum block =>
    blockDot packed (rowBase + block * 32) y (block * scalarQkI2S) sum) 0

-- scalar_vec_dot_i2_i8, without the unused strides bs and by.
def scalarVecDotI2I8 (n : Nat) (s : Nat → Option ℚ) (vx : Nat → UInt8) (bx : Nat)
    (vy : Nat → Int8) (nrc : Nat) : Nat → Option ℚ :=
  (List.range nrc).foldl (fun s row =>
    storeFloat s (row * 4) (toBinary32 (rowDot vx (row * (bx / 4)) (n / scalarQkI2S) vy))) s

-- scalar_gemv_i2_i8, without the unused column count nc.
def scalarGemvI2I8 (n : Nat) (s : Nat → Option ℚ) (bs : Nat) (vx : Nat → UInt8)
    (vy : Nat → Int8) (nr : Nat) : Nat → Option ℚ :=
  (List.range nr).foldl (fun s row =>
    storeFloat s (row * bs)
      (toBinary32 (rowDot vx (row * (n / scalarQkI2S * 32)) (n / scalarQkI2S) vy))) s

-- scalar_gemm_i2_i8: the scalar fallback's GEMM is one GEMV call with the same arguments.
def scalarGemmI2I8 (n : Nat) (s : Nat → Option ℚ) (bs : Nat) (vx : Nat → UInt8)
    (vy : Nat → Int8) (nr : Nat) : Nat → Option ℚ :=
  scalarGemvI2I8 n s bs vx vy nr

-- The literal 1e-6 below which a weight is quantized to zero.
def zeroThreshold : ℚ := 1 / 1000000

def maxAbs (src : Nat → ℚ) (n : Nat) : ℚ :=
  (List.range n).foldl (fun maxVal i => if |src i| > maxVal then |src i| else maxVal) 0

def quantCode (scale w : ℚ) : UInt8 :=
  if |w| < zeroThreshold then 1 else if w * scale > 0 then 2 else 0

-- The packed bytes, the float scale stored at byte n / 4 after them, and the returned size.
structure QuantizedI2 where
  packed : Nat → UInt8
  scale : ℚ
  size : Nat

def scalarQuantizeI2 (src : Nat → ℚ) (dst : Nat → UInt8) (nrow nPerRow : Nat) : QuantizedI2 :=
  let n := nrow * nPerRow
  let scale := maxAbs src n
  { packed := packI2 (fun i => quantCode scale (src i)) n dst
    scale := toBinary32 scale
    size := n / 4 + 32 }

-- A weight's code by its sign: 1 within the zero threshold, 2 above it, 0 below; `quantCode`
-- reaches it through the scale.
def ternaryCode (w : ℚ) : Int :=
  if |w| < zeroThreshold then 1 else if zeroThreshold ≤ w then 2 else 0

def ternaryRowDot (W : Nat → ℚ) (y : Nat → Int8) (nPerRow r : Nat) : Int :=
  ∑ j ∈ Finset.range nPerRow, ternaryCode (W (r * nPerRow + j)) * (y j).toInt

theorem le_maxAbs (src : Nat → ℚ) (n : Nat) : 0 ≤ maxAbs src n ∧ ∀ i < n, |src i| ≤ maxAbs src n := by
  induction n with
  | zero => simp [maxAbs]
  | succ n ih =>
    simp only [maxAbs, List.range_succ, List.foldl_append, List.foldl_cons, List.foldl_nil] at *
    split_ifs with larger
    next =>
      refine ⟨abs_nonneg _, fun i below => ?_⟩
      rcases Nat.lt_succ_iff_lt_or_eq.mp below with earlier | rfl
      next => exact (ih.2 i earlier).trans larger.le
      next => exact le_rfl
    next =>
      refine ⟨ih.1, fun i below => ?_⟩
      rcases Nat.lt_succ_iff_lt_or_eq.mp below with earlier | rfl
      next => exact ih.2 i earlier
      next => exact not_lt.mp larger

theorem quantCode_toNat {scale w : ℚ} (dominates : |w| ≤ scale) :
    ((quantCode scale w).toNat : Int) = ternaryCode w := by
  unfold quantCode ternaryCode
  by_cases small : |w| < zeroThreshold
  next => simp [small]
  next =>
    have positive : 0 < scale :=
      lt_of_lt_of_le (by unfold zeroThreshold at *; linarith) (le_trans (not_lt.mp small) dominates)
    by_cases sign : 0 < w
    next =>
      have big : zeroThreshold ≤ w := by rw [abs_of_pos sign] at small; exact not_lt.mp small
      simp [small, big, mul_pos sign positive]
    next =>
      have below : ¬ zeroThreshold ≤ w := by unfold zeroThreshold at *; intro h; exact sign (by linarith)
      have nonpos : ¬ 0 < w * scale := by
        intro h; exact sign (pos_of_mul_pos_left h positive.le)
      simp [small, below, nonpos]

theorem quantCode_toNat_le (scale w : ℚ) : (quantCode scale w).toNat ≤ 2 := by
  unfold quantCode
  split_ifs <;> decide

theorem sum_range_bounds (terms : Nat → Int) (k : Nat)
    (bounded : ∀ j < k, -256 ≤ terms j ∧ terms j ≤ 254) :
    -256 * (k : Int) ≤ ∑ j ∈ Finset.range k, terms j ∧ ∑ j ∈ Finset.range k, terms j ≤ 254 * (k : Int) := by
  induction k with
  | zero => simp
  | succ k ih =>
    have last := bounded k (by omega)
    have earlier := ih fun j below => bounded j (by omega)
    rw [Finset.sum_range_succ]
    push_cast
    omega

theorem foldl_wrapInt32 (terms : Nat → Int) (k : Nat)
    (bounded : ∀ j < k, -256 ≤ terms j ∧ terms j ≤ 254) (fits : 256 * k ≤ 2147483648) :
    (List.range k).foldl (fun sum j => wrapInt32 (sum + terms j)) 0 = ∑ j ∈ Finset.range k, terms j := by
  induction k with
  | zero => simp
  | succ k ih =>
    have earlier := sum_range_bounds terms k fun j below => bounded j (by omega)
    have last := bounded k (by omega)
    rw [List.range_succ, List.foldl_append, ih (fun j below => bounded j (by omega)) (by omega),
      List.foldl_cons, List.foldl_nil, Finset.sum_range_succ]
    apply wrapInt32_of_range <;> omega

theorem rowDot_flat (packed : Nat → UInt8) (first blocks : Nat) (y : Nat → Int8) :
    rowDot packed (first * 32) blocks y =
      (List.range (blocks * scalarQkI2S)).foldl (fun sum k =>
        wrapInt32 (sum + (codeAt packed (first * scalarQkI2S + k)).toNat * (y k).toInt)) 0 := by
  induction blocks with
  | zero => simp [rowDot]
  | succ blocks ih =>
    have block : ∀ sum, ∀ j ∈ List.range scalarQkI2S,
        wrapInt32 (sum + (codeAt packed (first * scalarQkI2S + (blocks * scalarQkI2S + j))).toNat *
          (y (blocks * scalarQkI2S + j)).toInt) =
        wrapInt32 (sum + (unpackI2 packed (first * 32 + blocks * 32) j).toNat *
          (y (blocks * scalarQkI2S + j)).toInt) := by
      intro sum j mem
      have small := List.mem_range.mp mem
      simp only [scalarQkI2S] at *
      rw [codeAt, scalarQkI2S, show (first * 128 + (blocks * 128 + j)) / 128 * 32 = first * 32 + blocks * 32 by omega,
        show (first * 128 + (blocks * 128 + j)) % 128 = j by omega]
    rw [Nat.succ_mul, List.range_add, List.foldl_append, ← ih, List.foldl_map,
      List.foldl_ext _ _ _ block]
    simp only [rowDot, List.range_succ, List.foldl_append, List.foldl_cons, List.foldl_nil, blockDot]

theorem storeFloat_apply_of_far {mem : Nat → Option ℚ} {offset o : Nat} (value : ℚ)
    (far : o + 4 ≤ offset) : storeFloat mem offset value o = mem o := by
  unfold storeFloat
  rw [if_neg (by omega), if_neg (by omega)]

theorem foldl_storeFloat_last (values : Nat → ℚ) (stride : Nat) (s : Nat → Option ℚ) (rows : Nat) :
    (List.range (rows + 1)).foldl (fun s row => storeFloat s (row * stride) (values row)) s
      (rows * stride) = some (values rows) := by
  simp [List.range_succ, storeFloat]

theorem foldl_storeFloat_apart (values : Nat → ℚ) (stride : Nat) (wide : 4 ≤ stride)
    (s : Nat → Option ℚ) (rows r : Nat) (row : r < rows) :
    (List.range rows).foldl (fun s row => storeFloat s (row * stride) (values row)) s (r * stride) =
      some (values r) := by
  induction rows with
  | zero => omega
  | succ rows ih =>
    rcases Nat.lt_succ_iff_lt_or_eq.mp row with earlier | rfl
    next =>
      have later : (r + 1) * stride ≤ rows * stride := Nat.mul_le_mul_right stride earlier
      rw [List.range_succ, List.foldl_append, List.foldl_cons, List.foldl_nil,
        storeFloat_apply_of_far _ (by rw [Nat.succ_mul] at later; omega), ih earlier]
    next => exact foldl_storeFloat_last values stride s r

theorem foldl_storeFloat (values : Nat → ℚ) (stride : Nat) (s : Nat → Option ℚ) (rows r : Nat)
    (wide : 4 ≤ stride ∨ rows ≤ 1) (row : r < rows) :
    (List.range rows).foldl (fun s row => storeFloat s (row * stride) (values row)) s (r * stride) =
      some (values r) := by
  rcases wide with wide | single
  next => exact foldl_storeFloat_apart values stride wide s rows r row
  next =>
    obtain ⟨rfl, rfl⟩ : r = 0 ∧ rows = 1 := by omega
    exact foldl_storeFloat_last values stride s 0

theorem codeAt_scalarQuantizeI2 (W : Nat → ℚ) (dst : Nat → UInt8) (nrow nPerRow : Nat)
    (aligned : nPerRow % scalarQkI2S = 0) (i : Nat) (inside : i < nrow * nPerRow) :
    ((codeAt (scalarQuantizeI2 W dst nrow nPerRow).packed i).toNat : Int) = ternaryCode (W i) := by
  obtain ⟨nb, rfl⟩ : scalarQkI2S ∣ nPerRow := Nat.dvd_of_mod_eq_zero aligned
  have total : nrow * (scalarQkI2S * nb) = scalarQkI2S * (nrow * nb) := by ring
  rw [total] at inside
  simp only [scalarQuantizeI2]
  rw [total, codeAt_packI2 _ _ _ (fun k _ => (quantCode_toNat_le _ _).trans_lt (by decide)) i inside]
  exact quantCode_toNat ((le_maxAbs W _).2 i inside)

theorem rowDot_scalarQuantizeI2 (W : Nat → ℚ) (dst : Nat → UInt8) (nrow nPerRow : Nat)
    (aligned : nPerRow % scalarQkI2S = 0) (fits : 256 * nPerRow ≤ 2147483648) (y : Nat → Int8)
    (r : Nat) (row : r < nrow) :
    rowDot (scalarQuantizeI2 W dst nrow nPerRow).packed (r * (nPerRow / scalarQkI2S * 32))
        (nPerRow / scalarQkI2S) y = ternaryRowDot W y nPerRow r := by
  have blocks : nPerRow / scalarQkI2S * scalarQkI2S = nPerRow := Nat.div_mul_cancel (Nat.dvd_of_mod_eq_zero aligned)
  have code : ∀ j < nPerRow, ((codeAt (scalarQuantizeI2 W dst nrow nPerRow).packed
      (r * (nPerRow / scalarQkI2S) * scalarQkI2S + j)).toNat : Int) = ternaryCode (W (r * nPerRow + j)) := by
    intro j small
    have index : r * (nPerRow / scalarQkI2S) * scalarQkI2S + j = r * nPerRow + j := by
      rw [Nat.mul_assoc, blocks]
    have inside : r * nPerRow + j < nrow * nPerRow := by
      have := Nat.mul_le_mul_right nPerRow (Nat.succ_le_of_lt row)
      rw [Nat.succ_mul] at this
      omega
    rw [index, codeAt_scalarQuantizeI2 W dst nrow nPerRow aligned _ inside]
  rw [← Nat.mul_assoc, rowDot_flat, blocks, foldl_wrapInt32]
  next =>
    apply Finset.sum_congr rfl
    intro j mem
    rw [code j (Finset.mem_range.mp mem)]
  next =>
    intro j small
    have activation := int8_toInt_range (y j)
    rw [code j small, ternaryCode]
    split_ifs <;> omega
  next => omega

theorem scalar_kernels_ternary_dot (nrow nPerRow bs : Nat) (aligned : nPerRow % scalarQkI2S = 0)
    (fits : 256 * nPerRow ≤ 2147483648) (wide : 4 ≤ bs ∨ nrow ≤ 1) (W : Nat → ℚ) (y : Nat → Int8)
    (dst : Nat → UInt8) (s : Nat → Option ℚ) :
    ∀ r < nrow,
      scalarGemvI2I8 nPerRow s bs (scalarQuantizeI2 W dst nrow nPerRow).packed y nrow (r * bs) =
          some (toBinary32 (ternaryRowDot W y nPerRow r)) ∧
        scalarVecDotI2I8 nPerRow s (scalarQuantizeI2 W dst nrow nPerRow).packed nPerRow y nrow (r * 4) =
          some (toBinary32 (ternaryRowDot W y nPerRow r)) := by
  intro r row
  have stride : nPerRow / 4 = nPerRow / scalarQkI2S * 32 := by
    simp only [scalarQkI2S] at *
    omega
  constructor
  next =>
    rw [scalarGemvI2I8, foldl_storeFloat _ bs s nrow r wide row,
      rowDot_scalarQuantizeI2 W dst nrow nPerRow aligned fits y r row]
  next =>
    rw [scalarVecDotI2I8, foldl_storeFloat _ 4 s nrow r (.inl le_rfl) row, stride,
      rowDot_scalarQuantizeI2 W dst nrow nPerRow aligned fits y r row]

-- One row, stored at offset 0 whatever the stride.
theorem scalar_kernels_ternary_dot_one_row :
    128 % scalarQkI2S = 0 ∧ 256 * 128 ≤ 2147483648 ∧ (4 ≤ 0 ∨ 1 ≤ 1) ∧
      ∀ r < 1,
        scalarGemvI2I8 128 (fun _ => none) 0
            (scalarQuantizeI2 (fun _ => 1) (fun _ => 0) 1 128).packed (fun _ => 1) 1 (r * 0) =
            some (toBinary32 (ternaryRowDot (fun _ => 1) (fun _ => 1) 128 r)) ∧
          scalarVecDotI2I8 128 (fun _ => none) (scalarQuantizeI2 (fun _ => 1) (fun _ => 0) 1 128).packed
              128 (fun _ => 1) 1 (r * 4) =
            some (toBinary32 (ternaryRowDot (fun _ => 1) (fun _ => 1) 128 r)) :=
  ⟨by decide, by decide, .inr le_rfl,
    scalar_kernels_ternary_dot 1 128 0 (by decide) (by decide) (.inr le_rfl) _ _ _ _⟩

theorem ternaryRowDot_of_code (W : Nat → ℚ) (nPerRow r : Nat) (c : Int)
    (codes : ∀ j < nPerRow, ternaryCode (W (r * nPerRow + j)) = c) :
    ternaryRowDot W (fun _ => 1) nPerRow r = c * nPerRow := by
  have unit : (1 : Int8).toInt = 1 := by decide
  rw [ternaryRowDot, Finset.sum_congr rfl fun j mem => by rw [codes j (Finset.mem_range.mp mem), unit]]
  simp [mul_comm]

-- With output stride 0 both rows are stored at offset 0.
theorem scalar_gemv_zero_stride_overwrites :
    scalarGemvI2I8 128 (fun _ => none) 0
        (scalarQuantizeI2 (fun i => if i < 128 then 1 else 0) (fun _ => 0) 2 128).packed
        (fun _ => 1) 2 (0 * 0) ≠
      some (toBinary32 (ternaryRowDot (fun i => if i < 128 then 1 else 0) (fun _ => 1) 128 0)) := by
  have last := foldl_storeFloat_last (fun row => toBinary32 (rowDot
    (scalarQuantizeI2 (fun i => if i < 128 then 1 else 0) (fun _ => 0) 2 128).packed
    (row * (128 / scalarQkI2S * 32)) (128 / scalarQkI2S) (fun _ => 1))) 0 (fun _ => none) 1
  rw [rowDot_scalarQuantizeI2 _ _ 2 128 (by decide) (by decide) _ 1 (by decide)] at last
  have zero : ternaryCode 0 = 1 := by norm_num [ternaryCode, zeroThreshold]
  have one : ternaryCode 1 = 2 := by norm_num [ternaryCode, zeroThreshold]
  have zeros := ternaryRowDot_of_code (fun i => if i < 128 then 1 else 0) 128 1 1
    fun j _ => by dsimp only; rw [if_neg (by omega), zero]
  have ones := ternaryRowDot_of_code (fun i => if i < 128 then 1 else 0) 128 0 2
    fun j below => by dsimp only; rw [if_pos (by omega), one]
  rw [scalarGemvI2I8, show 0 * 0 = 1 * 0 from rfl, last, zeros, ones,
    toBinary32_intCast (by decide), toBinary32_intCast (by decide)]
  decide

theorem rowDot_congr (packed : Nat → UInt8) (first nb : Nat) {y y' : Nat → Int8}
    (same : ∀ j < nb * scalarQkI2S, y j = y' j) :
    rowDot packed (first * 32) nb y = rowDot packed (first * 32) nb y' := by
  rw [rowDot_flat, rowDot_flat]
  exact List.foldl_ext _ _ _ fun sum k mem => by rw [same k (List.mem_range.mp mem)]

theorem scalar_gemm_reads_first_vector (n : Nat) (s : Nat → Option ℚ) (bs : Nat) (vx : Nat → UInt8)
    (nr : Nat) {vy vy' : Nat → Int8} (same : ∀ j < n, vy j = vy' j) :
    scalarGemmI2I8 n s bs vx vy nr = scalarGemmI2I8 n s bs vx vy' nr := by
  have within : ∀ j < n / scalarQkI2S * scalarQkI2S, vy j = vy' j := fun j below =>
    same j (lt_of_lt_of_le below (Nat.div_mul_le_self n scalarQkI2S))
  refine List.foldl_ext _ _ _ fun out row _ => ?_
  rw [← Nat.mul_assoc, rowDot_congr vx _ _ within]

-- Two batches that differ only in the second activation vector.
theorem gemm_second_vector_ignored :
    (∀ j < 128, (if j < 128 then 0 else 1 : Int8) = 0) ∧
      scalarGemmI2I8 128 (fun _ => none) 4 (fun _ => 0x80) (fun j => if j < 128 then 0 else 1) 1 =
        scalarGemmI2I8 128 (fun _ => none) 4 (fun _ => 0x80) (fun _ => 0) 1 :=
  ⟨fun _ below => if_pos below, scalar_gemm_reads_first_vector 128 _ 4 _ 1 fun _ below => if_pos below⟩

end NeuronOS.Hal
