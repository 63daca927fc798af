import Mathlib.Data.List.Range
import Mathlib.Logic.Function.Basic
import Mathlib.Tactic.Ring

set_option autoImplicit false

namespace NeuronOS.Hal

-- SCALAR_QK_I2_S: weights per quantization block; a block packs into 32 bytes.
def scalarQkI2S : Nat := 128

theorem uint8_ext {a b : UInt8} (same : a.toNat = b.toNat) : a = b :=
  UInt8.eq_of_toBitVec_eq (BitVec.eq_of_toNat_eq same)

theorem uint8_toNat_lt (a : UInt8) : a.toNat < 256 :=
  a.toBitVec.isLt

theorem uint8_toNat_or (a b : UInt8) : (a ||| b).toNat = a.toNat ||| b.toNat :=
  BitVec.toNat_or _ _

theorem uint8_toNat_shiftLeft (a b : UInt8) :
    (a <<< b).toNat = a.toNat <<< (b.toNat % 8) % 256 := by
  show (a.toBitVec <<< (b.toBitVec % 8)).toNat = _
  simp [BitVec.toNat_shiftLeft]
  rfl

theorem uint8_toNat_shiftRight (a b : UInt8) :
    (a >>> b).toNat = a.toNat >>> (b.toNat % 8) := by
  show (a.toBitVec >>> (b.toBitVec % 8)).toNat = _
  simp [BitVec.toNat_ushiftRight]
  rfl

theorem uint8_toNat_ofNat (n : Nat) : (UInt8.ofNat n).toNat = n % 256 :=
  BitVec.toNat_ofNat _ _

def memset (mem : Nat → UInt8) (value : UInt8) (count : Nat) : Nat → UInt8 := fun i =>
  if i < count then value else mem i

-- `mem[index] |= value`
def orInto (mem : Nat → UInt8) (index : Nat) (value : UInt8) : Nat → UInt8 :=
  Function.update mem index (mem index ||| value)

-- `6 - 2 * group_idx`: the bit offset of 2-bit slot `group_idx` within its byte.
def slotShift (group : Nat) : UInt8 :=
  UInt8.ofNat (6 - 2 * group)

-- One iteration `out[blk * 32 + group_pos] |= val << (6 - 2 * group_idx)` of step 3.
def packStep (q8 : Nat → UInt8) (blk : Nat) (out : Nat → UInt8) (j : Nat) : Nat → UInt8 :=
  orInto out (blk * 32 + j % 32) (q8 (blk * scalarQkI2S + j) <<< slotShift (j / 32))

def packBlock (q8 : Nat → UInt8) (out : Nat → UInt8) (blk : Nat) : Nat → UInt8 :=
  (List.range scalarQkI2S).foldl (packStep q8 blk) out

-- Step 3 of scalar_quantize_i2: zero n / 4 bytes, then pack n / QK_I2_S blocks.
def packI2 (q8 : Nat → UInt8) (n : Nat) (out : Nat → UInt8) : Nat → UInt8 :=
  (List.range (n / scalarQkI2S)).foldl (packBlock q8) (memset out 0 (n / 4))

-- The read rule of scalar_vec_dot_i2_i8 and scalar_gemv_i2_i8.
def unpackI2 (packed : Nat → UInt8) (base j : Nat) : UInt8 :=
  (packed (base + j % 32) >>> slotShift (j / 32)) &&& 3

def codeAt (packed : Nat → UInt8) (i : Nat) : UInt8 :=
  unpackI2 packed (i / scalarQkI2S * 32) (i % scalarQkI2S)

def orSlots (q8 : Nat → UInt8) (blk p : Nat) (b : UInt8) : Nat → UInt8
  | 0 => b
  | group + 1 => orSlots q8 blk p b group ||| q8 (blk * scalarQkI2S + (32 * group + p)) <<< slotShift group

theorem foldl_orInto (base count : Nat) (f : Nat → UInt8) (mem : Nat → UInt8) :
    (List.range count).foldl (fun out p => orInto out (base + p) (f p)) mem =
      fun i => if base ≤ i ∧ i < base + count then mem i ||| f (i - base) else mem i := by
  induction count with
  | zero => funext i; simp only [List.range_zero, List.foldl_nil, Nat.add_zero]; split_ifs <;> first | rfl | omega
  | succ count ih =>
    funext i
    rw [List.range_succ, List.foldl_append, ih]
    simp only [List.foldl_cons, List.foldl_nil, orInto, Function.update_apply]
    by_cases last : i = base + count
    next => subst last; simp
    next => simp only [last, if_false]; split_ifs <;> first | rfl | omega

theorem packBlock_groups (q8 : Nat → UInt8) (blk : Nat) (out : Nat → UInt8) (group : Nat) :
    (List.range (32 * group)).foldl (packStep q8 blk) out = fun i =>
      if blk * 32 ≤ i ∧ i < blk * 32 + 32 then orSlots q8 blk (i - blk * 32) (out i) group
      else out i := by
  induction group with
  | zero => funext i; simp [orSlots]
  | succ group ih =>
    have slots : ∀ m, ∀ p ∈ List.range 32, packStep q8 blk m (32 * group + p) =
        orInto m (blk * 32 + p) (q8 (blk * scalarQkI2S + (32 * group + p)) <<< slotShift group) := by
      intro m p mem
      have small := List.mem_range.mp mem
      have pos : (32 * group + p) % 32 = p := by omega
      have grp : (32 * group + p) / 32 = group := by omega
      simp only [packStep, pos, grp]
    rw [Nat.mul_succ, List.range_add, List.foldl_append, ih, List.foldl_map,
      List.foldl_ext _ _ _ slots, foldl_orInto]
    funext i
    split_ifs <;> rfl

theorem packBlock_apply (q8 : Nat → UInt8) (out : Nat → UInt8) (blk i : Nat) :
    packBlock q8 out blk i =
      if blk * 32 ≤ i ∧ i < blk * 32 + 32 then orSlots q8 blk (i - blk * 32) (out i) 4
      else out i := by
  simp only [packBlock, scalarQkI2S, show 128 = 32 * 4 from rfl, packBlock_groups]

theorem foldl_packBlock (q8 : Nat → UInt8) (out : Nat → UInt8) (blocks i : Nat) :
    (List.range blocks).foldl (packBlock q8) out i =
      if i < 32 * blocks then orSlots q8 (i / 32) (i % 32) (out i) 4 else out i := by
  induction blocks with
  | zero => simp
  | succ blocks ih =>
    rw [List.range_succ, List.foldl_append, List.foldl_cons, List.foldl_nil, packBlock_apply]
    by_cases within : blocks * 32 ≤ i ∧ i < blocks * 32 + 32
    next =>
      have blk : i / 32 = blocks := by omega
      have pos : i % 32 = i - blocks * 32 := by omega
      simp only [within, and_self, if_true, ih, blk, pos, show i < 32 * (blocks + 1) by omega]
      simp only [show ¬ i < 32 * blocks by omega, if_false]
    next =>
      simp only [within, if_false, ih]
      split_ifs <;> first | rfl | omega

theorem packI2_apply (q8 : Nat → UInt8) (n : Nat) (out : Nat → UInt8) (i : Nat) :
    packI2 q8 n out i =
      if i < 32 * (n / scalarQkI2S) then orSlots q8 (i / 32) (i % 32) 0 4
      else memset out 0 (n / 4) i := by
  rw [packI2, foldl_packBlock]
  split_ifs with inside
  next => simp only [memset, scalarQkI2S] at *; rw [if_pos (by omega)]
  next => rfl

theorem or_eq_add_of_lt {x y : Nat} (k : Nat) (aligned : x % 2 ^ k = 0) (small : y < 2 ^ k) :
    x ||| y = x + y := by
  obtain ⟨a, rfl⟩ : ∃ a, x = 2 ^ k * a := ⟨x / 2 ^ k, (Nat.mul_div_cancel' (Nat.dvd_of_mod_eq_zero aligned)).symm⟩
  exact (Nat.mul_add_lt_is_or small a).symm

theorem orSlots_toNat (q8 : Nat → UInt8) (blk p : Nat)
    (codes : ∀ group < 4, (q8 (blk * scalarQkI2S + (32 * group + p))).toNat < 4) :
    (orSlots q8 blk p 0 4).toNat =
      (q8 (blk * scalarQkI2S + (32 * 0 + p))).toNat * 64 +
        (q8 (blk * scalarQkI2S + (32 * 1 + p))).toNat * 16 +
        (q8 (blk * scalarQkI2S + (32 * 2 + p))).toNat * 4 +
        (q8 (blk * scalarQkI2S + (32 * 3 + p))).toNat := by
  have c0 := codes 0 (by omega)
  have c1 := codes 1 (by omega)
  have c2 := codes 2 (by omega)
  have c3 := codes 3 (by omega)
  simp only [orSlots, uint8_toNat_or, uint8_toNat_shiftLeft, slotShift, uint8_toNat_ofNat,
    UInt8.toNat_zero, Nat.zero_or, Nat.shiftLeft_eq]
  generalize (q8 (blk * scalarQkI2S + (32 * 0 + p))).toNat = a at *
  generalize (q8 (blk * scalarQkI2S + (32 * 1 + p))).toNat = b at *
  generalize (q8 (blk * scalarQkI2S + (32 * 2 + p))).toNat = c at *
  generalize (q8 (blk * scalarQkI2S + (32 * 3 + p))).toNat = d at *
  norm_num
  rw [Nat.mod_eq_of_lt (by omega : a * 64 < 256), Nat.mod_eq_of_lt (by omega : b * 16 < 256),
    Nat.mod_eq_of_lt (by omega : c * 4 < 256), Nat.mod_eq_of_lt (by omega : d < 256),
    or_eq_add_of_lt (x := a * 64) 6 (by omega) (by omega),
    or_eq_add_of_lt (x := a * 64 + b * 16) 4 (by omega) (by omega),
    or_eq_add_of_lt (x := a * 64 + b * 16 + c * 4) 2 (by omega) (by omega)]

theorem unpackI2_toNat (packed : Nat → UInt8) (base j : Nat) :
    (unpackI2 packed base j).toNat = (packed (base + j % 32)).toNat / 2 ^ (6 - 2 * (j / 32)) % 4 := by
  have shift : (slotShift (j / 32)).toNat % 8 = 6 - 2 * (j / 32) := by
    simp only [slotShift, uint8_toNat_ofNat]
    omega
  simp only [unpackI2, UInt8.and_toNat, uint8_toNat_shiftRight, shift, Nat.shiftRight_eq_div_pow]
  exact Nat.and_pow_two_sub_one_eq_mod _ 2

theorem codeAt_lt_four (packed : Nat → UInt8) (i : Nat) : (codeAt packed i).toNat < 4 := by
  rw [codeAt, unpackI2_toNat]
  exact Nat.mod_lt _ (by omega)

theorem slot_of_positional {a b c d : Nat} (ha : a < 4) (hb : b < 4) (hc : c < 4) (hd : d < 4)
    {group : Nat} (slot : group < 4) :
    (a * 64 + b * 16 + c * 4 + d) / 2 ^ (6 - 2 * group) % 4 =
      if group = 0 then a else if group = 1 then b else if group = 2 then c else d := by
  obtain rfl | rfl | rfl | rfl : group = 0 ∨ group = 1 ∨ group = 2 ∨ group = 3 := by omega
  all_goals (simp; omega)

theorem codeAt_packI2 (nb : Nat) (q8 out : Nat → UInt8)
    (codes : ∀ k < scalarQkI2S * nb, (q8 k).toNat < 4) (i : Nat) (inside : i < scalarQkI2S * nb) :
    codeAt (packI2 q8 (scalarQkI2S * nb) out) i = q8 i := by
  simp only [scalarQkI2S] at *
  obtain ⟨blk, group, p, small, slot, rfl⟩ : ∃ blk group p, p < 32 ∧ group < 4 ∧
      i = blk * 128 + (32 * group + p) := ⟨i / 128, i % 128 / 32, i % 32, by omega, by omega, by omega⟩
  have code : ∀ k < 4, (q8 (blk * 128 + (32 * k + p))).toNat < 4 := fun k _ => codes _ (by omega)
  apply uint8_ext
  rw [codeAt, unpackI2_toNat, packI2_apply, if_pos (by simp only [scalarQkI2S]; omega)]
  simp only [scalarQkI2S, show (blk * 128 + (32 * group + p)) / 128 = blk by omega,
    show (blk * 128 + (32 * group + p)) % 128 = 32 * group + p by omega,
    show (32 * group + p) % 32 = p by omega, show (32 * group + p) / 32 = group by omega,
    show (blk * 32 + p) / 32 = blk by omega, show (blk * 32 + p) % 32 = p by omega]
  rw [orSlots_toNat _ _ _ code]
  simp only [scalarQkI2S]
  rw [slot_of_positional (code 0 (by omega)) (code 1 (by omega))
    (code 2 (by omega)) (code 3 (by omega)) slot]
  obtain rfl | rfl | rfl | rfl : group = 0 ∨ group = 1 ∨ group = 2 ∨ group = 3 := by omega
  all_goals simp

theorem packI2_codeAt (nb : Nat) (x out : Nat → UInt8) (i : Nat) (inside : i < 32 * nb) :
    packI2 (codeAt x) (scalarQkI2S * nb) out i = x i := by
  have slotValue : ∀ group < 4, (codeAt x (i / 32 * scalarQkI2S + (32 * group + i % 32))).toNat =
      (x i).toNat / 2 ^ (6 - 2 * group) % 4 := by
    intro group slot
    simp only [codeAt, unpackI2_toNat, scalarQkI2S]
    rw [show (i / 32 * 128 + (32 * group + i % 32)) / 128 * 32 +
        (i / 32 * 128 + (32 * group + i % 32)) % 128 % 32 = i by omega,
      show (i / 32 * 128 + (32 * group + i % 32)) % 128 / 32 = group by omega]
  apply uint8_ext
  rw [packI2_apply, if_pos (by simp only [scalarQkI2S]; omega),
    orSlots_toNat _ _ _ fun group _ => codeAt_lt_four x _, slotValue 0 (by omega),
    slotValue 1 (by omega), slotValue 2 (by omega), slotValue 3 (by omega)]
  have byte := uint8_toNat_lt (x i)
  norm_num
  omega

theorem packI2_codeAt_bijection (nb : Nat) :
    (∀ q8 out : Nat → UInt8, (∀ k < scalarQkI2S * nb, (q8 k).toNat < 4) →
      ∀ i < scalarQkI2S * nb, codeAt (packI2 q8 (scalarQkI2S * nb) out) i = q8 i) ∧
    (∀ x out : Nat → UInt8, ∀ i < 32 * nb, packI2 (codeAt x) (scalarQkI2S * nb) out i = x i) :=
  ⟨fun q8 out codes i inside => codeAt_packI2 nb q8 out codes i inside,
    fun x out i inside => packI2_codeAt nb x out i inside⟩

end NeuronOS.Hal
