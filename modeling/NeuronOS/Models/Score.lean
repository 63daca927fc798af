import NeuronOS.Shared.Binary32
import NeuronOS.Shared.CString

set_option autoImplicit false

namespace NeuronOS.Models

open NeuronOS.Shared

-- neuronos_model_entry_t: `path` and `name` are the C strings held in its fixed-size arrays.
structure ModelEntry where
  path : List Char
  name : List Char
  fileSizeMb : Int
  estRamMb : Int
  nParamsEst : Int
  fitsInRam : Bool
  score : ℚ

-- The one field of neuronos_hw_info_t that the scanner reads.
structure HwInfo where
  modelBudgetMb : Int

-- `int64_t` arithmetic, wrapping where it overflows.
def wrapInt64 (x : Int) : Int :=
  (x + 9223372036854775808) % 18446744073709551616 - 9223372036854775808

theorem wrapInt64_eq_self_iff (x : Int) : wrapInt64 x = x ↔ -2 ^ 63 ≤ x ∧ x < 2 ^ 63 := by
  unfold wrapInt64
  omega

def estimateRamNeeded (fileSizeMbVal : Int) : Int :=
  fileSizeMbVal + (fileSizeMbVal * 30).tdiv 100 + 100

def estimateParams (fileSizeMbVal : Int) : Int :=
  wrapInt64 ((fileSizeMbVal * 1024 * 1024).tdiv 35 * 100)

def formatBonus (name : List Char) : Bool :=
  (strstr name "i2_s".toList).isSome || (strstr name "I2_S".toList).isSome ||
    (strstr name "1.58".toList).isSome || (strstr name "bitnet".toList).isSome ||
    (strstr name "BitNet".toList).isSome

def instructBonus (name : List Char) : Bool :=
  (strstr name "nstruct".toList).isSome || (strstr name "chat".toList).isSome ||
    (strstr name "Chat".toList).isSome

def qualityTier (paramsB : Int) : ℚ :=
  if 8 ≤ paramsB then 100
  else if 4 ≤ paramsB then 80
  else if 2 ≤ paramsB then 60
  else if 1 ≤ paramsB then 30
  else 10

-- `(float)(hw->model_budget_mb - entry->est_ram_mb) / (float)hw->model_budget_mb`
def headroom (budget estimate : Int) : ℚ :=
  toBinary32 (toBinary32 ((budget - estimate : Int) : ℚ) / toBinary32 (budget : ℚ))

-- The headroom divides by the budget only where the entry fits.
def scoreModel (entry : ModelEntry) (hw : HwInfo) : ℚ :=
  if hw.modelBudgetMb < entry.estRamMb then -1
  else
    let score := toBinary32 (0 + 1000)
    let score := toBinary32 (score + qualityTier (entry.nParamsEst.tdiv 1000000000))
    let score := toBinary32 (score + toBinary32 (headroom hw.modelBudgetMb entry.estRamMb * 50))
    let score := if formatBonus entry.name then toBinary32 (score + 25) else score
    if instructBonus entry.name then toBinary32 (score + 15) else score

theorem estimateRamNeeded_ge {fileSizeMbVal : Int} (nonneg : 0 ≤ fileSizeMbVal) :
    100 ≤ estimateRamNeeded fileSizeMbVal := by
  have part := Int.tdiv_nonneg (a := fileSizeMbVal * 30) (b := 100) (by omega) (by omega)
  unfold estimateRamNeeded
  omega

theorem qualityTier_between (paramsB : Int) :
    ∃ tier : ℕ, qualityTier paramsB = tier ∧ 10 ≤ tier ∧ tier ≤ 100 := by
  unfold qualityTier
  split_ifs
  exacts [⟨100, by norm_num⟩, ⟨80, by norm_num⟩, ⟨60, by norm_num⟩, ⟨30, by norm_num⟩,
    ⟨10, by norm_num⟩]

theorem toBinary32_natCast {n : ℕ} (small : n < 2 ^ 24) : toBinary32 n = n := by
  have exact := toBinary32_intCast (n := n) (by rw [Int.abs_natCast]; exact_mod_cast small)
  simpa using exact

theorem toBinary32_eq_self {q : ℚ} (n : ℤ) (is : q = n) (small : |n| < 2 ^ 24) : toBinary32 q = q := by
  rw [is]
  exact toBinary32_intCast small

theorem toBinary32_between {q : ℚ} (low high : ℕ) (small : high < 2 ^ 24)
    (above : (low : ℚ) ≤ q) (below : q ≤ high) :
    (low : ℚ) ≤ toBinary32 q ∧ toBinary32 q ≤ high := by
  have ordered : low ≤ high := by exact_mod_cast above.trans below
  constructor
  next =>
    calc (low : ℚ) = toBinary32 low := (toBinary32_natCast (by omega)).symm
      _ ≤ toBinary32 q := toBinary32_mono above
  next =>
    calc toBinary32 q ≤ toBinary32 high := toBinary32_mono below
      _ = high := toBinary32_natCast small

theorem headroom_between {budget estimate : Int} (positive : 0 < estimate) (fits : estimate ≤ budget) :
    0 ≤ headroom budget estimate ∧ headroom budget estimate ≤ 1 := by
  have numerator := toBinary32_nonneg (q := ((budget - estimate : Int) : ℚ)) (by exact_mod_cast by omega)
  have denominator : (1 : ℚ) ≤ toBinary32 (budget : ℚ) := by
    calc (1 : ℚ) = toBinary32 ((1 : ℕ) : ℚ) := by rw [toBinary32_natCast (by norm_num)]; simp
      _ ≤ toBinary32 (budget : ℚ) := toBinary32_mono (by exact_mod_cast by omega)
  have ordered : toBinary32 ((budget - estimate : Int) : ℚ) ≤ toBinary32 (budget : ℚ) :=
    toBinary32_mono (by exact_mod_cast by omega)
  have ratio := toBinary32_between 0 1 (by norm_num)
    (q := toBinary32 ((budget - estimate : Int) : ℚ) / toBinary32 (budget : ℚ))
    (by simpa using div_nonneg numerator (by linarith))
    (by simpa using (div_le_one (by linarith)).mpr ordered)
  simpa [headroom] using ratio

theorem bonus_between {score : ℚ} (high bonus : ℕ) (bonused : Bool) (small : high + bonus < 2 ^ 24)
    (above : 1010 ≤ score) (below : score ≤ high) :
    1010 ≤ (if bonused then toBinary32 (score + bonus) else score) ∧
      (if bonused then toBinary32 (score + bonus) else score) ≤ high + bonus := by
  cases bonused
  next => exact ⟨above, by simp only [Bool.false_eq_true, if_false]; linarith⟩
  next =>
    have sum := toBinary32_between 1010 (high + bonus) small
      (q := score + bonus) (by push_cast; linarith) (by push_cast; linarith)
    simpa using sum

theorem scoreModel_between {entry : ModelEntry} {hw : HwInfo} (positive : 0 < entry.estRamMb)
    (fits : entry.estRamMb ≤ hw.modelBudgetMb) :
    1010 ≤ scoreModel entry hw ∧ scoreModel entry hw ≤ 1190 := by
  obtain ⟨tier, tierEq, tierLow, tierHigh⟩ := qualityTier_between (entry.nParamsEst.tdiv 1000000000)
  obtain ⟨headroomLow, headroomHigh⟩ := headroom_between positive fits
  have tiered : toBinary32 (toBinary32 (0 + 1000) + tier) = 1000 + tier := by
    rw [show (0 : ℚ) + 1000 = ((1000 : ℕ) : ℚ) by norm_num, toBinary32_natCast (by norm_num)]
    exact_mod_cast toBinary32_natCast (n := 1000 + tier) (by omega)
  have tierBounds : (10 : ℚ) ≤ tier ∧ (tier : ℚ) ≤ 100 :=
    ⟨by exact_mod_cast tierLow, by exact_mod_cast tierHigh⟩
  have speed := toBinary32_between 0 50 (by norm_num)
    (q := headroom hw.modelBudgetMb entry.estRamMb * 50) (by push_cast; linarith) (by push_cast; linarith)
  push_cast at speed
  have fitted := toBinary32_between 1010 1150 (by norm_num)
    (q := 1000 + tier + toBinary32 (headroom hw.modelBudgetMb entry.estRamMb * 50))
    (by push_cast; linarith) (by push_cast; linarith)
  push_cast at fitted
  have format := bonus_between 1150 25 (formatBonus entry.name) (by norm_num)
    fitted.1 (by exact_mod_cast fitted.2)
  push_cast at format
  have instruct := bonus_between 1175 15 (instructBonus entry.name) (by norm_num)
    format.1 (by exact_mod_cast format.2)
  push_cast at instruct
  simp only [scoreModel, if_neg (not_lt.mpr fits), tierEq, tiered]
  exact ⟨instruct.1, by linarith [instruct.2]⟩

theorem scoreModel_congr {entry other : ModelEntry} (hw : HwInfo) (ram : entry.estRamMb = other.estRamMb)
    (params : entry.nParamsEst = other.nParamsEst) (format : formatBonus entry.name = formatBonus other.name)
    (instruct : instructBonus entry.name = instructBonus other.name) : scoreModel entry hw = scoreModel other hw := by
  simp only [scoreModel, ram, params, format, instruct]

theorem scoreModel_of_lt {entry : ModelEntry} {hw : HwInfo} (over : hw.modelBudgetMb < entry.estRamMb) :
    scoreModel entry hw = -1 := if_pos over

end NeuronOS.Models
