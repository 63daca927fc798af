import NeuronOS.Installer.SelectModel
import NeuronOS.Models.Scan
import NeuronOS.Models.Hardware

set_option autoImplicit false

namespace NeuronOS.Installer

open NeuronOS.Shared NeuronOS.Models

-- detect_hardware's `awk '/^MemAvailable:/ {printf "%.0f", $2/1024}' /proc/meminfo`.
def installerRamAvail (kb : Nat) : Int :=
  roundHalfEven ((kb : ℚ) / 1024)

theorem div_le_installerRamAvail (kb : Nat) : ((kb / 1024 : Nat) : Int) ≤ installerRamAvail kb := by
  obtain ⟨low, -⟩ := abs_le.mp (roundHalfEven_near ((kb : ℚ) / 1024))
  have floor : ((kb / 1024 : Nat) : ℚ) ≤ (kb : ℚ) / 1024 := Nat.cast_div_le
  have below : (((kb / 1024 : Nat) : Int) : ℚ) < (installerRamAvail kb : ℚ) + 1 := by
    rw [Int.cast_natCast, installerRamAvail]
    linarith
  exact Int.lt_add_one_iff.mp (by exact_mod_cast below)

theorem installerRamAvail_mul (mb : Nat) : installerRamAvail (1024 * mb) = mb := by
  rw [installerRamAvail, Nat.cast_mul, Nat.cast_ofNat, mul_div_cancel_left₀ _ (by norm_num)]
  exact_mod_cast roundHalfEven_intCast mb

theorem installed_fallback_does_not_fit (fields : List MeminfoField) (httpCode : List Char → List Char)
    (reported : 1024 ≤ meminfoValue fields "MemAvailable".toList)
    (small : installerRamAvail (meminfoValue fields "MemAvailable".toList) < 1524) :
    selectModel (ramBudget (installerRamAvail (meminfoValue fields "MemAvailable".toList))) httpCode =
        fallbackSelection ∧
      ∀ (layout : EntryLayout) (view : PosixView) (fullPath : List Char), 711 ≤ fileSizeMb view fullPath →
        (neuronosDetectMemory (some (renderMeminfo fields))).modelBudgetMb <
            estimateRamNeeded (fileSizeMb view fullPath) ∧
          (makeEntry layout view ⟨(neuronosDetectMemory (some (renderMeminfo fields))).modelBudgetMb⟩
            fullPath).fitsInRam = false ∧
          (makeEntry layout view ⟨(neuronosDetectMemory (some (renderMeminfo fields))).modelBudgetMb⟩
            fullPath).score = -1 := by
  refine ⟨selectModel_small httpCode small, fun layout view fullPath large => ?_⟩
  have budget := modelBudget_of_available fields reported
  have rounded := div_le_installerRamAvail (meminfoValue fields "MemAvailable".toList)
  have over : (neuronosDetectMemory (some (renderMeminfo fields))).modelBudgetMb <
      estimateRamNeeded (fileSizeMb view fullPath) := by
    rw [budget, estimateRamNeeded, Int.tdiv_eq_ediv (by omega) (by norm_num)]
    omega
  exact ⟨over, by simpa [makeEntry] using over, scoreModel_of_lt over⟩

-- A machine with 2000 MB, 1000 MB of it available.
def smallMeminfo : List MeminfoField :=
  [⟨"MemTotal".toList, 7, 2048000, by decide, by decide, by decide⟩,
    ⟨"MemAvailable".toList, 4, 1024 * 1000, by decide, by decide, by decide⟩]

theorem small_meminfo_fallback_does_not_fit :
    1024 ≤ meminfoValue smallMeminfo "MemAvailable".toList ∧
      installerRamAvail (meminfoValue smallMeminfo "MemAvailable".toList) < 1524 ∧
      selectModel (ramBudget (installerRamAvail (meminfoValue smallMeminfo "MemAvailable".toList)))
        (fun _ => "200".toList) = fallbackSelection := by
  have available : meminfoValue smallMeminfo "MemAvailable".toList = 1024 * 1000 := by decide
  have seen : installerRamAvail (meminfoValue smallMeminfo "MemAvailable".toList) < 1524 := by
    rw [available, installerRamAvail_mul]
    decide
  exact ⟨by rw [available]; decide, seen,
    (installed_fallback_does_not_fit smallMeminfo (fun _ => "200".toList) (by rw [available]; decide) seen).1⟩

end NeuronOS.Installer
