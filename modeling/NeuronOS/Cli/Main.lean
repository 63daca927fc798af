import NeuronOS.Models.Select
import NeuronOS.Models.Hardware
import NeuronOS.Registry.ToolOutput

set_option autoImplicit false

namespace NeuronOS.Cli

open NeuronOS.Models NeuronOS.Registry NeuronOS.Shared

-- main's `auto` command up to neuronos_model_load. `some none` is an exit with 1; `none` a scan cut
-- off at depth `fuel`.
def autoModelPath (layout : EntryLayout) (view : PosixView) (meminfo : Option (List Char))
    (qsort : Qsort ModelEntry) (fuel : Nat) (modelsDir : List Char) : Option (Option (List Char)) :=
  (neuronosModelScan layout view ⟨(neuronosDetectMemory meminfo).modelBudgetMb⟩ qsort fuel modelsDir).map
    fun models => models.bind fun sorted => (neuronosModelSelectBest sorted).map ModelEntry.path

theorem autoModelPath_of_sorted {layout : EntryLayout} {view : PosixView} {meminfo : Option (List Char)}
    {qsort : Qsort ModelEntry} {fuel : Nat} {modelsDir : List Char} {sorted : List ModelEntry}
    (scan : neuronosModelScan layout view ⟨(neuronosDetectMemory meminfo).modelBudgetMb⟩ qsort fuel modelsDir =
      some (some sorted)) :
    autoModelPath layout view meminfo qsort fuel modelsDir =
      some ((neuronosModelSelectBest sorted).map ModelEntry.path) := by
  rw [autoModelPath, scan]
  rfl

theorem auto_loads_best_fitting_model (layout : EntryLayout) (view : PosixView) (meminfo : Option (List Char))
    (qsort : Qsort ModelEntry) (fuel : Nat) (modelsDir path : List Char)
    (loads : autoModelPath layout view meminfo qsort fuel modelsDir = some (some path)) :
    ∃ entries count,
      scanDirRecursive layout view ⟨(neuronosDetectMemory meminfo).modelBudgetMb⟩ maxScanModels fuel modelsDir
        (fun _ => zeroEntry) 0 = .ok (entries, count) ∧
      ∃ k < count, (entries k).path = path ∧ (entries k).estRamMb ≤ (neuronosDetectMemory meminfo).modelBudgetMb ∧
        ∀ j < count, (entries j).score ≤ (entries k).score := by
  simp only [autoModelPath, Option.map_eq_some', Option.bind_eq_some] at loads
  obtain ⟨models, scan, sorted, rfl, best, selected, rfl⟩ := loads
  obtain ⟨entries, count, returned, -, rfl⟩ := neuronosModelScan_some scan
  obtain ⟨scored, descending⟩ := sort_scanned_scored qsort returned
  obtain ⟨member, fits, maximal⟩ := selectBest_best scored descending selected
  obtain ⟨k, below, rfl⟩ := List.mem_map.mp ((qsort.perm _ _).mem_iff.mp member)
  exact ⟨entries, count, returned, k, List.mem_range.mp below, rfl, fits, fun j within =>
    maximal _ ((qsort.perm _ _).mem_iff.mpr (List.mem_map.mpr ⟨j, List.mem_range.mpr within, rfl⟩))⟩

-- /proc/meminfo reporting 8692 MB available.
theorem auto_loads_tied_first :
    autoModelPath tiedLayout tiedFs.view (some "MemAvailable:    8900608 kB\n".toList) (insertionQsort ModelEntry) 1
      "/m".toList = some (some tiedFirst.path) ∧
    ∃ entries count,
      scanDirRecursive tiedLayout tiedFs.view
        ⟨(neuronosDetectMemory (some "MemAvailable:    8900608 kB\n".toList)).modelBudgetMb⟩ maxScanModels 1
        "/m".toList (fun _ => zeroEntry) 0 = .ok (entries, count) ∧
      ∃ k < count, (entries k).path = tiedFirst.path ∧
        (entries k).estRamMb ≤ (neuronosDetectMemory (some "MemAvailable:    8900608 kB\n".toList)).modelBudgetMb ∧
        ∀ j < count, (entries j).score ≤ (entries k).score := by
  have detected : (⟨(neuronosDetectMemory (some "MemAvailable:    8900608 kB\n".toList)).modelBudgetMb⟩ : HwInfo) =
      tiedHw := by
    rw [HwInfo.mk.injEq]
    decide
  have scan : neuronosModelScan tiedLayout tiedFs.view
      ⟨(neuronosDetectMemory (some "MemAvailable:    8900608 kB\n".toList)).modelBudgetMb⟩ (insertionQsort ModelEntry)
      1 "/m".toList = some (some [tiedFirst, tiedSecond]) := by
    rw [detected]
    exact tiedFs_sorted
  have loads : autoModelPath tiedLayout tiedFs.view (some "MemAvailable:    8900608 kB\n".toList)
      (insertionQsort ModelEntry) 1 "/m".toList = some (some tiedFirst.path) := by
    rw [autoModelPath_of_sorted scan, tied_select_first, Option.map_some']
  exact ⟨loads, auto_loads_best_fitting_model _ _ _ _ _ _ _ loads⟩

-- cmd_generate's grammar load after fopen.
def cmdGenerateGrammar (data : List Char) (size : Int) : BufferFill :=
  ⟨(sizeOfLong size + 1) % sizeModulus, fread data (sizeOfLong size), size⟩

theorem stream_loads_within_iff (data : List Char) (ftell : Int) (reported : -1 ≤ ftell)
    (small : ftell < 9223372036854775808) :
    ((toolReadFileLoad data ftell).Inside ↔ ftell ≠ -1) ∧
      (ftell ≠ -1 → (toolReadFileOutput data ftell).length ≤ 32768) ∧
      ((cmdGenerateGrammar data ftell).Inside ↔ ftell ≠ -1) ∧
      (ftell = -1 → (toolReadFileLoad data ftell).allocated = 0 ∧ (cmdGenerateGrammar data ftell).nulAt = -1) := by
  obtain ⟨readInside, readShort, readFailed⟩ := toolReadFileLoad_inside_iff data reported small
  refine ⟨readInside, readShort, ?_, fun failed => ⟨(readFailed failed).1, failed⟩⟩
  rw [cmdGenerateGrammar, BufferFill.Inside]
  dsimp only
  by_cases failed : ftell = -1
  next => exact ⟨fun inside => absurd inside.2.1 (by omega), fun never => absurd failed never⟩
  next =>
    have size := sizeOfLong_of_nonneg (x := ftell) (by omega) small
    have allocated : (sizeOfLong ftell + 1) % sizeModulus = sizeOfLong ftell + 1 :=
      Nat.mod_eq_of_lt (by unfold sizeModulus; omega)
    have length := List.length_take_le (sizeOfLong ftell) data
    rw [allocated, fread]
    exact ⟨fun _ => failed, fun _ => ⟨by omega, by omega, by omega⟩⟩

theorem fifo_loads_outside :
    -1 ≤ (-1 : Int) ∧ (-1 : Int) < 9223372036854775808 ∧
      (((toolReadFileLoad "x".toList (-1)).Inside ↔ (-1 : Int) ≠ -1) ∧
        ((-1 : Int) ≠ -1 → (toolReadFileOutput "x".toList (-1)).length ≤ 32768) ∧
        ((cmdGenerateGrammar "x".toList (-1)).Inside ↔ (-1 : Int) ≠ -1) ∧
        ((-1 : Int) = -1 → (toolReadFileLoad "x".toList (-1)).allocated = 0 ∧
          (cmdGenerateGrammar "x".toList (-1)).nulAt = -1)) :=
  ⟨by decide, by decide, stream_loads_within_iff _ _ (by decide) (by decide)⟩

end NeuronOS.Cli
