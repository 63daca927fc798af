import NeuronOS.Models.Select

set_option autoImplicit false

namespace NeuronOS.Models

open NeuronOS.Shared

-- The names of a directory tree in depth-first readdir order, each with its directory; `none` when the
-- tree is deeper than the depth given.
def walkBelow (view : PosixView) (below : List Char → Option (List (List Char × List Char)))
    (path : List Char) : Option (List (List Char × List Char)) :=
  match view.stat path with
  | some st => if st.kind = .directory then below path else some []
  | none => some []

def walkNames (view : PosixView) (below : List Char → Option (List (List Char × List Char)))
    (dirPath : List Char) : List (List Char) → Option (List (List Char × List Char))
  | [] => some []
  | name :: rest =>
    if name.head? = some '.' then walkNames view below dirPath rest
    else do
      let inner ← walkBelow view below (joinPath dirPath name)
      let after ← walkNames view below dirPath rest
      pure ((dirPath, name) :: inner ++ after)

def treeWalk (view : PosixView) : Nat → List Char → Option (List (List Char × List Char))
  | 0, _ => none
  | depth + 1, dirPath =>
    match view.opendir dirPath with
    | none => some []
    | some names => walkNames view (treeWalk view depth) dirPath names

def modelFile (view : PosixView) (file : List Char × List Char) : Bool :=
  match view.stat (joinPath file.1 file.2) with
  | some st => st.kind == .regular && isGguf file.2
  | none => false

def modelPaths (view : PosixView) (walked : List (List Char × List Char)) : List (List Char) :=
  (walked.filter (modelFile view)).map fun file => joinPath file.1 file.2

@[simp]
theorem modelPaths_nil (view : PosixView) : modelPaths view [] = [] :=
  rfl

@[simp]
theorem modelPaths_append (view : PosixView) (walked walked' : List (List Char × List Char)) :
    modelPaths view (walked ++ walked') = modelPaths view walked ++ modelPaths view walked' := by
  simp only [modelPaths, List.filter_append, List.map_append]

theorem modelPaths_cons (view : PosixView) (file : List Char × List Char) (walked : List (List Char × List Char)) :
    modelPaths view (file :: walked) =
      (if modelFile view file then [joinPath file.1 file.2] else []) ++ modelPaths view walked := by
  by_cases model : modelFile view file <;> simp [modelPaths, List.filter_cons, model]

theorem modelFile_eq_true {view : PosixView} {file : List Char × List Char} (model : modelFile view file = true) :
    ∃ st, view.stat (joinPath file.1 file.2) = some st ∧ st.kind = .regular ∧ isGguf file.2 = true := by
  unfold modelFile at model
  cases stat : view.stat (joinPath file.1 file.2) with
  | none => rw [stat] at model; cases model
  | some st =>
    rw [stat, Bool.and_eq_true, beq_iff_eq] at model
    exact ⟨st, rfl, model⟩

-- What scan_dir_recursive does with one .gguf file.
def recordModel (layout : EntryLayout) (view : PosixView) (hw : HwInfo) (maxEntries : Nat)
    (state : (Nat → ModelEntry) × Nat) (path : List Char) : (Nat → ModelEntry) × Nat :=
  if state.2 < maxEntries then (Function.update state.1 state.2 (makeEntry layout view hw path), state.2 + 1)
  else state

def sortedModels (layout : EntryLayout) (view : PosixView) (hw : HwInfo) (qsort : Qsort ModelEntry)
    (walked : List (List Char × List Char)) : List ModelEntry :=
  qsort.sort compareModelsDesc (((modelPaths view walked).take maxScanModels).map (makeEntry layout view hw))

theorem walkNames_cons {view : PosixView} {below : List Char → Option (List (List Char × List Char))}
    {dirPath name : List Char} {rest : List (List Char)} {walked : List (List Char × List Char)}
    (shown : name.head? ≠ some '.') (walk : walkNames view below dirPath (name :: rest) = some walked) :
    ∃ inner after, walkBelow view below (joinPath dirPath name) = some inner ∧
      walkNames view below dirPath rest = some after ∧ walked = (dirPath, name) :: inner ++ after := by
  rw [walkNames, if_neg shown] at walk
  obtain ⟨inner, below, walk⟩ := Option.bind_eq_some.mp walk
  obtain ⟨after, rest, same⟩ := Option.bind_eq_some.mp walk
  exact ⟨inner, after, below, rest, (Option.some.inj same).symm⟩

section Simulation

variable (layout : EntryLayout) (view : PosixView) (hw : HwInfo) (maxEntries : Nat)

theorem foldl_recordModel_of_full (paths : List (List Char)) {state : (Nat → ModelEntry) × Nat}
    (full : maxEntries ≤ state.2) : paths.foldl (recordModel layout view hw maxEntries) state = state := by
  induction paths with
  | nil => rfl
  | cons path paths ih => rw [List.foldl_cons, recordModel, if_neg (by omega), ih]

theorem scanLoop_walkNames
    {recurse : List Char → (Nat → ModelEntry) → Nat →
      Except ((Nat → ModelEntry) × Nat) ((Nat → ModelEntry) × Nat)}
    {below : List Char → Option (List (List Char × List Char))}
    (recursed : ∀ path walked, below path = some walked →
      (∀ file ∈ walked, (joinPath file.1 file.2).length ≤ 1023) → ∀ entries count,
        recurse path entries count =
          .ok ((modelPaths view walked).foldl (recordModel layout view hw maxEntries) (entries, count)))
    (dirPath : List Char) :
    ∀ (names : List (List Char)) walked, walkNames view below dirPath names = some walked →
      (∀ file ∈ walked, (joinPath file.1 file.2).length ≤ 1023) → ∀ entries count,
        scanLoop layout view hw maxEntries recurse dirPath names entries count =
          .ok ((modelPaths view walked).foldl (recordModel layout view hw maxEntries) (entries, count))
  | [], walked, walk, _, entries, count => by cases walk; rfl
  | name :: rest, walked, walk, fits, entries, count => by
    have next := scanLoop_walkNames recursed dirPath rest
    rw [scanLoop]
    by_cases room : count < maxEntries
    next =>
      rw [if_pos room]
      by_cases dot : name.head? = some '.'
      next =>
        rw [walkNames, if_pos dot] at walk
        rw [if_pos dot]
        exact next walked walk fits entries count
      obtain ⟨inner, after, walkInner, walkAfter, rfl⟩ := walkNames_cons dot walk
      have fitsAfter : ∀ file ∈ after, (joinPath file.1 file.2).length ≤ 1023 :=
        fun file mem => fits file (by simp [mem])
      have whole : (joinPath dirPath name).length ≤ 1023 := fits _ (List.mem_cons_self _ _)
      rw [if_neg dot, fullPathOf_of_fits whole, modelPaths_append, modelPaths_cons]
      unfold walkBelow at walkInner
      unfold modelFile
      cases stat : view.stat (joinPath dirPath name) with
      | none =>
        rw [stat] at walkInner
        cases walkInner
        exact next after walkAfter fitsAfter entries count
      | some st =>
        rw [stat] at walkInner
        obtain ⟨kind, size⟩ := st
        cases kind
        next =>
          have fitsInner : ∀ file ∈ inner, (joinPath file.1 file.2).length ≤ 1023 :=
            fun file mem => fits file (by simp [mem])
          simp only [if_true] at walkInner
          simp only [recursed _ inner walkInner fitsInner, beq_iff_eq, reduceCtorEq, Bool.false_and,
            Bool.false_eq_true, if_false, List.nil_append, List.foldl_append]
          exact next after walkAfter fitsAfter _ _
        next =>
          simp only [reduceCtorEq, if_false] at walkInner
          cases walkInner
          cases gguf : isGguf name
          next => simpa using next after walkAfter fitsAfter entries count
          next =>
            simp only [gguf, if_true, beq_self_eq_true, Bool.and_self, modelPaths_nil, List.append_nil,
              List.singleton_append, List.foldl_cons, recordModel, room]
            exact next after walkAfter fitsAfter _ _
        next =>
          simp only [reduceCtorEq, if_false] at walkInner
          cases walkInner
          simpa using next after walkAfter fitsAfter entries count
    next =>
      rw [if_neg room, foldl_recordModel_of_full layout view hw maxEntries _ (by omega)]

theorem scanDirRecursive_treeWalk :
    ∀ (fuel : Nat) dirPath walked, treeWalk view fuel dirPath = some walked →
      (∀ file ∈ walked, (joinPath file.1 file.2).length ≤ 1023) → ∀ entries count,
        scanDirRecursive layout view hw maxEntries fuel dirPath entries count =
          .ok ((modelPaths view walked).foldl (recordModel layout view hw maxEntries) (entries, count))
  | 0, _, _, walk, _, _, _ => by cases walk
  | fuel + 1, dirPath, walked, walk, fits, entries, count => by
    rw [treeWalk] at walk
    rw [scanDirRecursive]
    cases opened : view.opendir dirPath with
    | none =>
      rw [opened] at walk
      cases walk
      rfl
    | some names =>
      rw [opened] at walk
      exact scanLoop_walkNames layout view hw maxEntries (scanDirRecursive_treeWalk fuel) dirPath names walked
        walk fits entries count

theorem scanned_update_last (entries : Nat → ModelEntry) (count : Nat) (entry : ModelEntry) :
    scanned (Function.update entries count entry) (count + 1) = scanned entries count ++ [entry] := by
  rw [scanned, List.range_succ, List.map_append, List.map_singleton, Function.update_same]
  exact congrArg (· ++ [entry]) (List.map_congr_left fun k mem => Function.update_noteq (List.mem_range.mp mem).ne _ _)

theorem foldl_recordModel (paths : List (List Char)) (entries : Nat → ModelEntry) (count : Nat)
    (room : count ≤ maxEntries) :
    ∃ entries', paths.foldl (recordModel layout view hw maxEntries) (entries, count) =
        (entries', min maxEntries (count + paths.length)) ∧
      scanned entries' (min maxEntries (count + paths.length)) =
        scanned entries count ++ (paths.take (maxEntries - count)).map (makeEntry layout view hw) := by
  induction paths generalizing entries count with
  | nil => exact ⟨entries, by simp [min_eq_right room], by simp [min_eq_right room]⟩
  | cons path paths ih =>
    by_cases full : count < maxEntries
    next =>
      obtain ⟨entries', folded, filled⟩ := ih (Function.update entries count (makeEntry layout view hw path))
        (count + 1) full
      have size : count + 1 + paths.length = count + (path :: paths).length := by
        rw [List.length_cons]; omega
      have left : maxEntries - count = maxEntries - (count + 1) + 1 := by omega
      refine ⟨entries', by rw [List.foldl_cons, recordModel, if_pos full, folded, size], ?_⟩
      rw [← size, filled, scanned_update_last, left, List.take_succ_cons, List.map_cons, List.append_assoc,
        List.singleton_append]
    next =>
      have same : min maxEntries (count + (path :: paths).length) = count := by simp only [List.length_cons]; omega
      refine ⟨entries, by rw [foldl_recordModel_of_full layout view hw maxEntries _ (by omega), same], ?_⟩
      rw [same, show maxEntries - count = 0 by omega, List.take_zero, List.map_nil, List.append_nil]

end Simulation

theorem neuronosModelScan_treeWalk (layout : EntryLayout) (view : PosixView) (hw : HwInfo)
    (qsort : Qsort ModelEntry) (fuel : Nat) (dirPath : List Char) (walked : List (List Char × List Char))
    (complete : treeWalk view fuel dirPath = some walked)
    (fits : ∀ file ∈ walked, (joinPath file.1 file.2).length ≤ 1023) :
    neuronosModelScan layout view hw qsort fuel dirPath =
      some (if modelPaths view walked = [] then none else some (sortedModels layout view hw qsort walked)) := by
  obtain ⟨entries, folded, filled⟩ :=
    foldl_recordModel layout view hw maxScanModels (modelPaths view walked) (fun _ => zeroEntry) 0 (Nat.zero_le _)
  have scan := scanDirRecursive_treeWalk layout view hw maxScanModels fuel dirPath walked complete fits
    (fun _ => zeroEntry) 0
  rw [folded, Nat.zero_add] at scan
  rw [Nat.zero_add, Nat.sub_zero, show scanned (fun _ => zeroEntry) 0 = [] from rfl, List.nil_append] at filled
  rw [neuronosModelScan, scan]
  dsimp only
  rw [filled]
  by_cases empty : modelPaths view walked = []
  next => simp [empty]
  next =>
    have found : min maxScanModels (modelPaths view walked).length ≠ 0 := by
      simp [maxScanModels, List.length_eq_zero, empty]
    rw [if_neg found, if_neg empty]
    rfl

theorem scan_returns_first_models (layout : EntryLayout) (view : PosixView) (hw : HwInfo)
    (qsort : Qsort ModelEntry) (fuel : Nat) (dirPath : List Char) (walked : List (List Char × List Char))
    (complete : treeWalk view fuel dirPath = some walked)
    (fits : ∀ file ∈ walked, (joinPath file.1 file.2).length ≤ 1023)
    (flat : ∀ file ∈ walked, '/' ∉ file.2) :
    neuronosModelScan layout view hw qsort fuel dirPath =
        some (if modelPaths view walked = [] then none else some (sortedModels layout view hw qsort walked)) ∧
      (sortedModels layout view hw qsort walked).length = min maxScanModels (modelPaths view walked).length ∧
      (sortedModels layout view hw qsort walked).Perm
        (((modelPaths view walked).take maxScanModels).map (makeEntry layout view hw)) ∧
      (sortedModels layout view hw qsort walked).Pairwise (fun a b => b.score ≤ a.score) ∧
      ∀ entry ∈ sortedModels layout view hw qsort walked, ∃ file ∈ walked, ∃ st,
        view.stat (joinPath file.1 file.2) = some st ∧ st.kind = .regular ∧ isGguf file.2 = true ∧
          ModelFileEntry layout hw (joinPath file.1 file.2) file.2 st.size entry := by
  have perm := qsort.perm compareModelsDesc (((modelPaths view walked).take maxScanModels).map (makeEntry layout view hw))
  refine ⟨neuronosModelScan_treeWalk layout view hw qsort fuel dirPath walked complete fits,
    by rw [sortedModels, perm.length_eq, List.length_map, List.length_take], perm,
    (qsort.sorted _ _ compareModelsDesc_consistent).imp fun {a b} => (compareModelsDesc_nonpos_iff a b).mp, ?_⟩
  intro entry mem
  obtain ⟨path, taken, rfl⟩ := List.mem_map.mp (perm.mem_iff.mp mem)
  obtain ⟨file, kept, rfl⟩ := List.mem_map.mp (List.mem_of_mem_take taken)
  obtain ⟨member, model⟩ := List.mem_filter.mp kept
  obtain ⟨st, stat, regular, gguf⟩ := modelFile_eq_true model
  exact ⟨file, member, st, stat, regular, gguf, makeEntry_fields layout view hw stat (flat file member) gguf⟩

-- /m/big.gguf, a model file of 2 ^ 62 bytes (4 EiB; a sparse file of that size fits in off_t).
def hugeModelFs : FileSystem where
  nodes := [.directory [(".".toList, 0), ("..".toList, 0), ("m".toList, 1)],
    .directory [(".".toList, 1), ("..".toList, 0), ("big.gguf".toList, 2)],
    .regular (2 ^ 62)]
  root := 0
  cwd := 0

def hugeModel : ModelEntry :=
  makeEntry tiedLayout hugeModelFs.view tiedHw "/m/big.gguf".toList

-- 2 ^ 42 * 2 ^ 20 / 35 * 100 is past 2 ^ 63.
theorem huge_model_params_overflow :
    treeWalk hugeModelFs.view 1 "/m".toList = some [("/m".toList, "big.gguf".toList)] ∧
      neuronosModelScan tiedLayout hugeModelFs.view tiedHw (insertionQsort ModelEntry) 1 "/m".toList =
        some (some [hugeModel]) ∧
      hugeModel.fileSizeMb = 2 ^ 42 ∧ hugeModel.nParamsEst ≠ hugeModel.fileSizeMb * 2 ^ 20 / 35 * 100 := by
  have walk : treeWalk hugeModelFs.view 1 "/m".toList = some [("/m".toList, "big.gguf".toList)] := rfl
  have sorted : sortedModels tiedLayout hugeModelFs.view tiedHw (insertionQsort ModelEntry)
      [("/m".toList, "big.gguf".toList)] = [hugeModel] := rfl
  obtain ⟨scan, -, -, -, fields⟩ := scan_returns_first_models tiedLayout hugeModelFs.view tiedHw
    (insertionQsort ModelEntry) 1 "/m".toList _ walk (by decide) (by decide)
  obtain ⟨file, member, st, stat, -, -, entry⟩ := fields hugeModel (by rw [sorted]; exact List.mem_singleton_self _)
  rw [List.mem_singleton] at member
  subst member
  have size : st = ⟨.regular, 2 ^ 62⟩ := (Option.some.inj stat).symm
  have mb : hugeModel.fileSizeMb = 2 ^ 42 := by rw [entry.fileSizeMb, size]; norm_num
  refine ⟨walk, by rw [scan, sorted]; rfl, mb, fun exact => ?_⟩
  have small := entry.nParamsEst.mp exact
  rw [mb] at small
  norm_num at small

end NeuronOS.Models
