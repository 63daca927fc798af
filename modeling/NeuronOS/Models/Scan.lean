import NeuronOS.Models.Score
import NeuronOS.Models.FileSystem

set_option autoImplicit false

namespace NeuronOS.Models

open NeuronOS.Shared

-- MAX_SCAN_MODELS
def maxScanModels : Nat := 128

-- sizeof(entry->path) and sizeof(entry->name): the header that fixes them is not among the sources.
structure EntryLayout where
  pathSize : Nat
  nameSize : Nat
  pathSize_pos : 0 < pathSize
  nameSize_pos : 0 < nameSize

def fileSizeMb (view : PosixView) (path : List Char) : Int :=
  match view.stat path with
  | some st => ((st.size / 1048576 : Nat) : Int)
  | none => 0

def extractModelName (path : List Char) (nameLen : Nat) : List Char :=
  let base :=
    match strrchr path '/' with
    | some slash => path.drop (slash + 1)
    | none =>
      match strrchr path '\\' with
      | some slash => path.drop (slash + 1)
      | none => path
  let len :=
    if 5 < base.length ∧ base.drop (base.length - 5) = ".gguf".toList then base.length - 5
    else base.length
  base.take (if nameLen ≤ len then nameLen - 1 else len)

-- The fields scan_dir_recursive fills for a .gguf file, in its order.
def makeEntry (layout : EntryLayout) (view : PosixView) (hw : HwInfo) (fullPath : List Char) :
    ModelEntry :=
  let fileSize := fileSizeMb view fullPath
  let entry : ModelEntry :=
    { path := (SnprintfCall.mk 0 layout.pathSize fullPath).printed
      name := extractModelName fullPath layout.nameSize
      fileSizeMb := fileSize
      estRamMb := estimateRamNeeded fileSize
      nParamsEst := estimateParams fileSize
      fitsInRam := decide (estimateRamNeeded fileSize ≤ hw.modelBudgetMb)
      score := 0 }
  { entry with score := scoreModel entry hw }

-- A slot of the calloc'd array.
def zeroEntry : ModelEntry :=
  ⟨[], [], 0, 0, 0, false, 0⟩

structure Scored (hw : HwInfo) (entry : ModelEntry) : Prop where
  positive : 0 < entry.estRamMb
  fits : entry.fitsInRam = decide (entry.estRamMb ≤ hw.modelBudgetMb)
  scored : entry.score = scoreModel entry hw

theorem fileSizeMb_nonneg (view : PosixView) (path : List Char) : 0 ≤ fileSizeMb view path := by
  unfold fileSizeMb
  split <;> omega

theorem makeEntry_scored (layout : EntryLayout) (view : PosixView) (hw : HwInfo) (fullPath : List Char) :
    Scored hw (makeEntry layout view hw fullPath) where
  positive := by
    have := estimateRamNeeded_ge (fileSizeMb_nonneg view fullPath)
    simp only [makeEntry]
    omega
  fits := rfl
  scored := rfl

namespace Scored

variable {hw : HwInfo} {entry : ModelEntry}

theorem score_of_fits (scored : Scored hw entry) (fits : entry.estRamMb ≤ hw.modelBudgetMb) :
    0 < hw.modelBudgetMb ∧ 1010 ≤ entry.score ∧ entry.score ≤ 1190 := by
  rw [scored.scored]
  exact ⟨by linarith [scored.positive], scoreModel_between scored.positive fits⟩

theorem score_of_lt (scored : Scored hw entry) (over : hw.modelBudgetMb < entry.estRamMb) :
    entry.score = -1 := by
  rw [scored.scored, scoreModel_of_lt over]

theorem fitsInRam_iff (scored : Scored hw entry) : entry.fitsInRam = true ↔ 0 < entry.score := by
  rw [scored.fits, decide_eq_true_iff]
  constructor
  next => intro fits; linarith [(scored.score_of_fits fits).2.1]
  next =>
    intro positive
    by_contra over
    rw [scored.score_of_lt (not_le.mp over)] at positive
    norm_num at positive

end Scored

-- snprintf(full_path, sizeof(full_path), "%s/%s", dir_path, ent->d_name)
def fullPathOf (dirPath name : List Char) : List Char :=
  (SnprintfCall.mk 0 1024 (dirPath ++ '/' :: name)).printed

-- `name_len > 5 && strcmp(ent->d_name + name_len - 5, ".gguf") == 0`
def isGguf (name : List Char) : Bool :=
  decide (5 < name.length) && name.drop (name.length - 5) == ".gguf".toList

def joinPath (dirPath name : List Char) : List Char :=
  dirPath ++ '/' :: name

theorem fullPathOf_of_fits {dirPath name : List Char} (fits : (joinPath dirPath name).length ≤ 1023) :
    fullPathOf dirPath name = joinPath dirPath name := by
  rw [fullPathOf, SnprintfCall.printed, SnprintfCall.copied, List.take_of_length_le (by simp only [joinPath] at fits ⊢; omega)]
  rfl

-- The entry of a .gguf file, field by field.
structure ModelFileEntry (layout : EntryLayout) (hw : HwInfo) (filePath fileName : List Char) (size : Nat)
    (entry : ModelEntry) : Prop where
  path : entry.path = filePath.take (layout.pathSize - 1)
  name : entry.name = (fileName.take (fileName.length - 5)).take (layout.nameSize - 1)
  fileSizeMb : entry.fileSizeMb = ((size / 1048576 : Nat) : Int)
  estRamMb : entry.estRamMb = entry.fileSizeMb + entry.fileSizeMb * 30 / 100 + 100
  nParamsEst : entry.nParamsEst = entry.fileSizeMb * 2 ^ 20 / 35 * 100 ↔ entry.fileSizeMb * 2 ^ 20 / 35 * 100 < 2 ^ 63
  fitsInRam : entry.fitsInRam = decide (entry.estRamMb ≤ hw.modelBudgetMb)
  score : entry.score = scoreModel entry hw

theorem extractModelName_join (dirPath : List Char) {name : List Char} (flat : '/' ∉ name)
    (gguf : isGguf name = true) (nameLen : Nat) :
    extractModelName (joinPath dirPath name) nameLen = (name.take (name.length - 5)).take (nameLen - 1) := by
  have suffix : 5 < name.length ∧ name.drop (name.length - 5) = ".gguf".toList := by simpa [isGguf] using gguf
  have base : (dirPath ++ '/' :: name).drop (dirPath.length + 1) = name := by simp
  simp only [extractModelName, joinPath, strrchr_last _ _ flat, base, if_pos suffix, List.take_take]
  congr 1
  split <;> omega

theorem makeEntry_fields (layout : EntryLayout) (view : PosixView) (hw : HwInfo) {dirPath name : List Char}
    {st : Stat} (stat : view.stat (joinPath dirPath name) = some st) (flat : '/' ∉ name) (gguf : isGguf name = true) :
    ModelFileEntry layout hw (joinPath dirPath name) name st.size (makeEntry layout view hw (joinPath dirPath name)) := by
  have size : fileSizeMb view (joinPath dirPath name) = ((st.size / 1048576 : Nat) : Int) := by rw [fileSizeMb, stat]
  have nonneg := fileSizeMb_nonneg view (joinPath dirPath name)
  refine ⟨by simp [makeEntry, SnprintfCall.printed, SnprintfCall.copied], extractModelName_join dirPath flat gguf _,
    size, ?_, ?_, rfl, rfl⟩
  next =>
    show estimateRamNeeded _ = _
    rw [estimateRamNeeded, Int.tdiv_eq_ediv (by omega) (by norm_num)]
    rfl
  next =>
    show estimateParams (fileSizeMb view (joinPath dirPath name)) = fileSizeMb view (joinPath dirPath name) * 2 ^ 20 / 35 * 100 ↔
      fileSizeMb view (joinPath dirPath name) * 2 ^ 20 / 35 * 100 < 2 ^ 63
    have scaled : fileSizeMb view (joinPath dirPath name) * 1024 * 1024 =
        fileSizeMb view (joinPath dirPath name) * 2 ^ 20 := by ring
    have counted : 0 ≤ fileSizeMb view (joinPath dirPath name) * 2 ^ 20 / 35 * 100 := by positivity
    rw [estimateParams, scaled, Int.tdiv_eq_ediv (by positivity) (by norm_num), wrapInt64_eq_self_iff]
    exact and_iff_right (le_trans (by norm_num) counted)

section Walker

variable (layout : EntryLayout) (view : PosixView) (hw : HwInfo) (maxEntries : Nat)

-- The readdir loop of one directory; `recurse` is scan_dir_recursive for its subdirectories.
def scanLoop
    (recurse : List Char → (Nat → ModelEntry) → Nat →
      Except ((Nat → ModelEntry) × Nat) ((Nat → ModelEntry) × Nat))
    (dirPath : List Char) :
    List (List Char) → (Nat → ModelEntry) → Nat → Except ((Nat → ModelEntry) × Nat) ((Nat → ModelEntry) × Nat)
  | [], entries, currentCount => .ok (entries, currentCount)
  | name :: rest, entries, currentCount =>
    if currentCount < maxEntries then
      if name.head? = some '.' then scanLoop recurse dirPath rest entries currentCount
      else
        match view.stat (fullPathOf dirPath name) with
        | none => scanLoop recurse dirPath rest entries currentCount
        | some st =>
          match st.kind with
          | .directory =>
            recurse (fullPathOf dirPath name) entries currentCount >>= fun scanned =>
              scanLoop recurse dirPath rest scanned.1 scanned.2
          | .regular =>
            if isGguf name then
              scanLoop recurse dirPath rest
                (Function.update entries currentCount (makeEntry layout view hw (fullPathOf dirPath name)))
                (currentCount + 1)
            else scanLoop recurse dirPath rest entries currentCount
          | .other => scanLoop recurse dirPath rest entries currentCount
    else .ok (entries, currentCount)

-- `fuel` bounds the depth of the recursion: a deeper call is cut off as `.error`, with the array
-- and count it was given.
def scanDirRecursive :
    Nat → List Char → (Nat → ModelEntry) → Nat → Except ((Nat → ModelEntry) × Nat) ((Nat → ModelEntry) × Nat)
  | 0, _, entries, currentCount => .error (entries, currentCount)
  | fuel + 1, dirPath, entries, currentCount =>
    match view.opendir dirPath with
    | none => .ok (entries, currentCount)
    | some names =>
      scanLoop layout view hw maxEntries (scanDirRecursive fuel) dirPath names entries currentCount

def reached : Except ((Nat → ModelEntry) × Nat) ((Nat → ModelEntry) × Nat) → (Nat → ModelEntry) × Nat
  | .ok state => state
  | .error state => state

-- The slots [count, count') filled with scored entries, up to `maxEntries`, and no other slot
-- written.
structure Appended (entries entries' : Nat → ModelEntry) (count count' : Nat) : Prop where
  le : count ≤ count'
  bounded : count' ≤ max count maxEntries
  frame : ∀ k, k < count ∨ count' ≤ k → entries' k = entries k
  scored : ∀ k, count ≤ k → k < count' → Scored hw (entries' k)

def AppendedBy (entries : Nat → ModelEntry) (count : Nat)
    (run : Except ((Nat → ModelEntry) × Nat) ((Nat → ModelEntry) × Nat)) : Prop :=
  Appended hw maxEntries entries (reached run).1 count (reached run).2

theorem Appended.refl (entries : Nat → ModelEntry) (count : Nat) :
    Appended hw maxEntries entries entries count count :=
  ⟨le_rfl, le_max_left _ _, fun _ _ => rfl, fun _ low high => absurd high (by omega)⟩

theorem Appended.trans {entries entries' entries'' : Nat → ModelEntry} {count count' count'' : Nat}
    (first : Appended hw maxEntries entries entries' count count')
    (second : Appended hw maxEntries entries' entries'' count' count'') :
    Appended hw maxEntries entries entries'' count count'' where
  le := first.le.trans second.le
  bounded := by have := first.bounded; have := second.bounded; omega
  frame k outside := by
    rw [second.frame k (by have := first.le; omega), first.frame k (by have := second.le; omega)]
  scored k low high := by
    by_cases earlier : k < count'
    next => rw [second.frame k (Or.inl earlier)]; exact first.scored k low earlier
    next => exact second.scored k (by omega) high

theorem Appended.write (entries : Nat → ModelEntry) {count : Nat} (room : count < maxEntries)
    {entry : ModelEntry} (scored : Scored hw entry) :
    Appended hw maxEntries entries (Function.update entries count entry) count (count + 1) where
  le := by omega
  bounded := by omega
  frame k outside := Function.update_noteq (by omega) _ _
  scored k low high := by
    rw [show k = count by omega, Function.update_same]
    exact scored

theorem scanLoop_appended
    {recurse : List Char → (Nat → ModelEntry) → Nat →
      Except ((Nat → ModelEntry) × Nat) ((Nat → ModelEntry) × Nat)}
    (recursed : ∀ path entries count, AppendedBy hw maxEntries entries count (recurse path entries count))
    (dirPath : List Char) :
    ∀ (names : List (List Char)) entries count,
      AppendedBy hw maxEntries entries count (scanLoop layout view hw maxEntries recurse dirPath names entries count)
  | [], entries, count => Appended.refl hw maxEntries entries count
  | name :: rest, entries, count => by
    have next := scanLoop_appended recursed dirPath rest
    rw [scanLoop]
    by_cases room : count < maxEntries
    next =>
      rw [if_pos room]
      by_cases dot : name.head? = some '.'
      next => rw [if_pos dot]; exact next entries count
      rw [if_neg dot]
      split
      next => exact next entries count
      next st _ =>
        split
        next =>
          have inner := recursed (fullPathOf dirPath name) entries count
          cases result : recurse (fullPathOf dirPath name) entries count with
          | error stopped => rw [result] at inner; exact inner
          | ok scanned => rw [result] at inner; exact inner.trans hw maxEntries (next scanned.1 scanned.2)
        next =>
          split
          next =>
            exact (Appended.write hw maxEntries entries room (makeEntry_scored _ _ _ _)).trans hw
              maxEntries (next _ _)
          next => exact next entries count
        next => exact next entries count
    next =>
      rw [if_neg room]
      exact Appended.refl hw maxEntries entries count

theorem scanDirRecursive_appended :
    ∀ (fuel : Nat) (dirPath : List Char) entries count,
      AppendedBy hw maxEntries entries count (scanDirRecursive layout view hw maxEntries fuel dirPath entries count)
  | 0, _, entries, count => Appended.refl hw maxEntries entries count
  | fuel + 1, dirPath, entries, count => by
    rw [scanDirRecursive]
    split
    next => exact Appended.refl hw maxEntries entries count
    next names _ =>
      exact scanLoop_appended layout view hw maxEntries (scanDirRecursive_appended fuel) dirPath names
        entries count

end Walker

theorem fullPathOf_truncated {dirPath : List Char} (size : dirPath.length = 1023) (name : List Char) :
    fullPathOf dirPath name = dirPath := by
  simp [fullPathOf, SnprintfCall.printed, SnprintfCall.copied, size]

-- A directory at a path of 1023 bytes that holds a subdirectory "a".
def truncationFs (long : List Char) : FileSystem where
  nodes := [.directory [(".".toList, 0), ("..".toList, 0), (long, 1)],
    .directory [(".".toList, 1), ("..".toList, 0), ("a".toList, 2)],
    .directory [(".".toList, 2), ("..".toList, 1)]]
  root := 0
  cwd := 0

theorem truncationFs_lookupPath {long : List Char} (size : long.length = 1022) (flat : '/' ∉ long) :
    (truncationFs long).lookupPath ('/' :: long) =
      some (.directory [(".".toList, 1), ("..".toList, 0), ("a".toList, 2)]) := by
  have named : long ≠ [] := by rintro rfl; simp at size
  have split : components ('/' :: long) = [long] := by
    simpa [components, componentsFrom.eq_2] using componentsFrom_of_flat flat (by simpa using named)
  have notDot : (long == ['.']) = false := beq_false_of_ne fun same => by simp [same] at size
  have notDotDot : (long == ['.', '.']) = false := beq_false_of_ne fun same => by simp [same] at size
  have walked : (truncationFs long).walk 0 [long] = .found 1 := by
    simp [FileSystem.walk, FileSystem.lookup, FileSystem.node, truncationFs, List.lookup_cons, List.lookup_nil, notDot, notDotDot]
  unfold FileSystem.lookupPath
  rw [if_neg (List.cons_ne_nil _ _), split]
  show ((truncationFs long).resolve 40 0 [long]).bind _ = _
  unfold FileSystem.resolve
  rw [walked]
  rfl

theorem scan_truncated_directory_never_returns (long : List Char) (size : long.length = 1022)
    (flat : '/' ∉ long) (layout : EntryLayout) (hw : HwInfo) (maxEntries : Nat)
    (entries : Nat → ModelEntry) (currentCount : Nat) (room : currentCount < maxEntries) (fuel : Nat) :
    scanDirRecursive layout (truncationFs long).view hw maxEntries fuel ('/' :: long) entries
      currentCount = .error (entries, currentCount) := by
  have opened := truncationFs_lookupPath size flat
  have listed : (truncationFs long).view.opendir ('/' :: long) = some [['.'], ['.', '.'], ['a']] := by
    simp [FileSystem.view, opened]
  have isDir : (truncationFs long).view.stat ('/' :: long) = some ⟨.directory, 0⟩ := by
    simp [FileSystem.view, opened]
  have cut := fullPathOf_truncated (show ('/' :: long).length = 1023 by simp [size]) ['a']
  induction fuel with
  | zero => rfl
  | succ fuel ih =>
    simp only [scanDirRecursive, listed, scanLoop, room, if_true, cut, isDir, ih]
    rfl

theorem deep_directory_scan_diverges :
    (List.replicate 1022 'd').length = 1022 ∧ '/' ∉ List.replicate 1022 'd' ∧ 0 < maxScanModels ∧
      scanDirRecursive ⟨4096, 256, by norm_num, by norm_num⟩ (truncationFs (List.replicate 1022 'd')).view
        ⟨8192⟩ maxScanModels 1000 ('/' :: List.replicate 1022 'd') (fun _ => zeroEntry) 0 =
          .error (fun _ => zeroEntry, 0) :=
  ⟨List.length_replicate _ _, fun mem => absurd (List.eq_of_mem_replicate mem) (by decide), by decide,
    scan_truncated_directory_never_returns _ (List.length_replicate _ _)
      (fun mem => absurd (List.eq_of_mem_replicate mem) (by decide)) _ _ _ _ _ (by decide) _⟩

end NeuronOS.Models
