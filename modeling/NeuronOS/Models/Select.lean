import NeuronOS.Models.Scan
import Mathlib.Data.List.Sort

set_option autoImplicit false

namespace NeuronOS.Models

def compareModelsDesc (a b : ModelEntry) : Int :=
  if a.score < b.score then 1
  else if b.score < a.score then -1
  else 0

-- The C standard's condition on qsort's comparator.
structure Consistent {α : Type} (compar : α → α → Int) : Prop where
  total : ∀ a b, compar a b ≤ 0 ∨ compar b a ≤ 0
  trans : ∀ a b c, compar a b ≤ 0 → compar b c ≤ 0 → compar a c ≤ 0
  zero_iff : ∀ a b, compar a b = 0 ↔ compar a b ≤ 0 ∧ compar b a ≤ 0

-- What the C standard promises of qsort: nothing of equivalent elements' order.
structure Qsort (α : Type) where
  sort : (α → α → Int) → List α → List α
  perm : ∀ compar l, (sort compar l).Perm l
  sorted : ∀ compar l, Consistent compar → (sort compar l).Pairwise fun a b => compar a b ≤ 0

def Qsort.Stable {α : Type} (qsort : Qsort α) : Prop :=
  ∀ compar l x, Consistent compar →
    (qsort.sort compar l).filter (fun y => compar x y = 0) = l.filter (fun y => compar x y = 0)

def insertionQsort (α : Type) : Qsort α where
  sort compar l := l.insertionSort fun a b => compar a b ≤ 0
  perm _ l := List.perm_insertionSort _ l
  sorted compar l consistent := by
    haveI : IsTotal α fun a b => compar a b ≤ 0 := ⟨consistent.total⟩
    haveI : IsTrans α fun a b => compar a b ≤ 0 := ⟨consistent.trans⟩
    exact List.sorted_insertionSort _ l

theorem insertionQsort_stable (α : Type) : (insertionQsort α).Stable := by
  intro compar l x consistent
  have ties : (l.filter fun y => compar x y = 0).Pairwise fun a b => compar a b ≤ 0 := by
    refine List.pairwise_of_forall_mem_list fun a tieA b tieB => ?_
    simp only [List.mem_filter, decide_eq_true_eq] at tieA tieB
    exact consistent.trans a x b ((consistent.zero_iff x a).mp tieA.2).2 ((consistent.zero_iff x b).mp tieB.2).1
  have kept := (List.sublist_insertionSort ties (List.filter_sublist l)).filter fun y => compar x y = 0
  simp only [List.filter_filter, Bool.and_self] at kept
  exact (kept.eq_of_length (((insertionQsort α).perm compar l).filter _).length_eq.symm).symm

theorem compareModelsDesc_nonpos_iff (a b : ModelEntry) : compareModelsDesc a b ≤ 0 ↔ b.score ≤ a.score := by
  unfold compareModelsDesc
  split_ifs with lower higher
  next => exact ⟨fun one => absurd one (by omega), fun le => absurd lower (not_lt.mpr le)⟩
  next => exact ⟨fun _ => higher.le, fun _ => by omega⟩
  next => exact ⟨fun _ => not_lt.mp lower, fun _ => le_rfl⟩

theorem compareModelsDesc_eq_zero_iff (a b : ModelEntry) : compareModelsDesc a b = 0 ↔ a.score = b.score := by
  unfold compareModelsDesc
  split_ifs with lower higher
  next => exact ⟨fun one => absurd one (by decide), fun same => absurd lower (by rw [same]; exact lt_irrefl _)⟩
  next => exact ⟨fun one => absurd one (by decide), fun same => absurd higher (by rw [same]; exact lt_irrefl _)⟩
  next => exact ⟨fun _ => le_antisymm (not_lt.mp higher) (not_lt.mp lower), fun _ => rfl⟩

-- Scores are rationals, never NaN: compare_models_desc orders them consistently.
theorem compareModelsDesc_consistent : Consistent compareModelsDesc where
  total a b := by simp only [compareModelsDesc_nonpos_iff]; exact le_total _ _
  trans a b c := by simp only [compareModelsDesc_nonpos_iff]; exact fun ab bc => bc.trans ab
  zero_iff a b := by
    rw [compareModelsDesc_eq_zero_iff, compareModelsDesc_nonpos_iff, compareModelsDesc_nonpos_iff]
    exact ⟨fun same => ⟨same.ge, same.le⟩, fun both => le_antisymm both.2 both.1⟩

def scanned (entries : Nat → ModelEntry) (count : Nat) : List ModelEntry :=
  (List.range count).map entries

-- `none` is a scan that was cut off at depth `fuel`.
def neuronosModelScan (layout : EntryLayout) (view : PosixView) (hw : HwInfo) (qsort : Qsort ModelEntry)
    (fuel : Nat) (dirPath : List Char) : Option (Option (List ModelEntry)) :=
  match scanDirRecursive layout view hw maxScanModels fuel dirPath (fun _ => zeroEntry) 0 with
  | .ok (entries, count) =>
    some (if count = 0 then none else some (qsort.sort compareModelsDesc (scanned entries count)))
  | .error _ => none

def neuronosModelSelectBest (entries : List ModelEntry) : Option ModelEntry :=
  entries.find? fun entry => entry.fitsInRam && decide (0 < entry.score)

theorem neuronosModelScan_some {layout : EntryLayout} {view : PosixView} {hw : HwInfo}
    {qsort : Qsort ModelEntry} {fuel : Nat} {dirPath : List Char} {sorted : List ModelEntry}
    (scan : neuronosModelScan layout view hw qsort fuel dirPath = some (some sorted)) :
    ∃ entries count,
      scanDirRecursive layout view hw maxScanModels fuel dirPath (fun _ => zeroEntry) 0 = .ok (entries, count) ∧
        0 < count ∧ sorted = qsort.sort compareModelsDesc (scanned entries count) := by
  unfold neuronosModelScan at scan
  split at scan
  next entries count returned =>
    refine ⟨entries, count, returned, ?_⟩
    split_ifs at scan with empty
    next => simp at scan
    next => exact ⟨Nat.pos_of_ne_zero empty, (Option.some.inj (Option.some.inj scan)).symm⟩
  next => cases scan

theorem scanned_scored {layout : EntryLayout} {view : PosixView} {hw : HwInfo} {maxEntries fuel : Nat}
    {dirPath : List Char} {entries : Nat → ModelEntry} {count : Nat}
    (returned : scanDirRecursive layout view hw maxEntries fuel dirPath (fun _ => zeroEntry) 0 =
      .ok (entries, count)) :
    ∀ entry ∈ scanned entries count, Scored hw entry := by
  have appended := scanDirRecursive_appended layout view hw maxEntries fuel dirPath (fun _ => zeroEntry) 0
  rw [AppendedBy, returned] at appended
  intro entry mem
  obtain ⟨k, below, rfl⟩ := List.mem_map.mp mem
  exact appended.scored k (Nat.zero_le _) (List.mem_range.mp below)

theorem sort_scanned_scored {layout : EntryLayout} {view : PosixView} {hw : HwInfo} {maxEntries fuel : Nat}
    {dirPath : List Char} {entries : Nat → ModelEntry} {count : Nat} (qsort : Qsort ModelEntry)
    (returned : scanDirRecursive layout view hw maxEntries fuel dirPath (fun _ => zeroEntry) 0 =
      .ok (entries, count)) :
    (∀ entry ∈ qsort.sort compareModelsDesc (scanned entries count), Scored hw entry) ∧
      (qsort.sort compareModelsDesc (scanned entries count)).Pairwise fun a b => b.score ≤ a.score :=
  ⟨fun entry mem => scanned_scored returned entry ((qsort.perm _ _).mem_iff.mp mem),
    (qsort.sorted _ _ compareModelsDesc_consistent).imp fun {a b} => (compareModelsDesc_nonpos_iff a b).mp⟩

theorem scanned_split {entries : Nat → ModelEntry} {count : Nat} {before after : List ModelEntry}
    {entry : ModelEntry} (split : scanned entries count = before ++ entry :: after) :
    before.length < count ∧ entries before.length = entry ∧ (∀ j < before.length, entries j ∈ before) ∧
      ∀ j, before.length < j → j < count → entries j ∈ after := by
  have size := congrArg List.length split
  simp only [scanned, List.length_map, List.length_range, List.length_append, List.length_cons] at size
  have lookup : ∀ j, j < count → (before ++ entry :: after)[j]? = some (entries j) := fun j below => by
    rw [← split, scanned, List.getElem?_map, List.getElem?_range below]
    rfl
  refine ⟨by omega, ?_, fun j below => ?_, fun j later below => ?_⟩
  next =>
    have found := lookup before.length (by omega)
    rw [List.getElem?_append_right le_rfl, Nat.sub_self, List.getElem?_cons_zero] at found
    exact (Option.some.inj found).symm
  next =>
    have found := lookup j (by omega)
    rw [List.getElem?_append_left below] at found
    exact List.getElem?_mem found
  next =>
    have found := lookup j below
    rw [List.getElem?_append_right (by omega), List.getElem?_cons, if_neg (by omega)] at found
    exact List.getElem?_mem found

section Selection

variable {hw : HwInfo} {sorted : List ModelEntry}

theorem selects_iff {entry : ModelEntry} (scored : Scored hw entry) :
    (entry.fitsInRam && decide (0 < entry.score)) = true ↔ entry.estRamMb ≤ hw.modelBudgetMb := by
  rw [Bool.and_eq_true, decide_eq_true_eq, ← scored.fitsInRam_iff, and_self, scored.fits, decide_eq_true_eq]

theorem selectBest_eq_none_iff (scored : ∀ entry ∈ sorted, Scored hw entry) :
    neuronosModelSelectBest sorted = none ↔ ∀ entry ∈ sorted, hw.modelBudgetMb < entry.estRamMb := by
  rw [neuronosModelSelectBest, List.find?_eq_none]
  exact forall₂_congr fun entry mem => by rw [selects_iff (scored entry mem), not_le]

theorem selectBest_best (scored : ∀ entry ∈ sorted, Scored hw entry)
    (descending : sorted.Pairwise fun a b => b.score ≤ a.score) {best : ModelEntry}
    (selected : neuronosModelSelectBest sorted = some best) :
    best ∈ sorted ∧ best.estRamMb ≤ hw.modelBudgetMb ∧ ∀ entry ∈ sorted, entry.score ≤ best.score := by
  have member := List.mem_of_find?_eq_some selected
  obtain ⟨chosen, before, after, split, skipped⟩ := List.find?_eq_some.mp selected
  have fits := (selects_iff (scored best member)).mp chosen
  have bestScore := (scored best member).score_of_fits fits
  refine ⟨member, fits, fun entry mem => ?_⟩
  rw [split] at mem descending
  rcases List.mem_append.mp mem with early | late
  next =>
    have over : hw.modelBudgetMb < entry.estRamMb := by
      have := skipped entry early
      rw [Bool.not_eq_true', ← Bool.not_eq_true, selects_iff (scored entry (split ▸ mem))] at this
      exact not_le.mp this
    rw [(scored entry (split ▸ mem)).score_of_lt over]
    linarith [bestScore.2.1]
  next =>
    rcases List.mem_cons.mp late with rfl | tail
    next => exact le_rfl
    next => exact (List.pairwise_cons.mp (List.pairwise_append.mp descending).2.1).1 entry tail

theorem selectBest_cons_of_fits {first : ModelEntry} (scored : Scored hw first) (fits : first.fitsInRam = true) :
    neuronosModelSelectBest (first :: sorted) = some first := by
  simp [neuronosModelSelectBest, fits, scored.fitsInRam_iff.mp fits]

end Selection

-- Two models of 1000 MB side by side in /m.
def tiedFs : FileSystem where
  nodes := [.directory [(".".toList, 0), ("..".toList, 0), ("m".toList, 1)],
    .directory [(".".toList, 1), ("..".toList, 0), ("a.gguf".toList, 2), ("b.gguf".toList, 3)],
    .regular 1048576000, .regular 1048576000]
  root := 0
  cwd := 0

def tiedLayout : EntryLayout :=
  ⟨4096, 256, by norm_num, by norm_num⟩

def tiedHw : HwInfo :=
  ⟨8192⟩

def tiedFirst : ModelEntry :=
  makeEntry tiedLayout tiedFs.view tiedHw "/m/a.gguf".toList

def tiedSecond : ModelEntry :=
  makeEntry tiedLayout tiedFs.view tiedHw "/m/b.gguf".toList

def tiedEntries : Nat → ModelEntry :=
  Function.update (Function.update (fun _ => zeroEntry) 0 tiedFirst) 1 tiedSecond

theorem tiedFs_scan :
    scanDirRecursive tiedLayout tiedFs.view tiedHw maxScanModels 1 "/m".toList (fun _ => zeroEntry) 0 =
      .ok (tiedEntries, 2) :=
  rfl

theorem tied_scores : tiedFirst.score = tiedSecond.score := by
  dsimp only [tiedFirst, tiedSecond, makeEntry]
  exact scoreModel_congr tiedHw rfl rfl (by decide) (by decide)

theorem tied_fit : tiedFirst.fitsInRam = true ∧ tiedSecond.fitsInRam = true :=
  ⟨rfl, rfl⟩

theorem tiedFs_sorted :
    neuronosModelScan tiedLayout tiedFs.view tiedHw (insertionQsort ModelEntry) 1 "/m".toList =
      some (some [tiedFirst, tiedSecond]) := by
  rw [neuronosModelScan, tiedFs_scan]
  simp [scanned, tiedEntries, insertionQsort, List.insertionSort, List.orderedInsert,
    compareModelsDesc_nonpos_iff, tied_scores]

theorem tied_select_first : neuronosModelSelectBest [tiedFirst, tiedSecond] = some tiedFirst :=
  selectBest_cons_of_fits (makeEntry_scored _ _ _ _) tied_fit.1

theorem select_best_fits_and_maximal (layout : EntryLayout) (view : PosixView) (hw : HwInfo)
    (qsort : Qsort ModelEntry) (fuel : Nat) (dirPath : List Char) (sorted : List ModelEntry)
    (scan : neuronosModelScan layout view hw qsort fuel dirPath = some (some sorted)) :
    (∀ entry ∈ sorted,
      (entry.estRamMb ≤ hw.modelBudgetMb → 0 < hw.modelBudgetMb ∧ 1010 ≤ entry.score ∧ entry.score ≤ 1190) ∧
      (hw.modelBudgetMb < entry.estRamMb → entry.score = -1) ∧
      (entry.fitsInRam = true ↔ 0 < entry.score)) ∧
    sorted.Pairwise (fun a b => b.score ≤ a.score) ∧
    (neuronosModelSelectBest sorted = none ↔ ∀ entry ∈ sorted, hw.modelBudgetMb < entry.estRamMb) ∧
    ∀ best, neuronosModelSelectBest sorted = some best →
      best ∈ sorted ∧ best.estRamMb ≤ hw.modelBudgetMb ∧ ∀ entry ∈ sorted, entry.score ≤ best.score := by
  obtain ⟨entries, count, returned, -, rfl⟩ := neuronosModelScan_some scan
  obtain ⟨scored, descending⟩ := sort_scanned_scored qsort returned
  exact ⟨fun entry mem => ⟨(scored entry mem).score_of_fits, (scored entry mem).score_of_lt,
    (scored entry mem).fitsInRam_iff⟩, descending, selectBest_eq_none_iff scored,
    fun best selected => selectBest_best scored descending selected⟩

theorem tied_models_best_is_maximal :
    neuronosModelScan tiedLayout tiedFs.view tiedHw (insertionQsort ModelEntry) 1 "/m".toList =
      some (some ((insertionQsort ModelEntry).sort compareModelsDesc [tiedFirst, tiedSecond])) ∧
    (∀ entry ∈ (insertionQsort ModelEntry).sort compareModelsDesc [tiedFirst, tiedSecond],
      (entry.estRamMb ≤ tiedHw.modelBudgetMb → 0 < tiedHw.modelBudgetMb ∧ 1010 ≤ entry.score ∧ entry.score ≤ 1190) ∧
      (tiedHw.modelBudgetMb < entry.estRamMb → entry.score = -1) ∧
      (entry.fitsInRam = true ↔ 0 < entry.score)) ∧
    ((insertionQsort ModelEntry).sort compareModelsDesc [tiedFirst, tiedSecond]).Pairwise
      (fun a b => b.score ≤ a.score) ∧
    (neuronosModelSelectBest ((insertionQsort ModelEntry).sort compareModelsDesc [tiedFirst, tiedSecond]) = none ↔
      ∀ entry ∈ (insertionQsort ModelEntry).sort compareModelsDesc [tiedFirst, tiedSecond],
        tiedHw.modelBudgetMb < entry.estRamMb) ∧
    ∀ best, neuronosModelSelectBest ((insertionQsort ModelEntry).sort compareModelsDesc [tiedFirst, tiedSecond]) =
        some best →
      best ∈ (insertionQsort ModelEntry).sort compareModelsDesc [tiedFirst, tiedSecond] ∧
        best.estRamMb ≤ tiedHw.modelBudgetMb ∧
        ∀ entry ∈ (insertionQsort ModelEntry).sort compareModelsDesc [tiedFirst, tiedSecond],
          entry.score ≤ best.score :=
  have scan : neuronosModelScan tiedLayout tiedFs.view tiedHw (insertionQsort ModelEntry) 1 "/m".toList =
      some (some ((insertionQsort ModelEntry).sort compareModelsDesc [tiedFirst, tiedSecond])) := rfl
  ⟨scan, select_best_fits_and_maximal _ _ _ _ _ _ _ scan⟩

theorem scan_writes_within_buffer (layout : EntryLayout) (view : PosixView) (hw : HwInfo)
    (maxEntries fuel : Nat) (dirPath : List Char) (entries : Nat → ModelEntry) (currentCount : Nat)
    (within : currentCount ≤ maxEntries) :
    (∀ k, k < currentCount ∨ maxEntries ≤ k →
      (reached (scanDirRecursive layout view hw maxEntries fuel dirPath entries currentCount)).1 k = entries k) ∧
    (∀ entries' count', scanDirRecursive layout view hw maxEntries fuel dirPath entries currentCount =
      .ok (entries', count') → currentCount ≤ count' ∧ count' ≤ maxEntries) ∧
    ∀ qsort sorted, neuronosModelScan layout view hw qsort fuel dirPath = some (some sorted) →
      sorted.length ≤ maxScanModels := by
  have appended := scanDirRecursive_appended layout view hw maxEntries fuel dirPath entries currentCount
  have bounded := appended.bounded
  refine ⟨fun k outside => appended.frame k (by omega), fun entries' count' returned => ?_,
    fun qsort sorted scan => ?_⟩
  next =>
    rw [AppendedBy, returned] at appended
    exact ⟨appended.le, by simpa [reached, within] using appended.bounded⟩
  next =>
    obtain ⟨entries₀, count₀, returned₀, -, rfl⟩ := neuronosModelScan_some scan
    have full := scanDirRecursive_appended layout view hw maxScanModels fuel dirPath (fun _ => zeroEntry) 0
    rw [AppendedBy, returned₀] at full
    rw [(qsort.perm _ _).length_eq, scanned, List.length_map, List.length_range]
    simpa [reached] using full.bounded

theorem tied_models_scan_within_buffer :
    0 ≤ maxScanModels ∧
    (∀ k, k < 0 ∨ maxScanModels ≤ k →
      (reached (scanDirRecursive tiedLayout tiedFs.view tiedHw maxScanModels 1 "/m".toList
        (fun _ => zeroEntry) 0)).1 k = zeroEntry) ∧
    (∀ entries' count', scanDirRecursive tiedLayout tiedFs.view tiedHw maxScanModels 1 "/m".toList
      (fun _ => zeroEntry) 0 = .ok (entries', count') → 0 ≤ count' ∧ count' ≤ maxScanModels) ∧
    ∀ qsort sorted, neuronosModelScan tiedLayout tiedFs.view tiedHw qsort 1 "/m".toList = some (some sorted) →
      sorted.length ≤ maxScanModels :=
  ⟨Nat.zero_le _, scan_writes_within_buffer _ _ _ _ _ _ _ _ (Nat.zero_le _)⟩

-- A qsort that meets the C standard's contract and reverses equal elements.
def reversingQsort (α : Type) : Qsort α where
  sort compar l := (insertionQsort α).sort compar l.reverse
  perm compar l := ((insertionQsort α).perm compar l.reverse).trans (List.reverse_perm l)
  sorted compar l consistent := (insertionQsort α).sorted compar l.reverse consistent

theorem reversingQsort_ties {α : Type} {compar : α → α → Int} (consistent : Consistent compar) (l : List α) (x : α) :
    ((reversingQsort α).sort compar l).filter (fun y => compar x y = 0) = (l.filter fun y => compar x y = 0).reverse :=
  (insertionQsort_stable α compar l.reverse x consistent).trans (List.filter_reverse _ l)

theorem selectBest_first_tie {layout : EntryLayout} {view : PosixView} {hw : HwInfo} {fuel : Nat}
    {dirPath : List Char} {entries : Nat → ModelEntry} {count : Nat} (qsort : Qsort ModelEntry)
    (returned : scanDirRecursive layout view hw maxScanModels fuel dirPath (fun _ => zeroEntry) 0 =
      .ok (entries, count))
    {best : ModelEntry} (selected : neuronosModelSelectBest (qsort.sort compareModelsDesc (scanned entries count)) = some best) :
    (∀ j < count, (entries j).score ≤ best.score) ∧
      ∃ rest, (qsort.sort compareModelsDesc (scanned entries count)).filter
        (fun y => compareModelsDesc best y = 0) = best :: rest := by
  obtain ⟨sortedScored, descending⟩ := sort_scanned_scored qsort returned
  obtain ⟨member, -, maximal⟩ := selectBest_best sortedScored descending selected
  obtain ⟨chosen, before, after, split, skipped⟩ := List.find?_eq_some.mp selected
  have positive := of_decide_eq_true (Bool.and_eq_true_iff.mp chosen).2
  refine ⟨fun j within => maximal _ ((qsort.perm _ _).mem_iff.mpr
    (List.mem_map.mpr ⟨j, List.mem_range.mpr within, rfl⟩)), after.filter fun y => compareModelsDesc best y = 0, ?_⟩
  rw [split, List.filter_append, List.filter_cons_of_pos (by simp [compareModelsDesc_eq_zero_iff])]
  rw [List.filter_eq_nil_iff.mpr fun y early tie => ?_, List.nil_append]
  have same := (compareModelsDesc_eq_zero_iff best y).mp (of_decide_eq_true tie)
  have scoredY := sortedScored y (split ▸ List.mem_append_left _ early)
  have := skipped y early
  rw [Bool.not_eq_true', ← Bool.not_eq_true, Bool.and_eq_true] at this
  have yPositive : 0 < y.score := same ▸ positive
  exact this ⟨scoredY.fitsInRam_iff.mpr yPositive, decide_eq_true yPositive⟩

theorem not_tie_of_filter {best entry : ModelEntry} (outside : ¬compareModelsDesc best entry = 0) :
    ¬(entry.fitsInRam = true ∧ entry.score = best.score) := fun tie =>
  outside ((compareModelsDesc_eq_zero_iff best entry).mpr tie.2.symm)

section Ties

variable {layout : EntryLayout} {view : PosixView} {hw : HwInfo} {fuel : Nat} {dirPath : List Char}
  {entries : Nat → ModelEntry} {count : Nat}
  (returned : scanDirRecursive layout view hw maxScanModels fuel dirPath (fun _ => zeroEntry) 0 = .ok (entries, count))

include returned

theorem scan_sorted_eq {qsort : Qsort ModelEntry} {sorted : List ModelEntry}
    (scan : neuronosModelScan layout view hw qsort fuel dirPath = some (some sorted)) :
    sorted = qsort.sort compareModelsDesc (scanned entries count) := by
  obtain ⟨entries₀, count₀, returned₀, -, rfl⟩ := neuronosModelScan_some scan
  rw [returned] at returned₀
  cases returned₀
  rfl

theorem stable_qsort_selects_first_scanned {qsort : Qsort ModelEntry} (stable : qsort.Stable)
    {sorted : List ModelEntry} (scan : neuronosModelScan layout view hw qsort fuel dirPath = some (some sorted))
    {best : ModelEntry} (selected : neuronosModelSelectBest sorted = some best) :
    ∃ k < count, entries k = best ∧ (∀ j < count, (entries j).score ≤ best.score) ∧
      ∀ j < k, ¬((entries j).fitsInRam = true ∧ (entries j).score = best.score) := by
  rw [scan_sorted_eq returned scan] at selected
  obtain ⟨maximal, rest, firstTie⟩ := selectBest_first_tie qsort returned selected
  rw [stable compareModelsDesc _ best compareModelsDesc_consistent] at firstTie
  obtain ⟨before, after, split, notTie, -, -⟩ := List.filter_eq_cons_iff.mp firstTie
  obtain ⟨below, atIndex, earlier, -⟩ := scanned_split split
  exact ⟨before.length, below, atIndex, maximal, fun j early =>
    not_tie_of_filter (by simpa using notTie _ (earlier j early))⟩

theorem reversing_qsort_selects_last_scanned {sorted : List ModelEntry}
    (scan : neuronosModelScan layout view hw (reversingQsort ModelEntry) fuel dirPath = some (some sorted))
    {best : ModelEntry} (selected : neuronosModelSelectBest sorted = some best) :
    ∃ k < count, entries k = best ∧ (∀ j < count, (entries j).score ≤ best.score) ∧
      ∀ j, k < j → j < count → ¬((entries j).fitsInRam = true ∧ (entries j).score = best.score) := by
  rw [scan_sorted_eq returned scan] at selected
  obtain ⟨maximal, rest, firstTie⟩ := selectBest_first_tie _ returned selected
  rw [reversingQsort_ties compareModelsDesc_consistent, ← List.filter_reverse] at firstTie
  obtain ⟨before, after, split, notTie, -, -⟩ := List.filter_eq_cons_iff.mp firstTie
  have forward : scanned entries count = after.reverse ++ best :: before.reverse := by
    rw [← List.reverse_reverse (scanned entries count), split, List.reverse_append, List.reverse_cons,
      List.append_assoc, List.singleton_append]
  obtain ⟨below, atIndex, -, later⟩ := scanned_split forward
  exact ⟨after.reverse.length, below, atIndex, maximal, fun j past within =>
    not_tie_of_filter (by simpa using notTie _ (List.mem_reverse.mp (later j past within)))⟩

end Ties

theorem select_tie_follows_qsort_order (layout : EntryLayout) (view : PosixView) (hw : HwInfo) (fuel : Nat)
    (dirPath : List Char) (entries : Nat → ModelEntry) (count : Nat)
    (returned : scanDirRecursive layout view hw maxScanModels fuel dirPath (fun _ => zeroEntry) 0 =
      .ok (entries, count)) :
    (∀ qsort : Qsort ModelEntry, qsort.Stable → ∀ sorted,
      neuronosModelScan layout view hw qsort fuel dirPath = some (some sorted) →
      ∀ best, neuronosModelSelectBest sorted = some best →
        ∃ k < count, entries k = best ∧ (∀ j < count, (entries j).score ≤ best.score) ∧
          ∀ j < k, ¬((entries j).fitsInRam = true ∧ (entries j).score = best.score)) ∧
    ∀ sorted, neuronosModelScan layout view hw (reversingQsort ModelEntry) fuel dirPath = some (some sorted) →
      ∀ best, neuronosModelSelectBest sorted = some best →
        ∃ k < count, entries k = best ∧ (∀ j < count, (entries j).score ≤ best.score) ∧
          ∀ j, k < j → j < count → ¬((entries j).fitsInRam = true ∧ (entries j).score = best.score) :=
  ⟨fun _ stable _ scan _ selected => stable_qsort_selects_first_scanned returned stable scan selected,
    fun _ scan _ selected => reversing_qsort_selects_last_scanned returned scan selected⟩

theorem tied_models_select_later_scan :
    scanDirRecursive tiedLayout tiedFs.view tiedHw maxScanModels 1 "/m".toList (fun _ => zeroEntry) 0 =
      .ok (tiedEntries, 2) ∧
    neuronosModelScan tiedLayout tiedFs.view tiedHw (reversingQsort ModelEntry) 1 "/m".toList =
      some (some [tiedSecond, tiedFirst]) ∧
    neuronosModelSelectBest [tiedSecond, tiedFirst] = some tiedSecond ∧
    tiedEntries 0 = tiedFirst ∧ tiedFirst ≠ tiedSecond ∧ tiedFirst.fitsInRam = true ∧
    tiedFirst.score = tiedSecond.score ∧
    ∃ k < 2, tiedEntries k = tiedSecond ∧ (∀ j < 2, (tiedEntries j).score ≤ tiedSecond.score) ∧
      ∀ j, k < j → j < 2 → ¬((tiedEntries j).fitsInRam = true ∧ (tiedEntries j).score = tiedSecond.score) := by
  have sorted : neuronosModelScan tiedLayout tiedFs.view tiedHw (reversingQsort ModelEntry) 1 "/m".toList =
      some (some [tiedSecond, tiedFirst]) := by
    rw [neuronosModelScan, tiedFs_scan]
    simp [scanned, tiedEntries, reversingQsort, insertionQsort, List.insertionSort, List.orderedInsert,
      compareModelsDesc_nonpos_iff, tied_scores]
  have selected : neuronosModelSelectBest [tiedSecond, tiedFirst] = some tiedSecond :=
    selectBest_cons_of_fits (makeEntry_scored _ _ _ _) tied_fit.2
  exact ⟨tiedFs_scan, sorted, selected, rfl, fun same => absurd (congrArg ModelEntry.path same) (by decide),
    tied_fit.1, tied_scores, (select_tie_follows_qsort_order _ _ _ _ _ _ _ tiedFs_scan).2 _ sorted _ selected⟩

end NeuronOS.Models
