import NeuronOS.Models.Walk

set_option autoImplicit false

namespace NeuronOS.Models

open NeuronOS.Shared

-- Two views of one filesystem that differ at most in the order readdir returns each directory's
-- names, which POSIX leaves unspecified.
structure Reordered (view view' : PosixView) : Prop where
  stat : view'.stat = view.stat
  opendir : ∀ path, Option.Rel List.Perm (view.opendir path) (view'.opendir path)

section Permuted

variable {α : Type}

theorem rel_perm_refl (o : Option (List α)) : Option.Rel List.Perm o o := by
  cases o
  next => exact .none
  next => exact .some (List.Perm.refl _)

theorem rel_perm_trans {o o' o'' : Option (List α)} (first : Option.Rel List.Perm o o')
    (second : Option.Rel List.Perm o' o'') : Option.Rel List.Perm o o'' := by
  cases first with
  | none => exact second
  | some perm => cases second with | some perm' => exact .some (perm.trans perm')

theorem rel_perm_some {l : List α} {o : Option (List α)} (rel : Option.Rel List.Perm (some l) o) :
    ∃ l', o = some l' ∧ l.Perm l' := by
  cases rel with | some perm => exact ⟨_, rfl, perm⟩

theorem rel_perm_map_cons (a : α) {o o' : Option (List α)} (rel : Option.Rel List.Perm o o') :
    Option.Rel List.Perm (o.map (a :: ·)) (o'.map (a :: ·)) := by
  cases rel with
  | none => exact .none
  | some perm => exact .some (perm.cons a)

theorem rel_perm_bind_append {o o' k k' : Option (List α)} (first : Option.Rel List.Perm o o')
    (rest : Option.Rel List.Perm k k') :
    Option.Rel List.Perm (o.bind fun l => k.map (l ++ ·)) (o'.bind fun l => k'.map (l ++ ·)) := by
  cases first with
  | none => exact .none
  | some perm =>
    cases rest with
    | none => exact .none
    | some perm' => exact .some (perm.append perm')

theorem find?_eq_of_agree {p q : α → Bool} : ∀ {l : List α}, (∀ a ∈ l, p a = q a) → l.find? p = l.find? q
  | [], _ => rfl
  | a :: l, agree => by
    rw [List.find?_cons, List.find?_cons, agree a (List.mem_cons_self _ _),
      find?_eq_of_agree fun b mem => agree b (List.mem_cons_of_mem _ mem)]

end Permuted

def walkName (view : PosixView) (below : List Char → Option (List (List Char × List Char)))
    (dirPath name : List Char) : Option (List (List Char × List Char)) :=
  if name.head? = some '.' then some []
  else (walkBelow view below (joinPath dirPath name)).map ((dirPath, name) :: ·)

theorem walkNames_cons_eq (view : PosixView) (below : List Char → Option (List (List Char × List Char)))
    (dirPath name : List Char) (rest : List (List Char)) :
    walkNames view below dirPath (name :: rest) =
      (walkName view below dirPath name).bind fun part => (walkNames view below dirPath rest).map (part ++ ·) := by
  rw [walkNames, walkName]
  by_cases dot : name.head? = some '.'
  next => simp [dot]
  next =>
    rw [if_neg dot, if_neg dot]
    cases walkBelow view below (joinPath dirPath name) <;> cases walkNames view below dirPath rest <;> rfl

section Walks

variable (view : PosixView) (below : List Char → Option (List (List Char × List Char))) (dirPath : List Char)

theorem walkNames_perm {names names' : List (List Char)} (perm : names.Perm names') :
    Option.Rel List.Perm (walkNames view below dirPath names) (walkNames view below dirPath names') := by
  induction perm with
  | nil => exact .some (List.Perm.refl _)
  | cons name _ ih =>
    rw [walkNames_cons_eq, walkNames_cons_eq]
    exact rel_perm_bind_append (rel_perm_refl _) ih
  | swap first second names =>
    simp only [walkNames_cons_eq]
    cases walkName view below dirPath first <;> cases walkName view below dirPath second <;>
      cases walkNames view below dirPath names
    all_goals first | exact .none | exact .some (List.perm_append_comm_assoc _ _ _)
  | trans _ _ ih ih' => exact rel_perm_trans ih ih'

end Walks

theorem walkNames_reordered {view view' : PosixView} (reordered : Reordered view view')
    {below below' : List Char → Option (List (List Char × List Char))}
    (related : ∀ path, Option.Rel List.Perm (below path) (below' path)) (dirPath : List Char) :
    ∀ names, Option.Rel List.Perm (walkNames view below dirPath names) (walkNames view' below' dirPath names)
  | [] => .some (List.Perm.refl _)
  | name :: rest => by
    rw [walkNames_cons_eq, walkNames_cons_eq]
    refine rel_perm_bind_append ?_ (walkNames_reordered reordered related dirPath rest)
    unfold walkName walkBelow
    rw [reordered.stat]
    split_ifs
    next => exact .some (List.Perm.refl _)
    next =>
      refine rel_perm_map_cons _ ?_
      split
      next => split_ifs <;> first | exact related _ | exact .some (List.Perm.refl _)
      next => exact .some (List.Perm.refl _)

theorem treeWalk_reordered {view view' : PosixView} (reordered : Reordered view view') :
    ∀ fuel dirPath, Option.Rel List.Perm (treeWalk view fuel dirPath) (treeWalk view' fuel dirPath)
  | 0, _ => .none
  | fuel + 1, dirPath => by
    have ih := treeWalk_reordered reordered fuel
    have opened := reordered.opendir dirPath
    rw [treeWalk, treeWalk]
    generalize view.opendir dirPath = names at opened
    generalize view'.opendir dirPath = names' at opened
    cases opened with
    | none => exact .some (List.Perm.refl _)
    | some perm =>
      exact rel_perm_trans (walkNames_reordered reordered ih dirPath _) (walkNames_perm view' _ dirPath perm)

theorem modelFile_reordered {view view' : PosixView} (reordered : Reordered view view') :
    modelFile view' = modelFile view := by
  funext file
  rw [modelFile, modelFile, reordered.stat]

theorem makeEntry_reordered (layout : EntryLayout) {view view' : PosixView} (reordered : Reordered view view')
    (hw : HwInfo) : makeEntry layout view' hw = makeEntry layout view hw := by
  funext path
  rw [makeEntry, makeEntry, fileSizeMb, fileSizeMb, reordered.stat]

theorem modelPaths_reordered {view view' : PosixView} (reordered : Reordered view view')
    {walked walked' : List (List Char × List Char)} (perm : walked.Perm walked') :
    (modelPaths view walked).Perm (modelPaths view' walked') := by
  rw [modelPaths, modelPaths, modelFile_reordered reordered]
  exact (perm.filter _).map _

theorem sortedModels_scores (layout : EntryLayout) (view : PosixView) (hw : HwInfo) (qsort : Qsort ModelEntry)
    (walked : List (List Char × List Char)) :
    ((sortedModels layout view hw qsort walked).map ModelEntry.score).Sorted (· ≥ ·) :=
  List.pairwise_map.mpr ((qsort.sorted _ _ compareModelsDesc_consistent).imp fun {a b} =>
    (compareModelsDesc_nonpos_iff a b).mp)

theorem sortedModels_scored (layout : EntryLayout) (view : PosixView) (hw : HwInfo) (qsort : Qsort ModelEntry)
    (walked : List (List Char × List Char)) : ∀ entry ∈ sortedModels layout view hw qsort walked, Scored hw entry := by
  intro entry mem
  obtain ⟨path, -, rfl⟩ := List.mem_map.mp ((qsort.perm _ _).mem_iff.mp mem)
  exact makeEntry_scored layout view hw path

theorem selectBest_score_eq {hw : HwInfo} {sorted sorted' : List ModelEntry}
    (scored : ∀ entry ∈ sorted, Scored hw entry) (scored' : ∀ entry ∈ sorted', Scored hw entry)
    (scores : sorted.map ModelEntry.score = sorted'.map ModelEntry.score) :
    (neuronosModelSelectBest sorted).map ModelEntry.score = (neuronosModelSelectBest sorted').map ModelEntry.score := by
  have positive : ∀ {sorted : List ModelEntry}, (∀ entry ∈ sorted, Scored hw entry) →
      (neuronosModelSelectBest sorted).map ModelEntry.score = (sorted.map ModelEntry.score).find? (0 < ·) := by
    intro sorted scored
    rw [neuronosModelSelectBest, List.find?_map]
    refine congrArg _ (find?_eq_of_agree fun entry mem => Bool.eq_iff_iff.mpr ?_)
    rw [Bool.and_eq_true, (scored entry mem).fitsInRam_iff, Function.comp_apply, decide_eq_true_eq, and_self]
  rw [positive scored, positive scored', scores]

-- readdir returning every directory's names in the reverse order.
def reverseReaddir (view : PosixView) : PosixView :=
  { view with opendir := fun path => (view.opendir path).map List.reverse }

theorem reordered_reverseReaddir (view : PosixView) : Reordered view (reverseReaddir view) where
  stat := rfl
  opendir path := by
    dsimp only [reverseReaddir]
    cases view.opendir path
    next => exact .none
    next names => exact .some (List.reverse_perm names).symm

theorem scan_independent_of_readdir_order (layout : EntryLayout) (view view' : PosixView) (hw : HwInfo)
    (qsort qsort' : Qsort ModelEntry) (fuel : Nat) (dirPath : List Char) (walked : List (List Char × List Char))
    (reordered : Reordered view view') (complete : treeWalk view fuel dirPath = some walked)
    (fits : ∀ file ∈ walked, (joinPath file.1 file.2).length ≤ 1023)
    (few : (modelPaths view walked).length ≤ maxScanModels) :
    (∀ fuel' dirPath', Option.Rel List.Perm (treeWalk view fuel' dirPath') (treeWalk view' fuel' dirPath')) ∧
    ∃ result result', neuronosModelScan layout view hw qsort fuel dirPath = some result ∧
      neuronosModelScan layout view' hw qsort' fuel dirPath = some result' ∧
      Option.Rel List.Perm result result' ∧
      result.map (List.map ModelEntry.score) = result'.map (List.map ModelEntry.score) ∧
      (result.bind neuronosModelSelectBest).map ModelEntry.score =
        (result'.bind neuronosModelSelectBest).map ModelEntry.score := by
  refine ⟨treeWalk_reordered reordered, ?_⟩
  obtain ⟨walked', complete', perm⟩ := rel_perm_some (complete ▸ treeWalk_reordered reordered fuel dirPath)
  have fits' : ∀ file ∈ walked', (joinPath file.1 file.2).length ≤ 1023 :=
    fun file mem => fits file (perm.mem_iff.mpr mem)
  have paths := modelPaths_reordered reordered perm
  have few' : (modelPaths view' walked').length ≤ maxScanModels := paths.length_eq ▸ few
  have sorted : (sortedModels layout view hw qsort walked).Perm (sortedModels layout view' hw qsort' walked') := by
    rw [sortedModels, sortedModels, List.take_of_length_le few, List.take_of_length_le few',
      makeEntry_reordered layout reordered]
    exact ((qsort.perm _ _).trans (paths.map _)).trans (qsort'.perm _ _).symm
  have scores : (sortedModels layout view hw qsort walked).map ModelEntry.score =
      (sortedModels layout view' hw qsort' walked').map ModelEntry.score :=
    List.eq_of_perm_of_sorted (sorted.map _) (sortedModels_scores ..) (sortedModels_scores ..)
  rw [neuronosModelScan_treeWalk layout view hw qsort fuel dirPath walked complete fits,
    neuronosModelScan_treeWalk layout view' hw qsort' fuel dirPath walked' complete' fits']
  by_cases empty : modelPaths view walked = []
  next =>
    rw [if_pos empty, if_pos (List.Perm.eq_nil (empty ▸ paths.symm))]
    exact ⟨none, none, rfl, rfl, .none, rfl, rfl⟩
  next =>
    rw [if_neg empty, if_neg fun empty' : modelPaths view' walked' = [] => empty (List.Perm.eq_nil (empty' ▸ paths))]
    exact ⟨_, _, rfl, rfl, .some sorted, congrArg some scores,
      selectBest_score_eq (sortedModels_scored layout view hw qsort walked)
        (sortedModels_scored layout view' hw qsort' walked') scores⟩

theorem tied_models_reversed_readdir :
    (∀ fuel' dirPath', Option.Rel List.Perm (treeWalk tiedFs.view fuel' dirPath')
      (treeWalk (reverseReaddir tiedFs.view) fuel' dirPath')) ∧
    ∃ result result', neuronosModelScan tiedLayout tiedFs.view tiedHw (insertionQsort ModelEntry) 1 "/m".toList =
        some result ∧
      neuronosModelScan tiedLayout (reverseReaddir tiedFs.view) tiedHw (reversingQsort ModelEntry) 1 "/m".toList =
        some result' ∧
      Option.Rel List.Perm result result' ∧
      result.map (List.map ModelEntry.score) = result'.map (List.map ModelEntry.score) ∧
      (result.bind neuronosModelSelectBest).map ModelEntry.score =
        (result'.bind neuronosModelSelectBest).map ModelEntry.score :=
  scan_independent_of_readdir_order tiedLayout tiedFs.view (reverseReaddir tiedFs.view) tiedHw _ _ 1 "/m".toList
    [("/m".toList, "a.gguf".toList), ("/m".toList, "b.gguf".toList)] (reordered_reverseReaddir _) rfl
    (by decide) (by decide)

end NeuronOS.Models
