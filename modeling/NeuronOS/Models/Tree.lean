import NeuronOS.Models.Reorder

set_option autoImplicit false

namespace NeuronOS.Models

open NeuronOS.Shared

theorem componentsFrom_append_slash (rest : List Char) :
    ∀ current xs : List Char,
      componentsFrom current (xs ++ '/' :: rest) = componentsFrom current xs ++ componentsFrom [] rest
  | current, [] => by rw [List.nil_append, componentsFrom.eq_2, componentsFrom.eq_1]
  | current, c :: xs => by
    by_cases slash : c = '/'
    next =>
      subst slash
      rw [List.cons_append, componentsFrom.eq_2, componentsFrom.eq_2, componentsFrom_append_slash rest [] xs,
        List.append_assoc]
    next =>
      rw [List.cons_append, componentsFrom.eq_3 _ _ _ slash, componentsFrom.eq_3 _ _ _ slash,
        componentsFrom_append_slash rest _ xs]

theorem components_joinPath (dirPath : List Char) {name : List Char} (named : name ≠ []) (flat : '/' ∉ name) :
    components (joinPath dirPath name) = components dirPath ++ [name] := by
  rw [components, joinPath, componentsFrom_append_slash, componentsFrom_of_flat flat (by simpa using named),
    List.nil_append, components]

def Walk.found? : Walk → Option Nat
  | .found inode => some inode
  | _ => none

namespace FileSystem

def pathInode (fs : FileSystem) (path : List Char) : Option Nat :=
  if path = [] then none
  else fs.resolve 40 (if path.head? = some '/' then fs.root else fs.cwd) (components path)

theorem lookupPath_eq (fs : FileSystem) (path : List Char) : fs.lookupPath path = (fs.pathInode path).bind fs.node := by
  unfold lookupPath pathInode
  split <;> rfl

theorem view_opendir {fs : FileSystem} {path : List Char} {inode : Nat} (resolved : fs.pathInode path = some inode) :
    fs.view.opendir path =
      match fs.node inode with
      | some (.directory entries) => some (entries.map Prod.fst)
      | _ => none := by
  rcases node : fs.node inode with _ | (_ | _ | _) <;> simp only [view, lookupPath_eq, resolved, Option.some_bind, node]

theorem view_stat {fs : FileSystem} {path : List Char} {inode : Nat} (resolved : fs.pathInode path = some inode) :
    fs.view.stat path =
      match fs.node inode with
      | some (.directory _) => some ⟨.directory, 0⟩
      | some (.regular size) => some ⟨.regular, size⟩
      | _ => none := by
  rcases node : fs.node inode with _ | (_ | _ | _) <;> simp only [view, lookupPath_eq, resolved, Option.some_bind, node]

section NoLinks

variable (fs : FileSystem) (noLinks : ∀ inode target, fs.node inode ≠ some (.symlink target))

include noLinks in
theorem walk_ne_link {parent : Nat} {target : List Char} {rest : List (List Char)} :
    ∀ dir names, fs.walk dir names ≠ .link parent target rest
  | _, [] => Walk.noConfusion
  | dir, name :: names => by
    rw [walk]
    split
    next => exact Walk.noConfusion
    next inode _ =>
      split
      next linked => exact absurd linked (noLinks _ _)
      next => exact walk_ne_link inode names

include noLinks in
theorem resolve_of_noLinks (links dir : Nat) (names : List (List Char)) :
    fs.resolve links dir names = (fs.walk dir names).found? := by
  unfold resolve
  split
  next found => rw [found]; rfl
  next missing => rw [missing]; rfl
  next linked => exact absurd linked (walk_ne_link fs noLinks _ _)
  next linked => exact absurd linked (walk_ne_link fs noLinks _ _)

include noLinks in
theorem found?_walk_append (name : List Char) :
    ∀ dir names, (fs.walk dir (names ++ [name])).found? = (fs.walk dir names).found?.bind (fs.lookup · name)
  | dir, [] => by
    rw [List.nil_append, walk.eq_2]
    show _ = fs.lookup dir name
    split
    next missing => rw [missing]; rfl
    next inode found =>
      rw [found]
      split
      next linked => exact absurd linked (noLinks _ _)
      next => rfl
  | dir, first :: names => by
    rw [List.cons_append, walk, walk]
    split
    next => rfl
    next inode _ =>
      split
      next linked => exact absurd linked (noLinks _ _)
      next => exact found?_walk_append name inode names

include noLinks in
theorem pathInode_joinPath {dirPath name : List Char} (nonempty : dirPath ≠ []) (named : name ≠ [])
    (flat : '/' ∉ name) : fs.pathInode (joinPath dirPath name) = (fs.pathInode dirPath).bind (fs.lookup · name) := by
  have head : (joinPath dirPath name).head? = dirPath.head? := List.head?_append_of_ne_nil _ nonempty
  unfold pathInode
  rw [if_neg (by simp [joinPath]), if_neg nonempty, head, components_joinPath dirPath named flat,
    resolve_of_noLinks fs noLinks, resolve_of_noLinks fs noLinks, found?_walk_append fs noLinks]

end NoLinks

end FileSystem

-- A filesystem without symbolic links whose directories form a tree under a height.
structure Tree (fs : FileSystem) (height : Nat → Nat) : Prop where
  noLinks : ∀ inode target, fs.node inode ≠ some (.symlink target)
  entries : ∀ dir entries, fs.node dir = some (.directory entries) → ∀ entry ∈ entries,
    entry.1.head? ≠ some '.' → entry.1 ≠ [] ∧ '/' ∉ entry.1 ∧ height entry.2 < height dir

theorem walkNames_some {view : PosixView} {below : List Char → Option (List (List Char × List Char))}
    {dirPath : List Char} :
    ∀ names : List (List Char), (∀ name ∈ names, name.head? ≠ some '.' → '/' ∉ name ∧
        ∃ part, walkBelow view below (joinPath dirPath name) = some part ∧ ∀ file ∈ part, '/' ∉ file.2) →
      ∃ walked, walkNames view below dirPath names = some walked ∧ ∀ file ∈ walked, '/' ∉ file.2
  | [], _ => ⟨[], rfl, List.forall_mem_nil _⟩
  | name :: rest, parts => by
    obtain ⟨after, walkAfter, flatAfter⟩ := walkNames_some rest fun name mem => parts name (List.mem_cons_of_mem _ mem)
    by_cases dot : name.head? = some '.'
    next => exact ⟨after, by rw [walkNames, if_pos dot, walkAfter], flatAfter⟩
    obtain ⟨flat, part, walkPart, flatPart⟩ := parts name (List.mem_cons_self _ _) dot
    refine ⟨(dirPath, name) :: part ++ after, by rw [walkNames, if_neg dot, walkPart, walkAfter]; rfl, ?_⟩
    intro file mem
    rcases List.mem_append.mp mem with first | later
    next =>
      rcases List.mem_cons.mp first with rfl | inner
      next => exact flat
      next => exact flatPart file inner
    next => exact flatAfter file later

section Depth

variable {view : PosixView} {below below' : List Char → Option (List (List Char × List Char))}
  (covered : ∀ path walked, below path = some walked → below' path = some walked)

include covered in
theorem walkBelow_mono {path : List Char} {walked : List (List Char × List Char)}
    (walk : walkBelow view below path = some walked) : walkBelow view below' path = some walked := by
  unfold walkBelow at walk ⊢
  cases stat : view.stat path with
  | none => rw [stat] at walk; exact walk
  | some st =>
    rw [stat] at walk
    dsimp only at walk ⊢
    split_ifs at walk ⊢
    next => exact covered _ _ walk
    next => exact walk

include covered in
theorem walkNames_mono (dirPath : List Char) :
    ∀ names walked, walkNames view below dirPath names = some walked → walkNames view below' dirPath names = some walked
  | [], _, walk => walk
  | name :: rest, walked, walk => by
    rw [walkNames_cons_eq] at walk ⊢
    obtain ⟨part, named, walk⟩ := Option.bind_eq_some.mp walk
    obtain ⟨after, walkAfter, rfl⟩ := Option.map_eq_some'.mp walk
    have named' : walkName view below' dirPath name = some part := by
      unfold walkName at named ⊢
      split_ifs at named ⊢
      next => exact named
      next =>
        obtain ⟨inner, walkInner, rfl⟩ := Option.map_eq_some'.mp named
        rw [walkBelow_mono covered walkInner]
        rfl
    rw [named', Option.some_bind, walkNames_mono dirPath rest after walkAfter]
    rfl

end Depth

theorem treeWalk_mono (view : PosixView) :
    ∀ fuel fuel' dirPath walked, fuel ≤ fuel' → treeWalk view fuel dirPath = some walked →
      treeWalk view fuel' dirPath = some walked
  | 0, _, _, _, _, walk => by cases walk
  | _ + 1, 0, _, _, deeper, _ => absurd deeper (Nat.not_succ_le_zero _)
  | fuel + 1, fuel' + 1, dirPath, walked, deeper, walk => by
    rw [treeWalk] at walk ⊢
    cases opened : view.opendir dirPath with
    | none => rw [opened] at walk; exact walk
    | some names =>
      rw [opened] at walk
      exact walkNames_mono (fun path below => treeWalk_mono view fuel fuel' path below (by omega)) dirPath names
        walked walk

theorem Tree.child {fs : FileSystem} {height : Nat → Nat} (tree : Tree fs height) {dirPath : List Char}
    {dir : Nat} {entries : List (List Char × Nat)} (resolved : fs.pathInode dirPath = some dir)
    (node : fs.node dir = some (.directory entries)) {name : List Char} (listed : name ∈ entries.map Prod.fst)
    (dot : name.head? ≠ some '.') :
    '/' ∉ name ∧ ∃ child, fs.pathInode (joinPath dirPath name) = some child ∧ height child < height dir := by
  have nonempty : dirPath ≠ [] := by rintro rfl; cases resolved
  obtain ⟨⟨name, inode⟩, entry, rfl⟩ := List.mem_map.mp listed
  obtain ⟨named, flat, -⟩ := tree.entries dir entries node _ entry dot
  obtain ⟨child, found⟩ := Option.isSome_iff_exists.mp
    (List.lookup_isSome_iff.mpr ⟨(name, inode), entry, beq_self_eq_true _⟩)
  obtain ⟨before, after, split, -⟩ := List.lookup_eq_some_iff.mp found
  refine ⟨flat, child, ?_, (tree.entries dir entries node (name, child) (by simp [split]) dot).2.2⟩
  rw [FileSystem.pathInode_joinPath fs tree.noLinks nonempty named flat, resolved, Option.some_bind,
    FileSystem.lookup, node]
  exact found

theorem treeWalk_of_tree {fs : FileSystem} {height : Nat → Nat} (tree : Tree fs height) :
    ∀ fuel dirPath dir, fs.pathInode dirPath = some dir → height dir < fuel →
      ∃ walked, treeWalk fs.view fuel dirPath = some walked ∧ ∀ file ∈ walked, '/' ∉ file.2
  | 0, _, _, _, deep => absurd deep (Nat.not_lt_zero _)
  | fuel + 1, dirPath, dir, resolved, deep => by
    rw [treeWalk, FileSystem.view_opendir resolved]
    cases node : fs.node dir with
    | none => exact ⟨[], rfl, List.forall_mem_nil _⟩
    | some found =>
      cases found with
      | regular size => exact ⟨[], rfl, List.forall_mem_nil _⟩
      | symlink target => exact absurd node (tree.noLinks _ _)
      | directory entries =>
        refine walkNames_some _ fun name listed dot => ?_
        obtain ⟨flat, child, inodeChild, lower⟩ := tree.child resolved node listed dot
        refine ⟨flat, ?_⟩
        rw [walkBelow, FileSystem.view_stat inodeChild]
        cases childNode : fs.node child with
        | none => exact ⟨[], rfl, List.forall_mem_nil _⟩
        | some found =>
          cases found with
          | regular size => exact ⟨[], rfl, List.forall_mem_nil _⟩
          | symlink target => exact absurd childNode (tree.noLinks _ _)
          | directory _ => exact treeWalk_of_tree tree fuel _ child inodeChild (by omega)

theorem tree_scan_returns (fs : FileSystem) (height : Nat → Nat) (tree : Tree fs height) (dirPath : List Char)
    (dir : Nat) (resolved : fs.pathInode dirPath = some dir) :
    ∃ walked, (∀ file ∈ walked, '/' ∉ file.2) ∧ ∀ fuel, height dir < fuel →
      treeWalk fs.view fuel dirPath = some walked ∧
        ((∀ file ∈ walked, (joinPath file.1 file.2).length ≤ 1023) → ∀ layout hw qsort,
          neuronosModelScan layout fs.view hw qsort fuel dirPath =
            some (if modelPaths fs.view walked = [] then none else some (sortedModels layout fs.view hw qsort walked))) := by
  obtain ⟨walked, complete, flat⟩ := treeWalk_of_tree tree (height dir + 1) dirPath dir resolved (Nat.lt_succ_self _)
  refine ⟨walked, flat, fun fuel deep => ?_⟩
  have complete' := treeWalk_mono fs.view _ fuel dirPath walked deep complete
  exact ⟨complete', fun fits layout hw qsort =>
    neuronosModelScan_treeWalk layout fs.view hw qsort fuel dirPath walked complete' fits⟩

-- The heights of tiedFs: the root, the models directory /m, and the two models.
def tiedHeight (inode : Nat) : Nat :=
  if inode = 0 then 2 else if inode = 1 then 1 else 0

theorem tiedFs_tree : Tree tiedFs tiedHeight where
  noLinks inode target := by
    rcases inode with _ | _ | _ | _ | inode <;> simp [FileSystem.node, tiedFs]
  entries dir entries node := by
    rcases dir with _ | _ | _ | _ | dir <;> simp only [FileSystem.node, tiedFs] at node <;> cases node <;> decide

theorem tied_models_scan_returns :
    ∃ walked, (∀ file ∈ walked, '/' ∉ file.2) ∧ ∀ fuel, tiedHeight 1 < fuel →
      treeWalk tiedFs.view fuel "/m".toList = some walked ∧
        ((∀ file ∈ walked, (joinPath file.1 file.2).length ≤ 1023) → ∀ layout hw qsort,
          neuronosModelScan layout tiedFs.view hw qsort fuel "/m".toList =
            some (if modelPaths tiedFs.view walked = [] then none
              else some (sortedModels layout tiedFs.view hw qsort walked))) :=
  tree_scan_returns tiedFs tiedHeight tiedFs_tree "/m".toList 1 rfl

end NeuronOS.Models
