import Mathlib.Data.List.Basic

set_option autoImplicit false

namespace NeuronOS.Models

inductive FileKind
  | directory
  | regular
  | other
  deriving DecidableEq, Repr

-- What stat reports that the scanner reads: S_ISDIR / S_ISREG, and st_size.
structure Stat where
  kind : FileKind
  size : Nat

-- The calls the scanner makes: the names readdir returns for a directory opendir opens, and stat.
structure PosixView where
  opendir : List Char → Option (List (List Char))
  stat : List Char → Option Stat

-- A finite filesystem: an inode table of directories, regular files and symbolic links.
inductive Node
  | directory (entries : List (List Char × Nat))
  | regular (size : Nat)
  | symlink (target : List Char)

structure FileSystem where
  nodes : List Node
  root : Nat
  cwd : Nat

def componentsFrom : List Char → List Char → List (List Char)
  | current, [] => if current = [] then [] else [current]
  | current, '/' :: rest => (if current = [] then [] else [current]) ++ componentsFrom [] rest
  | current, c :: rest => componentsFrom (current ++ [c]) rest

def components (path : List Char) : List (List Char) :=
  componentsFrom [] path

theorem componentsFrom_of_flat {current rest : List Char} (flat : '/' ∉ rest)
    (named : current ++ rest ≠ []) : componentsFrom current rest = [current ++ rest] := by
  induction rest generalizing current with
  | nil => simpa [componentsFrom] using named
  | cons c rest ih =>
    have other : c ≠ '/' := fun same => flat (same ▸ List.mem_cons_self _ _)
    rw [componentsFrom.eq_3 _ _ _ other, @ih (current ++ [c]) (fun mem => flat (List.mem_cons_of_mem _ mem))
      (by simp), List.append_assoc, List.singleton_append]

-- Walking a path's components up to the first symbolic link.
inductive Walk
  | found (inode : Nat)
  | link (parent : Nat) (target : List Char) (rest : List (List Char))
  | missing

namespace FileSystem

def node (fs : FileSystem) (inode : Nat) : Option Node :=
  fs.nodes[inode]?

def lookup (fs : FileSystem) (dir : Nat) (name : List Char) : Option Nat :=
  match fs.node dir with
  | some (.directory entries) => entries.lookup name
  | _ => none

def walk (fs : FileSystem) : Nat → List (List Char) → Walk
  | dir, [] => .found dir
  | dir, name :: rest =>
    match fs.lookup dir name with
    | none => .missing
    | some inode =>
      match fs.node inode with
      | some (.symlink target) => .link dir target rest
      | _ => fs.walk inode rest

-- Path lookup as stat and opendir do it, following at most `links` symbolic links (MAXSYMLINKS).
def resolve (fs : FileSystem) : Nat → Nat → List (List Char) → Option Nat
  | links, dir, names =>
    match fs.walk dir names, links with
    | .found inode, _ => some inode
    | .missing, _ => none
    | .link _ _ _, 0 => none
    | .link parent target rest, links + 1 =>
      fs.resolve links (if target.head? = some '/' then fs.root else parent) (components target ++ rest)

def lookupPath (fs : FileSystem) (path : List Char) : Option Node :=
  if path = [] then none
  else (fs.resolve 40 (if path.head? = some '/' then fs.root else fs.cwd) (components path)).bind fs.node

def view (fs : FileSystem) : PosixView where
  opendir path :=
    match fs.lookupPath path with
    | some (.directory entries) => some (entries.map Prod.fst)
    | _ => none
  stat path :=
    match fs.lookupPath path with
    | some (.directory _) => some ⟨.directory, 0⟩
    | some (.regular size) => some ⟨.regular, size⟩
    | _ => none

end FileSystem

end NeuronOS.Models
