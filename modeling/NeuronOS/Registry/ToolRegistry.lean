import NeuronOS.Shared.CString
import Mathlib.Data.List.Nodup

set_option autoImplicit false

namespace NeuronOS.Registry

-- NEURONOS_MAX_TOOLS
def neuronosMaxTools : Nat := 64

structure ToolResult where
  success : Bool
  output : Option (List Char)
  error : Option (List Char)

-- neuronos_tool_desc_t. Pointers that may be NULL are options.
structure ToolDesc (Exec : Type) where
  name : Option (List Char)
  description : Option (List Char)
  argsSchemaJson : Option (List Char)
  execute : Option Exec
  userData : Nat
  requiredCaps : UInt32

-- struct neuronos_tool_reg: the filled prefix tools[0..count) of its fixed array.
structure ToolRegistry (Exec : Type) where
  tools : List (ToolDesc Exec)

-- What neuronos_tool_execute returns: a call to an executor, or a result built without one.
inductive ExecOutcome (Exec : Type)
  | call (execute : Option Exec) (argsJson : List Char) (userData : Nat)
  | result (result : ToolResult)

variable {Exec : Type}

def neuronosToolRegistryCreate : ToolRegistry Exec :=
  ⟨[]⟩

def neuronosToolRegister (reg : ToolRegistry Exec) : Option (ToolDesc Exec) → Int × ToolRegistry Exec
  | none => (-1, reg)
  | some desc =>
    if desc.name.isNone || desc.execute.isNone then (-1, reg)
    else if neuronosMaxTools ≤ reg.tools.length then (-1, reg)
    else if reg.tools.any (fun tool => tool.name == desc.name) then (-1, reg)
    else (0, ⟨reg.tools ++ [desc]⟩)

def neuronosToolExecute (reg : ToolRegistry Exec) (toolName argsJson : Option (List Char)) :
    ExecOutcome Exec :=
  match toolName with
  | none => .result ⟨false, none, some "Invalid arguments".toList⟩
  | some name =>
    match reg.tools.find? (fun tool => tool.name == some name) with
    | some tool => .call tool.execute (argsJson.getD "\x7b\x7d".toList) tool.userData
    | none => .result ⟨false, none, some "Tool not found".toList⟩

def neuronosToolCount (reg : ToolRegistry Exec) : Int :=
  reg.tools.length

def neuronosToolName (reg : ToolRegistry Exec) (index : Int) : Option (List Char) :=
  if index < 0 ∨ reg.tools.length ≤ index then none else (reg.tools[index.toNat]?).bind ToolDesc.name

def registerAll (descs : List (Option (ToolDesc Exec))) : ToolRegistry Exec :=
  descs.foldl (fun reg desc => (neuronosToolRegister reg desc).2) neuronosToolRegistryCreate

-- What the registry is for: a map from names to descriptors in registration order, of at most
-- NEURONOS_MAX_TOOLS entries.
def mapRegister (m : List (List Char × ToolDesc Exec)) :
    Option (ToolDesc Exec) → Option (List (List Char × ToolDesc Exec))
  | some desc =>
    match desc.name, desc.execute with
    | some name, some _ =>
      if m.length < neuronosMaxTools ∧ name ∉ m.map Prod.fst then some (m ++ [(name, desc)]) else none
    | _, _ => none
  | none => none

def mapExecute (m : List (List Char × ToolDesc Exec)) (toolName argsJson : Option (List Char)) :
    ExecOutcome Exec :=
  match toolName with
  | none => .result ⟨false, none, some "Invalid arguments".toList⟩
  | some name =>
    match m.lookup name with
    | some desc => .call desc.execute (argsJson.getD "\x7b\x7d".toList) desc.userData
    | none => .result ⟨false, none, some "Tool not found".toList⟩

def mapName (m : List (List Char × ToolDesc Exec)) (index : Int) : Option (List Char) :=
  if index < 0 then none else (m[index.toNat]?).map Prod.fst

def mapRegisterAll (descs : List (Option (ToolDesc Exec))) : List (List Char × ToolDesc Exec) :=
  descs.foldl (fun m desc => (mapRegister m desc).getD m) []

structure Refines (reg : ToolRegistry Exec) (m : List (List Char × ToolDesc Exec)) : Prop where
  tools : reg.tools = m.map Prod.snd
  named : ∀ entry ∈ m, entry.2.name = some entry.1
  executable : ∀ entry ∈ m, entry.2.execute.isSome
  distinct : (m.map Prod.fst).Nodup
  bounded : m.length ≤ neuronosMaxTools

theorem refines_create : Refines (neuronosToolRegistryCreate : ToolRegistry Exec) [] :=
  ⟨rfl, by simp, by simp, List.nodup_nil, by simp⟩

theorem any_name_iff {reg : ToolRegistry Exec} {m : List (List Char × ToolDesc Exec)}
    (refines : Refines reg m) (name : List Char) :
    reg.tools.any (fun tool => tool.name == some name) = true ↔ name ∈ m.map Prod.fst := by
  rw [refines.tools]
  simp only [List.any_eq_true, beq_iff_eq, List.mem_map]
  constructor
  next =>
    rintro ⟨_, ⟨entry, mem, rfl⟩, same⟩
    exact ⟨entry, mem, Option.some.inj ((refines.named entry mem).symm.trans same)⟩
  next =>
    rintro ⟨entry, mem, rfl⟩
    exact ⟨entry.2, ⟨entry, mem, rfl⟩, refines.named entry mem⟩

theorem refines_append {reg : ToolRegistry Exec} {m : List (List Char × ToolDesc Exec)}
    (refines : Refines reg m) {name : List Char} {desc : ToolDesc Exec} (named : desc.name = some name)
    (executable : desc.execute.isSome) (room : m.length < neuronosMaxTools)
    (fresh : name ∉ m.map Prod.fst) : Refines ⟨reg.tools ++ [desc]⟩ (m ++ [(name, desc)]) where
  tools := by simp [refines.tools]
  named := by
    simp only [List.mem_append, List.mem_singleton]
    rintro entry (mem | rfl)
    exacts [refines.named entry mem, named]
  executable := by
    simp only [List.mem_append, List.mem_singleton]
    rintro entry (mem | rfl)
    exacts [refines.executable entry mem, executable]
  distinct := by
    rw [List.map_append, List.nodup_append]
    exact ⟨refines.distinct, List.nodup_singleton _, List.disjoint_singleton.mpr fresh⟩
  bounded := by simp only [List.length_append, List.length_singleton]; omega

theorem register_cases {reg : ToolRegistry Exec} {m : List (List Char × ToolDesc Exec)}
    (refines : Refines reg m) (desc : Option (ToolDesc Exec)) :
    (mapRegister m desc = none ∧ neuronosToolRegister reg desc = (-1, reg)) ∨
      ∃ d name, d.name = some name ∧ d.execute.isSome ∧ m.length < neuronosMaxTools ∧
        name ∉ m.map Prod.fst ∧ mapRegister m desc = some (m ++ [(name, d)]) ∧
        neuronosToolRegister reg desc = (0, ⟨reg.tools ++ [d]⟩) := by
  have count : reg.tools.length = m.length := by rw [refines.tools, List.length_map]
  rcases desc with _ | desc
  next => exact .inl ⟨rfl, rfl⟩
  rcases named : desc.name with _ | name
  next =>
    exact .inl ⟨by simp only [mapRegister, named],
      by simp only [neuronosToolRegister, named, Option.isNone_none, Bool.true_or, if_true]⟩
  rcases executable : desc.execute with _ | exec
  next =>
    exact .inl ⟨by simp only [mapRegister, named, executable],
      by simp only [neuronosToolRegister, executable, Option.isNone_none, Bool.or_true, if_true]⟩
  by_cases room : m.length < neuronosMaxTools
  next =>
    by_cases fresh : name ∈ m.map Prod.fst
    next =>
      refine .inl ⟨by simp only [mapRegister, named, executable, fresh, not_true_eq_false, and_false,
        if_false], ?_⟩
      simp only [neuronosToolRegister, named, executable, Option.isNone_some, Bool.or_self, count,
        (any_name_iff refines name).mpr fresh, Bool.false_eq_true, if_false, if_true,
        show ¬ neuronosMaxTools ≤ m.length by omega]
    next =>
      refine .inr ⟨desc, name, named, by simp only [executable, Option.isSome_some], room, fresh,
        by simp only [mapRegister, named, executable, room, fresh, not_false_eq_true, and_self, if_true], ?_⟩
      simp only [neuronosToolRegister, named, executable, Option.isNone_some, Bool.or_self, count,
        mt (any_name_iff refines name).mp fresh, Bool.false_eq_true, if_false,
        show ¬ neuronosMaxTools ≤ m.length by omega]
  next =>
    refine .inl ⟨by simp only [mapRegister, named, executable, room, false_and, if_false], ?_⟩
    simp only [neuronosToolRegister, named, executable, Option.isNone_some, Bool.or_self, count,
      Bool.false_eq_true, if_false, show neuronosMaxTools ≤ m.length by omega, if_true]

theorem register_refines {reg : ToolRegistry Exec} {m : List (List Char × ToolDesc Exec)}
    (refines : Refines reg m) (desc : Option (ToolDesc Exec)) :
    (neuronosToolRegister reg desc).1 = (if (mapRegister m desc).isSome then 0 else -1) ∧
      Refines (neuronosToolRegister reg desc).2 ((mapRegister m desc).getD m) ∧
      (mapRegister m desc = none → (neuronosToolRegister reg desc).2 = reg) := by
  rcases register_cases refines desc with
    ⟨map, register⟩ | ⟨d, name, named, executable, room, fresh, map, register⟩
  next =>
    rw [register, map]
    exact ⟨rfl, refines, fun _ => rfl⟩
  next =>
    rw [register, map]
    exact ⟨rfl, refines_append refines named executable room fresh, fun never => by cases never⟩

theorem find_name_eq_lookup {m : List (List Char × ToolDesc Exec)}
    (named : ∀ entry ∈ m, entry.2.name = some entry.1) (name : List Char) :
    (m.map Prod.snd).find? (fun tool => tool.name == some name) = m.lookup name := by
  induction m with
  | nil => rfl
  | cons entry rest ih =>
    obtain ⟨key, tool⟩ := entry
    have own := named (key, tool) (List.mem_cons_self _ _)
    rw [List.map_cons, List.find?_cons, own, ih fun e mem => named e (List.mem_cons_of_mem _ mem)]
    by_cases same : name = key
    next => subst same; simp [List.lookup_cons]
    next =>
      have differ : (key == name) = false := beq_false_of_ne (Ne.symm same)
      have differ' : (name == key) = false := beq_false_of_ne same
      simp [List.lookup_cons, differ, differ']

theorem execute_refines {reg : ToolRegistry Exec} {m : List (List Char × ToolDesc Exec)}
    (refines : Refines reg m) (toolName argsJson : Option (List Char)) :
    neuronosToolExecute reg toolName argsJson = mapExecute m toolName argsJson := by
  cases toolName with
  | none => rfl
  | some name =>
    simp only [neuronosToolExecute, mapExecute, refines.tools, find_name_eq_lookup refines.named]

theorem count_refines {reg : ToolRegistry Exec} {m : List (List Char × ToolDesc Exec)}
    (refines : Refines reg m) : neuronosToolCount reg = m.length := by
  simp [neuronosToolCount, refines.tools]

theorem name_refines {reg : ToolRegistry Exec} {m : List (List Char × ToolDesc Exec)}
    (refines : Refines reg m) (index : Int) : neuronosToolName reg index = mapName m index := by
  unfold neuronosToolName mapName
  by_cases negative : index < 0
  next => simp [negative]
  by_cases past : (m.length : Int) ≤ index
  next =>
    have outside : m.length ≤ index.toNat := by omega
    simp [refines.tools, negative, past, List.getElem?_eq_none outside]
  next =>
    have inside : index.toNat < m.length := by omega
    simp only [refines.tools, List.length_map, negative, past, or_self, if_false,
      List.getElem?_map, List.getElem?_eq_getElem inside, Option.map_some', Option.some_bind]
    exact refines.named _ (List.getElem_mem inside)

theorem refines_foldl (descs : List (Option (ToolDesc Exec))) {reg : ToolRegistry Exec}
    {m : List (List Char × ToolDesc Exec)} (refines : Refines reg m) :
    Refines (descs.foldl (fun reg desc => (neuronosToolRegister reg desc).2) reg)
      (descs.foldl (fun m desc => (mapRegister m desc).getD m) m) := by
  induction descs generalizing reg m with
  | nil => exact refines
  | cons desc rest ih => exact ih (register_refines refines desc).2.1

theorem tool_registry_refines_map (descs : List (Option (ToolDesc Exec))) :
    Refines (registerAll descs) (mapRegisterAll descs) ∧
      (∀ desc, (neuronosToolRegister (registerAll descs) desc).1 =
          (if (mapRegister (mapRegisterAll descs) desc).isSome then 0 else -1) ∧
        Refines (neuronosToolRegister (registerAll descs) desc).2
          ((mapRegister (mapRegisterAll descs) desc).getD (mapRegisterAll descs)) ∧
        (mapRegister (mapRegisterAll descs) desc = none →
          (neuronosToolRegister (registerAll descs) desc).2 = registerAll descs)) ∧
      neuronosToolCount (registerAll descs) = (mapRegisterAll descs).length ∧
      (∀ index, neuronosToolName (registerAll descs) index = mapName (mapRegisterAll descs) index) ∧
      (∀ toolName argsJson, neuronosToolExecute (registerAll descs) toolName argsJson =
        mapExecute (mapRegisterAll descs) toolName argsJson) := by
  have refines := refines_foldl descs (@refines_create Exec)
  exact ⟨refines, register_refines refines, count_refines refines, name_refines refines,
    execute_refines refines⟩

end NeuronOS.Registry
