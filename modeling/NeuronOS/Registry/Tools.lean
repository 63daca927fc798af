import NeuronOS.Registry.ToolRegistry

set_option autoImplicit false

namespace NeuronOS.Registry

open NeuronOS.Shared

-- The function pointers a descriptor's `execute` can hold.
inductive Executor
  | toolShell
  | toolReadFile
  | toolWriteFile
  | toolCalculate
  | external (id : Nat)
  deriving DecidableEq, Repr

-- What a built-in tool asks of the system once it has parsed its arguments.
inductive ToolRequest
  | fail (error : List Char)
  | popen (command : List Char)
  | fopenRead (path : List Char)
  | fopenWrite (path content : List Char)
  deriving DecidableEq

-- `p = strstr(args_json, key)`, then `p = strchr(p + skip, '"')`: the text after that quote.
def valueStart (argsJson key : List Char) (skip : Nat) (missing invalid : List Char) :
    Except (List Char) (List Char) :=
  match strstr argsJson key with
  | none => .error missing
  | some found =>
    match strchr (argsJson.drop (found + skip)) '"' with
    | none => .error invalid
    | some quote => .ok (argsJson.drop (found + skip + quote + 1))

-- `end = strchr(start, '"')`: the text up to the next double quote.
def untilQuote (invalid start : List Char) : Except (List Char) (List Char) :=
  match strchr start '"' with
  | none => .error invalid
  | some stop => .ok (start.take stop)

-- `while (*end && *end != '"') { if (*end == '\\') end++; if (*end) end++; }`
def escapedLength : List Char → Nat
  | [] => 0
  | '"' :: _ => 0
  | '\\' :: [] => 1
  | '\\' :: _ :: rest => escapedLength rest + 2
  | _ :: rest => escapedLength rest + 1

def toolShell (argsJson : List Char) : ToolRequest :=
  match valueStart argsJson "\"command\"".toList 9 "Missing \x27command\x27 argument".toList
      "Invalid \x27command\x27 format".toList with
  | .error error => .fail error
  | .ok start => .popen (start.take (escapedLength start))

def toolReadFile (argsJson : List Char) : ToolRequest :=
  match valueStart argsJson "\"path\"".toList 6 "Missing \x27path\x27 argument".toList "Invalid \x27path\x27".toList
      >>= untilQuote "Invalid \x27path\x27".toList with
  | .error error => .fail error
  | .ok path => .fopenRead path

def toolWriteFile (argsJson : List Char) : ToolRequest :=
  match valueStart argsJson "\"path\"".toList 6 "Missing \x27path\x27".toList "Invalid \x27path\x27".toList
      >>= untilQuote "Invalid \x27path\x27".toList with
  | .error error => .fail error
  | .ok path =>
    match valueStart argsJson "\"content\"".toList 9 "Missing \x27content\x27".toList
        "Invalid \x27content\x27".toList with
    | .error error => .fail error
    | .ok start => .fopenWrite path (start.take (escapedLength start))

-- `snprintf(cmd, sizeof(cmd), "echo '%.*s' | bc -l 2>&1", (int)expr_len, expr_start)`
def calculateCommand (expression : List Char) : SnprintfCall :=
  ⟨0, 512, "echo \x27".toList ++ expression ++ "\x27 | bc -l 2>&1".toList⟩

def toolCalculate (argsJson : List Char) : ToolRequest :=
  match valueStart argsJson "\"expression\"".toList 12 "Missing \x27expression\x27 argument".toList
      "Invalid \x27expression\x27".toList >>= untilQuote "Invalid \x27expression\x27".toList with
  | .error error => .fail error
  | .ok expression => .popen (calculateCommand expression).printed

theorem untilQuote_no_quote {invalid start value : List Char}
    (parsed : untilQuote invalid start = .ok value) : '"' ∉ value := by
  unfold untilQuote at parsed
  split at parsed
  next => cases parsed
  next found => cases parsed; exact not_mem_take_strchr found

theorem bind_untilQuote_no_quote {invalid value : List Char} {start : Except (List Char) (List Char)}
    (parsed : (start >>= untilQuote invalid) = .ok value) : '"' ∉ value := by
  cases start with
  | error => cases parsed
  | ok start => exact untilQuote_no_quote parsed

theorem toolCalculate_popen {argsJson command : List Char} (runs : toolCalculate argsJson = .popen command) :
    ∃ expression, '"' ∉ expression ∧ command = (calculateCommand expression).printed := by
  unfold toolCalculate at runs
  split at runs
  next => cases runs
  next expression parsed => cases runs; exact ⟨expression, bind_untilQuote_no_quote parsed, rfl⟩

theorem toolReadFile_ne_popen (argsJson command : List Char) : toolReadFile argsJson ≠ .popen command := by
  unfold toolReadFile
  split <;> simp

theorem toolWriteFile_ne_popen (argsJson command : List Char) : toolWriteFile argsJson ≠ .popen command := by
  unfold toolWriteFile
  split
  next => simp
  next => split <;> simp

def runExecutor : Executor → List Char → Option ToolRequest
  | .toolShell, argsJson => some (toolShell argsJson)
  | .toolReadFile, argsJson => some (toolReadFile argsJson)
  | .toolWriteFile, argsJson => some (toolWriteFile argsJson)
  | .toolCalculate, argsJson => some (toolCalculate argsJson)
  | .external _, _ => none

-- A key a built-in tool reads, and its errors for an absent key and for a key with no value string.
structure KeyCheck where
  key : List Char
  missing : List Char
  invalid : List Char
  deriving DecidableEq

def KeyCheck.quoted (check : KeyCheck) : List Char :=
  '"' :: check.key ++ ['"']

def argumentChecks : Executor → List KeyCheck
  | .toolShell => [⟨"command".toList, "Missing \x27command\x27 argument".toList, "Invalid \x27command\x27 format".toList⟩]
  | .toolReadFile => [⟨"path".toList, "Missing \x27path\x27 argument".toList, "Invalid \x27path\x27".toList⟩]
  | .toolWriteFile =>
    [⟨"path".toList, "Missing \x27path\x27".toList, "Invalid \x27path\x27".toList⟩,
      ⟨"content".toList, "Missing \x27content\x27".toList, "Invalid \x27content\x27".toList⟩]
  | .toolCalculate => [⟨"expression".toList, "Missing \x27expression\x27 argument".toList, "Invalid \x27expression\x27".toList⟩]
  | .external _ => []

def KeyCheck.NamesKey (check : KeyCheck) : Prop :=
  ('\x27' :: check.key ++ ['\x27']) <:+: check.missing ∧ ('\x27' :: check.key ++ ['\x27']) <:+: check.invalid ∧
    "Missing".toList <+: check.missing ∧ ¬"Missing".toList <+: check.invalid

instance (check : KeyCheck) : Decidable check.NamesKey :=
  inferInstanceAs (Decidable (_ ∧ _))

theorem argumentChecks_namesKey : ∀ exec, ∀ check ∈ argumentChecks exec, check.NamesKey
  | .toolShell | .toolReadFile | .toolWriteFile | .toolCalculate => by decide
  | .external _ => nofun

theorem valueStart_error {argsJson key : List Char} {skip : Nat} {missing invalid error : List Char}
    (failed : valueStart argsJson key skip missing invalid = .error error) :
    (error = missing ∧ strstr argsJson key = none) ∨ (error = invalid ∧ strstr argsJson key ≠ none) := by
  unfold valueStart at failed
  split at failed
  next absent => cases failed; exact .inl ⟨rfl, absent⟩
  next present =>
    split at failed
    next => cases failed; exact .inr ⟨rfl, by simp [present]⟩
    next => cases failed

theorem bind_untilQuote_error {argsJson key : List Char} {skip : Nat} {missing invalid error : List Char}
    (failed : (valueStart argsJson key skip missing invalid >>= untilQuote invalid) = .error error) :
    (error = missing ∧ strstr argsJson key = none) ∨ (error = invalid ∧ strstr argsJson key ≠ none) := by
  cases started : valueStart argsJson key skip missing invalid with
  | error => rw [started] at failed; cases failed; exact valueStart_error started
  | ok start =>
    rw [started] at failed
    change untilQuote invalid start = .error error at failed
    have present : strstr argsJson key ≠ none := by
      unfold valueStart at started
      split at started
      next => cases started
      next found => simp [found]
    unfold untilQuote at failed
    split at failed
    next => cases failed; exact .inr ⟨rfl, present⟩
    next => cases failed

theorem error_of_checked {argsJson error : List Char} {check : KeyCheck}
    (checked : (error = check.missing ∧ strstr argsJson check.quoted = none) ∨
      (error = check.invalid ∧ strstr argsJson check.quoted ≠ none)) :
    error = if strstr argsJson check.quoted = none then check.missing else check.invalid := by
  rcases checked with ⟨rfl, absent⟩ | ⟨rfl, present⟩
  exacts [(if_pos absent).symm, (if_neg present).symm]

theorem runExecutor_fail {exec : Executor} {argsJson error : List Char}
    (fails : runExecutor exec argsJson = some (.fail error)) :
    ∃ check ∈ argumentChecks exec,
      error = if strstr argsJson check.quoted = none then check.missing else check.invalid := by
  cases exec with
  | toolShell =>
    simp only [runExecutor, Option.some.injEq, toolShell] at fails
    split at fails
    next failed => cases fails; exact ⟨_, List.mem_singleton_self _, error_of_checked (valueStart_error failed)⟩
    next => cases fails
  | toolReadFile =>
    simp only [runExecutor, Option.some.injEq, toolReadFile] at fails
    split at fails
    next failed => cases fails; exact ⟨_, List.mem_singleton_self _, error_of_checked (bind_untilQuote_error failed)⟩
    next => cases fails
  | toolWriteFile =>
    simp only [runExecutor, Option.some.injEq, toolWriteFile] at fails
    split at fails
    next failed => cases fails; exact ⟨_, List.mem_cons_self _ _, error_of_checked (bind_untilQuote_error failed)⟩
    next =>
      split at fails
      next failed =>
        cases fails
        exact ⟨_, List.mem_cons_of_mem _ (List.mem_singleton_self _), error_of_checked (valueStart_error failed)⟩
      next => cases fails
  | toolCalculate =>
    simp only [runExecutor, Option.some.injEq, toolCalculate] at fails
    split at fails
    next failed => cases fails; exact ⟨_, List.mem_singleton_self _, error_of_checked (bind_untilQuote_error failed)⟩
    next => cases fails
  | external => cases fails

theorem runExecutor_fail_names_key {exec : Executor} {argsJson error : List Char}
    (fails : runExecutor exec argsJson = some (.fail error)) :
    ∃ check ∈ argumentChecks exec,
      (error = if strstr argsJson check.quoted = none then check.missing else check.invalid) ∧
      ('\x27' :: check.key ++ ['\x27']) <:+: error ∧ ("Missing".toList <+: error ↔ strstr argsJson check.quoted = none) := by
  obtain ⟨check, mem, text⟩ := runExecutor_fail fails
  obtain ⟨inMissing, inInvalid, isMissing, notMissing⟩ := argumentChecks_namesKey exec check mem
  refine ⟨check, mem, text, ?_⟩
  rw [text]
  split_ifs with absent
  exacts [⟨inMissing, iff_of_true isMissing absent⟩, ⟨inInvalid, iff_of_false notMissing absent⟩]

-- The values of NEURONOS_CAP_SHELL and NEURONOS_CAP_FILESYSTEM are not in the sources.
section Defaults

variable (capShell capFilesystem : UInt32)

def shellDesc : ToolDesc Executor :=
  ⟨some "shell".toList, some "Execute a shell command and return its output.".toList,
    some "\x7b\"type\":\"object\",\"properties\":\x7b\"command\":\x7b\"type\":\"string\",\"description\":\"The shell command to execute\"\x7d\x7d,\"required\":[\"command\"]\x7d".toList,
    some .toolShell, 0, capShell⟩

def readFileDesc : ToolDesc Executor :=
  ⟨some "read_file".toList, some "Read the contents of a file (max 32KB).".toList,
    some "\x7b\"type\":\"object\",\"properties\":\x7b\"path\":\x7b\"type\":\"string\",\"description\":\"File path to read\"\x7d\x7d,\"required\":[\"path\"]\x7d".toList,
    some .toolReadFile, 0, capFilesystem⟩

def writeFileDesc : ToolDesc Executor :=
  ⟨some "write_file".toList, some "Write content to a file.".toList,
    some "\x7b\"type\":\"object\",\"properties\":\x7b\"path\":\x7b\"type\":\"string\"\x7d,\"content\":\x7b\"type\":\"string\"\x7d\x7d,\"required\":[\"path\",\"content\"]\x7d".toList,
    some .toolWriteFile, 0, capFilesystem⟩

def calculateDesc : ToolDesc Executor :=
  ⟨some "calculate".toList, some "Evaluate a mathematical expression (uses bc).".toList,
    some "\x7b\"type\":\"object\",\"properties\":\x7b\"expression\":\x7b\"type\":\"string\",\"description\":\"Math expression, e.g. 2+2, sqrt(144)\"\x7d\x7d,\"required\":[\"expression\"]\x7d".toList,
    some .toolCalculate, 0, 0⟩

def defaultDescs (allowedCaps : UInt32) : List (ToolDesc Executor) :=
  (if allowedCaps &&& capShell ≠ 0 then [shellDesc capShell] else []) ++
    (if allowedCaps &&& capFilesystem ≠ 0 then [readFileDesc capFilesystem, writeFileDesc capFilesystem]
      else []) ++ [calculateDesc]

-- Registers each default descriptor in turn and counts those neuronos_tool_register took.
def neuronosToolRegisterDefaults (reg : ToolRegistry Executor) (allowedCaps : UInt32) :
    Int × ToolRegistry Executor :=
  (defaultDescs capShell capFilesystem allowedCaps).foldl
    (fun acc desc =>
      let registered := neuronosToolRegister acc.2 (some desc)
      (if registered.1 = 0 then acc.1 + 1 else acc.1, registered.2))
    (0, reg)

theorem register_tools (reg : ToolRegistry Executor) (desc : ToolDesc Executor) :
    (neuronosToolRegister reg (some desc)).2.tools = reg.tools ∨
      (neuronosToolRegister reg (some desc)).2.tools = reg.tools ++ [desc] := by
  simp only [neuronosToolRegister]
  split_ifs <;> simp

theorem foldl_register_tools (descs : List (ToolDesc Executor)) (acc : Int × ToolRegistry Executor) :
    ∃ added, (∀ desc ∈ added, desc ∈ descs) ∧
      (descs.foldl (fun acc desc =>
          let registered := neuronosToolRegister acc.2 (some desc)
          (if registered.1 = 0 then acc.1 + 1 else acc.1, registered.2)) acc).2.tools =
        acc.2.tools ++ added := by
  induction descs generalizing acc with
  | nil => exact ⟨[], by simp, by simp⟩
  | cons desc rest ih =>
    obtain ⟨added, within, tools⟩ := ih
      (if (neuronosToolRegister acc.2 (some desc)).1 = 0 then acc.1 + 1 else acc.1,
        (neuronosToolRegister acc.2 (some desc)).2)
    rcases register_tools acc.2 desc with same | appended
    next => exact ⟨added, fun d mem => List.mem_cons_of_mem _ (within d mem), by simpa [same] using tools⟩
    next =>
      exact ⟨desc :: added, List.forall_mem_cons.mpr ⟨List.mem_cons_self _ _,
        fun d mem => List.mem_cons_of_mem _ (within d mem)⟩, by simpa [appended] using tools⟩

theorem registerDefaults_tools (reg : ToolRegistry Executor) (allowedCaps : UInt32) :
    ∃ added, (∀ desc ∈ added, desc ∈ defaultDescs capShell capFilesystem allowedCaps) ∧
      (neuronosToolRegisterDefaults capShell capFilesystem reg allowedCaps).2.tools = reg.tools ++ added :=
  foldl_register_tools _ (0, reg)

-- What registering `descs` in turn takes into `reg`, when each has a name and an executor and no two
-- share one.
def freshTools (reg : ToolRegistry Executor) (descs : List (ToolDesc Executor)) : List (ToolDesc Executor) :=
  (descs.filter fun desc => !reg.tools.any fun tool => tool.name == desc.name).take
    (neuronosMaxTools - reg.tools.length)

theorem register_named {reg : ToolRegistry Executor} {desc : ToolDesc Executor}
    (named : desc.name.isSome ∧ desc.execute.isSome) :
    neuronosToolRegister reg (some desc) =
      if neuronosMaxTools ≤ reg.tools.length then (-1, reg)
      else if reg.tools.any (fun tool => tool.name == desc.name) then (-1, reg)
      else (0, ⟨reg.tools ++ [desc]⟩) := by
  rw [neuronosToolRegister,
    if_neg (by simp [Option.isNone_iff_eq_none, ← Option.isSome_iff_ne_none, named.1, named.2])]

theorem foldl_register_fresh :
    ∀ descs : List (ToolDesc Executor), (∀ desc ∈ descs, desc.name.isSome ∧ desc.execute.isSome) →
      (descs.map ToolDesc.name).Nodup → ∀ (count : Int) (reg : ToolRegistry Executor),
        descs.foldl (fun acc desc =>
            let registered := neuronosToolRegister acc.2 (some desc)
            (if registered.1 = 0 then acc.1 + 1 else acc.1, registered.2)) (count, reg) =
          (count + (freshTools reg descs).length, ⟨reg.tools ++ freshTools reg descs⟩)
  | [], _, _, count, reg => by simp [freshTools]
  | desc :: rest, named, distinct, count, reg => by
    rw [List.map_cons, List.nodup_cons] at distinct
    have next := foldl_register_fresh rest (fun d mem => named d (List.mem_cons_of_mem _ mem)) distinct.2
    rw [List.foldl_cons, register_named (named desc (List.mem_cons_self _ _))]
    by_cases full : neuronosMaxTools ≤ reg.tools.length
    next =>
      have none : ∀ descs, freshTools reg descs = [] := fun descs => by
        rw [freshTools, Nat.sub_eq_zero_of_le full, List.take_zero]
      rw [if_pos full, none, next, none]
      rfl
    by_cases held : reg.tools.any (fun tool => tool.name == desc.name)
    next =>
      have same : freshTools reg (desc :: rest) = freshTools reg rest := by
        simp only [freshTools, List.filter_cons, held, Bool.not_true, Bool.false_eq_true, if_false]
      rw [if_neg full, if_pos held, same]
      exact next count reg
    next =>
      have others : ∀ other ∈ rest, (!(reg.tools ++ [desc]).any fun tool => tool.name == other.name) =
          !reg.tools.any fun tool => tool.name == other.name := fun other mem => by
        have differ : (desc.name == other.name) = false :=
          beq_false_of_ne fun same => distinct.1 (same ▸ List.mem_map_of_mem _ mem)
        rw [List.any_append, List.any_cons, List.any_nil, differ, Bool.false_or, Bool.or_false]
      have room : neuronosMaxTools - reg.tools.length = neuronosMaxTools - (reg.tools ++ [desc]).length + 1 := by
        rw [List.length_append, List.length_singleton]
        omega
      have added : freshTools reg (desc :: rest) = desc :: freshTools ⟨reg.tools ++ [desc]⟩ rest := by
        rw [freshTools, freshTools, List.filter_cons, if_pos (by simpa using held), room, List.take_succ_cons,
          List.filter_congr others]
      rw [if_neg full, if_neg held]
      dsimp only
      rw [if_pos rfl, next, added, List.length_cons, List.append_assoc, List.singleton_append]
      congr 1
      omega

theorem freshTools_after (reg : ToolRegistry Executor) (descs : List (ToolDesc Executor)) :
    freshTools ⟨reg.tools ++ freshTools reg descs⟩ descs = [] := by
  by_cases fits : (descs.filter fun desc => !reg.tools.any fun tool => tool.name == desc.name).length ≤
    neuronosMaxTools - reg.tools.length
  next =>
    have taken : freshTools reg descs = descs.filter fun desc => !reg.tools.any fun tool => tool.name == desc.name :=
      List.take_of_length_le fits
    have none : (descs.filter fun desc => !(reg.tools ++ freshTools reg descs).any fun tool =>
        tool.name == desc.name) = [] := by
      refine List.filter_eq_nil_iff.mpr fun desc mem => ?_
      rw [List.any_append, Bool.not_eq_true', Bool.not_eq_false, Bool.or_eq_true, taken]
      by_cases held : reg.tools.any (fun tool => tool.name == desc.name)
      next => exact .inl held
      next => exact .inr (List.any_eq_true.mpr ⟨desc, List.mem_filter.mpr ⟨mem, by simpa using held⟩, beq_self_eq_true _⟩)
    show List.take _ (List.filter (fun desc => !(reg.tools ++ freshTools reg descs).any fun tool =>
      tool.name == desc.name) descs) = []
    rw [none, List.take_nil]
  next =>
    have full : neuronosMaxTools ≤ (reg.tools ++ freshTools reg descs).length := by
      rw [List.length_append, freshTools, List.length_take]
      omega
    rw [freshTools, Nat.sub_eq_zero_of_le full, List.take_zero]

theorem defaultDescs_named (allowedCaps : UInt32) :
    (∀ desc ∈ defaultDescs capShell capFilesystem allowedCaps, desc.name.isSome ∧ desc.execute.isSome) ∧
      ((defaultDescs capShell capFilesystem allowedCaps).map ToolDesc.name).Nodup := by
  unfold defaultDescs
  split_ifs <;> simp only [List.map_append, List.map_cons, List.map_nil, List.nil_append, List.singleton_append,
    List.cons_append, shellDesc, readFileDesc, writeFileDesc, calculateDesc, List.forall_mem_cons,
    List.forall_mem_nil] <;> decide

theorem register_defaults_adds_fresh (reg : ToolRegistry Executor) (allowedCaps : UInt32) :
    neuronosToolRegisterDefaults capShell capFilesystem reg allowedCaps =
        (((freshTools reg (defaultDescs capShell capFilesystem allowedCaps)).length : Int),
          ⟨reg.tools ++ freshTools reg (defaultDescs capShell capFilesystem allowedCaps)⟩) ∧
      neuronosToolRegisterDefaults capShell capFilesystem
          ⟨reg.tools ++ freshTools reg (defaultDescs capShell capFilesystem allowedCaps)⟩ allowedCaps =
        (0, ⟨reg.tools ++ freshTools reg (defaultDescs capShell capFilesystem allowedCaps)⟩) := by
  obtain ⟨named, distinct⟩ := defaultDescs_named capShell capFilesystem allowedCaps
  refine ⟨?_, ?_⟩
  next =>
    unfold neuronosToolRegisterDefaults
    rw [foldl_register_fresh _ named distinct, Int.zero_add]
  next =>
    unfold neuronosToolRegisterDefaults
    rw [foldl_register_fresh _ named distinct, freshTools_after, List.length_nil, List.append_nil]
    rfl

theorem default_popen_is_calculate {allowedCaps : UInt32} (noShell : allowedCaps &&& capShell = 0)
    {desc : ToolDesc Executor} (added : desc ∈ defaultDescs capShell capFilesystem allowedCaps)
    {argsJson command : List Char}
    (runs : (desc.execute.bind fun execute => runExecutor execute argsJson) = some (.popen command)) :
    desc = calculateDesc ∧ ∃ expression, '"' ∉ expression ∧ command = (calculateCommand expression).printed := by
  simp only [defaultDescs, noShell, ne_eq, not_true_eq_false, if_false, List.nil_append,
    List.mem_append, List.mem_singleton] at added
  rcases added with added | rfl
  next =>
    have readOrWrite : desc = readFileDesc capFilesystem ∨ desc = writeFileDesc capFilesystem := by
      split_ifs at added <;> simp_all
    rcases readOrWrite with rfl | rfl
    next => exact absurd (Option.some.inj runs) (toolReadFile_ne_popen argsJson command)
    next => exact absurd (Option.some.inj runs) (toolWriteFile_ne_popen argsJson command)
  next => exact ⟨rfl, toolCalculate_popen (Option.some.inj runs)⟩

-- The arguments `{"expression":"1'; id; echo '"}`.
theorem calculate_expression_reaches_shell (allowedCaps : UInt32) :
    neuronosToolExecute (neuronosToolRegisterDefaults capShell capFilesystem neuronosToolRegistryCreate
        allowedCaps).2 (some "calculate".toList)
        (some "\x7b\"expression\":\"1\x27; id; echo \x27\"\x7d".toList) =
      .call (some .toolCalculate) "\x7b\"expression\":\"1\x27; id; echo \x27\"\x7d".toList 0 ∧
    toolCalculate "\x7b\"expression\":\"1\x27; id; echo \x27\"\x7d".toList =
      .popen "echo \x271\x27; id; echo \x27\x27 | bc -l 2>&1".toList := by
  constructor
  next =>
    unfold neuronosToolRegisterDefaults defaultDescs
    split_ifs <;> rfl
  next => decide

theorem register_defaults_popen_only_calculate {allowedCaps : UInt32} (noShell : allowedCaps &&& capShell = 0)
    (reg : ToolRegistry Executor) :
    ∃ added, (neuronosToolRegisterDefaults capShell capFilesystem reg allowedCaps).2.tools = reg.tools ++ added ∧
      ∀ desc ∈ added, ∀ argsJson command,
        (desc.execute.bind fun execute => runExecutor execute argsJson) = some (.popen command) →
          desc = calculateDesc ∧ ∃ expression, '"' ∉ expression ∧ command = (calculateCommand expression).printed := by
  obtain ⟨added, within, tools⟩ := registerDefaults_tools capShell capFilesystem reg allowedCaps
  exact ⟨added, tools, fun desc mem _ _ runs => default_popen_is_calculate capShell capFilesystem noShell
    (within desc mem) runs⟩

end Defaults

-- cmd_agent's mask, with 1 and 2 for NEURONOS_CAP_SHELL and NEURONOS_CAP_FILESYSTEM.
theorem filesystem_defaults_popen_only_calculate :
    (2 : UInt32) &&& 1 = 0 ∧
    ∃ added, (neuronosToolRegisterDefaults 1 2 neuronosToolRegistryCreate 2).2.tools =
        neuronosToolRegistryCreate.tools ++ added ∧
      ∀ desc ∈ added, ∀ argsJson command,
        (desc.execute.bind fun execute => runExecutor execute argsJson) = some (.popen command) →
          desc = calculateDesc ∧ ∃ expression, '"' ∉ expression ∧ command = (calculateCommand expression).printed :=
  ⟨by decide, register_defaults_popen_only_calculate 1 2 (by decide) _⟩

theorem uint32_and_self (x : UInt32) : x &&& x = x := by
  cases x with
  | mk bits => exact congrArg UInt32.mk (BitVec.and_self (x := bits))

theorem registerDefaults_filesystem (capShell capFilesystem : UInt32) (separate : capFilesystem &&& capShell = 0)
    (granted : capFilesystem ≠ 0) :
    neuronosToolRegisterDefaults capShell capFilesystem neuronosToolRegistryCreate capFilesystem =
      (3, ⟨[readFileDesc capFilesystem, writeFileDesc capFilesystem, calculateDesc]⟩) := by
  unfold neuronosToolRegisterDefaults defaultDescs
  rw [if_neg (by simpa using separate), if_pos (by rw [uint32_and_self]; exact granted)]
  rfl

theorem cmd_agent_execute (capShell capFilesystem : UInt32) (separate : capFilesystem &&& capShell = 0)
    (granted : capFilesystem ≠ 0) (name : List Char) (argsJson : Option (List Char)) :
    neuronosToolExecute (neuronosToolRegisterDefaults capShell capFilesystem neuronosToolRegistryCreate
        capFilesystem).2 (some name) argsJson =
      if name = "read_file".toList then .call (some .toolReadFile) (argsJson.getD "\x7b\x7d".toList) 0
      else if name = "write_file".toList then .call (some .toolWriteFile) (argsJson.getD "\x7b\x7d".toList) 0
      else if name = "calculate".toList then .call (some .toolCalculate) (argsJson.getD "\x7b\x7d".toList) 0
      else .result ⟨false, none, some "Tool not found".toList⟩ := by
  rw [registerDefaults_filesystem capShell capFilesystem separate granted]
  by_cases read : name = "read_file".toList
  · subst read; rfl
  by_cases write : name = "write_file".toList
  · subst write; rfl
  by_cases calculate : name = "calculate".toList
  · subst calculate; rfl
  have differs : ∀ other : List Char, other ≠ name → (some other == some name) = false := fun other ne =>
    beq_false_of_ne fun same => ne (Option.some.inj same)
  simp only [neuronosToolExecute, List.find?_cons, List.find?_nil, readFileDesc, writeFileDesc, calculateDesc,
    differs _ (Ne.symm read), differs _ (Ne.symm write), differs _ (Ne.symm calculate), if_neg read,
    if_neg write, if_neg calculate]

theorem cmd_agent_shell_not_found :
    (2 : UInt32) &&& 1 = 0 ∧ (2 : UInt32) ≠ 0 ∧
    neuronosToolExecute (neuronosToolRegisterDefaults 1 2 neuronosToolRegistryCreate 2).2 (some "shell".toList)
        none =
      if "shell".toList = "read_file".toList then
        .call (some .toolReadFile) ((none : Option (List Char)).getD "\x7b\x7d".toList) 0
      else if "shell".toList = "write_file".toList then
        .call (some .toolWriteFile) ((none : Option (List Char)).getD "\x7b\x7d".toList) 0
      else if "shell".toList = "calculate".toList then
        .call (some .toolCalculate) ((none : Option (List Char)).getD "\x7b\x7d".toList) 0
      else .result ⟨false, none, some "Tool not found".toList⟩ :=
  ⟨by decide, by decide, cmd_agent_execute 1 2 (by decide) (by decide) _ _⟩

end NeuronOS.Registry
