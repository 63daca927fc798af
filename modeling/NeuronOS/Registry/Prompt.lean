import NeuronOS.Registry.ToolRegistry

set_option autoImplicit false

namespace NeuronOS.Registry

open NeuronOS.Shared

variable {Exec : Type}

-- A duplicated literal, or the malloc'd buffer after the snprintf calls that filled it.
inductive Built
  | literal (text : List Char)
  | buffer (appender : Appender)

-- `printf("%s", s)` of a NULL pointer, as glibc prints it.
def formatString (s : Option (List Char)) : List Char :=
  s.getD "(null)".toList

def grammarNamePieces (index : Nat) (tool : ToolDesc Exec) : List (List Char) :=
  (if 0 < index then [" | ".toList] else []) ++
    ["\"\\\"".toList, formatString tool.name, "\\\"\"".toList]

def grammarPieces (tools : List (ToolDesc Exec)) : List (List Char) :=
  "tool-name ::= ".toList :: (tools.enum.map fun entry => grammarNamePieces entry.1 entry.2).flatten

-- `heap` is what the fresh malloc'd buffer holds before the first snprintf.
def neuronosToolGrammarNames (reg : ToolRegistry Exec) (heap : Nat → Char) : Built :=
  if reg.tools.length = 0 then .literal "tool-name ::= \"\\\"noop\\\"\"".toList
  else .buffer ((Appender.mk (256 + reg.tools.length * 40) 0 heap []).appendAll (grammarPieces reg.tools))

def promptToolPieces (tool : ToolDesc Exec) : List (List Char) :=
  ("- ".toList ++ formatString tool.name ++ ": ".toList ++ tool.description.getD "No description".toList) ::
    ((match tool.argsSchemaJson with
      | some schema => [" Args schema: ".toList ++ schema]
      | none => []) ++ ["\n".toList])

def promptPieces (tools : List (ToolDesc Exec)) : List (List Char) :=
  "Available tools:\n".toList :: (tools.map promptToolPieces).flatten

def neuronosToolPromptDescription (reg : ToolRegistry Exec) (heap : Nat → Char) : Built :=
  if reg.tools.length = 0 then .literal "No tools available.\n".toList
  else .buffer ((Appender.mk (512 + reg.tools.length * 256) 0 heap []).appendAll (promptPieces reg.tools))

theorem fresh_appendAll_exact {cap : Nat} (heap : Nat → Char) (texts : List (List Char)) (named : texts ≠ [])
    (fits : (texts.map List.length).sum < cap) (small : cap < sizeModulus) :
    (∀ call ∈ ((Appender.mk cap 0 heap []).appendAll texts).calls,
      call.offset + call.text.length < ((Appender.mk cap 0 heap []).appendAll texts).cap ∧
        call.size = ((Appender.mk cap 0 heap []).appendAll texts).cap - call.offset) ∧
    ∀ i ≤ (texts.map List.length).sum,
      ((Appender.mk cap 0 heap []).appendAll texts).mem i = (texts.flatten ++ ['\x00']).getD i '\x00' := by
  constructor
  next =>
    rw [Appender.appendAll_cap, Appender.appendAll_calls]
    exact Appender.callsFrom_within small texts 0 (by simpa using fits)
  next =>
    intro i within
    rw [Appender.appendAll_untruncated _ texts named (by simpa using fits) small,
      if_pos ⟨Nat.zero_le _, by simpa using within⟩, Nat.sub_zero]

-- The registry of the spec's example: tools named shell and read_file.
def exampleRegistry : ToolRegistry Unit :=
  ⟨[⟨some "shell".toList, none, none, some (), 0, 0⟩, ⟨some "read_file".toList, none, none, some (), 0, 0⟩]⟩

theorem grammar_names_exact_of_fits (reg : ToolRegistry Exec) (heap : Nat → Char) (registered : reg.tools ≠ [])
    (bounded : reg.tools.length ≤ neuronosMaxTools)
    (fits : ((grammarPieces reg.tools).map List.length).sum < 256 + reg.tools.length * 40) :
    ∃ appender, neuronosToolGrammarNames reg heap = .buffer appender ∧
      (∀ call ∈ appender.calls, call.offset + call.text.length < appender.cap ∧
        call.size = appender.cap - call.offset) ∧
      ∀ i ≤ ((grammarPieces reg.tools).map List.length).sum,
        appender.mem i = ((grammarPieces reg.tools).flatten ++ ['\x00']).getD i '\x00' :=
  ⟨_, if_neg (mt List.length_eq_zero.mp registered), fresh_appendAll_exact heap _ (List.cons_ne_nil _ _) fits
    (by unfold neuronosMaxTools sizeModulus at *; omega)⟩

theorem example_registry_grammar_exact :
    exampleRegistry.tools ≠ [] ∧ exampleRegistry.tools.length ≤ neuronosMaxTools ∧
    ((grammarPieces exampleRegistry.tools).map List.length).sum < 256 + exampleRegistry.tools.length * 40 ∧
    ∃ appender, neuronosToolGrammarNames exampleRegistry (fun _ => '\x00') = .buffer appender ∧
      (∀ call ∈ appender.calls, call.offset + call.text.length < appender.cap ∧
        call.size = appender.cap - call.offset) ∧
      ∀ i ≤ ((grammarPieces exampleRegistry.tools).map List.length).sum,
        appender.mem i = ((grammarPieces exampleRegistry.tools).flatten ++ ['\x00']).getD i '\x00' :=
  ⟨List.cons_ne_nil _ _, by decide, by decide,
    grammar_names_exact_of_fits _ _ (List.cons_ne_nil _ _) (by decide) (by decide)⟩

theorem prompt_description_exact_of_fits (reg : ToolRegistry Exec) (heap : Nat → Char)
    (registered : reg.tools ≠ []) (bounded : reg.tools.length ≤ neuronosMaxTools)
    (fits : ((promptPieces reg.tools).map List.length).sum < 512 + reg.tools.length * 256) :
    ∃ appender, neuronosToolPromptDescription reg heap = .buffer appender ∧
      (∀ call ∈ appender.calls, call.offset + call.text.length < appender.cap ∧
        call.size = appender.cap - call.offset) ∧
      ∀ i ≤ ((promptPieces reg.tools).map List.length).sum,
        appender.mem i = ((promptPieces reg.tools).flatten ++ ['\x00']).getD i '\x00' :=
  ⟨_, if_neg (mt List.length_eq_zero.mp registered), fresh_appendAll_exact heap _ (List.cons_ne_nil _ _) fits
    (by unfold neuronosMaxTools sizeModulus at *; omega)⟩

theorem example_registry_prompt_exact :
    exampleRegistry.tools ≠ [] ∧ exampleRegistry.tools.length ≤ neuronosMaxTools ∧
    ((promptPieces exampleRegistry.tools).map List.length).sum < 512 + exampleRegistry.tools.length * 256 ∧
    ∃ appender, neuronosToolPromptDescription exampleRegistry (fun _ => '\x00') = .buffer appender ∧
      (∀ call ∈ appender.calls, call.offset + call.text.length < appender.cap ∧
        call.size = appender.cap - call.offset) ∧
      ∀ i ≤ ((promptPieces exampleRegistry.tools).map List.length).sum,
        appender.mem i = ((promptPieces exampleRegistry.tools).flatten ++ ['\x00']).getD i '\x00' :=
  ⟨List.cons_ne_nil _ _, by decide, by decide,
    prompt_description_exact_of_fits _ _ (List.cons_ne_nil _ _) (by decide) (by decide)⟩

theorem grammarPieces_concat {tools : List (ToolDesc Exec)} (registered : tools ≠ []) :
    ∃ pieces, grammarPieces tools = pieces ++ ["\\\"\"".toList] := by
  obtain rfl | ⟨init, last, rfl⟩ := List.eq_nil_or_concat tools
  next => exact absurd rfl registered
  next =>
    refine ⟨"tool-name ::= ".toList :: ((init.enum.map fun entry => grammarNamePieces entry.1 entry.2).flatten ++
      ((if 0 < init.length then [" | ".toList] else []) ++ ["\"\\\"".toList, formatString last.name])), ?_⟩
    simp only [grammarPieces, List.concat_eq_append, List.enum_append, List.enumFrom_singleton, List.map_append,
      List.map_singleton, List.flatten_append, List.flatten_singleton, grammarNamePieces, List.cons_append,
      List.append_assoc, List.singleton_append, List.nil_append]

theorem promptPieces_concat {tools : List (ToolDesc Exec)} (registered : tools ≠ []) :
    ∃ pieces, promptPieces tools = pieces ++ ["\n".toList] := by
  obtain rfl | ⟨init, last, rfl⟩ := List.eq_nil_or_concat tools
  next => exact absurd rfl registered
  next =>
    obtain ⟨line, schema, shape⟩ : ∃ line schema, promptToolPieces last = line :: (schema ++ ["\n".toList]) :=
      ⟨_, _, rfl⟩
    refine ⟨"Available tools:\n".toList :: ((init.map promptToolPieces).flatten ++ line :: schema), ?_⟩
    simp only [promptPieces, List.concat_eq_append, List.map_append, List.map_singleton, List.flatten_append,
      List.flatten_singleton, shape, List.cons_append, List.append_assoc]

theorem grammar_names_overflow_iff (reg : ToolRegistry Exec) (heap : Nat → Char) (registered : reg.tools ≠ [])
    (bounded : reg.tools.length ≤ neuronosMaxTools)
    (small : ((grammarPieces reg.tools).map List.length).sum < 9223372036854775808) :
    ∃ appender, neuronosToolGrammarNames reg heap = .buffer appender ∧
      ((∃ call ∈ appender.calls, ∃ i, call.Writes i ∧ appender.cap ≤ i) ↔
        259 + reg.tools.length * 40 < ((grammarPieces reg.tools).map List.length).sum) := by
  obtain ⟨pieces, split⟩ := grammarPieces_concat registered
  refine ⟨_, if_neg (mt List.length_eq_zero.mp registered), ?_⟩
  have closing : ("\\\"\"".toList).length = 3 := rfl
  rw [Appender.appendAll_cap, Appender.fresh_appendAll_writes_past_iff heap (grammarPieces reg.tools)
    (List.cons_ne_nil _ _) (by unfold neuronosMaxTools sizeModulus at *; omega), split, List.dropLast_concat,
    List.map_append, List.sum_append, List.map_singleton, List.sum_singleton, closing]
  constructor <;> intro <;> omega

theorem example_registry_grammar_in_bounds :
    exampleRegistry.tools ≠ [] ∧ exampleRegistry.tools.length ≤ neuronosMaxTools ∧
    ((grammarPieces exampleRegistry.tools).map List.length).sum < 9223372036854775808 ∧
    ∃ appender, neuronosToolGrammarNames exampleRegistry (fun _ => '\x00') = .buffer appender ∧
      ((∃ call ∈ appender.calls, ∃ i, call.Writes i ∧ appender.cap ≤ i) ↔
        259 + exampleRegistry.tools.length * 40 < ((grammarPieces exampleRegistry.tools).map List.length).sum) :=
  ⟨List.cons_ne_nil _ _, by decide, by decide,
    grammar_names_overflow_iff _ _ (List.cons_ne_nil _ _) (by decide) (by decide)⟩

theorem prompt_description_overflow_iff (reg : ToolRegistry Exec) (heap : Nat → Char) (registered : reg.tools ≠ [])
    (bounded : reg.tools.length ≤ neuronosMaxTools)
    (small : ((promptPieces reg.tools).map List.length).sum < 9223372036854775808) :
    ∃ appender, neuronosToolPromptDescription reg heap = .buffer appender ∧
      ((∃ call ∈ appender.calls, ∃ i, call.Writes i ∧ appender.cap ≤ i) ↔
        513 + reg.tools.length * 256 < ((promptPieces reg.tools).map List.length).sum) := by
  obtain ⟨pieces, split⟩ := promptPieces_concat registered
  refine ⟨_, if_neg (mt List.length_eq_zero.mp registered), ?_⟩
  have newline : ("\n".toList).length = 1 := rfl
  rw [Appender.appendAll_cap, Appender.fresh_appendAll_writes_past_iff heap (promptPieces reg.tools)
    (List.cons_ne_nil _ _) (by unfold neuronosMaxTools sizeModulus at *; omega), split, List.dropLast_concat,
    List.map_append, List.sum_append, List.map_singleton, List.sum_singleton, newline]
  constructor <;> intro <;> omega

theorem example_registry_prompt_in_bounds :
    exampleRegistry.tools ≠ [] ∧ exampleRegistry.tools.length ≤ neuronosMaxTools ∧
    ((promptPieces exampleRegistry.tools).map List.length).sum < 9223372036854775808 ∧
    ∃ appender, neuronosToolPromptDescription exampleRegistry (fun _ => '\x00') = .buffer appender ∧
      ((∃ call ∈ appender.calls, ∃ i, call.Writes i ∧ appender.cap ≤ i) ↔
        513 + exampleRegistry.tools.length * 256 < ((promptPieces exampleRegistry.tools).map List.length).sum) :=
  ⟨List.cons_ne_nil _ _, by decide, by decide,
    prompt_description_overflow_iff _ _ (List.cons_ne_nil _ _) (by decide) (by decide)⟩

theorem grammar_names_long_name_overflows (heap : Nat → Char) :
    ∃ appender call, neuronosToolGrammarNames
        (registerAll [some ⟨some (List.replicate 280 'a'), none, none, some (), 0, 0⟩]) heap =
          .buffer appender ∧ call ∈ appender.calls ∧ appender.cap < call.offset ∧ 0 < call.written := by
  refine ⟨(Appender.mk 296 0 heap []).appendAll
      (grammarPieces [⟨some (List.replicate 280 'a'), none, none, some (), 0, 0⟩]),
    ⟨297, sizeSub 296 297, "\\\"\"".toList⟩, rfl, ?_, by rw [Appender.appendAll_cap]; exact (by decide : 296 < 297), ?_⟩
  next =>
    rw [Appender.appendAll_calls]
    exact List.mem_append_right _ (Appender.mem_callsFrom
      ["tool-name ::= ".toList, "\"\\\"".toList, List.replicate 280 'a'] [] _
      (by simp only [List.map_cons, List.map_nil, List.sum_cons, List.sum_nil, List.length_append,
        List.length_replicate]; rfl))
  next =>
    rw [SnprintfCall.written, if_neg (by simp [sizeSub, sizeModulus])]
    omega

theorem prompt_description_long_schema_overflows (heap : Nat → Char) :
    ∃ appender call, neuronosToolPromptDescription
        (registerAll [some ⟨some "t".toList, none, some (List.replicate 800 'x'), some (), 0, 0⟩]) heap =
          .buffer appender ∧ call ∈ appender.calls ∧ appender.cap < call.offset ∧ 0 < call.written := by
  refine ⟨(Appender.mk 768 0 heap []).appendAll
      (promptPieces [⟨some "t".toList, none, some (List.replicate 800 'x'), some (), 0, 0⟩]),
    ⟨850, sizeSub 768 850, "\n".toList⟩, rfl, ?_, by rw [Appender.appendAll_cap]; exact (by decide : 768 < 850), ?_⟩
  next =>
    rw [Appender.appendAll_calls]
    exact List.mem_append_right _ (Appender.mem_callsFrom
      ["Available tools:\n".toList, "- t: No description".toList,
        " Args schema: ".toList ++ List.replicate 800 'x'] [] _
      (by simp only [List.map_cons, List.map_nil, List.sum_cons, List.sum_nil, List.length_append,
        List.length_replicate]; rfl))
  next =>
    rw [SnprintfCall.written, if_neg (by simp [sizeSub, sizeModulus])]
    omega

end NeuronOS.Registry
