import NeuronOS.Registry.ToolOutput
import NeuronOS.Models.Hardware

set_option autoImplicit false

namespace NeuronOS.Registry

open NeuronOS.Shared NeuronOS.Models

deriving instance DecidableEq for ToolResult

-- What the system answers the built-in tools' calls: popen's pipe bytes and pclose's status, fread's
-- bytes and ftell's report, and whether fopen for writing opens; none where popen or fopen fails.
structure SystemAnswers where
  popen : List Char → Option (List Char × Int)
  fopenRead : List Char → Option (List Char × Int)
  fopenWrite : List Char → Bool

-- `%d`
def formatInt (n : Int) : List Char :=
  if n < 0 then '-' :: Nat.toDigits 10 n.natAbs else Nat.toDigits 10 n.toNat

-- `snprintf(err_msg, sizeof(err_msg), "Command exited with status %d", status)`, `char err_msg[64]`
def exitStatusMessage (status : Int) : SnprintfCall :=
  ⟨0, 64, "Command exited with status ".toList ++ formatInt status⟩

-- `result.output = out_buf`: the bytes before `out_buf[out_len] = '\0'`.
def OutBuffer.text (out : OutBuffer) : Option (List Char) :=
  out.buf.map fun mem => (List.range out.len).map mem

-- none where the output loop does not end or writes through NULL.
def toolShellFinish (alloc : Allocator) (fuel : Nat) : Option (List Char × Int) → Option ToolResult
  | none => some ⟨false, none, some "Failed to execute command".toList⟩
  | some (output, status) =>
    ((toolShellOutput alloc fuel (fgetsLines output.length output)).bind fun run => run.toOption.bind OutBuffer.text).map
      fun text => ⟨status == 0, some text, if status == 0 then none else some (exitStatusMessage status).printed⟩

-- tool_calculate's `fgets(out, sizeof(out), fp)`, `char out[256]`, with the line end trimmed.
def calculateLine (output : List Char) : List Char :=
  if output.isEmpty then "0".toList
  else ((fgetsTake 255 output).1.takeWhile (· != '\x00')).rdropWhile isLineEnd

-- pclose's status is not read.
def toolCalculateFinish : Option (List Char × Int) → ToolResult
  | none => ⟨false, none, some "bc not available".toList⟩
  | some (output, _) => ⟨true, some (calculateLine output), none⟩

def toolReadFileFinish : Option (List Char × Int) → ToolResult
  | none => ⟨false, none, some "File not found or cannot read".toList⟩
  | some (data, ftell) => ⟨true, some (toolReadFileOutput data ftell), none⟩

-- What fwrite and fclose return is not read.
def toolWriteFileFinish (opened : Bool) : ToolResult :=
  if opened then ⟨true, some "File written successfully".toList, none⟩
  else ⟨false, none, some "Cannot write file".toList⟩

-- tool_shell is the only other tool that calls popen.
def readPipe (alloc : Allocator) (fuel : Nat) : Executor → Option (List Char × Int) → Option ToolResult
  | .toolCalculate, answer => some (toolCalculateFinish answer)
  | _, answer => toolShellFinish alloc fuel answer

def finishRequest (sys : SystemAnswers) (pipe : Option (List Char × Int) → Option ToolResult) :
    ToolRequest → Option ToolResult
  | .fail error => some ⟨false, none, some error⟩
  | .popen command => pipe (sys.popen command)
  | .fopenRead path => some (toolReadFileFinish (sys.fopenRead path))
  | .fopenWrite path _ => some (toolWriteFileFinish (sys.fopenWrite path))

-- none for an executor registered from elsewhere.
def runTool (alloc : Allocator) (fuel : Nat) (sys : SystemAnswers) (exec : Executor) (argsJson : List Char) :
    Option ToolResult :=
  (runExecutor exec argsJson).bind (finishRequest sys (readPipe alloc fuel exec))

-- neuronos_tool_execute and the call it makes.
def executeTool (alloc : Allocator) (fuel : Nat) (sys : SystemAnswers) (reg : ToolRegistry Executor)
    (toolName argsJson : Option (List Char)) : Option ToolResult :=
  match neuronosToolExecute reg toolName argsJson with
  | .result result => some result
  | .call execute args _ => execute.bind fun exec => runTool alloc fuel sys exec args

-- An error exactly when the call failed, and an output whenever it succeeded.
def ToolResult.Consistent (result : ToolResult) : Prop :=
  result.error.isNone = result.success ∧ (result.success = true → result.output.isSome = true)

instance (result : ToolResult) : Decidable result.Consistent :=
  inferInstanceAs (Decidable (_ ∧ _))

section Consistent

theorem failed_consistent (error : List Char) : (⟨false, none, some error⟩ : ToolResult).Consistent :=
  ⟨rfl, nofun⟩

theorem succeeded_consistent (output : List Char) : (⟨true, some output, none⟩ : ToolResult).Consistent :=
  ⟨rfl, fun _ => rfl⟩

theorem toolShellFinish_consistent {alloc : Allocator} {fuel : Nat} :
    ∀ {answer : Option (List Char × Int)} {result : ToolResult},
      toolShellFinish alloc fuel answer = some result → result.Consistent
  | none, _, rfl => failed_consistent _
  | some (output, status), result, finished => by
    obtain ⟨text, -, rfl⟩ := Option.map_eq_some'.mp finished
    refine ⟨?_, fun _ => rfl⟩
    cases status == 0 <;> rfl

theorem toolCalculateFinish_consistent : ∀ answer, (toolCalculateFinish answer).Consistent
  | none => failed_consistent _
  | some _ => succeeded_consistent _

theorem toolReadFileFinish_consistent : ∀ answer, (toolReadFileFinish answer).Consistent
  | none => failed_consistent _
  | some _ => succeeded_consistent _

theorem toolWriteFileFinish_consistent : ∀ opened, (toolWriteFileFinish opened).Consistent
  | true => succeeded_consistent _
  | false => failed_consistent _

theorem readPipe_consistent (alloc : Allocator) (fuel : Nat) (exec : Executor) :
    ∀ answer result, readPipe alloc fuel exec answer = some result → result.Consistent := by
  intro answer result read
  cases exec with
  | toolCalculate => cases read; exact toolCalculateFinish_consistent answer
  | _ => exact toolShellFinish_consistent read

theorem finishRequest_consistent {sys : SystemAnswers} {pipe : Option (List Char × Int) → Option ToolResult}
    (piped : ∀ answer result, pipe answer = some result → result.Consistent) :
    ∀ {request : ToolRequest} {result : ToolResult}, finishRequest sys pipe request = some result → result.Consistent
  | .fail _, _, rfl => failed_consistent _
  | .popen _, _, finished => piped _ _ finished
  | .fopenRead _, _, rfl => toolReadFileFinish_consistent _
  | .fopenWrite _ _, _, rfl => toolWriteFileFinish_consistent _

theorem neuronosToolExecute_consistent {reg : ToolRegistry Executor} {toolName argsJson : Option (List Char)}
    {result : ToolResult} (returned : neuronosToolExecute reg toolName argsJson = .result result) :
    result.Consistent := by
  unfold neuronosToolExecute at returned
  split at returned
  next => cases returned; exact failed_consistent _
  next =>
    split at returned
    next => cases returned
    next => cases returned; exact failed_consistent _

theorem executeTool_consistent {alloc : Allocator} {fuel : Nat} {sys : SystemAnswers}
    {reg : ToolRegistry Executor} {toolName argsJson : Option (List Char)} {result : ToolResult}
    (executed : executeTool alloc fuel sys reg toolName argsJson = some result) : result.Consistent := by
  unfold executeTool at executed
  split at executed
  next returned => cases executed; exact neuronosToolExecute_consistent returned
  next =>
    obtain ⟨exec, -, ran⟩ := Option.bind_eq_some.mp executed
    obtain ⟨request, -, finished⟩ := Option.bind_eq_some.mp ran
    exact finishRequest_consistent (readPipe_consistent alloc fuel exec) finished

end Consistent

section Shell

theorem Holds.text {alloc : Allocator} {out : OutBuffer} {lines : List Char} (holds : Holds alloc out lines)
    {mem : Nat → Char} (bufEq : out.buf = some mem) :
    ({ out with buf := some (Function.update mem out.len '\x00') } : OutBuffer).text = some lines := by
  have bytes := terminated_bytes holds bufEq
  rw [List.range_succ, List.map_append] at bytes
  exact congrArg some (List.append_inj_left' bytes rfl)

end Shell

section CalculateLine

variable (output : List Char)

theorem calculateLine_within :
    (calculateLine output).length ≤ 255 ∧ '\n' ∉ calculateLine output ∧ '\x00' ∉ calculateLine output ∧
      (calculateLine output).getLast?.all (fun c => !isLineEnd c) = true := by
  unfold calculateLine
  split
  next => decide
  next =>
    have read := fgetsTake_newlineLast 255 output
    rw [← List.takeWhile_append_dropWhile (· != '\x00') (fgetsTake 255 output).1] at read
    have short : ((fgetsTake 255 output).1.takeWhile (· != '\x00')).length ≤ 255 :=
      (List.takeWhile_sublist _).length_le.trans (fgetsTake_length_le 255 output)
    have noNul : '\x00' ∉ (fgetsTake 255 output).1.takeWhile (· != '\x00') := fun nul =>
      absurd (List.mem_takeWhile_imp nul) (by decide)
    generalize (fgetsTake 255 output).1.takeWhile (· != '\x00') = line at read short noNul
    have trimmed := List.rdropWhile_prefix isLineEnd line
    refine ⟨trimmed.length_le.trans short, read.left.trimmed, fun nul => noNul (trimmed.subset nul), ?_⟩
    by_cases empty : line.rdropWhile isLineEnd = []
    next => rw [empty]; rfl
    next => simpa [List.getLast?_eq_getLast _ empty] using List.rdropWhile_last_not isLineEnd line empty

theorem calculateLine_prefix (nonempty : output ≠ []) : calculateLine output <+: output := by
  have read : (fgetsTake 255 output).1 <+: output := ⟨_, fgetsTake_append 255 output⟩
  have line := List.takeWhile_prefix (· != '\x00') |>.trans read
  have trimmed := List.rdropWhile_prefix isLineEnd ((fgetsTake 255 output).1.takeWhile (· != '\x00'))
  rw [calculateLine, if_neg (by simpa using nonempty)]
  exact trimmed.trans line

theorem calculateLine_first_line {text rest : List Char} (noNewline : '\n' ∉ text) (noNul : '\x00' ∉ text)
    (fits : text.length < 255) (unended : text.getLast?.all (fun c => !isLineEnd c) = true) :
    calculateLine (text ++ '\n' :: rest) = text := by
  have whole : ((text ++ ['\n']).takeWhile (· != '\x00')) = text ++ ['\n'] :=
    List.takeWhile_eq_self_iff.mpr fun c mem => by
      rcases List.mem_append.mp mem with inside | newline
      next => exact bne_iff_ne.mpr fun nul => noNul (nul ▸ inside)
      next => rw [List.mem_singleton.mp newline]; rfl
  have kept : text.rdropWhile isLineEnd = text := List.rdropWhile_eq_self_iff.mpr fun nonempty => by
    simpa [List.getLast?_eq_getLast _ nonempty] using unended
  rw [calculateLine, if_neg (by simp), fgetsTake_line text rest noNewline fits, whole,
    List.rdropWhile_concat_pos isLineEnd text '\n' rfl, kept]

end CalculateLine

theorem calculate_answer_is_first_line (output : List Char) :
    (calculateLine output).length ≤ 255 ∧ '\n' ∉ calculateLine output ∧ '\x00' ∉ calculateLine output ∧
      (calculateLine output).getLast?.all (fun c => !isLineEnd c) = true ∧
      (output = [] → calculateLine output = "0".toList) ∧ (output ≠ [] → calculateLine output <+: output) ∧
      (∀ text rest, output = text ++ '\n' :: rest → '\n' ∉ text → '\x00' ∉ text → text.length < 255 →
        text.getLast?.all (fun c => !isLineEnd c) = true → calculateLine output = text) := by
  obtain ⟨short, noNewline, noNul, unended⟩ := calculateLine_within output
  refine ⟨short, noNewline, noNul, unended, fun empty => by rw [empty]; rfl, calculateLine_prefix output, ?_⟩
  intro text rest split
  rw [split]
  exact calculateLine_first_line

theorem calculate_answer_wrapped :
    "12345\\\n678\n".toList = "12345\\".toList ++ '\n' :: "678\n".toList ∧ '\n' ∉ "12345\\".toList ∧
      '\x00' ∉ "12345\\".toList ∧ "12345\\".toList.length < 255 ∧
      "12345\\".toList.getLast?.all (fun c => !isLineEnd c) = true ∧
      calculateLine "12345\\\n678\n".toList = "12345\\".toList :=
  ⟨rfl, by decide, by decide, by decide, rfl,
    (calculate_answer_is_first_line _).2.2.2.2.2.2 _ _ rfl (by decide) (by decide) (by decide) rfl⟩

end NeuronOS.Registry
