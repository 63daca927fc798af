import NeuronOS.Models.Hardware
import NeuronOS.Hal.Kernels

set_option autoImplicit false

namespace NeuronOS.Cli

open NeuronOS.Models NeuronOS.Hal

-- atoi as glibc computes it: `(int) strtol (nptr, NULL, 10)`, the long cut to int.
def atoi (s : List Char) : Int :=
  wrapInt32 (atoll s)

-- DEFAULT_MODELS_DIR
def defaultModelsDir : List Char :=
  "../../models".toList

-- The options main collects before it looks at the command. The float atof parses from --temp is not
-- modelled.
structure MainOptions where
  nThreads : Int
  maxTokens : Int
  maxSteps : Int
  temperature : Option (List Char)
  grammarFile : Option (List Char)
  modelsDir : List Char
  verbose : Bool
  deriving DecidableEq

def MainOptions.defaults : MainOptions :=
  ⟨0, 256, 10, none, none, defaultModelsDir, false⟩

def setOption (option value : List Char) (o : MainOptions) : Option MainOptions :=
  if option = "-t".toList then some { o with nThreads := atoi value }
  else if option = "-n".toList then some { o with maxTokens := atoi value }
  else if option = "-s".toList then some { o with maxSteps := atoi value }
  else if option = "--temp".toList then some { o with temperature := some value }
  else if option = "--grammar".toList then some { o with grammarFile := some value }
  else if option = "--models".toList then some { o with modelsDir := value }
  else none

def takesValue (option : List Char) : Bool :=
  (setOption option [] MainOptions.defaults).isSome

def setVerbose (word : List Char) (o : MainOptions) : MainOptions :=
  if word = "--verbose".toList then { o with verbose := true } else o

-- main's loop `for (int i = 1; i < argc; i++)` over argv[1..].
def collectOptions : List (List Char) → MainOptions → MainOptions
  | [], o => o
  | [word], o => setVerbose word o
  | word :: value :: rest, o =>
    match setOption word value o with
    | some o' => collectOptions rest o'
    | none => collectOptions (value :: rest) (setVerbose word o)

-- `for (int i = 3; i < argc; i++) if (argv[i][0] != '-') { prompt = argv[i]; break; }`: the
-- prompt search of both `auto <sub-command>` and `<model> <command>`.
def findPrompt (argv : List (List Char)) : Option (List Char) :=
  (argv.drop 3).find? fun word => word.head? != some '-'

def optionValueFlags : List (List Char) → List Bool
  | [] => []
  | [_] => [false]
  | word :: value :: rest =>
    if takesValue word then false :: true :: optionValueFlags rest else false :: optionValueFlags (value :: rest)

-- The prompt as the usage text describes it: the first word after the command that is neither an
-- option nor an option's value.
def intendedPrompt (argv : List (List Char)) : Option (List Char) :=
  ((((argv.drop 1).zip (optionValueFlags (argv.drop 1))).drop 2).find?
    fun entry => entry.1.head? != some '-' && !entry.2).map Prod.fst

theorem setOption_isSome (option value : List Char) (o : MainOptions) :
    (setOption option value o).isSome = takesValue option := by
  simp only [takesValue, setOption, apply_ite Option.isSome, Option.isSome_some, Option.isSome_none]

theorem takesValue_head {option : List Char} (valued : takesValue option = true) : option.head? = some '-' := by
  simp only [takesValue, setOption, apply_ite Option.isSome, Option.isSome_some, Option.isSome_none,
    Bool.ite_eq_true_distrib, if_true_left, if_false_right, ← or_iff_not_imp_left, Bool.false_eq_true, or_false,
    and_true] at valued
  rcases valued with rfl | rfl | rfl | rfl | rfl | rfl <;> rfl

theorem collectOptions_plain {word : List Char} (plain : takesValue word = false) (tail : List (List Char))
    (o : MainOptions) : collectOptions (word :: tail) o = collectOptions tail (setVerbose word o) := by
  cases tail with
  | nil => simp only [collectOptions]
  | cons value rest =>
    have none : setOption word value o = none := by
      rw [← Option.not_isSome_iff_eq_none, setOption_isSome, plain]
      decide
    simp only [collectOptions, none]

theorem optionValueFlags_plain {word : List Char} (plain : takesValue word = false) (tail : List (List Char)) :
    optionValueFlags (word :: tail) = false :: optionValueFlags tail := by
  cases tail <;> simp only [optionValueFlags, plain, Bool.false_eq_true, if_false]

theorem prompt_is_option_value (prog first command option value : List Char) (rest : List (List Char))
    (plainFirst : takesValue first = false) (plainCommand : takesValue command = false)
    (valued : takesValue option = true) (word : value.head? ≠ some '-') :
    findPrompt (prog :: first :: command :: option :: value :: rest) = some value ∧
      (∃ o, setOption option value (setVerbose command (setVerbose first MainOptions.defaults)) = some o ∧
        collectOptions (first :: command :: option :: value :: rest) MainOptions.defaults =
          collectOptions rest o) ∧
      intendedPrompt (prog :: first :: command :: option :: value :: rest) =
        ((rest.zip (optionValueFlags rest)).find? fun entry => entry.1.head? != some '-' && !entry.2).map
          Prod.fst := by
  obtain ⟨o, stored⟩ := Option.isSome_iff_exists.mp
    ((setOption_isSome option value (setVerbose command (setVerbose first MainOptions.defaults))).trans valued)
  refine ⟨?_, ⟨o, stored, ?_⟩, ?_⟩
  next =>
    have fresh : (value.head? != some '-') = true := bne_iff_ne.mpr word
    simp only [findPrompt, List.drop_succ_cons, List.drop_zero, List.find?_cons, takesValue_head valued,
      bne_self_eq_false, fresh]
  next =>
    rw [collectOptions_plain plainFirst, collectOptions_plain plainCommand]
    simp only [collectOptions, stored]
  next =>
    have flags : optionValueFlags (first :: command :: option :: value :: rest) =
        false :: false :: false :: true :: optionValueFlags rest := by
      rw [optionValueFlags_plain plainFirst, optionValueFlags_plain plainCommand, optionValueFlags, if_pos valued]
    simp only [intendedPrompt, List.drop_succ_cons, List.drop_zero, flags, List.zip_cons_cons, List.find?_cons,
      takesValue_head valued, bne_self_eq_false, Bool.false_and, Bool.not_true, Bool.and_false]

-- `neuronos model.gguf generate -n 64 hello`.
theorem generate_prompt_is_token_count :
    findPrompt ["neuronos".toList, "model.gguf".toList, "generate".toList, "-n".toList, "64".toList,
        "hello".toList] = some "64".toList ∧
      intendedPrompt ["neuronos".toList, "model.gguf".toList, "generate".toList, "-n".toList, "64".toList,
        "hello".toList] = some "hello".toList ∧
      (collectOptions ["model.gguf".toList, "generate".toList, "-n".toList, "64".toList, "hello".toList]
        MainOptions.defaults).maxTokens = 64 := by
  obtain ⟨found, _, intended⟩ := prompt_is_option_value "neuronos".toList "model.gguf".toList "generate".toList
    "-n".toList "64".toList ["hello".toList] (by decide) (by decide) (by decide) (by decide)
  exact ⟨found, intended.trans (by decide), by decide⟩

end NeuronOS.Cli
