import NeuronOS.Registry.Prompt
import NeuronOS.Shared.Json

set_option autoImplicit false

namespace NeuronOS.Registry

open NeuronOS.Shared

variable {Exec : Type}

def grammarAlternative (tool : ToolDesc Exec) : List Char :=
  "\"\\\"".toList ++ formatString tool.name ++ "\\\"\"".toList

-- A GBNF string literal after its opening quote, with `\"` and `\\` as its escapes.
def gbnfLiteralBody : List Char → Option (List Char × List Char)
  | [] => none
  | [c] => if c = '"' then some ([], []) else none
  | c :: e :: after =>
    if c = '"' then some ([], e :: after)
    else if c = '\\' then (if needsEscape e then (gbnfLiteralBody after).map (Prod.map (e :: ·) id) else none)
    else (gbnfLiteralBody (e :: after)).map (Prod.map (c :: ·) id)

def gbnfLiteral : List Char → Option (List Char × List Char)
  | [] => none
  | c :: body => if c = '"' then gbnfLiteralBody body else none

theorem grammarPieces_alternatives (tools : List (ToolDesc Exec)) :
    (grammarPieces tools).flatten = "tool-name ::= ".toList ++
      (tools.enum.map fun entry => (if 0 < entry.1 then " | ".toList else []) ++ grammarAlternative entry.2).flatten := by
  simp only [grammarPieces, List.flatten_cons, List.flatten_flatten, List.map_map]
  congr 3
  funext entry
  simp only [Function.comp, grammarNamePieces, grammarAlternative, List.flatten_append, List.flatten_cons,
    List.flatten_nil, List.append_nil, List.append_assoc]
  split <;> rfl

theorem gbnfLiteralBody_quote (rest : List Char) : gbnfLiteralBody ('"' :: rest) = some ([], rest) := by
  cases rest <;> rfl

theorem gbnfLiteralBody_escape {e : Char} (escaped : needsEscape e = true) (rest : List Char) :
    gbnfLiteralBody ('\\' :: e :: rest) = (gbnfLiteralBody rest).map (Prod.map (e :: ·) id) := by
  rw [gbnfLiteralBody, if_neg (by decide), if_pos rfl, if_pos escaped]

theorem gbnfLiteralBody_cons {c : Char} (plain : needsEscape c = false) (rest : List Char) :
    gbnfLiteralBody (c :: rest) = (gbnfLiteralBody rest).map (Prod.map (c :: ·) id) := by
  have quote : c ≠ '"' := fun same => by simp [same, needsEscape] at plain
  have backslash : c ≠ '\\' := fun same => by simp [same, needsEscape] at plain
  cases rest with
  | nil => rw [gbnfLiteralBody.eq_2, if_neg quote]; rfl
  | cons e after => rw [gbnfLiteralBody, if_neg quote, if_neg backslash]

theorem gbnfLiteralBody_plain {plain : List Char} (unescaped : plain.countP needsEscape = 0) (rest : List Char) :
    gbnfLiteralBody (plain ++ rest) = (gbnfLiteralBody rest).map (Prod.map (plain ++ ·) id) := by
  induction plain with
  | nil => rw [List.nil_append]; cases gbnfLiteralBody rest <;> rfl
  | cons c plain ih =>
    rw [List.countP_cons] at unescaped
    have unescapedHead : needsEscape c = false := by
      by_contra escaped
      simp only [Bool.not_eq_false] at escaped
      simp [escaped] at unescaped
    rw [List.cons_append, gbnfLiteralBody_cons unescapedHead, ih (by omega), Option.map_map]
    rfl

theorem gbnfLiteralBody_length {t text rest : List Char} (read : gbnfLiteralBody t = some (text, rest)) :
    t.length = text.length + text.countP needsEscape + 1 + rest.length := by
  induction t using gbnfLiteralBody.induct generalizing text rest with
  | case1 => cases read
  | case2 => cases read; rfl
  | case3 c notQuote => simp [gbnfLiteralBody, notQuote] at read
  | case4 e after =>
    rw [gbnfLiteralBody_quote] at read
    cases read
    simp only [List.length_cons, List.length_nil, List.countP_nil]
    omega
  | case5 e after escaped _ ih =>
    rw [gbnfLiteralBody_escape escaped] at read
    obtain ⟨⟨inner, r⟩, found, same⟩ := Option.map_eq_some'.mp read
    cases same
    simp only [List.length_cons, Prod.map, id, List.countP_cons, escaped, if_true, ih found]
    omega
  | case6 e after plain notQuote => simp [gbnfLiteralBody, plain] at read
  | case7 c e after notQuote notBackslash ih =>
    have plain : needsEscape c = false := by simp [needsEscape, notQuote, notBackslash]
    rw [gbnfLiteralBody_cons plain] at read
    obtain ⟨⟨inner, r⟩, found, same⟩ := Option.map_eq_some'.mp read
    cases same
    simp only [List.length_cons, Prod.map, id, List.countP_cons, plain, Bool.false_eq_true, if_false, ih found]
    omega

theorem gbnfLiteral_alternative (name : List Char) :
    gbnfLiteral ("\"\\\"".toList ++ name ++ "\\\"\"".toList) =
      gbnfLiteralBody ('\\' :: '"' :: (name ++ ['\\', '"', '"'])) := by
  rw [gbnfLiteral.eq_def]
  rfl

theorem grammar_names_json_iff (descs : List (Option (ToolDesc Exec))) :
    (grammarPieces (registerAll descs).tools).flatten = "tool-name ::= ".toList ++
      ((registerAll descs).tools.enum.map fun entry =>
        (if 0 < entry.1 then " | ".toList else []) ++ grammarAlternative entry.2).flatten ∧
    ∀ tool ∈ (registerAll descs).tools, ∃ name, tool.name = some name ∧
      (gbnfLiteral (grammarAlternative tool) = some (jsonQuote name, []) ↔ '"' ∉ name ∧ '\\' ∉ name) := by
  refine ⟨grammarPieces_alternatives _, fun tool mem => ?_⟩
  obtain ⟨tools, named, -, -, -⟩ := refines_foldl descs (@refines_create Exec)
  rw [registerAll, tools, List.mem_map] at mem
  obtain ⟨⟨name, desc⟩, entry, rfl⟩ := mem
  refine ⟨name, named _ entry, ?_⟩
  rw [grammarAlternative, named _ entry, formatString, Option.getD_some, gbnfLiteral_alternative,
    ← countP_needsEscape_eq_zero]
  constructor
  next =>
    intro read
    have total := gbnfLiteralBody_length read
    simp only [List.length_cons, List.length_append, List.length_nil, jsonQuote_length, jsonQuote_countP] at total
    omega
  next =>
    intro plain
    have quote : needsEscape '"' = true := rfl
    rw [gbnfLiteralBody_escape quote, gbnfLiteralBody_plain plain, gbnfLiteralBody_escape quote,
      gbnfLiteralBody_quote, jsonQuote_of_plain plain]
    rfl

-- A tool registered under the name a"b.
def quotedNameTool : ToolDesc Unit :=
  ⟨some "a\"b".toList, none, none, some (), 0, 0⟩

theorem quoted_name_misread :
    (registerAll [some quotedNameTool]).tools = [quotedNameTool] ∧
      gbnfLiteral (grammarAlternative quotedNameTool) = some ("\"a".toList, "b\\\"\"".toList) ∧
      jsonQuote "a\"b".toList = "\"a\\\"b\"".toList ∧
      gbnfLiteral (grammarAlternative quotedNameTool) ≠ some (jsonQuote "a\"b".toList, []) := by
  have registered : (registerAll [some quotedNameTool]).tools = [quotedNameTool] := rfl
  obtain ⟨name, named, reads⟩ :=
    (grammar_names_json_iff [some quotedNameTool]).2 quotedNameTool (by rw [registered]; exact List.mem_singleton_self _)
  cases named
  exact ⟨registered, by decide, by decide, fun read => (reads.mp read).1 (by decide)⟩

end NeuronOS.Registry
