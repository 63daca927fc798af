import Mathlib.Data.List.Basic

set_option autoImplicit false

namespace NeuronOS.Shared

-- JSON strings (RFC 8259, section 7): what the tools' arguments and the grammar's tool names are
-- meant to be. The code never decodes one.

def hexDigitValue (c : Char) : Option Nat :=
  if c.isDigit then some (c.toNat - 48)
  else if 'a' ≤ c ∧ c ≤ 'f' then some (c.toNat - 87)
  else if 'A' ≤ c ∧ c ≤ 'F' then some (c.toNat - 55)
  else none

def hexQuad (a b c d : Char) : Option Nat := do
  let a ← hexDigitValue a
  let b ← hexDigitValue b
  let c ← hexDigitValue c
  let d ← hexDigitValue d
  pure (((a * 16 + b) * 16 + c) * 16 + d)

def shortEscape : Char → Option Char
  | '"' => some '"'
  | '\\' => some '\\'
  | '/' => some '/'
  | 'b' => some '\x08'
  | 'f' => some '\x0c'
  | 'n' => some '\n'
  | 'r' => some '\r'
  | 't' => some '\t'
  | _ => none

def surrogatePair (high low : Nat) : Char :=
  Char.ofNat (0x10000 + (high - 0xD800) * 0x400 + (low - 0xDC00))

-- `\uXXXX` after its `u`, with a second `\uXXXX` completing a high surrogate.
def unicodeEscape (a b c d : Char) (after : List Char) : Option (Char × List Char) :=
  match hexQuad a b c d with
  | none => none
  | some high =>
    if high < 0xD800 ∨ 0xE000 ≤ high then some (Char.ofNat high, after)
    else if 0xDC00 ≤ high then none
    else
      match after with
      | x :: y :: e :: f :: g :: h :: after =>
        if x = '\\' ∧ y = 'u' then
          match hexQuad e f g h with
          | some low => if 0xDC00 ≤ low ∧ low < 0xE000 then some (surrogatePair high low, after) else none
          | none => none
        else none
      | _ => none

def jsonEscape : List Char → Option (Char × List Char)
  | [] => none
  | e :: after =>
    if e = 'u' then
      match after with
      | a :: b :: c :: d :: after => unicodeEscape a b c d after
      | _ => none
    else (shortEscape e).map (·, after)

inductive BodyToken
  | close (rest : List Char)
  | char (v : Char) (rest : List Char)

-- A control character must be escaped.
def jsonChar : List Char → Option BodyToken
  | [] => none
  | c :: rest =>
    if c = '"' then some (.close rest)
    else if c = '\\' then (jsonEscape rest).map fun escaped => .char escaped.1 escaped.2
    else if c.toNat < 0x20 then none
    else some (.char c rest)

def jsonStringBodyFrom : Nat → List Char → Option (List Char × List Char)
  | 0, _ => none
  | fuel + 1, t =>
    match jsonChar t with
    | some (.close rest) => some ([], rest)
    | some (.char v rest) => (jsonStringBodyFrom fuel rest).map (Prod.map (v :: ·) id)
    | none => none

-- The text of a JSON string after its opening quote: its value, and the text after the closing
-- quote.
def jsonStringBody (t : List Char) : Option (List Char × List Char) :=
  jsonStringBodyFrom (t.length + 1) t

-- One constructor per way jsonChar reads a character.
inductive Written : List Char → Char → Prop
  | plain {c : Char} : c ≠ '"' → c ≠ '\\' → 0x20 ≤ c.toNat → Written [c] c
  | short {x d : Char} : shortEscape x = some d → Written ['\\', x] d
  | unit {a b c d : Char} {u : Nat} : hexQuad a b c d = some u → u < 0xD800 ∨ 0xE000 ≤ u →
      Written ['\\', 'u', a, b, c, d] (Char.ofNat u)
  | pair {a b c d e f g h : Char} {high low : Nat} : hexQuad a b c d = some high → 0xD800 ≤ high →
      high < 0xDC00 → hexQuad e f g h = some low → 0xDC00 ≤ low → low < 0xE000 →
      Written ['\\', 'u', a, b, c, d, '\\', 'u', e, f, g, h] (surrogatePair high low)

def needsEscape (c : Char) : Bool :=
  c == '"' || c == '\\'

-- A name as the JSON string literal the grammar is meant to admit for it.
def quoteChar (c : Char) : List Char :=
  if needsEscape c then ['\\', c] else [c]

def jsonQuote (name : List Char) : List Char :=
  '"' :: (name.map quoteChar).flatten ++ ['"']

theorem countP_needsEscape_eq_zero (name : List Char) :
    name.countP needsEscape = 0 ↔ '"' ∉ name ∧ '\\' ∉ name := by
  rw [List.countP_eq_zero]
  constructor
  next => exact fun plain => ⟨fun mem => plain _ mem rfl, fun mem => plain _ mem rfl⟩
  next =>
    rintro ⟨noQuote, noBackslash⟩ c mem escaped
    simp only [needsEscape, Bool.or_eq_true, beq_iff_eq] at escaped
    rcases escaped with rfl | rfl
    exacts [noQuote mem, noBackslash mem]

theorem quoteChar_length (c : Char) : (quoteChar c).length = 1 + if needsEscape c then 1 else 0 := by
  unfold quoteChar
  split <;> rfl

theorem quoteChar_countP (c : Char) :
    (quoteChar c).countP needsEscape = 2 * if needsEscape c then 1 else 0 := by
  unfold quoteChar
  split
  next escaped =>
    have backslash : needsEscape '\\' = true := rfl
    simp only [List.countP_cons, List.countP_nil, escaped, backslash, if_true]
  next plain => simp [plain]

theorem jsonQuote_length (name : List Char) :
    (jsonQuote name).length = name.length + name.countP needsEscape + 2 := by
  induction name with
  | nil => rfl
  | cons c name ih =>
    simp only [jsonQuote, List.length_cons, List.length_append, List.map_cons, List.flatten_cons,
      List.countP_cons, quoteChar_length] at ih ⊢
    omega

theorem jsonQuote_countP (name : List Char) :
    (jsonQuote name).countP needsEscape = 2 * name.countP needsEscape + 2 := by
  induction name with
  | nil => rfl
  | cons c name ih =>
    simp only [jsonQuote, List.countP_cons, List.countP_append, List.map_cons, List.flatten_cons,
      quoteChar_countP] at ih ⊢
    omega

theorem jsonQuote_of_plain {name : List Char} (plain : name.countP needsEscape = 0) :
    jsonQuote name = '"' :: name ++ ['"'] := by
  have same : (name.map quoteChar).flatten = name := by
    induction name with
    | nil => rfl
    | cons c name ih =>
      rw [List.countP_cons] at plain
      have unescaped : needsEscape c = false := by
        by_contra escaped
        simp only [Bool.not_eq_false] at escaped
        simp [escaped] at plain
      simp only [List.map_cons, List.flatten_cons, quoteChar, unescaped, ih (by omega)]
      rfl
  rw [jsonQuote, same]

theorem jsonChar_close {t rest : List Char} (read : jsonChar t = some (.close rest)) : t = '"' :: rest := by
  rcases t with _ | ⟨c, after⟩
  next => cases read
  next =>
    rw [jsonChar] at read
    split_ifs at read with quote backslash control
    next => cases read; rw [quote]
    next => obtain ⟨_, _, unequal⟩ := Option.map_eq_some'.mp read; cases unequal
    next => cases read

theorem unicodeEscape_written {a b c d v : Char} {after rest : List Char}
    (read : unicodeEscape a b c d after = some (v, rest)) :
    ∃ text, Written ('\\' :: 'u' :: a :: b :: c :: d :: text) v ∧ after = text ++ rest := by
  unfold unicodeEscape at read
  split at read
  next => cases read
  next high quad =>
    split_ifs at read with plain lowHigh
    next => cases read; exact ⟨[], .unit quad plain, rfl⟩
    next =>
      split at read
      next x y e f g h after =>
        split_ifs at read with escaped
        split at read
        next low quad' =>
          split_ifs at read with lowHalf
          obtain ⟨rfl, rfl⟩ := Prod.mk.inj (Option.some.inj read)
          obtain ⟨backslash, isU⟩ := escaped
          push_neg at plain
          refine ⟨['\\', 'u', e, f, g, h], ?_, by rw [backslash, isU]; rfl⟩
          exact .pair quad plain.1 (not_le.mp lowHigh) quad' lowHalf.1 lowHalf.2
        next => cases read
      next => cases read

theorem jsonEscape_written {after rest : List Char} {v : Char} (read : jsonEscape after = some (v, rest)) :
    ∃ text, Written ('\\' :: text) v ∧ after = text ++ rest := by
  rcases after with _ | ⟨e, after⟩
  next => cases read
  by_cases isU : e = 'u'
  next =>
    subst isU
    rcases after with _ | ⟨a, _ | ⟨b, _ | ⟨c, _ | ⟨d, after⟩⟩⟩⟩ <;> simp only [jsonEscape, if_true, reduceCtorEq] at read
    obtain ⟨text, written, rfl⟩ := unicodeEscape_written read
    exact ⟨_, written, rfl⟩
  next =>
    simp only [jsonEscape, isU, if_false, Option.map_eq_some', Prod.mk.injEq] at read
    obtain ⟨d, short, rfl, rfl⟩ := read
    exact ⟨[e], .short short, rfl⟩

theorem jsonChar_char {t rest : List Char} {v : Char} (read : jsonChar t = some (.char v rest)) :
    ∃ text, Written text v ∧ t = text ++ rest := by
  rcases t with _ | ⟨c, after⟩
  next => cases read
  next =>
    rw [jsonChar] at read
    split_ifs at read with quote backslash control
    next => cases read
    next =>
      obtain ⟨⟨w, r⟩, escape, same⟩ := Option.map_eq_some'.mp read
      cases same
      obtain ⟨text, written, rfl⟩ := jsonEscape_written escape
      exact ⟨_, written, by rw [backslash]; rfl⟩
    next => cases read; exact ⟨_, .plain quote backslash (not_lt.mp control), rfl⟩

def BodyOf (t value rest : List Char) : Prop :=
  ∃ pieces : List (List Char × Char), (∀ piece ∈ pieces, Written piece.1 piece.2) ∧
    t = (pieces.map Prod.fst).flatten ++ '"' :: rest ∧ value = pieces.map Prod.snd

theorem jsonStringBodyFrom_bodyOf {fuel : Nat} {t value rest : List Char}
    (read : jsonStringBodyFrom fuel t = some (value, rest)) : BodyOf t value rest := by
  induction fuel generalizing t value rest with
  | zero => cases read
  | succ fuel ih =>
    unfold jsonStringBodyFrom at read
    split at read
    next after token =>
      cases read
      exact ⟨[], by simp, jsonChar_close token, rfl⟩
    next v after token =>
      obtain ⟨⟨w, r⟩, inner, same⟩ := Option.map_eq_some'.mp read
      cases same
      obtain ⟨pieces, all, rfl, rfl⟩ := ih inner
      obtain ⟨text, written, rfl⟩ := jsonChar_char token
      refine ⟨(text, v) :: pieces, ?_, by simp, rfl⟩
      rintro piece (_ | ⟨_, mem⟩)
      exacts [written, all piece mem]
    next => cases read

theorem jsonStringBody_bodyOf {t value rest : List Char} (read : jsonStringBody t = some (value, rest)) :
    BodyOf t value rest :=
  jsonStringBodyFrom_bodyOf read

theorem hexDigitValue_ne {c : Char} {v : Nat} (digit : hexDigitValue c = some v) : c ≠ '"' ∧ c ≠ '\\' := by
  constructor <;> rintro rfl <;> cases digit

theorem hexQuad_digits {a b c d : Char} {u : Nat} (quad : hexQuad a b c d = some u) :
    ∀ x ∈ [a, b, c, d], x ≠ '"' ∧ x ≠ '\\' := by
  simp only [hexQuad, Option.bind_eq_bind, Option.bind_eq_some, Option.pure_def, Option.some.injEq] at quad
  obtain ⟨_, da, _, db, _, dc, _, dd, -⟩ := quad
  simp only [List.mem_cons, List.mem_singleton, List.not_mem_nil, or_false]
  rintro x (rfl | rfl | rfl | rfl)
  exacts [hexDigitValue_ne da, hexDigitValue_ne db, hexDigitValue_ne dc, hexDigitValue_ne dd]

namespace Written

variable {text : List Char} {v : Char}

theorem length_pos (written : Written text v) : 0 < text.length := by
  cases written <;> simp

theorem eq_singleton (written : Written text v) (unescaped : '\\' ∉ text) : text = [v] := by
  cases written
  next => rfl
  all_goals exact absurd (List.mem_cons_self _ _) unescaped

theorem two_le_length (written : Written text v) (escaped : '\\' ∈ text) : 2 ≤ text.length := by
  cases written
  next _ backslash _ => exact absurd (List.mem_singleton.mp escaped).symm backslash
  all_goals simp

theorem escaped_of_quote (written : Written text v) (quoted : '"' ∈ text) : '\\' ∈ text := by
  cases written
  next quote _ _ => exact absurd (List.mem_singleton.mp quoted).symm quote
  all_goals exact List.mem_cons_self _ _

theorem quote_not_mem_unicode {a b c d : Char} {u : Nat} (quad : hexQuad a b c d = some u) {rest : List Char}
    (free : '"' ∉ rest) : '"' ∉ '\\' :: 'u' :: a :: b :: c :: d :: rest := by
  have digits := hexQuad_digits quad
  simp only [List.mem_cons, List.mem_singleton, List.not_mem_nil, or_false, forall_eq_or_imp, forall_eq] at digits
  simp only [List.mem_cons, not_or]
  exact ⟨by decide, by decide, (digits.1.1).symm, (digits.2.1.1).symm, (digits.2.2.1.1).symm,
    (digits.2.2.2.1).symm, free⟩

theorem quote_value (written : Written text v) (quoted : '"' ∈ text) : v = '"' := by
  cases written with
  | plain quote _ _ => exact absurd (List.mem_singleton.mp quoted).symm quote
  | short escape =>
    rcases List.mem_pair.mp quoted with same | same
    next => cases same
    next => subst same; cases escape; rfl
  | unit quad _ => exact absurd quoted (quote_not_mem_unicode quad (List.not_mem_nil _))
  | pair quad _ _ quad' _ _ =>
    exact absurd quoted (quote_not_mem_unicode quad (quote_not_mem_unicode quad' (List.not_mem_nil _)))

end Written

section Pieces

variable {pieces : List (List Char × Char)} (all : ∀ piece ∈ pieces, Written piece.1 piece.2)
include all

theorem values_length_le : (pieces.map Prod.snd).length ≤ (pieces.map Prod.fst).flatten.length := by
  induction pieces with
  | nil => simp
  | cons piece pieces ih =>
    have head := (all piece (List.mem_cons_self _ _)).length_pos
    have tail := ih fun piece mem => all piece (List.mem_cons_of_mem _ mem)
    simp only [List.map_cons, List.length_cons, List.flatten_cons, List.length_append]
    omega

theorem values_length_lt (escaped : '\\' ∈ (pieces.map Prod.fst).flatten) :
    (pieces.map Prod.snd).length < (pieces.map Prod.fst).flatten.length := by
  induction pieces with
  | nil => simp at escaped
  | cons piece pieces ih =>
    have written := all piece (List.mem_cons_self _ _)
    have rest : ∀ piece ∈ pieces, Written piece.1 piece.2 := fun piece mem => all piece (List.mem_cons_of_mem _ mem)
    simp only [List.map_cons, List.length_cons, List.flatten_cons, List.length_append, List.mem_append] at escaped ⊢
    rcases escaped with inHead | inTail
    next =>
      have := written.two_le_length inHead
      have := values_length_le rest
      omega
    next =>
      have := written.length_pos
      have := ih rest inTail
      omega

theorem flatten_eq_values (unescaped : '\\' ∉ (pieces.map Prod.fst).flatten) :
    (pieces.map Prod.fst).flatten = pieces.map Prod.snd := by
  induction pieces with
  | nil => rfl
  | cons piece pieces ih =>
    simp only [List.map_cons, List.flatten_cons, List.mem_append, not_or] at unescaped ⊢
    rw [(all piece (List.mem_cons_self _ _)).eq_singleton unescaped.1,
      ih (fun piece mem => all piece (List.mem_cons_of_mem _ mem)) unescaped.2]
    rfl

theorem quote_mem_values (quoted : '"' ∈ (pieces.map Prod.fst).flatten) : '"' ∈ pieces.map Prod.snd := by
  obtain ⟨text, written, inText⟩ := List.mem_flatten.mp quoted
  obtain ⟨piece, mem, rfl⟩ := List.mem_map.mp written
  rw [← (all piece mem).quote_value inText]
  exact List.mem_map_of_mem _ mem

theorem escaped_of_quote_mem (quoted : '"' ∈ (pieces.map Prod.fst).flatten) :
    '\\' ∈ (pieces.map Prod.fst).flatten := by
  obtain ⟨text, written, inText⟩ := List.mem_flatten.mp quoted
  obtain ⟨piece, mem, rfl⟩ := List.mem_map.mp written
  exact List.mem_flatten.mpr ⟨_, written, (all piece mem).escaped_of_quote inText⟩

end Pieces

theorem BodyOf.value_iff {e value rest : List Char} (body : BodyOf (e ++ '"' :: rest) value rest) :
    (value = e ↔ '\\' ∉ e) ∧ ('"' ∈ e → '"' ∈ value) ∧ ('\\' ∉ e → '"' ∉ e) := by
  obtain ⟨pieces, all, text, rfl⟩ := body
  obtain rfl := List.append_cancel_right text
  refine ⟨⟨fun same escaped => ?_, fun unescaped => (flatten_eq_values all unescaped).symm⟩,
    quote_mem_values all, fun unescaped quoted => unescaped (escaped_of_quote_mem all quoted)⟩
  exact absurd (congrArg List.length same) (values_length_lt all escaped).ne

end NeuronOS.Shared
