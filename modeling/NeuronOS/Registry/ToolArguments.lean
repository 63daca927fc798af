import NeuronOS.Registry.Tools
import NeuronOS.Shared.Json

set_option autoImplicit false

namespace NeuronOS.Registry

open NeuronOS.Shared

theorem escapedLength_plain {c : Char} (quote : c ≠ '"') (backslash : c ≠ '\\') (rest : List Char) :
    escapedLength (c :: rest) = escapedLength rest + 1 :=
  escapedLength.eq_5 c rest quote (fun same _ => backslash same) fun _ _ same _ => backslash same

theorem escapedLength_digits {a b c d : Char} {u : Nat} (quad : hexQuad a b c d = some u) (rest : List Char) :
    escapedLength (a :: b :: c :: d :: rest) = escapedLength rest + 4 := by
  have digits := hexQuad_digits quad
  simp only [List.mem_cons, List.mem_singleton, List.not_mem_nil, or_false, forall_eq_or_imp, forall_eq] at digits
  obtain ⟨⟨qa, ba⟩, ⟨qb, bb⟩, ⟨qc, bc⟩, qd, bd⟩ := digits
  rw [escapedLength_plain qa ba, escapedLength_plain qb bb, escapedLength_plain qc bc, escapedLength_plain qd bd]

theorem escapedLength_written {text : List Char} {v : Char} (written : Written text v) (rest : List Char) :
    escapedLength (text ++ rest) = escapedLength rest + text.length := by
  cases written with
  | plain quote backslash _ => exact escapedLength_plain quote backslash rest
  | short _ => exact escapedLength.eq_4 _ rest
  | @unit a b c d _ quad _ =>
    show escapedLength ('\\' :: 'u' :: a :: b :: c :: d :: rest) = _
    rw [escapedLength.eq_4, escapedLength_digits quad]
    rfl
  | @pair a b c d e f g h _ _ quad _ _ quad' _ _ =>
    show escapedLength ('\\' :: 'u' :: a :: b :: c :: d :: '\\' :: 'u' :: e :: f :: g :: h :: rest) = _
    rw [escapedLength.eq_4, escapedLength_digits quad, escapedLength.eq_4, escapedLength_digits quad']
    rfl

theorem escapedLength_body {e value rest : List Char} (body : BodyOf (e ++ '"' :: rest) value rest) :
    escapedLength (e ++ '"' :: rest) = e.length := by
  obtain ⟨pieces, all, text, -⟩ := body
  obtain rfl := List.append_cancel_right text
  clear text
  induction pieces with
  | nil => rfl
  | cons piece pieces ih =>
    simp only [List.map_cons, List.flatten_cons, List.append_assoc, List.length_append]
    rw [escapedLength_written (all piece (List.mem_cons_self _ _)),
      ih fun piece mem => all piece (List.mem_cons_of_mem _ mem)]
    omega

theorem untilQuote_append (invalid e rest : List Char) :
    ∃ path, untilQuote invalid (e ++ '"' :: rest) = .ok path ∧ '"' ∉ path ∧ ('"' ∉ e → path = e) := by
  unfold untilQuote
  split
  next missing =>
    have absent := List.findIdx?_eq_none_iff.mp missing '"' (List.mem_append_right _ (List.mem_cons_self _ _))
    simp at absent
  next stop found =>
    refine ⟨_, rfl, not_mem_take_strchr found, fun unquoted => ?_⟩
    rw [strchr_append_cons e rest unquoted, Option.some.injEq] at found
    rw [← found, List.take_left]

theorem cut_value_iff {e path value rest : List Char} (body : BodyOf (e ++ '"' :: rest) value rest)
    (cut : '"' ∉ path) (whole : '"' ∉ e → path = e) : path = value ↔ '\\' ∉ e := by
  obtain ⟨same, quoted, unquoted⟩ := body.value_iff
  constructor
  next =>
    intro read escaped
    by_cases inText : '"' ∈ e
    next => exact cut (read ▸ quoted inText)
    next => exact same.mp (read.symm.trans (whole inText)) escaped
  next =>
    intro unescaped
    rw [whole (unquoted unescaped), same.mpr unescaped]

theorem tools_act_on_undecoded_text (e s : List Char)
    (string : jsonStringBody (e ++ "\"\x7d".toList) = some (s, "\x7d".toList)) :
    toolShell ("\x7b\"command\":\"".toList ++ e ++ "\"\x7d".toList) = .popen e ∧
      toolWriteFile ("\x7b\"path\":\"f\",\"content\":\"".toList ++ e ++ "\"\x7d".toList) =
        .fopenWrite "f".toList e ∧
      (∃ path, toolReadFile ("\x7b\"path\":\"".toList ++ e ++ "\"\x7d".toList) = .fopenRead path ∧
        (path = s ↔ '\\' ∉ e)) ∧
      (∃ expression, toolCalculate ("\x7b\"expression\":\"".toList ++ e ++ "\"\x7d".toList) =
        .popen (calculateCommand expression).printed ∧ (expression = s ↔ '\\' ∉ e)) ∧
      (s = e ↔ '\\' ∉ e) := by
  have body : BodyOf (e ++ '"' :: "\x7d".toList) s "\x7d".toList := jsonStringBody_bodyOf string
  have whole : (e ++ "\"\x7d".toList).take (escapedLength (e ++ "\"\x7d".toList)) = e := by
    rw [show e ++ "\"\x7d".toList = e ++ '"' :: "\x7d".toList from rfl, escapedLength_body body, List.take_left]
  obtain ⟨path, parsed, cut, plain⟩ := untilQuote_append "Invalid \x27path\x27".toList e "\x7d".toList
  obtain ⟨expression, parsed', cut', plain'⟩ :=
    untilQuote_append "Invalid \x27expression\x27".toList e "\x7d".toList
  refine ⟨?_, ?_, ⟨path, ?_, cut_value_iff body cut plain⟩,
    ⟨expression, ?_, cut_value_iff body cut' plain'⟩, body.value_iff.1⟩
  next => exact congrArg ToolRequest.popen whole
  next =>
    show ToolRequest.fopenWrite "f".toList ((e ++ "\"\x7d".toList).take (escapedLength (e ++ "\"\x7d".toList))) = _
    rw [whole]
  next =>
    show (match untilQuote "Invalid \x27path\x27".toList (e ++ '"' :: "\x7d".toList) with
      | .error error => ToolRequest.fail error
      | .ok path => .fopenRead path) = _
    rw [parsed]
  next =>
    show (match untilQuote "Invalid \x27expression\x27".toList (e ++ '"' :: "\x7d".toList) with
      | .error error => ToolRequest.fail error
      | .ok expression => .popen (calculateCommand expression).printed) = _
    rw [parsed']

-- `echo \"hi\"` is the text of the string `echo "hi"`; in the second object strstr finds the key inside
-- another member's string.
theorem escaped_command_runs_verbatim :
    jsonStringBody ("echo \\\"hi\\\"".toList ++ "\"\x7d".toList) = some ("echo \"hi\"".toList, "\x7d".toList) ∧
      toolShell ("\x7b\"command\":\"".toList ++ "echo \\\"hi\\\"".toList ++ "\"\x7d".toList) =
        .popen "echo \\\"hi\\\"".toList ∧
      toolShell "\x7b\"a\":\"\\\"command\",\"command\":\"ls\"\x7d".toList = .popen "command".toList := by
  have decoded : jsonStringBody ("echo \\\"hi\\\"".toList ++ "\"\x7d".toList) =
      some ("echo \"hi\"".toList, "\x7d".toList) := by decide
  exact ⟨decoded, (tools_act_on_undecoded_text _ _ decoded).1, by decide⟩

-- The extraction as C runs it, on indices into args_json: `byteAt` is what a read at index i sees,
-- the string and then its NUL; `none` past it.
def byteAt (s : List Char) (i : Nat) : Option Char :=
  (s ++ ['\x00'])[i]?

-- `strchr(args_json + i, c)` for a c other than NUL.
def strchrAt (s : List Char) (c : Char) : Nat → Nat → Option (Option Nat)
  | 0, _ => none
  | fuel + 1, i =>
    (byteAt s i).bind fun b =>
      if b = c then some (some i) else if b = '\x00' then some none else strchrAt s c fuel (i + 1)

-- `while (*end && *end != '"') { if (*end == '\\') end++; if (*end) end++; }` from end = i.
def skipEscapedAt (s : List Char) : Nat → Nat → Option Nat
  | 0, _ => none
  | fuel + 1, i =>
    (byteAt s i).bind fun b =>
      if b = '\x00' ∨ b = '"' then some i
      else if b = '\\' then
        (byteAt s (i + 1)).bind fun d => if d = '\x00' then some (i + 1) else skipEscapedAt s fuel (i + 2)
      else skipEscapedAt s fuel (i + 1)

-- `p = strstr(args_json, key)`, `p = strchr(p + skip, '"')`, `p++`.
def valueStartAt (s key : List Char) (skip : Nat) (missing invalid : List Char) (fuel : Nat) :
    Option (Except (List Char) Nat) :=
  match strstr s key with
  | none => some (.error missing)
  | some found =>
    (strchrAt s '"' fuel (found + skip)).map fun
      | none => .error invalid
      | some quote => .ok (quote + 1)

-- The value's span: up to where the escape-skipping loop stops, or up to `strchr(start, '"')`.
def escapedValueAt (s key : List Char) (skip : Nat) (missing invalid : List Char) (fuel : Nat) :
    Option (Except (List Char) (Nat × Nat)) :=
  (valueStartAt s key skip missing invalid fuel).bind fun
    | .error error => some (.error error)
    | .ok start => (skipEscapedAt s fuel start).map fun stop => .ok (start, stop)

def quotedValueAt (s key : List Char) (skip : Nat) (missing invalid : List Char) (fuel : Nat) :
    Option (Except (List Char) (Nat × Nat)) :=
  (valueStartAt s key skip missing invalid fuel).bind fun
    | .error error => some (.error error)
    | .ok start => (strchrAt s '"' fuel start).map fun
      | none => .error invalid
      | some stop => .ok (start, stop)

-- `memcpy(value, start, (size_t)(end - start))`
def spanText (s : List Char) (span : Nat × Nat) : List Char :=
  (s.drop span.1).take (span.2 - span.1)

def toolShellAt (s : List Char) (fuel : Nat) : Option ToolRequest :=
  (escapedValueAt s "\"command\"".toList 9 "Missing \x27command\x27 argument".toList
      "Invalid \x27command\x27 format".toList fuel).map fun
    | .error error => .fail error
    | .ok span => .popen (spanText s span)

def toolReadFileAt (s : List Char) (fuel : Nat) : Option ToolRequest :=
  (quotedValueAt s "\"path\"".toList 6 "Missing \x27path\x27 argument".toList "Invalid \x27path\x27".toList fuel).map fun
    | .error error => .fail error
    | .ok span => .fopenRead (spanText s span)

def toolWriteFileAt (s : List Char) (fuel : Nat) : Option ToolRequest :=
  (quotedValueAt s "\"path\"".toList 6 "Missing \x27path\x27".toList "Invalid \x27path\x27".toList fuel).bind fun
    | .error error => some (.fail error)
    | .ok path =>
      (escapedValueAt s "\"content\"".toList 9 "Missing \x27content\x27".toList "Invalid \x27content\x27".toList
          fuel).map fun
        | .error error => .fail error
        | .ok span => .fopenWrite (spanText s path) (spanText s span)

def toolCalculateAt (s : List Char) (fuel : Nat) : Option ToolRequest :=
  (quotedValueAt s "\"expression\"".toList 12 "Missing \x27expression\x27 argument".toList
      "Invalid \x27expression\x27".toList fuel).map fun
    | .error error => .fail error
    | .ok span => .popen (calculateCommand (spanText s span)).printed

section Pointers

variable {s : List Char} (terminated : '\x00' ∉ s)

theorem byteAt_of_drop {i : Nat} {b : Char} {rest : List Char} (at_ : s.drop i = b :: rest) : byteAt s i = some b := by
  have inside : i < s.length := by
    have := congrArg List.length at_
    rw [List.length_drop, List.length_cons] at this
    omega
  rw [byteAt, List.getElem?_append_left inside, ← List.head?_drop, at_]
  rfl

theorem byteAt_end {i : Nat} (within : i ≤ s.length) (past : s.drop i = []) : byteAt s i = some '\x00' := by
  obtain rfl : i = s.length := le_antisymm within (List.drop_eq_nil_iff.mp past)
  exact List.getElem?_concat_length s _

theorem drop_succ_of_cons {i : Nat} {b : Char} {rest : List Char} (at_ : s.drop i = b :: rest) :
    s.drop (i + 1) = rest := by
  rw [← List.drop_drop, at_]
  rfl

theorem succ_le_of_cons {i : Nat} {b : Char} {rest : List Char} (at_ : s.drop i = b :: rest) :
    i + 1 + rest.length = s.length := by
  have := congrArg List.length at_
  rw [List.length_drop, List.length_cons] at this
  omega

include terminated

theorem ne_nul_of_drop {i : Nat} {b : Char} {rest : List Char} (at_ : s.drop i = b :: rest) : b ≠ '\x00' :=
  fun nul => terminated (nul ▸ (List.drop_sublist i s).subset (at_ ▸ List.mem_cons_self b rest))

theorem strchrAt_eq {c : Char} (notNul : c ≠ '\x00') {fuel i : Nat} (within : i ≤ s.length)
    (enough : s.length - i < fuel) : strchrAt s c fuel i = some ((strchr (s.drop i) c).map (i + ·)) := by
  induction fuel generalizing i with
  | zero => omega
  | succ fuel ih =>
    rw [strchrAt]
    cases at_ : s.drop i with
    | nil =>
      rw [byteAt_end within at_, Option.some_bind, if_neg (Ne.symm notNul), if_pos rfl]
      rfl
    | cons b rest =>
      rw [byteAt_of_drop at_, Option.some_bind, strchr_cons]
      by_cases found : b = c
      next => rw [if_pos found, if_pos (beq_iff_eq.mpr found)]; rfl
      next =>
        have length := succ_le_of_cons at_
        rw [if_neg found, if_neg (ne_nul_of_drop terminated at_), if_neg (by simpa using found),
          ih (by omega) (by omega), drop_succ_of_cons at_, Option.map_map]
        congr 2
        funext k
        simp only [Function.comp]
        omega

theorem skipEscapedAt_eq {fuel i : Nat} (within : i ≤ s.length) (enough : s.length - i < fuel) :
    skipEscapedAt s fuel i = some (i + escapedLength (s.drop i)) := by
  induction fuel generalizing i with
  | zero => omega
  | succ fuel ih =>
    rw [skipEscapedAt]
    cases at_ : s.drop i with
    | nil => rw [byteAt_end within at_, Option.some_bind, if_pos (.inl rfl)]; rfl
    | cons b rest =>
      have length := succ_le_of_cons at_
      rw [byteAt_of_drop at_, Option.some_bind]
      by_cases quote : b = '"'
      next => subst quote; rw [if_pos (.inr rfl), escapedLength]; rfl
      rw [if_neg (not_or.mpr ⟨ne_nul_of_drop terminated at_, quote⟩)]
      by_cases backslash : b = '\\'
      next =>
        subst backslash
        rw [if_pos rfl]
        cases next : rest with
        | nil =>
          rw [byteAt_end (by omega) ((drop_succ_of_cons at_).trans next), Option.some_bind, if_pos rfl]
          rfl
        | cons d rest' =>
          have atNext : s.drop (i + 1) = d :: rest' := (drop_succ_of_cons at_).trans next
          have lengthNext := succ_le_of_cons atNext
          rw [byteAt_of_drop atNext, Option.some_bind, if_neg (ne_nul_of_drop terminated atNext),
            ih (by omega) (by omega), drop_succ_of_cons atNext, escapedLength.eq_4]
          congr 1
          omega
      next =>
        rw [if_neg backslash, ih (by omega) (by omega), drop_succ_of_cons at_,
          escapedLength_plain quote backslash]
        congr 1
        omega

end Pointers

theorem escapedLength_le (t : List Char) : escapedLength t ≤ t.length := by
  induction t using escapedLength.induct <;> simp only [escapedLength, List.length_cons, List.length_nil] <;> omega

def SpanWithin (n : Nat) (r : Except (List Char) (Nat × Nat)) : Prop :=
  ∀ start stop, r = .ok (start, stop) → start ≤ stop ∧ stop ≤ n

theorem spanWithin_error (n : Nat) (error : List Char) : SpanWithin n (.error error) :=
  fun _ _ ok => by cases ok

theorem spanWithin_ok {n start stop : Nat} (ordered : start ≤ stop) (inside : stop ≤ n) :
    SpanWithin n (.ok (start, stop)) :=
  fun _ _ ok => by cases ok; exact ⟨ordered, inside⟩

section Values

variable {s : List Char} (terminated : '\x00' ∉ s) {key : List Char} {skip : Nat} (fits : skip ≤ key.length)
  (missing invalid : List Char) {fuel : Nat} (enough : s.length < fuel)
include terminated fits enough

theorem valueStartAt_eq :
    ∃ r, valueStartAt s key skip missing invalid fuel = some r ∧
      Except.map s.drop r = valueStart s key skip missing invalid ∧ ∀ start, r = .ok start → start ≤ s.length := by
  unfold valueStartAt valueStart
  cases matched : strstr s key with
  | none => exact ⟨_, rfl, rfl, fun _ ok => by cases ok⟩
  | some found =>
    have bound := (strstr_match matched).1
    dsimp only
    rw [strchrAt_eq terminated (by decide : ('"' : Char) ≠ '\x00') (by omega) (by omega)]
    cases quoted : strchr (s.drop (found + skip)) '"' with
    | none => exact ⟨_, rfl, rfl, fun _ ok => by cases ok⟩
    | some quote =>
      have inside := strchr_lt quoted
      rw [List.length_drop] at inside
      exact ⟨.ok (found + skip + quote + 1), rfl, rfl, fun _ ok => by cases ok; omega⟩

theorem escapedValueAt_eq :
    ∃ r, escapedValueAt s key skip missing invalid fuel = some r ∧ SpanWithin s.length r ∧
      Except.map (spanText s) r =
        Except.map (fun start => start.take (escapedLength start)) (valueStart s key skip missing invalid) := by
  obtain ⟨r, located, same, inside⟩ := valueStartAt_eq terminated fits missing invalid enough
  rw [escapedValueAt, located, Option.some_bind, ← same]
  cases r with
  | error error => exact ⟨_, rfl, spanWithin_error _ error, rfl⟩
  | ok start =>
    have within := inside start rfl
    have loop := escapedLength_le (s.drop start)
    rw [List.length_drop] at loop
    dsimp only
    rw [skipEscapedAt_eq terminated within (by omega)]
    refine ⟨_, rfl, spanWithin_ok (by omega) (by omega), ?_⟩
    show Except.ok (spanText s (start, start + _)) = _
    rw [spanText, Nat.add_sub_cancel_left]
    rfl

theorem quotedValueAt_eq :
    ∃ r, quotedValueAt s key skip missing invalid fuel = some r ∧ SpanWithin s.length r ∧
      Except.map (spanText s) r = (valueStart s key skip missing invalid >>= untilQuote invalid) := by
  obtain ⟨r, located, same, inside⟩ := valueStartAt_eq terminated fits missing invalid enough
  rw [quotedValueAt, located, Option.some_bind, ← same]
  cases r with
  | error error => exact ⟨_, rfl, spanWithin_error _ error, rfl⟩
  | ok start =>
    have within := inside start rfl
    dsimp only
    rw [strchrAt_eq terminated (by decide : ('"' : Char) ≠ '\x00') within (by omega)]
    show ∃ r, _ ∧ _ ∧ _ = untilQuote invalid (s.drop start)
    unfold untilQuote
    cases quoted : strchr (s.drop start) '"' with
    | none => exact ⟨_, rfl, spanWithin_error _ invalid, rfl⟩
    | some stop =>
      have bound := strchr_lt quoted
      rw [List.length_drop] at bound
      refine ⟨.ok (start, start + stop), rfl, spanWithin_ok (by omega) (by omega), ?_⟩
      show Except.ok (spanText s (start, start + stop)) = _
      rw [spanText, Nat.add_sub_cancel_left]

end Values

theorem except_map_cases {α β γ : Type} {f : α → γ} {g : β → γ} {r : Except (List Char) α}
    {x : Except (List Char) β} (same : Except.map f r = Except.map g x) :
    (∃ error, r = .error error ∧ x = .error error) ∨ ∃ a b, r = .ok a ∧ x = .ok b ∧ f a = g b := by
  cases r with
  | error error =>
    cases x with
    | error error' => injection same with same; exact .inl ⟨error, rfl, by rw [same]⟩
    | ok => cases same
  | ok a =>
    cases x with
    | error => cases same
    | ok b => injection same with same; exact .inr ⟨a, b, rfl, rfl, same⟩

section Tools

variable {s : List Char} (terminated : '\x00' ∉ s) {fuel : Nat} (enough : s.length < fuel)
include terminated enough

theorem toolShellAt_eq : toolShellAt s fuel = some (toolShell s) := by
  obtain ⟨r, extracted, -, same⟩ := escapedValueAt_eq terminated (by decide : 9 ≤ "\"command\"".toList.length)
    "Missing \x27command\x27 argument".toList "Invalid \x27command\x27 format".toList enough
  rw [toolShellAt, extracted, Option.map_some', toolShell]
  obtain ⟨error, rfl, failed⟩ | ⟨span, start, rfl, found, text⟩ := except_map_cases same
  next => rw [failed]
  next => rw [found]; exact congrArg (some ∘ ToolRequest.popen) text

theorem toolReadFileAt_eq : toolReadFileAt s fuel = some (toolReadFile s) := by
  obtain ⟨r, extracted, -, same⟩ := quotedValueAt_eq terminated (by decide : 6 ≤ "\"path\"".toList.length)
    "Missing \x27path\x27 argument".toList "Invalid \x27path\x27".toList enough
  rw [toolReadFileAt, extracted, Option.map_some', toolReadFile, ← same]
  cases r <;> rfl

theorem toolCalculateAt_eq : toolCalculateAt s fuel = some (toolCalculate s) := by
  obtain ⟨r, extracted, -, same⟩ := quotedValueAt_eq terminated (by decide : 12 ≤ "\"expression\"".toList.length)
    "Missing \x27expression\x27 argument".toList "Invalid \x27expression\x27".toList enough
  rw [toolCalculateAt, extracted, Option.map_some', toolCalculate, ← same]
  cases r <;> rfl

theorem toolWriteFileAt_eq : toolWriteFileAt s fuel = some (toolWriteFile s) := by
  obtain ⟨r, extracted, -, same⟩ := quotedValueAt_eq terminated (by decide : 6 ≤ "\"path\"".toList.length)
    "Missing \x27path\x27".toList "Invalid \x27path\x27".toList enough
  obtain ⟨r', extracted', -, same'⟩ := escapedValueAt_eq terminated (by decide : 9 ≤ "\"content\"".toList.length)
    "Missing \x27content\x27".toList "Invalid \x27content\x27".toList enough
  rw [toolWriteFileAt, extracted, Option.some_bind, toolWriteFile, ← same]
  cases r with
  | error => rfl
  | ok path =>
    show Option.map _ (escapedValueAt _ _ _ _ _ _) = _
    rw [extracted', Option.map_some']
    obtain ⟨error, rfl, failed⟩ | ⟨span, start, rfl, found, text⟩ := except_map_cases same'
    next => rw [failed]; rfl
    next => rw [found]; exact congrArg (some ∘ ToolRequest.fopenWrite (spanText s path)) text

end Tools

theorem argument_extraction_within_string (s : List Char) (terminated : '\x00' ∉ s) (fuel : Nat)
    (enough : s.length < fuel) :
    (∀ key ∈ ["\"command\"".toList, "\"path\"".toList, "\"content\"".toList, "\"expression\"".toList],
      ∀ found, strstr s key = some found → found + key.length ≤ s.length) ∧
    (∀ missing invalid, ∀ extract ∈ [escapedValueAt s "\"command\"".toList 9 missing invalid,
        quotedValueAt s "\"path\"".toList 6 missing invalid, escapedValueAt s "\"content\"".toList 9 missing invalid,
        quotedValueAt s "\"expression\"".toList 12 missing invalid],
      ∃ r, extract fuel = some r ∧ SpanWithin s.length r) ∧
    toolShellAt s fuel = some (toolShell s) ∧ toolReadFileAt s fuel = some (toolReadFile s) ∧
    toolWriteFileAt s fuel = some (toolWriteFile s) ∧ toolCalculateAt s fuel = some (toolCalculate s) := by
  refine ⟨fun key _ found matched => (strstr_match matched).1, fun missing invalid extract mem => ?_,
    toolShellAt_eq terminated enough, toolReadFileAt_eq terminated enough, toolWriteFileAt_eq terminated enough,
    toolCalculateAt_eq terminated enough⟩
  simp only [List.mem_cons, List.mem_singleton, List.not_mem_nil, or_false] at mem
  rcases mem with rfl | rfl | rfl | rfl <;>
  first
    | exact (escapedValueAt_eq terminated le_rfl missing invalid enough).imp fun _ found => ⟨found.1, found.2.1⟩
    | exact (quotedValueAt_eq terminated le_rfl missing invalid enough).imp fun _ found => ⟨found.1, found.2.1⟩

-- No closing quote after a final backslash: the loop stops at the terminator.
theorem trailing_backslash_stops_at_nul :
    '\x00' ∉ "\x7b\"command\":\"ls\\".toList ∧ "\x7b\"command\":\"ls\\".toList.length < 16 ∧
      toolShellAt "\x7b\"command\":\"ls\\".toList 16 = some (.popen "ls\\".toList) := by
  have terminated : '\x00' ∉ "\x7b\"command\":\"ls\\".toList := by decide
  have enough : "\x7b\"command\":\"ls\\".toList.length < 16 := by decide
  exact ⟨terminated, enough,
    ((argument_extraction_within_string _ terminated 16 enough).2.2.1).trans (by decide)⟩

end NeuronOS.Registry
