import NeuronOS.Models.Score
import NeuronOS.Shared.Binary64
import Mathlib.Tactic.LinearCombination
import Mathlib.Data.List.DropRight
import Mathlib.Data.Nat.Digits

set_option autoImplicit false

namespace NeuronOS.Models

open NeuronOS.Shared

-- fgets(line, room + 1, fp): at most `room` bytes, up to and including the first newline.
def fgetsTake : Nat → List Char → List Char × List Char
  | 0, rest => ([], rest)
  | _ + 1, [] => ([], [])
  | room + 1, c :: rest =>
    if c = '\n' then ([c], rest)
    else
      let taken := fgetsTake room rest
      (c :: taken.1, taken.2)

-- `while (fgets(line, sizeof(line), fp))`, `char line[512]`: each line as the loop body sees it.
def fgetsLines : Nat → List Char → List (List Char)
  | 0, _ => []
  | fuel + 1, contents =>
    if contents.isEmpty then []
    else (fgetsTake 511 contents).1.takeWhile (· != '\x00') :: fgetsLines fuel (fgetsTake 511 contents).2

def isLineEnd (c : Char) : Bool :=
  c == '\n' || c == '\r'

-- What read_proc_line copies into buf from a line whose first colon is at `colon`.
def procValue (line : List Char) (colon buflen : Nat) : List Char :=
  let val := ((line.drop (colon + 1)).dropWhile fun c => c == ' ' || c == '\t').rdropWhile isLineEnd
  if buflen ≤ val.length then val.take (buflen - 1) else val

-- read_proc_line: none where it returns -1.
def readProcLine (file : Option (List Char)) (key : List Char) (buflen : Nat) : Option (List Char) :=
  file.bind fun contents =>
    (fgetsLines contents.length contents).findSome? fun line =>
      if (strstr line key).isSome then (strchr line ':').map (procValue line · buflen) else none

-- isspace in the C locale.
def isSpace (c : Char) : Bool :=
  c == ' ' || c == '\t' || c == '\n' || c == '\x0b' || c == '\x0c' || c == '\r'

def decimalValue (digits : List Char) : Nat :=
  digits.foldl (fun value d => value * 10 + (d.toNat - '0'.toNat)) 0

-- atoll as glibc computes it, by strtoll in base 10, saturating outside `long long`.
def atoll (s : List Char) : Int :=
  let s := s.dropWhile isSpace
  let digits := (if s.head? = some '-' ∨ s.head? = some '+' then s.tail else s).takeWhile Char.isDigit
  if s.head? = some '-' then max (-(decimalValue digits : Int)) (-9223372036854775808)
  else min (decimalValue digits : Int) 9223372036854775807

-- read_meminfo_kb, with its 64-byte `val`.
def readMeminfoKb (meminfo : Option (List Char)) (key : List Char) : Int :=
  match readProcLine meminfo key 64 with
  | some val => atoll val
  | none => 0

-- The RAM fields of neuronos_hw_info_t, from the contents of /proc/meminfo.
structure MemoryInfo where
  ramTotalMb : Int
  ramAvailableMb : Int
  modelBudgetMb : Int

-- The fallback's sum is `int64_t` arithmetic, wrapped where it overflows.
def neuronosDetectMemory (meminfo : Option (List Char)) : MemoryInfo :=
  let available := (readMeminfoKb meminfo "MemAvailable".toList).tdiv 1024
  let ramAvailableMb :=
    if available ≤ 0 then
      (wrapInt64 (readMeminfoKb meminfo "MemFree".toList + readMeminfoKb meminfo "Buffers".toList +
        readMeminfoKb meminfo "Cached".toList)).tdiv 1024
    else available
  let budget := ramAvailableMb - 500
  { ramTotalMb := (readMeminfoKb meminfo "MemTotal".toList).tdiv 1024
    ramAvailableMb := ramAvailableMb
    modelBudgetMb := if budget < 256 then 256 else budget }

-- One line of /proc/meminfo as the kernel prints it.
structure MeminfoField where
  name : List Char
  pad : Nat
  kb : Nat
  plain : ∀ c ∈ name, c ≠ ':' ∧ c ≠ '\n' ∧ c ≠ '\x00'
  short : name.length + pad + 24 ≤ 511
  small : kb < 9223372036854775808

namespace MeminfoField

def text (field : MeminfoField) : List Char :=
  field.name ++ ':' :: List.replicate field.pad ' ' ++ Nat.toDigits 10 field.kb ++ " kB".toList

def line (field : MeminfoField) : List Char :=
  field.text ++ ['\n']

end MeminfoField

def renderMeminfo (fields : List MeminfoField) : List Char :=
  (fields.map MeminfoField.line).flatten

-- What read_meminfo_kb should return.
def meminfoValue (fields : List MeminfoField) (key : List Char) : Nat :=
  ((fields.find? fun field => (strstr field.line key).isSome).map MeminfoField.kb).getD 0

-- MemAvailable when it reports a whole MB, else free, buffers and cached.
def availableKb (fields : List MeminfoField) : Nat :=
  if 1024 ≤ meminfoValue fields "MemAvailable".toList then meminfoValue fields "MemAvailable".toList
  else meminfoValue fields "MemFree".toList + meminfoValue fields "Buffers".toList +
    meminfoValue fields "Cached".toList

theorem fgetsTake_line {room : Nat} (text rest : List Char) (noNewline : '\n' ∉ text)
    (fits : text.length < room) : fgetsTake room (text ++ '\n' :: rest) = (text ++ ['\n'], rest) := by
  induction text generalizing room with
  | nil =>
    cases room with
    | zero => exact absurd fits (Nat.lt_irrefl 0)
    | succ room => simp [fgetsTake]
  | cons c text ih =>
    cases room with
    | zero => exact absurd fits (Nat.not_lt_zero _)
    | succ room =>
      have other : c ≠ '\n' := fun same => noNewline (same ▸ List.mem_cons_self _ _)
      rw [List.cons_append, fgetsTake, if_neg other,
        ih (fun mem => noNewline (List.mem_cons_of_mem _ mem)) (Nat.lt_of_succ_lt_succ fits)]
      rfl

-- A newline, if the line holds one, is its last byte: what every fgets read satisfies.
def NewlineLast (line : List Char) : Prop :=
  ∀ pre post, line = pre ++ '\n' :: post → post = []

theorem NewlineLast.left {line rest : List Char} (last : NewlineLast (line ++ rest)) : NewlineLast line := by
  intro pre post split
  have tail := last pre (post ++ rest) (by rw [split, List.append_assoc, List.cons_append])
  exact (List.append_eq_nil.mp tail).1

theorem NewlineLast.right {front line : List Char} (last : NewlineLast (front ++ line)) : NewlineLast line :=
  fun pre post split => last (front ++ pre) post (by rw [split, List.append_assoc])

theorem fgetsTake_newlineLast : ∀ (room : Nat) (contents : List Char), NewlineLast (fgetsTake room contents).1
  | 0, _ | _ + 1, [] => fun pre post split => by cases pre <;> cases split
  | room + 1, c :: rest => by
    simp only [fgetsTake]
    split
    next =>
      intro pre post split
      cases pre with
      | nil => exact (List.cons.inj split).2.symm
      | cons x pre => cases pre <;> cases (List.cons.inj split).2
    next other =>
      intro pre post split
      cases pre with
      | nil => exact absurd (List.cons.inj split).1 other
      | cons x pre => exact fgetsTake_newlineLast room rest pre post (List.cons.inj split).2

theorem mem_fgetsLines : ∀ {fuel : Nat} {contents line : List Char}, line ∈ fgetsLines fuel contents →
    ∃ rest, line = (fgetsTake 511 rest).1.takeWhile (· != '\x00')
  | 0, _, _, never => absurd never (List.not_mem_nil _)
  | fuel + 1, contents, line, mem => by
    unfold fgetsLines at mem
    split at mem
    next => exact absurd mem (List.not_mem_nil _)
    next =>
      rcases List.mem_cons.mp mem with rfl | later
      next => exact ⟨contents, rfl⟩
      next => exact mem_fgetsLines later

theorem fgetsLines_newlineLast : ∀ (fuel : Nat) (contents : List Char), ∀ line ∈ fgetsLines fuel contents,
    NewlineLast line := by
  intro fuel contents line mem
  obtain ⟨rest, rfl⟩ := mem_fgetsLines mem
  have whole := fgetsTake_newlineLast 511 rest
  rw [← List.takeWhile_append_dropWhile (· != '\x00') (fgetsTake 511 rest).1] at whole
  exact whole.left

theorem fgetsTake_append : ∀ (room : Nat) (contents : List Char),
    (fgetsTake room contents).1 ++ (fgetsTake room contents).2 = contents
  | 0, _ | _ + 1, [] => rfl
  | room + 1, c :: rest => by
    simp only [fgetsTake]
    split
    next => rfl
    next => rw [List.cons_append, fgetsTake_append room rest]

theorem fgetsTake_length_le : ∀ (room : Nat) (contents : List Char), (fgetsTake room contents).1.length ≤ room
  | 0, _ | _ + 1, [] => Nat.zero_le _
  | room + 1, c :: rest => by
    simp only [fgetsTake]
    split
    next => exact Nat.succ_le_succ (Nat.zero_le _)
    next => exact Nat.succ_le_succ (fgetsTake_length_le room rest)

theorem NewlineLast.trimmed {line : List Char} (last : NewlineLast line) : '\n' ∉ line.rdropWhile isLineEnd := by
  intro mem
  obtain ⟨pre, post, split⟩ := List.append_of_mem mem
  obtain ⟨rest, whole⟩ := List.rdropWhile_prefix isLineEnd line
  have ends := last pre (post ++ rest) (by rw [← whole, split, List.append_assoc, List.cons_append])
  have nonempty : line.rdropWhile isLineEnd ≠ [] := List.ne_nil_of_mem mem
  have lastNot := List.rdropWhile_last_not isLineEnd line nonempty
  simp only [split, (List.append_eq_nil.mp ends).1, List.getLast_append_singleton] at lastNot
  exact lastNot rfl

theorem procValue_within {line : List Char} (last : NewlineLast line) (colon : Nat) {buflen : Nat}
    (room : 0 < buflen) :
    (procValue line colon buflen).length < buflen ∧ '\n' ∉ procValue line colon buflen := by
  have value : NewlineLast ((line.drop (colon + 1)).dropWhile fun c => c == ' ' || c == '\t') := by
    have after : NewlineLast (line.drop (colon + 1)) := by
      rw [← List.take_append_drop (colon + 1) line] at last
      exact last.right
    rw [← List.takeWhile_append_dropWhile (fun c => c == ' ' || c == '\t') (line.drop (colon + 1))] at after
    exact after.right
  simp only [procValue]
  generalize (line.drop (colon + 1)).dropWhile (fun c => c == ' ' || c == '\t') = v at value ⊢
  have trimmed := value.trimmed
  split
  next =>
    exact ⟨by rw [List.length_take]; omega, fun mem => trimmed (List.mem_of_mem_take mem)⟩
  next cut => exact ⟨by omega, trimmed⟩

theorem readProcLine_within (file : Option (List Char)) (key : List Char) {buflen : Nat} (room : 0 < buflen)
    {value : List Char} (read : readProcLine file key buflen = some value) :
    value.length < buflen ∧ '\n' ∉ value := by
  cases file with
  | none => cases read
  | some contents =>
    obtain ⟨line, mem, found⟩ := List.exists_of_findSome?_eq_some read
    split at found
    next =>
      obtain ⟨colon, -, rfl⟩ := Option.map_eq_some'.mp found
      exact procValue_within (fgetsLines_newlineLast _ _ line mem) colon room
    next => cases found

theorem cpuinfo_model_name_within :
    0 < 64 ∧ readProcLine (some "model name\t: Intel(R) Core(TM)\n".toList) "model name".toList 64 =
      some "Intel(R) Core(TM)".toList ∧
    "Intel(R) Core(TM)".toList.length < 64 ∧ '\n' ∉ "Intel(R) Core(TM)".toList :=
  ⟨by decide, by decide, readProcLine_within (some "model name\t: Intel(R) Core(TM)\n".toList) "model name".toList
    (by decide) (by decide)⟩

theorem digitChar_facts : ∀ k < 10, (Nat.digitChar k).isDigit = true ∧
    (Nat.digitChar k).toNat - '0'.toNat = k ∧ Nat.digitChar k ≠ '\n' ∧ Nat.digitChar k ≠ '\x00' ∧
    (Nat.digitChar k == ' ' || Nat.digitChar k == '\t') = false ∧ isSpace (Nat.digitChar k) = false ∧
    Nat.digitChar k ≠ '-' ∧ Nat.digitChar k ≠ '+' := by
  decide

theorem toDigitsCore_digitChar : ∀ (fuel n : Nat) (ds : List Char),
    (∀ c ∈ ds, ∃ k < 10, c = Nat.digitChar k) →
      ∀ c ∈ Nat.toDigitsCore 10 fuel n ds, ∃ k < 10, c = Nat.digitChar k
  | 0, _, _, digits => digits
  | fuel + 1, n, ds, digits => by
    have extended : ∀ c ∈ Nat.digitChar (n % 10) :: ds, ∃ k < 10, c = Nat.digitChar k :=
      List.forall_mem_cons.mpr ⟨⟨n % 10, Nat.mod_lt n (by norm_num), rfl⟩, digits⟩
    simp only [Nat.toDigitsCore]
    split
    next => exact extended
    next => exact toDigitsCore_digitChar fuel (n / 10) _ extended

theorem foldl_toDigitsCore : ∀ (fuel n : Nat), n < fuel → ∀ ds : List Char,
    (Nat.toDigitsCore 10 fuel n ds).foldl (fun value d => value * 10 + (d.toNat - '0'.toNat)) 0 =
      ds.foldl (fun value d => value * 10 + (d.toNat - '0'.toNat)) n
  | 0, _, below, _ => absurd below (Nat.not_lt_zero _)
  | fuel + 1, n, below, ds => by
    have last := (digitChar_facts (n % 10) (Nat.mod_lt n (by norm_num))).2.1
    simp only [Nat.toDigitsCore]
    split
    next high => simp only [List.foldl_cons, last]; congr 1; omega
    next high =>
      rw [foldl_toDigitsCore fuel (n / 10) (by omega), List.foldl_cons, last, Nat.div_add_mod']

theorem toDigits_value (n : Nat) :
    (∀ c ∈ Nat.toDigits 10 n, ∃ k < 10, c = Nat.digitChar k) ∧ Nat.toDigits 10 n ≠ [] ∧
      decimalValue (Nat.toDigits 10 n) = n := by
  refine ⟨toDigitsCore_digitChar _ _ _ (by simp), ?_, foldl_toDigitsCore _ _ (Nat.lt_succ_self n) []⟩
  simp only [Nat.toDigits, Nat.toDigitsCore]
  split
  next => exact List.cons_ne_nil _ _
  next =>
    rw [← List.length_pos, Nat.toDigitsCore_lens_eq]
    exact Nat.succ_pos _

namespace MeminfoField

theorem digits_short (field : MeminfoField) : (Nat.toDigits 10 field.kb).length ≤ 19 :=
  Nat.toDigitsCore_length 10 (by norm_num) _ _ 19 (lt_trans field.small (by norm_num)) (by norm_num)

theorem digits_cons (field : MeminfoField) :
    ∃ k < 10, ∃ ds, Nat.toDigits 10 field.kb = Nat.digitChar k :: ds := by
  obtain ⟨digits, printed, -⟩ := toDigits_value field.kb
  obtain ⟨d, ds, split⟩ := List.exists_cons_of_ne_nil printed
  obtain ⟨k, small, rfl⟩ := digits d (split ▸ List.mem_cons_self _ _)
  exact ⟨k, small, ds, split⟩

theorem line_eq (field : MeminfoField) :
    field.line = field.name ++ ':' ::
      (List.replicate field.pad ' ' ++ (Nat.toDigits 10 field.kb ++ " kB".toList ++ ['\n'])) := by
  simp only [line, text, List.append_assoc, List.cons_append]

theorem text_plain (field : MeminfoField) : ∀ c ∈ field.text, c ≠ '\n' ∧ c ≠ '\x00' := by
  have unit : ∀ c ∈ " kB".toList, c ≠ '\n' ∧ c ≠ '\x00' := by decide
  intro c mem
  simp only [text, List.mem_append] at mem
  rcases mem with ((named | marked) | digits) | unitMem
  next => exact ⟨(field.plain c named).2.1, (field.plain c named).2.2⟩
  next =>
    rcases List.mem_cons.mp marked with rfl | blank
    next => decide
    next => rw [List.eq_of_mem_replicate blank]; decide
  next =>
    obtain ⟨k, small, rfl⟩ := (toDigits_value field.kb).1 c digits
    exact ⟨(digitChar_facts k small).2.2.1, (digitChar_facts k small).2.2.2.1⟩
  next => exact unit c unitMem

theorem text_length (field : MeminfoField) : field.text.length < 511 := by
  have digits := field.digits_short
  have short := field.short
  simp only [text, List.length_append, List.length_cons, List.length_replicate]
  simp only [String.toList, List.length_cons, List.length_nil]
  omega

theorem fgetsTake_line_append (field : MeminfoField) (rest : List Char) :
    fgetsTake 511 (field.line ++ rest) = (field.line, rest) := by
  rw [line, List.append_assoc, List.singleton_append]
  exact fgetsTake_line _ rest (fun mem => (field.text_plain _ mem).1 rfl) field.text_length

theorem takeWhile_line (field : MeminfoField) : field.line.takeWhile (· != '\x00') = field.line := by
  rw [List.takeWhile_eq_self_iff]
  intro c mem
  rw [line, List.mem_append, List.mem_singleton] at mem
  rcases mem with mem | rfl
  next => simpa using (field.text_plain c mem).2
  next => decide

theorem strchr_line (field : MeminfoField) : strchr field.line ':' = some field.name.length := by
  rw [line_eq]
  exact strchr_append_cons _ _ fun mem => (field.plain ':' mem).1 rfl

theorem procValue_line (field : MeminfoField) :
    procValue field.line field.name.length 64 = Nat.toDigits 10 field.kb ++ " kB".toList := by
  obtain ⟨k, small, ds, digits⟩ := field.digits_cons
  have after : field.line.drop (field.name.length + 1) =
      List.replicate field.pad ' ' ++ (Nat.toDigits 10 field.kb ++ " kB".toList ++ ['\n']) := by
    rw [line_eq, ← List.singleton_append, ← List.append_assoc,
      show field.name.length + 1 = (field.name ++ [':']).length by simp, List.drop_left]
  have skipped : (List.replicate field.pad ' ' ++ (Nat.toDigits 10 field.kb ++ " kB".toList ++ ['\n'])).dropWhile
      (fun c => c == ' ' || c == '\t') = Nat.toDigits 10 field.kb ++ " kB".toList ++ ['\n'] := by
    rw [List.dropWhile_append_of_pos (by simp), digits, List.cons_append, List.cons_append,
      List.dropWhile_cons_of_neg (by simp only [(digitChar_facts k small).2.2.2.2.1]; decide)]
  have trimmed : (Nat.toDigits 10 field.kb ++ " kB".toList ++ ['\n']).rdropWhile isLineEnd =
      Nat.toDigits 10 field.kb ++ " kB".toList := by
    rw [List.rdropWhile_concat_pos isLineEnd _ '\n' (by decide),
      show Nat.toDigits 10 field.kb ++ " kB".toList = (Nat.toDigits 10 field.kb ++ [' ', 'k']) ++ ['B'] by simp]
    exact List.rdropWhile_concat_neg isLineEnd _ 'B' (by decide)
  have length : (Nat.toDigits 10 field.kb ++ " kB".toList).length < 64 := by
    have := field.digits_short
    simp only [List.length_append, String.toList, List.length_cons, List.length_nil]
    omega
  rw [procValue, after, skipped, trimmed, if_neg (by omega)]

theorem atoll_value (field : MeminfoField) :
    atoll (Nat.toDigits 10 field.kb ++ " kB".toList) = field.kb := by
  obtain ⟨isDigit, -, value⟩ := toDigits_value field.kb
  obtain ⟨k, small, ds, digits⟩ := field.digits_cons
  obtain ⟨-, -, -, -, -, notSpace, notMinus, notPlus⟩ := digitChar_facts k small
  have run : (Nat.toDigits 10 field.kb ++ " kB".toList).takeWhile Char.isDigit = Nat.toDigits 10 field.kb := by
    rw [List.takeWhile_append_of_pos fun c mem => by
      obtain ⟨j, below, rfl⟩ := isDigit c mem
      exact (digitChar_facts j below).1]
    simp [String.toList]
  have small := field.small
  have dropped : (Nat.toDigits 10 field.kb ++ " kB".toList).dropWhile isSpace =
      Nat.toDigits 10 field.kb ++ " kB".toList := by
    rw [digits, List.cons_append, List.dropWhile_cons_of_neg (p := isSpace) (by rw [notSpace]; decide)]
  have head : (Nat.toDigits 10 field.kb ++ " kB".toList).head? = some (Nat.digitChar k) := by
    rw [digits]; rfl
  simp only [atoll, dropped, head, Option.some.injEq, notMinus, notPlus, or_self, ↓reduceIte, run, value]
  omega

end MeminfoField

theorem length_le_renderMeminfo (fields : List MeminfoField) : fields.length ≤ (renderMeminfo fields).length := by
  induction fields with
  | nil => exact Nat.zero_le _
  | cons field rest ih =>
    simp only [renderMeminfo, List.map_cons, List.flatten_cons, List.length_append, List.length_cons] at *
    simp only [MeminfoField.line, List.length_append, List.length_singleton]
    omega

theorem fgetsLines_render (fields : List MeminfoField) :
    ∀ fuel, fields.length ≤ fuel → fgetsLines fuel (renderMeminfo fields) = fields.map MeminfoField.line := by
  induction fields with
  | nil => intro fuel _; cases fuel <;> rfl
  | cons field rest ih =>
    intro fuel enough
    obtain ⟨fuel, rfl⟩ : ∃ f, fuel = f + 1 := ⟨fuel - 1, by simp at enough; omega⟩
    have nonempty : (renderMeminfo (field :: rest)).isEmpty = false := by
      simp [renderMeminfo, MeminfoField.line]
    rw [fgetsLines, if_neg (by rw [nonempty]; exact Bool.false_ne_true)]
    simp only [renderMeminfo, List.map_cons, List.flatten_cons] at *
    rw [field.fgetsTake_line_append, field.takeWhile_line, ih fuel (by simp at enough; omega)]

theorem readProcLine_render (fields : List MeminfoField) (key : List Char) :
    readProcLine (some (renderMeminfo fields)) key 64 =
      (fields.find? fun field => (strstr field.line key).isSome).map fun field =>
        Nat.toDigits 10 field.kb ++ " kB".toList := by
  rw [readProcLine, Option.some_bind, fgetsLines_render fields _ (length_le_renderMeminfo fields)]
  induction fields with
  | nil => rfl
  | cons field rest ih =>
    rw [List.map_cons, List.findSome?_cons, List.find?_cons, field.strchr_line, Option.map_some',
      field.procValue_line]
    by_cases found : (strstr field.line key).isSome
    next => simp only [found, if_true, Option.map_some']
    next => simp only [found, if_false, Bool.false_eq_true, ih]

theorem readMeminfoKb_render (fields : List MeminfoField) (key : List Char) :
    readMeminfoKb (some (renderMeminfo fields)) key = meminfoValue fields key := by
  rw [readMeminfoKb, readProcLine_render, meminfoValue]
  cases fields.find? fun field => (strstr field.line key).isSome with
  | none => rfl
  | some field => exact field.atoll_value

theorem tdiv_natCast (a : Nat) : (a : Int).tdiv 1024 = ((a / 1024 : Nat) : Int) :=
  rfl

theorem neuronosDetectMemory_render (fields : List MeminfoField)
    (noOverflow : meminfoValue fields "MemFree".toList + meminfoValue fields "Buffers".toList +
      meminfoValue fields "Cached".toList < 9223372036854775808) :
    neuronosDetectMemory (some (renderMeminfo fields)) =
      ⟨(meminfoValue fields "MemTotal".toList / 1024 : Nat), (availableKb fields / 1024 : Nat),
        max ((availableKb fields / 1024 : Nat) - 500) 256⟩ := by
  simp only [neuronosDetectMemory, readMeminfoKb_render, availableKb, MemoryInfo.mk.injEq,
    ← Nat.cast_add, tdiv_natCast]
  generalize meminfoValue fields "MemAvailable".toList = available
  generalize meminfoValue fields "MemFree".toList + meminfoValue fields "Buffers".toList +
    meminfoValue fields "Cached".toList = fallback at noOverflow ⊢
  have noWrap : wrapInt64 (fallback : Int) = fallback := by unfold wrapInt64; omega
  rw [noWrap, tdiv_natCast, true_and]
  split_ifs <;> omega

theorem modelBudget_of_available (fields : List MeminfoField)
    (reported : 1024 ≤ meminfoValue fields "MemAvailable".toList) :
    (neuronosDetectMemory (some (renderMeminfo fields))).modelBudgetMb =
      max (((meminfoValue fields "MemAvailable".toList / 1024 : Nat) : Int) - 500) 256 := by
  have whole : ¬((meminfoValue fields "MemAvailable".toList / 1024 : Nat) : Int) ≤ 0 := by omega
  simp only [neuronosDetectMemory, readMeminfoKb_render, tdiv_natCast, if_neg whole]
  split_ifs <;> omega

-- A machine with 16000 MB, 8000 MB of it available.
def exampleMeminfo : List MeminfoField :=
  [⟨"MemTotal".toList, 7, 16384000, by decide, by decide, by decide⟩,
    ⟨"MemFree".toList, 9, 2048000, by decide, by decide, by decide⟩,
    ⟨"MemAvailable".toList, 4, 8192000, by decide, by decide, by decide⟩,
    ⟨"Buffers".toList, 10, 512000, by decide, by decide, by decide⟩,
    ⟨"Cached".toList, 11, 4096000, by decide, by decide, by decide⟩]

theorem example_meminfo_budget :
    meminfoValue exampleMeminfo "MemFree".toList + meminfoValue exampleMeminfo "Buffers".toList +
      meminfoValue exampleMeminfo "Cached".toList < 9223372036854775808 ∧
    neuronosDetectMemory (some (renderMeminfo exampleMeminfo)) =
      ⟨(meminfoValue exampleMeminfo "MemTotal".toList / 1024 : Nat), (availableKb exampleMeminfo / 1024 : Nat),
        max ((availableKb exampleMeminfo / 1024 : Nat) - 500) 256⟩ :=
  ⟨by decide, neuronosDetectMemory_render _ (by decide)⟩

-- hw.n_cores_physical: `(int)(hw.n_cores_logical * 0.6)` above 8 logical cores, in `double`.
def nCoresPhysical (nCoresLogical : Int) : Int :=
  if 8 < nCoresLogical then truncate (toBinary64 (nCoresLogical * toBinary64 (3 / 5))) else nCoresLogical

-- The double nearest 0.6 is 3/5 - 1/(5 * 2^53): too close to 3/5 to change the truncation.
theorem truncate_product_three_fifths (n : ℤ) (many : 8 < n) (fits : n < 2 ^ 31) :
    truncate (toBinary64 (n * (3 / 5 - 1 / (5 * 2 ^ 53)))) = 3 * n / 5 := by
  have many' : (8 : ℚ) < n := by exact_mod_cast many
  have fits' : (n : ℚ) < 2 ^ 31 := by exact_mod_cast fits
  obtain ⟨p, hp⟩ : ∃ p : ℚ, p = n * (3 / 5 - 1 / (5 * 2 ^ 53)) := ⟨_, rfl⟩
  rw [← hp]
  have above : 2 / 5 * (n : ℚ) < p := by rw [hp]; linarith only [many']
  obtain ⟨k, deep, unit, upper⟩ := ulp64_of_range (q := p) (by linarith only [above, many'])
    (by rw [hp]; linarith only [many', fits'])
  have scale : (0 : ℚ) < 2 ^ k := by positivity
  have split : (3 * n : ℚ) = ((3 * n % 5 : ℤ) : ℚ) + 5 * ((3 * n / 5 : ℤ) : ℚ) := by
    exact_mod_cast (Int.emod_add_ediv (3 * n) 5).symm
  have nonneg : 0 ≤ 3 * n / 5 := Int.ediv_nonneg (by omega) (by norm_num)
  by_cases divisible : 3 * n % 5 = 0
  next =>
    have exactly : p = ((3 * n / 5 : ℤ) : ℚ) - n / (5 * 2 ^ 53) := by
      rw [divisible, Int.cast_zero, zero_add] at split
      linear_combination hp + split / 5
    have within : (n : ℚ) * 2 ^ k < 5 / 2 * 2 ^ 53 := by
      linarith only [(mul_lt_mul_of_pos_right above scale).trans upper]
    have near : |p / 2 ^ ulpExponent64 p - ((3 * n / 5 * 2 ^ k : ℤ) : ℚ)| < 1 / 2 := by
      rw [unit, div_div_eq_mul_div, div_one, exactly]
      push_cast
      rw [show (((3 * n / 5 : ℤ) : ℚ) - n / (5 * 2 ^ 53)) * 2 ^ k - ((3 * n / 5 : ℤ) : ℚ) * 2 ^ k =
          -(n * 2 ^ k / (5 * 2 ^ 53)) by ring, abs_neg, abs_of_pos (by positivity), div_lt_iff₀ (by positivity)]
      linarith only [within]
    have value : toBinary64 p = ((3 * n / 5 : ℤ) : ℚ) := by
      rw [toBinary64, roundHalfEven_eq_of_near near, unit]
      push_cast
      rw [mul_one_div, mul_div_assoc, div_self scale.ne', mul_one]
    rw [value]
    exact truncate_of_between nonneg le_rfl (lt_add_one _)
  next =>
    obtain ⟨d, hd⟩ : ∃ d : ℚ, d = n / (5 * 2 ^ 53) := ⟨_, rfl⟩
    have shifted : p = ((3 * n / 5 : ℤ) : ℚ) + ((3 * n % 5 : ℤ) : ℚ) / 5 - d := by
      linear_combination hp + split / 5 + hd
    have small : 0 < d ∧ d < 1 / 10 := by
      rw [hd, div_lt_div_iff₀ (by positivity) (by positivity)]
      exact ⟨by positivity, by linarith only [fits']⟩
    have rounding : |toBinary64 p - p| ≤ 1 / 10 := by
      refine (toBinary64_near p).trans ?_
      rw [unit, div_div, div_le_div_iff₀ (by positivity) (by positivity)]
      linarith only [pow_le_pow_right₀ (one_le_two : (1 : ℚ) ≤ 2) deep]
    have error := abs_le.mp rounding
    have lowRest : (1 : ℚ) ≤ ((3 * n % 5 : ℤ) : ℚ) := by exact_mod_cast (by omega : (1 : ℤ) ≤ 3 * n % 5)
    have highRest : ((3 * n % 5 : ℤ) : ℚ) ≤ 4 := by exact_mod_cast (by omega : 3 * n % 5 ≤ 4)
    refine truncate_of_between nonneg ?_ ?_ <;>
      linarith only [error.1, error.2, shifted, small.1, small.2, lowRest, highRest]

theorem physical_cores_three_fifths (nCoresLogical : Int) (fits : nCoresLogical < 2 ^ 31) :
    nCoresPhysical nCoresLogical = if 8 < nCoresLogical then 3 * nCoresLogical / 5 else nCoresLogical := by
  unfold nCoresPhysical
  split_ifs with many
  next => rw [toBinary64_three_fifths, truncate_product_three_fifths nCoresLogical many fits]
  next => rfl

-- 12 * 0.6 is 7.199999999999999 in double.
example : nCoresPhysical 12 = 7 := by
  rw [physical_cores_three_fifths 12 (by decide)]
  decide

end NeuronOS.Models
