import NeuronOS.Registry.Tools

set_option autoImplicit false

namespace NeuronOS.Registry

open NeuronOS.Shared

-- `strlen(line)` after fgets: the bytes it stored, up to the first NUL among them.
def strlenPrefix (chunk : List Char) : List Char :=
  chunk.takeWhile (· != '\x00')

-- malloc and realloc: NULL for a block past `limit`, which glibc keeps below PTRDIFF_MAX. A new
-- block holds `heap`.
structure Allocator where
  limit : Nat
  heap : Nat → Char
  limit_lt : limit < 2 ^ 63

def realloc (alloc : Allocator) (ptr : Option (Nat → Char)) (size : Nat) : Option (Nat → Char) :=
  if size ≤ alloc.limit then some (ptr.getD alloc.heap) else none

def malloc (alloc : Allocator) (size : Nat) : Option (Nat → Char) :=
  realloc alloc none size

-- `while (out_len + line_len + 1 > out_cap) { out_cap *= 2; out_buf = realloc(out_buf, out_cap); }`
-- in size_t, given at most `fuel` iterations.
def growCap (alloc : Allocator) (need : Nat) : Nat → Option (Nat → Char) → Nat → Option (Nat × Option (Nat → Char))
  | _, _, 0 => none
  | cap, buf, fuel + 1 =>
    if cap < need then growCap alloc need (cap * 2 % sizeModulus) (realloc alloc buf (cap * 2 % sizeModulus)) fuel
    else some (cap, buf)

-- `memcpy(out_buf + out_len, line, line_len)` into a block holding `mem`.
def copyLine (len : Nat) (line : List Char) (mem : Nat → Char) (i : Nat) : Char :=
  if len ≤ i ∧ i < len + line.length then line.getD (i - len) '\x00' else mem i

structure OutBuffer where
  cap : Nat
  len : Nat
  buf : Option (Nat → Char)

-- One iteration of the fgets loop.
def appendLine (alloc : Allocator) (fuel : Nat) (out : OutBuffer) (chunk : List Char) : Option (Except Nat OutBuffer) :=
  (growCap alloc ((out.len + (strlenPrefix chunk).length + 1) % sizeModulus) out.cap out.buf fuel).map fun grown =>
    grown.2.elim (.error out.len) fun mem =>
      .ok ⟨grown.1, (out.len + (strlenPrefix chunk).length) % sizeModulus,
        some (copyLine out.len (strlenPrefix chunk) mem)⟩

def accumulate (alloc : Allocator) (fuel : Nat) : OutBuffer → List (List Char) → Option (Except Nat OutBuffer)
  | out, [] => some (.ok out)
  | out, chunk :: rest => (appendLine alloc fuel out chunk).bind fun
    | .ok out => accumulate alloc fuel out rest
    | .error offset => some (.error offset)

-- tool_shell from `out_buf = malloc(out_cap)` to `out_buf[out_len] = '\0'`: `.error offset` where a
-- memcpy or that store writes to NULL + offset.
def toolShellOutput (alloc : Allocator) (fuel : Nat) (chunks : List (List Char)) : Option (Except Nat OutBuffer) :=
  (accumulate alloc fuel ⟨4096, 0, malloc alloc 4096⟩ chunks).map fun run => run.bind fun out =>
    out.buf.elim (.error out.len) fun mem => .ok { out with buf := some (Function.update mem out.len '\x00') }

section Allocator

variable (alloc : Allocator)

theorem realloc_doubled {cap cap' : Nat} (mem : Nat → Char) (grows : cap ≤ cap') :
    realloc alloc (if cap ≤ alloc.limit then some mem else none) cap' =
      if cap' ≤ alloc.limit then some mem else none := by
  unfold realloc
  split_ifs <;> first | rfl | omega

theorem granted_le {k : Nat} (granted : 4096 * 2 ^ k ≤ alloc.limit) : k ≤ 50 := by
  by_contra large
  have bound := Nat.pow_le_pow_right Nat.zero_lt_two (show 51 ≤ k by omega)
  have := alloc.limit_lt
  omega

end Allocator

theorem growCap_zero (alloc : Allocator) (need : Nat) (positive : 0 < need) :
    ∀ buf fuel, growCap alloc need 0 buf fuel = none
  | _, 0 => rfl
  | _, fuel + 1 => by rw [growCap, if_pos positive]; exact growCap_zero alloc need positive _ fuel

theorem double_cap {k : Nat} (below : k < 51) : 4096 * 2 ^ k * 2 % sizeModulus = 4096 * 2 ^ (k + 1) := by
  have bound := Nat.pow_le_pow_right Nat.zero_lt_two (show k + 1 ≤ 51 by omega)
  rw [Nat.pow_succ, ← Nat.mul_assoc]
  exact Nat.mod_eq_of_lt (by unfold sizeModulus; omega)

-- 4096 * 2^51 = 2^63, and doubling it wraps size_t to 0.
theorem double_top : 4096 * 2 ^ 51 * 2 % sizeModulus = 0 := rfl

theorem growCap_some {alloc : Allocator} {need cap : Nat} {mem : Nat → Char} {buf : Option (Nat → Char)} :
    ∀ (fuel k : Nat), k ≤ 51 →
      growCap alloc need (4096 * 2 ^ k) (if 4096 * 2 ^ k ≤ alloc.limit then some mem else none) fuel = some (cap, buf) →
      ∃ k' ≤ 51, cap = 4096 * 2 ^ k' ∧ need ≤ cap ∧ (k' = k ∨ ∀ K, need ≤ 4096 * 2 ^ K → k' ≤ K) ∧
        buf = if cap ≤ alloc.limit then some mem else none
  | 0, _, _, grown => by cases grown
  | fuel + 1, k, within, grown => by
    rw [growCap] at grown
    by_cases short : 4096 * 2 ^ k < need
    next =>
      rw [if_pos short] at grown
      have below : k < 51 := by
        by_contra top
        rw [show k = 51 by omega, double_top, growCap_zero alloc need (by omega)] at grown
        cases grown
      rw [double_cap below, realloc_doubled alloc mem (by omega)] at grown
      obtain ⟨k', top, capEq, fits, least, bufEq⟩ := growCap_some fuel (k + 1) below grown
      refine ⟨k', top, capEq, fits, .inr fun K enough => ?_, bufEq⟩
      have later : k < K := by
        by_contra early
        have := Nat.pow_le_pow_right Nat.zero_lt_two (show K ≤ k by omega)
        omega
      rcases least with rfl | least
      exacts [later, least K enough]
    next =>
      rw [if_neg short] at grown
      obtain ⟨rfl, rfl⟩ := Prod.mk.inj (Option.some.inj grown)
      exact ⟨k, within, rfl, not_lt.mp short, .inl rfl, rfl⟩

theorem growCap_reaches {alloc : Allocator} {need : Nat} (small : need ≤ 2 ^ 63) :
    ∀ (fuel k : Nat) (buf : Option (Nat → Char)), k ≤ 51 → 51 - k < fuel →
      (growCap alloc need (4096 * 2 ^ k) buf fuel).isSome
  | 0, _, _, _, enough => absurd enough (Nat.not_lt_zero _)
  | fuel + 1, k, buf, within, enough => by
    rw [growCap]
    split_ifs with short
    next =>
      have below : k < 51 := by
        by_contra top
        rw [show k = 51 by omega] at short
        exact absurd small (not_le.mpr short)
      rw [double_cap below]
      exact growCap_reaches small fuel (k + 1) _ below (by omega)
    next => rfl

-- After every iteration that copied its line.
structure Holds (alloc : Allocator) (out : OutBuffer) (lines : List Char) : Prop where
  room : out.len + 1 ≤ out.cap
  doubled : ∃ k ≤ 51, out.cap = 4096 * 2 ^ k
  granted : out.cap ≤ alloc.limit
  len_eq : out.len = lines.length
  live : ∃ mem, out.buf = some mem ∧ ∀ i < out.len, mem i = lines.getD i '\x00'

theorem holds_start (alloc : Allocator) (granted : 4096 ≤ alloc.limit) :
    Holds alloc ⟨4096, 0, malloc alloc 4096⟩ [] :=
  ⟨(by decide : 0 + 1 ≤ 4096), ⟨0, by decide, rfl⟩, granted, rfl,
    ⟨alloc.heap, by rw [malloc, realloc, if_pos granted]; rfl, fun _ never => absurd never (Nat.not_lt_zero _)⟩⟩

theorem Holds.small {alloc : Allocator} {out : OutBuffer} {lines : List Char} (holds : Holds alloc out lines) :
    lines.length + 1 ≤ 2 ^ 62 := by
  obtain ⟨k, -, capEq⟩ := holds.doubled
  have bound := Nat.pow_le_pow_right Nat.zero_lt_two (granted_le alloc (capEq ▸ holds.granted))
  have room := holds.room
  rw [capEq, holds.len_eq] at room
  omega

theorem line_sums {alloc : Allocator} {out : OutBuffer} {lines : List Char} (holds : Holds alloc out lines)
    {chunk : List Char} (short : chunk.length < 512) :
    (out.len + (strlenPrefix chunk).length + 1) % sizeModulus = out.len + (strlenPrefix chunk).length + 1 ∧
      (out.len + (strlenPrefix chunk).length) % sizeModulus = out.len + (strlenPrefix chunk).length ∧
      out.len + (strlenPrefix chunk).length + 1 ≤ 2 ^ 63 := by
  have line : (strlenPrefix chunk).length ≤ chunk.length := (List.takeWhile_sublist _).length_le
  have small := holds.small
  rw [← holds.len_eq] at small
  exact ⟨Nat.mod_eq_of_lt (by unfold sizeModulus; omega), Nat.mod_eq_of_lt (by unfold sizeModulus; omega), by omega⟩

theorem Holds.mem_eq {alloc : Allocator} {out : OutBuffer} {lines : List Char} (holds : Holds alloc out lines)
    {mem : Nat → Char} (bufEq : out.buf = some mem) : ∀ i < out.len, mem i = lines.getD i '\x00' := by
  obtain ⟨mem', bufEq', memEq⟩ := holds.live
  cases bufEq.symm.trans bufEq'
  exact memEq

section Iteration

variable {alloc : Allocator} {fuel : Nat} (enough : 52 ≤ fuel) {out : OutBuffer} {lines : List Char}
  (holds : Holds alloc out lines) {chunk : List Char} (short : chunk.length < 512)

include enough holds short

theorem appendLine_eq :
    ∃ k' ≤ 51, out.len + (strlenPrefix chunk).length + 1 ≤ 4096 * 2 ^ k' ∧
      (4096 * 2 ^ k' ≤ alloc.limit ↔
        ∃ K, out.len + (strlenPrefix chunk).length + 1 ≤ 4096 * 2 ^ K ∧ 4096 * 2 ^ K ≤ alloc.limit) ∧
      ∃ mem, out.buf = some mem ∧ appendLine alloc fuel out chunk =
        some (if 4096 * 2 ^ k' ≤ alloc.limit then
          .ok ⟨4096 * 2 ^ k', out.len + (strlenPrefix chunk).length, some (copyLine out.len (strlenPrefix chunk) mem)⟩
        else .error out.len) := by
  obtain ⟨k, within, capEq⟩ := holds.doubled
  obtain ⟨mem, bufEq, -⟩ := holds.live
  obtain ⟨need, len, small⟩ := line_sums holds short
  have start : out.buf = if 4096 * 2 ^ k ≤ alloc.limit then some mem else none := by
    rw [bufEq, if_pos (capEq ▸ holds.granted)]
  have reaches : (growCap alloc _ (4096 * 2 ^ k) out.buf fuel).isSome :=
    growCap_reaches small fuel k out.buf within (by omega)
  obtain ⟨⟨cap, buf⟩, finished⟩ := Option.isSome_iff_exists.mp reaches
  rw [start] at finished
  obtain ⟨k', top, rfl, fits, least, rfl⟩ := growCap_some fuel k within finished
  refine ⟨k', top, fits, ⟨fun granted => ⟨k', fits, granted⟩, fun ⟨K, enoughK, grantedK⟩ => ?_⟩, mem, bufEq, ?_⟩
  next =>
    rcases least with rfl | least
    next => exact capEq ▸ holds.granted
    next => exact (Nat.mul_le_mul_left _ (Nat.pow_le_pow_right Nat.zero_lt_two (least K enoughK))).trans grantedK
  next =>
    rw [appendLine, need, len, capEq, start, finished, Option.map_some']
    split_ifs <;> rfl

theorem appendLine_holds {out' : OutBuffer} (step : appendLine alloc fuel out chunk = some (.ok out')) :
    Holds alloc out' (lines ++ strlenPrefix chunk) := by
  obtain ⟨k', top, fits, -, mem, bufEq, stepEq⟩ := appendLine_eq enough holds short
  rw [stepEq] at step
  split_ifs at step with granted <;> cases step
  refine ⟨fits, ⟨k', top, rfl⟩, granted, by rw [holds.len_eq, List.length_append], _, rfl, fun i below => ?_⟩
  dsimp only at below
  unfold copyLine
  by_cases old : i < out.len
  next =>
    rw [if_neg (by omega), holds.mem_eq bufEq i old, List.getD_append _ _ _ _ (by rw [← holds.len_eq]; exact old)]
  next =>
    rw [if_pos ⟨not_lt.mp old, below⟩, List.getD_append_right _ _ _ _ (by rw [← holds.len_eq]; omega),
      holds.len_eq]

theorem appendLine_ok
    (granted : ∃ K, out.len + (strlenPrefix chunk).length + 1 ≤ 4096 * 2 ^ K ∧ 4096 * 2 ^ K ≤ alloc.limit) :
    ∃ out', appendLine alloc fuel out chunk = some (.ok out') := by
  obtain ⟨k', -, -, iff, mem, -, stepEq⟩ := appendLine_eq enough holds short
  exact ⟨_, by rw [stepEq, if_pos (iff.mpr granted)]⟩

theorem appendLine_null
    (refused : ¬∃ K, out.len + (strlenPrefix chunk).length + 1 ≤ 4096 * 2 ^ K ∧ 4096 * 2 ^ K ≤ alloc.limit) :
    appendLine alloc fuel out chunk = some (.error out.len) := by
  obtain ⟨k', -, -, iff, mem, -, stepEq⟩ := appendLine_eq enough holds short
  rw [stepEq, if_neg (mt iff.mp refused)]

end Iteration

section Run

variable {alloc : Allocator} {fuel : Nat} (enough : 52 ≤ fuel)

include enough

theorem accumulate_holds : ∀ (chunks : List (List Char)) {out out' : OutBuffer} {lines : List Char},
    Holds alloc out lines → (∀ chunk ∈ chunks, chunk.length < 512) → accumulate alloc fuel out chunks = some (.ok out') →
      Holds alloc out' (lines ++ (chunks.map strlenPrefix).flatten)
  | [], _, _, _, holds, _, run => by cases run; simpa using holds
  | chunk :: rest, out, out', lines, holds, short, run => by
    rw [accumulate, Option.bind_eq_some] at run
    obtain ⟨result, step, run⟩ := run
    cases result with
    | error => cases run
    | ok next =>
      have after := accumulate_holds rest (appendLine_holds enough holds (short chunk (List.mem_cons_self _ _)) step)
        (fun c mem => short c (List.mem_cons_of_mem _ mem)) run
      simpa only [List.map_cons, List.flatten_cons, List.append_assoc] using after

theorem accumulate_ok : ∀ (chunks : List (List Char)) {out : OutBuffer} {lines : List Char},
    Holds alloc out lines → (∀ chunk ∈ chunks, chunk.length < 512) →
      (∃ K, lines.length + (chunks.map strlenPrefix).flatten.length + 1 ≤ 4096 * 2 ^ K ∧
        4096 * 2 ^ K ≤ alloc.limit) →
      ∃ out', accumulate alloc fuel out chunks = some (.ok out')
  | [], out, _, _, _, _ => ⟨out, rfl⟩
  | chunk :: rest, out, lines, holds, short, ⟨K, enoughK, grantedK⟩ => by
    simp only [List.map_cons, List.flatten_cons, List.length_append] at enoughK
    have first := short chunk (List.mem_cons_self _ _)
    obtain ⟨next, step⟩ := appendLine_ok enough holds first ⟨K, by rw [holds.len_eq]; omega, grantedK⟩
    rw [accumulate, step, Option.some_bind]
    exact accumulate_ok rest (appendLine_holds enough holds first step)
      (fun c mem => short c (List.mem_cons_of_mem _ mem)) ⟨K, by rw [List.length_append]; omega, grantedK⟩

theorem accumulate_null : ∀ (chunks : List (List Char)) {out : OutBuffer} {lines : List Char},
    Holds alloc out lines → (∀ chunk ∈ chunks, chunk.length < 512) →
      (¬∃ K, lines.length + (chunks.map strlenPrefix).flatten.length + 1 ≤ 4096 * 2 ^ K ∧
        4096 * 2 ^ K ≤ alloc.limit) →
      ∃ offset, accumulate alloc fuel out chunks = some (.error offset)
  | [], out, _, holds, _, refused => by
    obtain ⟨k, -, capEq⟩ := holds.doubled
    exact absurd ⟨k, by simpa [← holds.len_eq, ← capEq] using holds.room, capEq ▸ holds.granted⟩ refused
  | chunk :: rest, out, lines, holds, short, refused => by
    simp only [List.map_cons, List.flatten_cons, List.length_append] at refused
    have first := short chunk (List.mem_cons_self _ _)
    by_cases granted : ∃ K, out.len + (strlenPrefix chunk).length + 1 ≤ 4096 * 2 ^ K ∧ 4096 * 2 ^ K ≤ alloc.limit
    next =>
      obtain ⟨next, step⟩ := appendLine_ok enough holds first granted
      rw [accumulate, step, Option.some_bind]
      refine accumulate_null rest (appendLine_holds enough holds first step)
        (fun c mem => short c (List.mem_cons_of_mem _ mem)) fun ⟨K, enoughK, grantedK⟩ => refused ⟨K, ?_, grantedK⟩
      rw [List.length_append] at enoughK
      omega
    next => exact ⟨out.len, by rw [accumulate, appendLine_null enough holds first granted]; rfl⟩

end Run

theorem toolShellOutput_malloc_null {alloc : Allocator} (refused : alloc.limit < 4096) (fuel : Nat)
    {chunks : List (List Char)} (short : ∀ chunk ∈ chunks, chunk.length < 512) :
    toolShellOutput alloc (fuel + 1) chunks = some (.error 0) := by
  have null : malloc alloc 4096 = none := if_neg (by omega)
  rw [toolShellOutput, null]
  match chunks, short with
  | [], _ => rfl
  | chunk :: _, short =>
    have line : (strlenPrefix chunk).length < 4096 :=
      lt_of_le_of_lt (List.takeWhile_sublist _).length_le (by have := short chunk (List.mem_cons_self _ _); omega)
    have fits : ¬4096 < (0 + (strlenPrefix chunk).length + 1) % sizeModulus := by
      rw [Nat.mod_eq_of_lt (by unfold sizeModulus; omega)]
      omega
    simp only [accumulate, appendLine, growCap, if_neg fits]
    rfl

theorem terminated_bytes {alloc : Allocator} {out : OutBuffer} {lines : List Char} (holds : Holds alloc out lines)
    {mem : Nat → Char} (bufEq : out.buf = some mem) :
    (List.range (out.len + 1)).map (Function.update mem out.len '\x00') = lines ++ ['\x00'] := by
  have lenEq := holds.len_eq
  apply List.ext_getElem (by simp [lenEq])
  intro i inside _
  rw [List.getElem_map, List.getElem_range]
  simp only [List.length_map, List.length_range] at inside
  rcases Nat.lt_or_ge i out.len with below | top
  next =>
    rw [Function.update_noteq (by omega), holds.mem_eq bufEq i below, List.getElem_append_left (lenEq ▸ below),
      List.getD_eq_getElem]
  next =>
    obtain rfl : i = out.len := by omega
    rw [Function.update_same, List.getElem_append_right (le_of_eq lenEq.symm)]
    simp [lenEq]

theorem nul_not_mem_lines (chunks : List (List Char)) : '\x00' ∉ (chunks.map strlenPrefix).flatten := by
  intro mem
  obtain ⟨line, lineMem, within⟩ := List.mem_flatten.mp mem
  obtain ⟨chunk, -, rfl⟩ := List.mem_map.mp lineMem
  exact absurd (List.mem_takeWhile_imp within) (by decide)

theorem lines_take_length_le (chunks : List (List Char)) (n : Nat) :
    ((chunks.take n).map strlenPrefix).flatten.length ≤ (chunks.map strlenPrefix).flatten.length := by
  have split := congrArg (fun l => (l.map strlenPrefix).flatten.length) (List.take_append_drop n chunks)
  simp only [List.map_append, List.flatten_append, List.length_append] at split
  omega

theorem toolShellOutput_granted {alloc : Allocator} {fuel : Nat} (enough : 52 ≤ fuel) {chunks : List (List Char)}
    (short : ∀ chunk ∈ chunks, chunk.length < 512)
    (granted : ∃ k, (chunks.map strlenPrefix).flatten.length + 1 ≤ 4096 * 2 ^ k ∧ 4096 * 2 ^ k ≤ alloc.limit) :
    ∃ out mem, Holds alloc out (chunks.map strlenPrefix).flatten ∧ out.buf = some mem ∧
      toolShellOutput alloc fuel chunks = some (.ok { out with buf := some (Function.update mem out.len '\x00') }) := by
  obtain ⟨k, fits, within⟩ := granted
  have start := holds_start alloc (le_trans (Nat.le_mul_of_pos_right _ (Nat.two_pow_pos k)) within)
  obtain ⟨out, finished⟩ := accumulate_ok enough chunks start short ⟨k, by simpa using fits, within⟩
  have holds := accumulate_holds enough chunks start short finished
  rw [List.nil_append] at holds
  obtain ⟨mem, bufEq, -⟩ := holds.live
  refine ⟨out, mem, holds, bufEq, ?_⟩
  rw [toolShellOutput, finished, Option.map_some', Except.bind, bufEq]
  rfl

theorem toolShellOutput_refused {alloc : Allocator} {fuel : Nat} (enough : 52 ≤ fuel) {chunks : List (List Char)}
    (short : ∀ chunk ∈ chunks, chunk.length < 512)
    (refused : ¬∃ k, (chunks.map strlenPrefix).flatten.length + 1 ≤ 4096 * 2 ^ k ∧ 4096 * 2 ^ k ≤ alloc.limit) :
    ∃ offset, toolShellOutput alloc fuel chunks = some (.error offset) := by
  cases Nat.lt_or_ge alloc.limit 4096 with
  | inl small =>
    obtain ⟨fuel, rfl⟩ : ∃ f, fuel = f + 1 := ⟨fuel - 1, by omega⟩
    exact ⟨0, toolShellOutput_malloc_null small fuel short⟩
  | inr granted =>
    obtain ⟨offset, failed⟩ := accumulate_null enough chunks (holds_start alloc granted) short
      (by simpa only [List.length_nil, Nat.zero_add] using refused)
    exact ⟨offset, by rw [toolShellOutput, failed]; rfl⟩

theorem shell_output_unchecked_realloc (alloc : Allocator) (fuel : Nat) (enough : 52 ≤ fuel)
    (chunks : List (List Char)) (short : ∀ chunk ∈ chunks, chunk.length < 512) :
    ((∃ k, (chunks.map strlenPrefix).flatten.length + 1 ≤ 4096 * 2 ^ k ∧ 4096 * 2 ^ k ≤ alloc.limit) →
      (∀ n, ∃ out, accumulate alloc fuel ⟨4096, 0, malloc alloc 4096⟩ (chunks.take n) = some (.ok out) ∧
        Holds alloc out ((chunks.take n).map strlenPrefix).flatten) ∧
      ∃ out mem, toolShellOutput alloc fuel chunks = some (.ok out) ∧ out.buf = some mem ∧ out.len < out.cap ∧
        '\x00' ∉ (chunks.map strlenPrefix).flatten ∧
        (List.range (out.len + 1)).map mem = (chunks.map strlenPrefix).flatten ++ ['\x00']) ∧
    ((¬∃ k, (chunks.map strlenPrefix).flatten.length + 1 ≤ 4096 * 2 ^ k ∧ 4096 * 2 ^ k ≤ alloc.limit) →
      ∃ offset, toolShellOutput alloc fuel chunks = some (.error offset)) := by
  refine ⟨fun granted => ⟨fun n => ?_, ?_⟩, toolShellOutput_refused enough short⟩
  next =>
    obtain ⟨k, fits, within⟩ := granted
    have prefixShort : ∀ chunk ∈ chunks.take n, chunk.length < 512 := fun chunk mem =>
      short chunk (List.mem_of_mem_take mem)
    have start := holds_start alloc (le_trans (Nat.le_mul_of_pos_right _ (Nat.two_pow_pos k)) within)
    have shorter := lines_take_length_le chunks n
    obtain ⟨out, finished⟩ := accumulate_ok enough _ start prefixShort ⟨k, by simp only [List.length_nil]; omega, within⟩
    exact ⟨out, finished, by simpa using accumulate_holds enough _ start prefixShort finished⟩
  next =>
    obtain ⟨out, mem, holds, bufEq, finished⟩ := toolShellOutput_granted enough short granted
    exact ⟨_, _, finished, rfl, holds.room, nul_not_mem_lines chunks, terminated_bytes holds bufEq⟩

-- A process held to 1 GiB of address space, and a command that prints 2^22 lines of 255 bytes.
def cappedAllocator : Allocator :=
  ⟨2 ^ 30, fun _ => '\x00', by decide⟩

def longLine : List Char :=
  List.replicate 255 'a' ++ ['\n']

theorem gib_output_writes_through_null :
    (∀ chunk ∈ List.replicate (2 ^ 22) longLine, chunk.length < 512) ∧
      (¬∃ k, ((List.replicate (2 ^ 22) longLine).map strlenPrefix).flatten.length + 1 ≤ 4096 * 2 ^ k ∧
        4096 * 2 ^ k ≤ cappedAllocator.limit) ∧
      ∃ offset, toolShellOutput cappedAllocator 52 (List.replicate (2 ^ 22) longLine) = some (.error offset) := by
  have short : ∀ chunk ∈ List.replicate (2 ^ 22) longLine, chunk.length < 512 := fun chunk mem => by
    rw [List.eq_of_mem_replicate mem, longLine, List.length_append, List.length_replicate]
    decide
  have line : strlenPrefix longLine = longLine := List.takeWhile_eq_self_iff.mpr fun c mem => by
    simp only [longLine, List.mem_append, List.mem_replicate, List.mem_singleton] at mem
    rcases mem with ⟨-, rfl⟩ | rfl <;> rfl
  have total : ((List.replicate (2 ^ 22) longLine).map strlenPrefix).flatten.length = 2 ^ 30 := by
    rw [List.map_replicate, line, List.length_flatten, List.map_replicate, List.sum_replicate, Nat.nsmul_eq_mul,
      longLine, List.length_append, List.length_replicate]
    rfl
  have refused : ¬∃ k, ((List.replicate (2 ^ 22) longLine).map strlenPrefix).flatten.length + 1 ≤ 4096 * 2 ^ k ∧
      4096 * 2 ^ k ≤ cappedAllocator.limit := by
    rintro ⟨k, over, within⟩
    rw [total] at over
    exact absurd (over.trans within) (by decide)
  exact ⟨short, refused, (shell_output_unchecked_realloc cappedAllocator 52 le_rfl _ short).2 refused⟩

-- What a load into a malloc'd buffer stores: fread's bytes from index 0, and a NUL at `nulAt`.
structure BufferFill where
  allocated : Nat
  bytes : List Char
  nulAt : Int

def BufferFill.Inside (fill : BufferFill) : Prop :=
  fill.bytes.length ≤ fill.allocated ∧ 0 ≤ fill.nulAt ∧ fill.nulAt < fill.allocated

-- `fread(buf, 1, count, fp)` on a stream with `data` left: the bytes it reads and stores.
def fread (data : List Char) (count : Nat) : List Char :=
  data.take count

-- tool_read_file after fopen succeeded: `ftell` is what ftell reported at the end of the stream,
-- -1 for a pipe; `data` is what fread reads.
def toolReadFileLoad (data : List Char) (ftell : Int) : BufferFill :=
  let fsize := if ftell > 32 * 1024 then 32 * 1024 else ftell
  let content := fread data (sizeOfLong fsize)
  ⟨(sizeOfLong fsize + 1) % sizeModulus, content, content.length⟩

-- `result.output = content`: the C string the buffer holds.
def toolReadFileOutput (data : List Char) (ftell : Int) : List Char :=
  (toolReadFileLoad data ftell).bytes.takeWhile (· != '\x00')

theorem toolReadFileLoad_eq (data : List Char) (ftell : Int) :
    toolReadFileLoad data ftell =
      ⟨(sizeOfLong (min ftell 32768) + 1) % sizeModulus, data.take (sizeOfLong (min ftell 32768)),
        (data.take (sizeOfLong (min ftell 32768))).length⟩ := by
  have clamp : (if ftell > 32 * 1024 then 32 * 1024 else ftell) = min ftell 32768 := by split <;> omega
  simp only [toolReadFileLoad, fread, clamp]

theorem toolReadFileLoad_inside_iff (data : List Char) {ftell : Int} (reported : -1 ≤ ftell)
    (small : ftell < 9223372036854775808) :
    ((toolReadFileLoad data ftell).Inside ↔ ftell ≠ -1) ∧
      (ftell ≠ -1 → (toolReadFileOutput data ftell).length ≤ 32768) ∧
      (ftell = -1 → (toolReadFileLoad data ftell).allocated = 0 ∧
        (toolReadFileLoad data ftell).bytes = data.take (sizeModulus - 1)) := by
  have read : (toolReadFileOutput data ftell).length ≤ (toolReadFileLoad data ftell).bytes.length :=
    (List.takeWhile_sublist _).length_le
  rw [toolReadFileOutput, toolReadFileLoad_eq] at read
  rw [toolReadFileOutput, toolReadFileLoad_eq, BufferFill.Inside]
  dsimp only at read ⊢
  by_cases failed : ftell = -1
  next =>
    subst failed
    have empty : (sizeOfLong (min (-1) 32768) + 1) % sizeModulus = 0 := rfl
    rw [empty]
    exact ⟨⟨fun inside => absurd inside.2.2 (by omega), fun never => absurd rfl never⟩,
      fun never => absurd rfl never, fun _ => ⟨rfl, rfl⟩⟩
  next =>
    have size := sizeOfLong_of_nonneg (x := min ftell 32768) (by omega) (by omega)
    have allocated : (sizeOfLong (min ftell 32768) + 1) % sizeModulus = sizeOfLong (min ftell 32768) + 1 :=
      Nat.mod_eq_of_lt (by unfold sizeModulus; omega)
    have length := List.length_take_le (sizeOfLong (min ftell 32768)) data
    rw [allocated]
    exact ⟨⟨fun _ => failed, fun _ => ⟨by omega, by omega, by omega⟩⟩, fun _ => by omega,
      fun never => absurd never failed⟩

end NeuronOS.Registry
