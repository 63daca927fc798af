import Mathlib.Algebra.Order.BigOperators.Group.List
import Mathlib.Algebra.Order.Group.Nat
import Mathlib.Algebra.Order.Ring.Nat
import Mathlib.Data.List.Basic
import Mathlib.Data.List.GetD
import Mathlib.Data.List.Infix
import Mathlib.Order.Basic

set_option autoImplicit false

namespace NeuronOS.Shared

-- A C string is the list of its bytes before the terminating NUL, one `Char` per byte.

def strstr (haystack needle : List Char) : Option Nat :=
  haystack.tails.findIdx? needle.isPrefixOf

def strchr (s : List Char) (c : Char) : Option Nat :=
  s.findIdx? (· == c)

theorem strchr_cons (x : Char) (xs : List Char) (c : Char) :
    strchr (x :: xs) c = if x == c then some 0 else (strchr xs c).map (· + 1) := by
  simp only [strchr, List.findIdx?_cons, List.findIdx?_succ, Nat.zero_add]

theorem not_mem_take_strchr {s : List Char} {c : Char} {i : Nat} (found : strchr s c = some i) :
    c ∉ s.take i := by
  induction s generalizing i with
  | nil => cases found
  | cons x xs ih =>
    rw [strchr_cons] at found
    by_cases same : x = c
    next =>
      simp only [same, beq_self_eq_true, if_true, Option.some.injEq] at found
      simp [← found]
    next =>
      simp only [beq_iff_eq, same, if_false, Option.map_eq_some'] at found
      obtain ⟨j, found, rfl⟩ := found
      simp [Ne.symm same, ih found]

theorem strchr_lt {s : List Char} {c : Char} {i : Nat} (found : strchr s c = some i) : i < s.length :=
  (List.findIdx?_eq_some_iff_findIdx_eq.mp found).1

theorem strchr_append_cons {c : Char} (before after : List Char) (absent : c ∉ before) :
    strchr (before ++ c :: after) c = some before.length := by
  induction before with
  | nil => simp [strchr_cons]
  | cons x before ih =>
    have other : (x == c) = false := beq_false_of_ne fun same => absent (same ▸ List.mem_cons_self _ _)
    rw [List.cons_append, strchr_cons, other, if_neg Bool.false_ne_true,
      ih fun mem => absent (List.mem_cons_of_mem _ mem)]
    rfl

theorem strstr_cons (c : Char) (s key : List Char) :
    strstr (c :: s) key = if key.isPrefixOf (c :: s) then some 0 else (strstr s key).map (· + 1) := by
  simp only [strstr, List.tails_cons, List.findIdx?_cons, List.findIdx?_succ, Nat.zero_add]

theorem strstr_match {s key : List Char} {found : Nat} (matched : strstr s key = some found) :
    found + key.length ≤ s.length ∧ key <+: s.drop found := by
  induction s generalizing found with
  | nil =>
    change List.findIdx? key.isPrefixOf [[]] = some found at matched
    rw [List.findIdx?_cons, List.findIdx?_nil] at matched
    split at matched
    next prefixed =>
      cases matched
      obtain rfl := List.prefix_nil.mp (List.isPrefixOf_iff_prefix.mp prefixed)
      exact ⟨le_refl _, List.nil_prefix⟩
    next => cases matched
  | cons c s ih =>
    rw [strstr_cons] at matched
    split at matched
    next prefixed =>
      cases matched
      exact ⟨(Nat.zero_add _).trans_le (List.isPrefixOf_iff_prefix.mp prefixed).length_le,
        List.isPrefixOf_iff_prefix.mp prefixed⟩
    next =>
      obtain ⟨later, found', rfl⟩ := Option.map_eq_some'.mp matched
      obtain ⟨bound, prefixed⟩ := ih found'
      exact ⟨by simp only [List.length_cons]; omega, prefixed⟩

def strrchr (s : List Char) (c : Char) : Option Nat :=
  (s.reverse.findIdx? (· == c)).map (s.length - 1 - ·)

theorem strrchr_last (s t : List Char) {c : Char} (absent : c ∉ t) : strrchr (s ++ c :: t) c = some s.length := by
  have none : t.reverse.findIdx? (· == c) = none :=
    List.findIdx?_eq_none_iff.mpr fun x mem => beq_false_of_ne fun same => absent (same ▸ List.mem_reverse.mp mem)
  rw [strrchr, List.reverse_append, List.reverse_cons, List.findIdx?_append, List.findIdx?_append, none]
  simp

-- 2 ^ 64: arithmetic on `size_t` wraps modulo this.
def sizeModulus : Nat := 18446744073709551616

def sizeSub (a b : Nat) : Nat :=
  (a + (sizeModulus - b % sizeModulus)) % sizeModulus

-- `(size_t)x` for a `long` x.
def sizeOfLong (x : Int) : Nat :=
  (x % (sizeModulus : Int)).toNat

theorem sizeOfLong_of_nonneg {x : Int} (nonneg : 0 ≤ x) (small : x < 9223372036854775808) :
    (sizeOfLong x : Int) = x := by
  unfold sizeOfLong sizeModulus
  omega

theorem sizeOfLong_neg_one : sizeOfLong (-1) = sizeModulus - 1 := rfl

theorem sizeSub_of_le {a b : Nat} (within : b ≤ a) (small : a < sizeModulus) :
    sizeSub a b = a - b := by
  unfold sizeSub sizeModulus at *
  omega

theorem sizeSub_of_lt {a b : Nat} (past : a < b) (small : b < sizeModulus) :
    sizeSub a b = sizeModulus - (b - a) := by
  unfold sizeSub sizeModulus at *
  omega

-- One `snprintf(buf + offset, size, "...")` whose formatted output is `text`.
structure SnprintfCall where
  offset : Nat
  size : Nat
  text : List Char

namespace SnprintfCall

def copied (call : SnprintfCall) : Nat :=
  min (call.size - 1) call.text.length

def written (call : SnprintfCall) : Nat :=
  if call.size = 0 then 0 else call.copied + 1

-- The C string left in the buffer.
def printed (call : SnprintfCall) : List Char :=
  call.text.take call.copied

def bytes (call : SnprintfCall) : List Char :=
  call.printed ++ ['\x00']

def store (call : SnprintfCall) (mem : Nat → Char) : Nat → Char := fun i =>
  if call.offset ≤ i ∧ i < call.offset + call.written then call.bytes.getD (i - call.offset) '\x00'
  else mem i

theorem written_le {call : SnprintfCall} (room : 0 < call.size) :
    call.written ≤ call.size := by
  unfold written copied
  split <;> omega

def Writes (call : SnprintfCall) (i : Nat) : Prop :=
  call.offset ≤ i ∧ i < call.offset + call.written

theorem writes_lt {call : SnprintfCall} {cap : Nat} (sized : call.size = cap - call.offset) {i : Nat}
    (writes : call.Writes i) : i < cap := by
  have start := writes.1
  have within := writes.2
  unfold written copied at within
  split at within <;> omega

theorem writes_offset_of_past {call : SnprintfCall} {cap : Nat} (past : cap < call.offset)
    (small : call.offset < sizeModulus) (sized : call.size = sizeSub cap call.offset) :
    call.Writes call.offset := by
  have room : call.size ≠ 0 := by rw [sized, sizeSub_of_lt past small]; omega
  refine ⟨le_rfl, ?_⟩
  unfold written
  rw [if_neg room]
  omega

theorem store_of_untruncated {call : SnprintfCall} {mem : Nat → Char}
    (room : call.text.length < call.size) (i : Nat) :
    call.store mem i =
      if call.offset ≤ i ∧ i ≤ call.offset + call.text.length then
        (call.text ++ ['\x00']).getD (i - call.offset) '\x00'
      else mem i := by
  have whole : call.copied = call.text.length := by unfold copied; omega
  have count : call.written = call.text.length + 1 := by unfold written; split <;> omega
  simp only [store, bytes, printed, whole, count, List.take_length, ← Nat.add_assoc, Nat.lt_succ_iff]

end SnprintfCall

-- The `len += snprintf(buf + len, cap - len, ...)` idiom over a buffer of `cap` bytes.
structure Appender where
  cap : Nat
  len : Nat
  mem : Nat → Char
  calls : List SnprintfCall

namespace Appender

def append (a : Appender) (text : List Char) : Appender :=
  let call : SnprintfCall := ⟨a.len, sizeSub a.cap a.len, text⟩
  { a with len := a.len + text.length, mem := call.store a.mem, calls := a.calls ++ [call] }

def appendAll (a : Appender) (texts : List (List Char)) : Appender :=
  texts.foldl append a

def callsFrom (cap : Nat) : Nat → List (List Char) → List SnprintfCall
  | _, [] => []
  | len, text :: rest => ⟨len, sizeSub cap len, text⟩ :: callsFrom cap (len + text.length) rest

@[simp] theorem appendAll_nil (a : Appender) : a.appendAll [] = a := rfl

@[simp] theorem appendAll_cons (a : Appender) (text : List Char) (rest : List (List Char)) :
    a.appendAll (text :: rest) = (a.append text).appendAll rest := rfl

theorem appendAll_cap (a : Appender) (texts : List (List Char)) :
    (a.appendAll texts).cap = a.cap := by
  induction texts generalizing a with
  | nil => rfl
  | cons text rest ih => simp [ih, append]

theorem appendAll_len (a : Appender) (texts : List (List Char)) :
    (a.appendAll texts).len = a.len + (texts.map List.length).sum := by
  induction texts generalizing a with
  | nil => simp
  | cons text rest ih => simp [ih, append, Nat.add_assoc]

theorem appendAll_calls (a : Appender) (texts : List (List Char)) :
    (a.appendAll texts).calls = a.calls ++ callsFrom a.cap a.len texts := by
  induction texts generalizing a with
  | nil => simp [callsFrom]
  | cons text rest ih => simp [ih, append, callsFrom]

theorem mem_callsFrom {cap len offset : Nat} (earlier rest : List (List Char)) (text : List Char)
    (start : offset = len + (earlier.map List.length).sum) :
    ⟨offset, sizeSub cap offset, text⟩ ∈ callsFrom cap len (earlier ++ text :: rest) := by
  induction earlier generalizing len with
  | nil => simp [callsFrom, start]
  | cons first earlier ih =>
    exact List.mem_cons_of_mem _ (ih (by simp [start, Nat.add_assoc]))

theorem callsFrom_within {cap : Nat} (small : cap < sizeModulus) :
    ∀ (texts : List (List Char)) (len : Nat), len + (texts.map List.length).sum < cap →
      ∀ call ∈ callsFrom cap len texts, call.offset + call.text.length < cap ∧ call.size = cap - call.offset
  | [], _, _ => by simp [callsFrom]
  | text :: rest, len, fits => by
    simp only [List.map_cons, List.sum_cons] at fits
    simp only [callsFrom, List.mem_cons, forall_eq_or_imp]
    exact ⟨⟨by omega, sizeSub_of_le (by omega) small⟩,
      callsFrom_within small rest (len + text.length) (by omega)⟩

theorem callsFrom_offset_le {cap : Nat} :
    ∀ (texts : List (List Char)) (len : Nat), ∀ call ∈ callsFrom cap len texts,
      call.size = sizeSub cap call.offset ∧ call.offset ≤ len + (texts.dropLast.map List.length).sum
  | [], _ => by simp [callsFrom]
  | [text], len => by simp [callsFrom]
  | text :: next :: rest, len => by
    intro call mem
    rw [callsFrom, List.mem_cons] at mem
    rcases mem with rfl | mem
    next => exact ⟨rfl, Nat.le_add_right _ _⟩
    next =>
      obtain ⟨sized, below⟩ := @callsFrom_offset_le cap (next :: rest) (len + text.length) call mem
      refine ⟨sized, ?_⟩
      simp only [List.dropLast_cons₂, List.map_cons, List.sum_cons]
      omega

theorem last_mem_callsFrom {cap : Nat} (len : Nat) {texts : List (List Char)} (named : texts ≠ []) :
    ⟨len + (texts.dropLast.map List.length).sum, sizeSub cap (len + (texts.dropLast.map List.length).sum),
      texts.getLast named⟩ ∈ callsFrom cap len texts := by
  have split := List.dropLast_append_getLast named
  have mem := @mem_callsFrom cap len _ texts.dropLast [] (texts.getLast named) rfl
  rwa [split] at mem

theorem fresh_appendAll_writes_past_iff {cap : Nat} (heap : Nat → Char) (texts : List (List Char))
    (named : texts ≠ []) (small : cap + (texts.map List.length).sum < sizeModulus) :
    (∃ call ∈ ((Appender.mk cap 0 heap []).appendAll texts).calls, ∃ i, call.Writes i ∧ cap ≤ i) ↔
      cap < (texts.dropLast.map List.length).sum := by
  have dropped : (texts.dropLast.map List.length).sum ≤ (texts.map List.length).sum :=
    ((List.dropLast_sublist texts).map _).sum_le_sum fun _ _ => Nat.zero_le _
  rw [appendAll_calls, List.nil_append]
  constructor
  next =>
    rintro ⟨call, mem, i, writes, past⟩
    obtain ⟨sized, below⟩ := callsFrom_offset_le texts 0 call mem
    by_contra short
    have fits : call.offset ≤ cap := by omega
    rw [sizeSub_of_le fits (by omega)] at sized
    exact absurd (SnprintfCall.writes_lt sized writes) (by omega)
  next =>
    intro long
    refine ⟨_, last_mem_callsFrom 0 named, _, SnprintfCall.writes_offset_of_past (by simpa using long)
      (by simp only [Nat.zero_add]; omega) rfl, by simp only [Nat.zero_add]; omega⟩

theorem appendAll_untruncated (a : Appender) (texts : List (List Char)) (named : texts ≠ [])
    (fits : a.len + (texts.map List.length).sum < a.cap) (small : a.cap < sizeModulus) (i : Nat) :
    (a.appendAll texts).mem i =
      if a.len ≤ i ∧ i ≤ a.len + (texts.map List.length).sum then
        (texts.flatten ++ ['\x00']).getD (i - a.len) '\x00'
      else a.mem i := by
  induction texts generalizing a with
  | nil => exact absurd rfl named
  | cons text rest ih =>
    have total : a.len + text.length + (rest.map List.length).sum < a.cap := by
      simpa [Nat.add_assoc] using fits
    have room : text.length < sizeSub a.cap a.len := by rw [sizeSub_of_le (by omega) small]; omega
    have first : ∀ i, (SnprintfCall.mk a.len (sizeSub a.cap a.len) text).store a.mem i =
        if a.len ≤ i ∧ i ≤ a.len + text.length then (text ++ ['\x00']).getD (i - a.len) '\x00'
        else a.mem i :=
      @SnprintfCall.store_of_untruncated ⟨a.len, sizeSub a.cap a.len, text⟩ a.mem room
    rw [appendAll_cons]
    rcases rest with _ | ⟨next, rest⟩
    next => simp [append, first]
    next =>
      rw [ih (a.append text) (List.cons_ne_nil _ _) total small]
      simp only [append, first, List.map_cons, List.sum_cons, List.flatten_cons, List.append_assoc]
      split_ifs with later earlier whole whole' <;> try omega
      next => rw [List.getD_append_right text _ _ _ (by omega), Nat.sub_sub]
      next => rw [List.getD_append text _ _ _ (by omega), List.getD_append text _ _ _ (by omega)]
      next => rfl

end Appender

end NeuronOS.Shared
