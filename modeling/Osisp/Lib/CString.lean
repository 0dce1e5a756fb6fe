import Mathlib
import Osisp.Lib.Bytes

/-!
# NUL-terminated strings in bounded buffers

`cstr b` is the string a C library function sees when it is handed the buffer
`b`. `CStr cap` is the value of a `char[cap + 1]` array that holds a terminated
string: it has no NUL inside and fits, by construction.
-/

namespace Lib

/-- The bytes before the first NUL. -/
def cstr (b : Bytes) : Bytes := b.takeWhile (· ≠ 0)

theorem zero_not_mem_cstr (b : Bytes) : (0 : UInt8) ∉ cstr b := by
  intro mem
  have ne := List.mem_takeWhile_imp mem
  simp at ne

theorem cstr_eq_self {b : Bytes} (h : (0 : UInt8) ∉ b) : cstr b = b := by
  unfold cstr
  rw [List.takeWhile_eq_self_iff]
  intro x mem
  have ne : x ≠ 0 := fun eq => h (eq ▸ mem)
  simpa using ne

@[simp] theorem cstr_cstr (b : Bytes) : cstr (cstr b) = cstr b :=
  cstr_eq_self (zero_not_mem_cstr b)

/-- The part before the first `x`. -/
theorem takeWhile_ne_append {x : UInt8} {a : Bytes} (none : x ∉ a) (b : Bytes) :
    (a ++ x :: b).takeWhile (· ≠ x) = a := by
  have all : ∀ y ∈ a, decide (y ≠ x) = true := by
    intro y mem
    exact decide_eq_true fun eq => none (eq ▸ mem)
  rw [List.takeWhile_append_of_pos all, List.takeWhile_cons_of_neg (by simp), List.append_nil]

/-- The first `x` splits a string that has one. -/
theorem split_at_first {x : UInt8} {a : Bytes} (mem : x ∈ a) :
    a = a.takeWhile (· ≠ x) ++ x :: a.drop ((a.takeWhile (· ≠ x)).length + 1) := by
  obtain ⟨front, rest, rfl, none⟩ := List.eq_append_cons_of_mem mem
  rw [takeWhile_ne_append none, List.drop_length_add_append, List.drop_succ_cons, List.drop_zero]

theorem cstr_append_nul {a : Bytes} (noNul : (0 : UInt8) ∉ a) (b : Bytes) :
    cstr (a ++ 0 :: b) = a := takeWhile_ne_append noNul b

theorem cstr_part (b : Bytes) : cstr b <+: b := List.takeWhile_prefix _

theorem length_cstr_le (b : Bytes) : (cstr b).length ≤ b.length :=
  (List.takeWhile_sublist _).length_le

/-- `strchr` on a string: where `x` stands first. -/
def strchr (x : UInt8) (s : Bytes) : Option Nat := s.findIdx? (· == x)

/-- `strrchr` on a string: where `x` stands last. -/
def strrchr (x : UInt8) (s : Bytes) : Option Nat := (strchr x s.reverse).map (s.length - 1 - ·)

theorem strchr_append {x : UInt8} {a : Bytes} (none : x ∉ a) (b : Bytes) :
    strchr x (a ++ x :: b) = some a.length := by
  have absent : a.findIdx? (· == x) = Option.none := by
    rw [List.findIdx?_eq_none_iff]
    intro y mem
    apply beq_false_of_ne
    rintro rfl
    exact none mem
  rw [strchr, List.findIdx?_append, absent, List.findIdx?_cons, beq_self_eq_true]
  simp

theorem strrchr_append {x : UInt8} (a : Bytes) {b : Bytes} (none : x ∉ b) :
    strrchr x (a ++ x :: b) = some a.length := by
  have behind : x ∉ b.reverse := fun mem => none (List.mem_reverse.mp mem)
  rw [strrchr, List.reverse_append, List.reverse_cons, List.append_assoc, List.singleton_append,
    strchr_append behind, Option.map_some, List.length_reverse, List.length_append,
    List.length_cons]
  congr 1
  omega

/-- `strstr`: where `needle` begins for the first time. -/
def strstr (needle : Bytes) : Bytes → Option Nat
  | [] => if needle = [] then some 0 else none
  | x :: s => if needle <+: x :: s then some 0 else (strstr needle s).map (· + 1)

theorem strstr_eq_none {needle s : Bytes} (absent : strstr needle s = none) (i : Nat) :
    ¬ needle <+: s.drop i := by
  induction s generalizing i with
  | nil =>
      rw [List.drop_nil, List.prefix_nil]
      intro empty
      rw [strstr, if_pos empty] at absent
      cases absent
  | cons x s ih =>
      rw [strstr] at absent
      split at absent
      · cases absent
      · next differs =>
          cases i with
          | zero => exact differs
          | succ i => exact ih (Option.map_eq_none_iff.mp absent) i

theorem strstr_eq_some {needle s : Bytes} {k : Nat} (found : strstr needle s = some k) :
    (∃ a b, s = a ++ (needle ++ b) ∧ a.length = k) ∧ ∀ i < k, ¬ needle <+: s.drop i := by
  induction s generalizing k with
  | nil =>
      rw [strstr] at found
      split at found
      · next empty =>
          cases found
          exact ⟨⟨[], [], by rw [empty]; rfl, rfl⟩, fun i lt => absurd lt (Nat.not_lt_zero i)⟩
      · cases found
  | cons x s ih =>
      rw [strstr] at found
      split at found
      · next here =>
          cases found
          obtain ⟨b, split⟩ := here
          exact ⟨⟨[], b, split.symm, rfl⟩, fun i lt => absurd lt (Nat.not_lt_zero i)⟩
      · next differs =>
          obtain ⟨j, later, rfl⟩ := Option.map_eq_some_iff.mp found
          obtain ⟨⟨a, b, split, long⟩, first⟩ := ih later
          refine ⟨⟨x :: a, b, by rw [split]; rfl, by rw [List.length_cons, long]⟩, fun i lt => ?_⟩
          cases i with
          | zero => exact differs
          | succ i => exact first i (Nat.lt_of_succ_lt_succ lt)

/-- A terminated string of at most `cap` bytes in an array of `cap + 1`. -/
structure CStr (cap : Nat) where
  bytes : Bytes
  noNul : (0 : UInt8) ∉ bytes
  fits : bytes.length ≤ cap

namespace CStr

variable {cap : Nat}

@[ext] theorem ext {a b : CStr cap} (h : a.bytes = b.bytes) : a = b := by
  cases a; cases b; cases h; rfl

instance : DecidableEq (CStr cap) :=
  fun a b => decidable_of_iff (a.bytes = b.bytes) ⟨CStr.ext, congrArg CStr.bytes⟩

/-- The array after a `memset` to zero. -/
def empty : CStr cap := ⟨[], by simp, Nat.zero_le _⟩

/-- `strncpy (dst, src, cap); dst[cap] = '\0'`. -/
def strncpy (cap : Nat) (src : Bytes) : CStr cap :=
  ⟨(cstr src).take cap, fun mem => zero_not_mem_cstr src (List.mem_of_mem_take mem),
    List.length_take_le _ _⟩

@[simp] theorem bytes_empty : (empty : CStr cap).bytes = [] := rfl

@[simp] theorem bytes_strncpy (src : Bytes) :
    (strncpy cap src).bytes = (cstr src).take cap := rfl

@[simp] theorem cstr_bytes (s : CStr cap) : cstr s.bytes = s.bytes := cstr_eq_self s.noNul

/-- Copying a string that fits loses nothing. -/
theorem bytes_strncpy_of_fits {src : Bytes} (fits : (cstr src).length ≤ cap) :
    (strncpy cap src).bytes = cstr src := by
  rw [bytes_strncpy, List.take_of_length_le fits]

end CStr

end Lib
