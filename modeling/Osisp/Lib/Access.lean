import Osisp.Lib.CString

/-!
# Arrays whose bounds are checked

Each load and store has a value only inside the array, so a computation that has a
value has stayed inside all of its arrays.
-/

namespace Lib

/-- `char a[n]`, whatever it contains. -/
abbrev Chars (n : Nat) := { a : Bytes // a.length = n }

variable {a : Bytes} {i : Nat}

/-- `a[i]`. -/
def load (a : Bytes) (i : Nat) : Option UInt8 := a[i]?

/-- `a[i] = x`. -/
def store (a : Bytes) (i : Nat) (x : UInt8) : Option Bytes :=
  if i < a.length then some (a.set i x) else none

/-- The bytes from `a[i]` on. -/
def storeAll (a : Bytes) (i : Nat) (bytes : Bytes) : Option Bytes :=
  if i + bytes.length ≤ a.length then
    some (a.take i ++ bytes ++ a.drop (i + bytes.length))
  else none

/-- `strncpy (dst, src, n)`: it reads no further than to a NUL, and pads with NULs. -/
def strncpy (dst src : Bytes) (n : Nat) : Option Bytes :=
  if (0 : UInt8) ∈ src ∨ n ≤ src.length then
    storeAll dst 0 ((cstr src).take n ++ List.replicate (n - ((cstr src).take n).length) 0)
  else none

/-- `snprintf (a, size, …)` for the formatted `text`. -/
def snprintf (a : Bytes) (size : Nat) (text : Bytes) : Option Bytes :=
  storeAll a 0 (text.take (size - 1) ++ [0])

theorem store_inside {x : UInt8} (inside : i < a.length) : store a i x = some (a.set i x) :=
  if_pos inside

theorem storeAll_inside {bytes : Bytes} (inside : i + bytes.length ≤ a.length) :
    storeAll a i bytes = some (a.take i ++ bytes ++ a.drop (i + bytes.length)) := if_pos inside

theorem storeAll_front {bytes : Bytes} (inside : bytes.length ≤ a.length) :
    storeAll a 0 bytes = some (bytes ++ a.drop bytes.length) := by
  have room : 0 + bytes.length ≤ a.length := by omega
  rw [storeAll_inside room, List.take_zero, List.nil_append, Nat.zero_add]

theorem length_of_storeAll {bytes b : Bytes} (eq : storeAll a i bytes = some b) :
    b.length = a.length := by
  rw [storeAll] at eq
  split at eq
  case isTrue inside =>
    rw [← Option.some.inj eq, List.length_append, List.length_append, List.length_take,
      List.length_drop]
    omega
  case isFalse _ => cases eq

/-- An array of `n` bytes that holds the string `s`. -/
structure IsString (n : Nat) (a s : Bytes) : Prop where
  length : a.length = n
  nul : (0 : UInt8) ∈ a
  text : cstr a = s

namespace IsString

variable {n : Nat} {s : Bytes}

theorem of_parts {rest : Bytes} (length : (s ++ 0 :: rest).length = n) (noNul : (0 : UInt8) ∉ s) :
    IsString n (s ++ 0 :: rest) s :=
  ⟨length, List.mem_append_right _ List.mem_cons_self, cstr_append_nul noNul rest⟩

theorem noNul (h : IsString n a s) : (0 : UInt8) ∉ s := h.text ▸ zero_not_mem_cstr a

/-- The string behind its first bytes. -/
theorem drop (h : IsString n a s) {k : Nat} (inside : k ≤ s.length) :
    (0 : UInt8) ∈ a.drop k ∧ cstr (a.drop k) = s.drop k := by
  have split : a = s ++ 0 :: a.drop (s.length + 1) := by
    rw [← h.text]
    exact split_at_first h.nul
  have noNul : (0 : UInt8) ∉ s.drop k := fun mem => h.noNul (List.mem_of_mem_drop mem)
  rw [split, List.drop_append_of_le_length inside]
  exact ⟨List.mem_append_right _ List.mem_cons_self, cstr_append_nul noNul _⟩

theorem lt (h : IsString n a s) : s.length < n := by
  have parts := congrArg List.length (split_at_first h.nul)
  have text := congrArg List.length h.text
  have length := h.length
  rw [List.length_append, List.length_cons] at parts
  rw [cstr] at text
  omega

end IsString

/-- A terminated string that is stored at the front. -/
theorem storeAll_string {n : Nat} {s : Bytes} (size : a.length = n) (room : s.length < n)
    (noNul : (0 : UInt8) ∉ s) :
    ∃ b, storeAll a 0 (s ++ [0]) = some b ∧ IsString n b s := by
  have fits : (s ++ [0]).length ≤ a.length := by
    rw [List.length_append, List.length_singleton]
    omega
  have stored := storeAll_front fits
  rw [List.append_assoc, List.singleton_append] at stored
  refine ⟨_, stored, IsString.of_parts ?_ noNul⟩
  rw [List.length_append, List.length_cons, List.length_drop, List.length_append,
    List.length_singleton]
  omega

theorem load_inside (inside : i < a.length) : load a i = some (a.getD i 0) := by
  rw [load, List.getD_eq_getElem?_getD, List.getElem?_eq_getElem inside, Option.getD_some]

/-- `for (i = 0; i < n; i++) output[i] = f (input[index (i)]);` stays inside if the
indices do. -/
theorem foldlM_store (input : Bytes) {index : Nat → Nat} (f : UInt8 → UInt8)
    (output : Bytes) (n : Nat) (room : n ≤ output.length)
    (inside : ∀ i < n, index i < input.length) :
    (List.range n).foldlM
        (fun out i => (load input (index i)).bind fun c => store out i (f c)) output =
      some ((List.range n).foldl (fun out i => out.set i (f (input.getD (index i) 0))) output) := by
  induction n with
  | zero => rfl
  | succ n ih =>
      have before := ih (by omega) fun i lt => inside i (by omega)
      have size : n < ((List.range n).foldl
          (fun out i => out.set i (f (input.getD (index i) 0))) output).length := by
        rw [foldl_set_range _ _ n (by omega), List.length_append, List.length_map,
          List.length_range, List.length_drop]
        omega
      rw [List.range_succ, List.foldlM_append, List.foldl_append, before, Option.bind_eq_bind,
        Option.bind_some, List.foldlM_cons, load_inside (inside n (by omega)), Option.bind_some,
        store_inside size]
      rfl

end Lib
