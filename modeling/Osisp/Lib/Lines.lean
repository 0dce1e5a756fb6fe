import Osisp.Lib.CString

/-!
# Lines and fields

A text is a row of parts that are put behind one another as long as there is
room. If each part is a line with its terminator, splitting at the terminator
gives the lines back; a line is cut in two fields at its first separator.
-/

namespace Lib

/-! ## As many parts as there is room for -/

/-- The first `k` parts, and no more, take at most `cap` bytes. -/
structure LongestFit (cap : Nat) (parts : List Bytes) (k : Nat) : Prop where
  le : k ≤ parts.length
  fits : (parts.take k).flatten.length ≤ cap
  longest : ∀ m ≤ parts.length, (parts.take m).flatten.length ≤ cap → m ≤ k

namespace LongestFit

variable {cap k : Nat} {part : Bytes} {parts : List Bytes}

/-- The next part is too long. -/
theorem stop (long : ∀ part ∈ parts.head?, cap < part.length) : LongestFit cap parts 0 where
  le := Nat.zero_le _
  fits := Nat.zero_le _
  longest m le short := by
    cases parts with
    | nil => exact le
    | cons part parts =>
        cases m with
        | zero => exact le_refl _
        | succ m =>
            have first := long part rfl
            rw [List.take_succ_cons, List.flatten_cons, List.length_append] at short
            omega

theorem cons (short : part.length ≤ cap) (h : LongestFit (cap - part.length) parts k) :
    LongestFit cap (part :: parts) (k + 1) where
  le := Nat.succ_le_succ h.le
  fits := by
    have fits := h.fits
    rw [List.take_succ_cons, List.flatten_cons, List.length_append]
    omega
  longest m le fits := by
    cases m with
    | zero => exact Nat.zero_le _
    | succ m =>
        rw [List.take_succ_cons, List.flatten_cons, List.length_append] at fits
        exact Nat.succ_le_succ (h.longest m (Nat.le_of_succ_le_succ le) (by omega))

/-- All parts are there if and only if all of them fit. -/
theorem eq_length_iff (h : LongestFit cap parts k) :
    k = parts.length ↔ parts.flatten.length ≤ cap := by
  constructor
  · intro all
    have fits := h.fits
    rwa [all, List.take_length] at fits
  · intro fits
    exact le_antisymm h.le (h.longest _ (le_refl _) (by rwa [List.take_length]))

/-- Nothing is there only if there is nothing, or the first part is too long. -/
theorem pos (h : LongestFit cap (part :: parts) k) (short : part.length ≤ cap) : 0 < k := by
  refine h.longest 1 (Nat.succ_le_succ (Nat.zero_le _)) ?_
  rwa [List.take_succ_cons, List.take_zero, List.flatten_cons, List.flatten_nil, List.append_nil]

end LongestFit

/-! ## Lines -/

/-- Splitting undoes the terminators: each line is back, with nothing behind the last. -/
theorem splitOn_terminated {x : UInt8} {lines : List Bytes} (plain : ∀ line ∈ lines, x ∉ line) :
    (lines.map (· ++ [x])).flatten.splitOn x = lines ++ [[]] := by
  induction lines with
  | nil => rfl
  | cons line lines ih =>
      have rest := ih fun l mem => plain l (List.mem_cons_of_mem _ mem)
      have first := plain line List.mem_cons_self
      rw [List.map_cons, List.flatten_cons, List.append_assoc, List.singleton_append,
        List.splitOn_append_cons_self_of_not_mem first, rest, List.cons_append]

/-- No part contains what it was split at. -/
theorem not_mem_of_mem_splitOn {x : UInt8} {part : Bytes} (text : Bytes)
    (mem : part ∈ text.splitOn x) : x ∉ part := by
  induction len : text.length using Nat.strong_induction_on generalizing text with
  | _ n ih =>
      by_cases inside : x ∈ text
      · obtain ⟨first, rest, rfl, plain⟩ := List.eq_append_cons_of_mem inside
        rw [List.splitOn_append_cons_self_of_not_mem plain] at mem
        rcases List.mem_cons.mp mem with rfl | later
        · exact plain
        · rw [List.length_append, List.length_cons] at len
          exact ih rest.length (by omega) rest later rfl
      · rw [List.splitOn_eq_singleton inside, List.mem_singleton] at mem
        rwa [mem]

/-- The lines of a text without their ends. What stands behind the last end is one more
line, if there is anything. -/
def linesOf (x : UInt8) (text : Bytes) : List Bytes :=
  if (text.splitOn x).getLast? = some [] then (text.splitOn x).dropLast else text.splitOn x

section LinesOf

variable {x : UInt8} {line : Bytes}

@[simp] theorem linesOf_nil (x : UInt8) : linesOf x [] = [] := rfl

/-- The first line, and the others. -/
theorem linesOf_append_cons (plain : x ∉ line) (rest : Bytes) :
    linesOf x (line ++ x :: rest) = line :: linesOf x rest := by
  obtain ⟨first, later, parts⟩ := List.exists_cons_of_ne_nil (List.splitOn_ne_nil x rest)
  rw [linesOf, linesOf, List.splitOn_append_cons_self_of_not_mem plain, parts,
    List.getLast?_cons_cons, List.dropLast_cons_of_ne_nil (List.cons_ne_nil _ _)]
  split <;> rfl

/-- A last line without its end. -/
theorem linesOf_of_not_mem (plain : x ∉ line) (more : line ≠ []) : linesOf x line = [line] := by
  have last : [line].getLast? ≠ some [] := fun same => more (Option.some.inj same)
  rw [linesOf, List.splitOn_eq_singleton plain, if_neg last]

theorem not_mem_of_mem_linesOf {text : Bytes} (mem : line ∈ linesOf x text) : x ∉ line := by
  rw [linesOf] at mem
  split at mem
  · exact not_mem_of_mem_splitOn text (List.mem_of_mem_dropLast mem)
  · exact not_mem_of_mem_splitOn text mem

/-- Lines that are put behind one another are the lines of the whole. -/
theorem linesOf_terminated {lines : List Bytes} (plain : ∀ line ∈ lines, x ∉ line) :
    linesOf x (lines.flatMap (· ++ [x])) = lines := by
  rw [List.flatMap_def, linesOf, splitOn_terminated plain, List.getLast?_concat, if_pos rfl,
    List.dropLast_concat]

end LinesOf

/-! ## Fields -/

/-- What stands before and behind the first `x`. -/
def cutAt (x : UInt8) (line : Bytes) : Option (Bytes × Bytes) :=
  if x ∈ line then
    some (line.takeWhile (· ≠ x), line.drop ((line.takeWhile (· ≠ x)).length + 1))
  else none

theorem cutAt_append {x : UInt8} {a : Bytes} (none : x ∉ a) (b : Bytes) :
    cutAt x (a ++ x :: b) = some (a, b) := by
  have mem : x ∈ a ++ x :: b := List.mem_append_right a List.mem_cons_self
  rw [cutAt, if_pos mem, takeWhile_ne_append none, List.drop_length_add_append,
    List.drop_succ_cons, List.drop_zero]

end Lib
