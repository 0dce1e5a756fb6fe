import Mathlib

/-!
# A ring buffer that keeps the most recent items

`Ring α n` is a fixed array of `n` cells, an index of the oldest item and a
count. `push` overwrites the oldest item once the array is full. `Ring.Keeps`
says that the ring holds exactly the last `n` items of a history, oldest first.
-/

namespace Lib

structure Ring (α : Type) (n : Nat) where
  cells : Fin n → α
  start : Fin n
  count : Nat
  count_le : count ≤ n

/-- The last `n` items of a history. -/
def lastN {α : Type} (n : Nat) (l : List α) : List α := l.drop (l.length - n)

namespace Ring

variable {α : Type} {n : Nat}

/-- The cell `k` places after the oldest. -/
def idx (r : Ring α n) (k : Nat) : Fin n :=
  ⟨(r.start + k) % n, Nat.mod_lt _ r.start.pos⟩

def push (r : Ring α n) (x : α) : Ring α n :=
  let cells := Function.update r.cells (r.idx r.count) x
  if h : r.count < n then ⟨cells, r.start, r.count + 1, h⟩
  else ⟨cells, r.idx 1, r.count, r.count_le⟩

/-- The items from the oldest on. -/
def toList (r : Ring α n) : List α := (List.range r.count).map fun k => r.cells (r.idx k)

@[simp] theorem length_toList (r : Ring α n) : r.toList.length = r.count := by
  simp only [toList, List.length_map, List.length_range]

/-- Two places of one lap are different cells. -/
theorem idx_ne {r : Ring α n} {j k : Nat} (lt : j < k) (lap : k < j + n) :
    r.idx j ≠ r.idx k := by
  intro eq
  have bound := r.start.isLt
  have mod : (r.start + j) % n = (r.start + k) % n := congrArg Fin.val eq
  have dvd : n ∣ (r.start + k) - (r.start + j) := (Nat.modEq_iff_dvd' (by omega)).mp mod
  have le := Nat.le_of_dvd (by omega) dvd
  omega

/-- The last item is the pushed one; the oldest goes when the ring was full. -/
theorem toList_push (r : Ring α n) (x : α) :
    (r.push x).toList = r.toList.drop (r.count + 1 - n) ++ [x] := by
  have count_le := r.count_le
  have old : ∀ k, k < r.count → r.count < k + n →
      Function.update r.cells (r.idx r.count) x (r.idx k) = r.cells (r.idx k) :=
    fun k lt lap => Function.update_of_ne (idx_ne lt lap) _ _
  by_cases h : r.count < n
  · have none_lost : r.count + 1 - n = 0 := by omega
    rw [none_lost, List.drop_zero]
    simp only [push, dif_pos h, toList, List.range_succ, List.map_append, List.map_cons,
      List.map_nil]
    congr 1
    · apply List.map_congr_left
      intro k mem
      have lt := List.mem_range.mp mem
      exact old k lt (by omega)
    · rw [show (⟨_, r.start, r.count + 1, h⟩ : Ring α n).idx r.count = r.idx r.count from rfl,
        Function.update_self]
  · have full : r.count = n := by omega
    have one_lost : r.count + 1 - n = 1 := by omega
    have pos := r.start.pos
    -- place `k` of the new lap is place `k + 1` of the old one
    have shift : ∀ (cells : Fin n → α) (k : Nat),
        (⟨cells, r.idx 1, r.count, r.count_le⟩ : Ring α n).idx k = r.idx (k + 1) := by
      intro cells k
      apply Fin.ext
      simp only [idx, Nat.mod_add_mod]
      congr 1
      omega
    obtain ⟨m, hm⟩ : ∃ m, r.count = m + 1 := ⟨r.count - 1, by omega⟩
    rw [one_lost]
    simp only [push, dif_neg h, toList, shift]
    have kept : (List.range m).map
        (fun k => Function.update r.cells (r.idx r.count) x (r.idx (k + 1))) =
          (List.range m).map fun k => r.cells (r.idx (k + 1)) := by
      apply List.map_congr_left
      intro k mem
      have lt := List.mem_range.mp mem
      exact old (k + 1) (by omega) (by omega)
    have oldest_gone : ((List.range r.count).map fun k => r.cells (r.idx k)).drop 1 =
        (List.range m).map fun k => r.cells (r.idx (k + 1)) := by
      rw [hm, List.range_succ_eq_map, List.map_cons, List.drop_succ_cons, List.drop_zero,
        List.map_map]
      rfl
    rw [oldest_gone, ← kept, hm, List.range_succ, List.map_append, List.map_cons, List.map_nil,
      Function.update_self]

/-- The ring holds the last `n` items of the history `l`. -/
def Keeps (r : Ring α n) (l : List α) : Prop := r.toList = lastN n l

theorem Keeps.push {r : Ring α n} {l : List α} (keeps : r.Keeps l) (x : α) :
    (r.push x).Keeps (l ++ [x]) := by
  have len := congrArg List.length keeps
  have pos := r.start.pos
  simp only [length_toList, lastN, List.length_drop] at len
  unfold Keeps lastN
  rw [toList_push, keeps, lastN, List.drop_drop, List.length_append, List.length_singleton,
    List.drop_append_of_le_length (by omega)]
  congr 2
  omega

theorem Keeps.nil {r : Ring α n} (empty : r.count = 0) : r.Keeps [] := by
  simp [Keeps, lastN, toList, empty]

end Ring

end Lib
