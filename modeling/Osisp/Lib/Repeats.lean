import Mathlib

/-!
# Repeated lines

A list is abbreviated by leaving out each item that is the same as the one before it; a
mark stands for those left out in a row. What the items add up to is lost as far as the
ones left out add up to something (`sum_abbreviate`).
-/

namespace Lib

variable {α β : Type} [DecidableEq α] [DecidableEq β]

/-- Behind the item `prev`, and behind a mark if it is `marked`. -/
def abbreviateFrom : Option α → Bool → List α → List (Option α)
  | _, _, [] => []
  | prev, marked, x :: xs =>
      if prev = some x then
        if marked then abbreviateFrom prev true xs else none :: abbreviateFrom prev true xs
      else some x :: abbreviateFrom (some x) false xs

/-- The list with a mark, `none`, for what is left out in a row. -/
def abbreviate (l : List α) : List (Option α) := abbreviateFrom none false l

def repeatsFrom : Option α → List α → List α
  | _, [] => []
  | prev, x :: xs =>
      if prev = some x then x :: repeatsFrom (some x) xs else repeatsFrom (some x) xs

/-- The items that are left out. -/
def repeats (l : List α) : List α := repeatsFrom none l

/-- Items that are written differently are abbreviated alike. -/
theorem abbreviate_map {f : α → β} (inj : Function.Injective f) (l : List α) :
    abbreviate (l.map f) = (abbreviate l).map (Option.map f) := by
  have general (prev : Option α) (marked : Bool) :
      abbreviateFrom (prev.map f) marked (l.map f) =
        (abbreviateFrom prev marked l).map (Option.map f) := by
    induction l generalizing prev marked with
    | nil => rfl
    | cons x xs ih =>
        have same : prev.map f = some (f x) ↔ prev = some x := by
          rw [← Option.map_some]
          exact (Option.map_injective inj).eq_iff
        rw [List.map_cons, abbreviateFrom, abbreviateFrom]
        by_cases again : prev = some x
        · rw [if_pos again, if_pos (same.mpr again)]
          cases marked with
          | true => exact ih prev true
          | false => exact congrArg (List.cons none) (ih prev true)
        · rw [if_neg again, if_neg (mt same.mp again)]
          exact congrArg (List.cons _) (ih (some x) false)
  exact general none false

/-- What is left and what is left out add up to the whole. -/
theorem sum_abbreviate (f : α → Nat) (l : List α) :
    ((abbreviate l).map fun x => (x.map f).getD 0).sum + ((repeats l).map f).sum =
      (l.map f).sum := by
  have general (prev : Option α) (marked : Bool) :
      ((abbreviateFrom prev marked l).map fun x => (x.map f).getD 0).sum +
        ((repeatsFrom prev l).map f).sum = (l.map f).sum := by
    induction l generalizing prev marked with
    | nil => rfl
    | cons x xs ih =>
        rw [abbreviateFrom, repeatsFrom]
        by_cases again : prev = some x
        · have rest := ih prev true
          rw [if_pos again, if_pos again, List.map_cons, List.map_cons, List.sum_cons,
            List.sum_cons, ← again]
          cases marked with
          | true =>
              rw [if_pos rfl]
              omega
          | false =>
              rw [if_neg Bool.false_ne_true, List.map_cons, List.sum_cons]
              have mark : ((none : Option α).map f).getD 0 = 0 := rfl
              omega
        · have rest := ih (some x) false
          rw [if_neg again, if_neg again, List.map_cons, List.map_cons, List.sum_cons,
            List.sum_cons]
          have item : ((some x).map f).getD 0 = f x := rfl
          omega
  exact general none false

end Lib
