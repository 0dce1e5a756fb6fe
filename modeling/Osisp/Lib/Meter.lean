import Mathlib

/-!
# Reading a meter

A meter is read again and again, and each reading is reported as the difference to the one
before it. However often it is read, the reports together say what the last reading differs
from the first by.
-/

namespace Lib

variable {α : Type} [AddCommGroup α]

/-- What is reported of the readings behind `x`. -/
def differences (x : α) : List α → List α
  | [] => []
  | y :: ys => (y - x) :: differences y ys

@[simp] theorem differences_nil (x : α) : differences x [] = [] := rfl

@[simp] theorem differences_cons (x y : α) (ys : List α) :
    differences x (y :: ys) = (y - x) :: differences y ys := rfl

theorem sum_differences (x : α) (ys : List α) : (differences x ys).sum = ys.getLastD x - x := by
  induction ys generalizing x with
  | nil => rw [differences_nil, List.sum_nil, List.getLastD_nil, sub_self]
  | cons y ys ih =>
      rw [differences_cons, List.sum_cons, ih, List.getLastD_cons, sub_add_sub_cancel']

end Lib
