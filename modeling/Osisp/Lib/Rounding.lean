import Mathlib

/-!
# Adding in doubles

A natural number in a `double` is rounded to 53 significant bits, a tie to the even side.
Additions are exact as long as the sum is at most `2 ^ 53`; behind that each of them may
add an error of its own.
-/

namespace Lib

/-- The `double` nearest to a natural number. -/
def roundDouble (n : Nat) : Nat :=
  let unit := 2 ^ (n.log2 - 52)
  let q := n / unit
  let r := n % unit
  if unit < 2 * r ∨ (2 * r = unit ∧ q % 2 = 1) then (q + 1) * unit else q * unit

/-- `s += x` for one number after the other. -/
def addDoubles (s : Nat) (xs : List Nat) : Nat := xs.foldl (fun s x => roundDouble (s + x)) s

/-- What rounding adds to the sum, or takes from it. -/
def roundingError : Nat → List Nat → Int
  | _, [] => 0
  | s, x :: xs =>
      ((roundDouble (s + x) : Int) - (s + x : Nat)) + roundingError (roundDouble (s + x)) xs

theorem roundDouble_of_le {n : Nat} (small : n ≤ 2 ^ 53) : roundDouble n = n := by
  rcases Nat.eq_or_lt_of_le small with rfl | less
  · decide
  · have bits : n.log2 - 52 = 0 := by
      rcases Nat.eq_zero_or_pos n with rfl | pos
      · rfl
      · have := (Nat.log2_lt (Nat.pos_iff_ne_zero.mp pos)).mpr less
        omega
    rw [roundDouble, bits, Nat.pow_zero, Nat.mod_one, Nat.div_one]
    simp

theorem addDoubles_eq (s : Nat) (xs : List Nat) :
    (addDoubles s xs : Int) = (s + xs.sum : Nat) + roundingError s xs := by
  induction xs generalizing s with
  | nil =>
      rw [addDoubles, List.foldl_nil, List.sum_nil, Nat.add_zero, roundingError, Int.add_zero]
  | cons x xs ih =>
      have rest := ih (roundDouble (s + x))
      rw [addDoubles] at rest ⊢
      rw [List.foldl_cons, rest, roundingError, List.sum_cons]
      omega

theorem roundingError_eq_zero {s : Nat} {xs : List Nat} (small : s + xs.sum ≤ 2 ^ 53) :
    roundingError s xs = 0 := by
  induction xs generalizing s with
  | nil => rfl
  | cons x xs ih =>
      rw [List.sum_cons] at small
      have exact : roundDouble (s + x) = s + x := roundDouble_of_le (by omega)
      rw [roundingError, exact, ih (by omega)]
      omega

end Lib
