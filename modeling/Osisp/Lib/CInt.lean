import Osisp.Lib.Bytes

/-!
# The types `int` and `long`

An `int` is an integer that fits in 32 bits, a `long` one that fits in 64. Arithmetic whose
exact result does not fit has no value; a conversion to `int` keeps the lowest 32 bits.
-/

namespace Lib

/-- The range of `int`. -/
def Fits (n : Int) : Prop := -2147483648 ≤ n ∧ n ≤ 2147483647

instance (n : Int) : Decidable (Fits n) :=
  inferInstanceAs (Decidable (-2147483648 ≤ n ∧ n ≤ 2147483647))

theorem fits_one : Fits 1 := by decide

abbrev CInt := { n : Int // Fits n }

/-- The `int` that an exact result is, if it fits. -/
def checked (n : Int) : Option CInt := if h : Fits n then some ⟨n, h⟩ else none

/-- The conversion to `int`. -/
def wrap (n : Int) : CInt := ⟨n.bmod 4294967296, by
  have lower := Int.le_bmod (x := n) (m := 4294967296) (by decide)
  have upper := Int.bmod_lt (x := n) (m := 4294967296) (by decide)
  constructor <;> omega⟩

/-- `a / b`. -/
def cdiv (a b : CInt) : Option CInt := if b.1 = 0 then none else checked (a.1.tdiv b.1)

/-- `isspace`. -/
def isspace (x : UInt8) : Bool := x == 32 || (9 ≤ x && x ≤ 13)

def isdigit (x : UInt8) : Bool := 48 ≤ x && x ≤ 57

/-- The sign that `strtol` reads, and what follows it. -/
def signed : Bytes → Int × Bytes
  | [] => (1, [])
  | x :: l => if x = 45 then (-1, l) else if x = 43 then (1, l) else (1, x :: l)

/-- `strtol (s, NULL, 10)`, which stays in the range of `long`. -/
def strtol (s : Bytes) : Int :=
  let (sign, body) := signed (s.dropWhile isspace)
  max (-9223372036854775808)
    (min 9223372036854775807 (sign * (ofDecimal (body.takeWhile isdigit) : Int)))

/-- `atoi (s)`. -/
def atoi (s : Bytes) : CInt := wrap (strtol s)

theorem isdigit_of_mem_decimal {n : Nat} {x : UInt8} (mem : x ∈ decimal n) :
    isdigit x = true := by
  obtain ⟨lower, upper⟩ := mem_decimal mem
  rw [isdigit, Bool.and_eq_true, decide_eq_true_eq, decide_eq_true_eq]
  exact ⟨UInt8.le_iff_toNat_le.mpr lower, UInt8.le_iff_toNat_le.mpr upper⟩

theorem decimal_eq_cons (n : Nat) : ∃ x l, decimal n = x :: l ∧ isdigit x = true := by
  obtain ⟨x, l, text⟩ := List.exists_cons_of_ne_nil (decimal_ne_nil n)
  have mem : x ∈ decimal n := by
    rw [text]
    exact List.mem_cons_self
  exact ⟨x, l, text, isdigit_of_mem_decimal mem⟩

theorem ne_of_isdigit {x y : UInt8} (digit : isdigit x = true) (other : isdigit y = false) :
    x ≠ y := by
  rintro rfl
  rw [digit] at other
  cases other

theorem checked_of_fits {n : Int} (h : Fits n) : checked n = some ⟨n, h⟩ := dif_pos h

theorem checked_eq_some {n : Int} {m : CInt} : checked n = some m ↔ m.1 = n := by
  constructor
  · intro eq
    rw [checked] at eq
    split at eq
    · rw [← Option.some.inj eq]
    · cases eq
  · rintro rfl
    exact checked_of_fits m.2

/-! ## The type `long` -/

/-- The `long` that an exact result is, if it fits. -/
def checkedLong (n : Int) : Option Int64 :=
  if -2 ^ 63 ≤ n ∧ n < 2 ^ 63 then some (Int64.ofInt n) else none

theorem checkedLong_of_fits {n : Int} (lower : -2 ^ 63 ≤ n) (upper : n < 2 ^ 63) :
    ∃ m, checkedLong n = some m ∧ m.toInt = n :=
  ⟨_, if_pos ⟨lower, upper⟩, Int64.toInt_ofInt_of_le lower upper⟩

example : atoi (ascii " -12ab") = ⟨-12, by decide⟩ := by decide

end Lib
