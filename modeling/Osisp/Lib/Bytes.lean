import Mathlib

/-!
# Byte strings and fixed-width words

`Bytes` is the content of a buffer. `be32` and `le32` are the two memory layouts
of a 32-bit word; each decoder reads exactly four bytes and undoes its encoder
whatever follows them.
-/

namespace Lib

abbrev Bytes := List UInt8

/-- The bytes of an ASCII literal. -/
def ascii (s : String) : Bytes := s.toList.map fun c => UInt8.ofNat c.toNat

/-- The decimal digits of a number, most significant first (`%u`). -/
def decimal (n : Nat) : Bytes := (Nat.toDigits 10 n).map fun c => UInt8.ofNat c.toNat

/-- A buffer that is filled in steps keeps what one step would keep. -/
theorem take_take_append {α : Type} (n : Nat) (a b : List α) :
    (a.take n ++ b).take n = (a ++ b).take n := by
  rw [List.take_append, List.take_append, List.take_take, Nat.min_self, List.length_take]
  congr 2
  omega

/-- The bytes of `%u` are the characters from `0` to `9`. -/
theorem mem_decimal {n : Nat} {x : UInt8} (mem : x ∈ decimal n) :
    48 ≤ x.toNat ∧ x.toNat ≤ 57 := by
  obtain ⟨c, digit, rfl⟩ := List.mem_map.mp mem
  have isDigit : 48 ≤ c.toNat ∧ c.toNat ≤ 57 := by
    simpa [Char.isDigit, UInt32.le_iff_toNat_le] using
      Nat.isDigit_of_mem_toDigits (by decide) (by decide) digit
  rw [UInt8.toNat_ofNat']
  omega

theorem decimal_ne_nil (n : Nat) : decimal n ≠ [] := by
  rw [decimal, Ne, List.map_eq_nil_iff]
  exact Nat.toDigits_ne_nil

/-- Digits are no NULs. -/
theorem zero_not_mem_decimal (n : Nat) : (0 : UInt8) ∉ decimal n := by
  intro mem
  exact absurd (mem_decimal mem).1 (by decide)

/-- The number that decimal digits stand for (`strtoul`). -/
def ofDecimal (b : Bytes) : Nat :=
  Nat.ofDigitChars 10 (b.map fun x => Char.ofNat x.toNat) 0

@[simp] theorem ofDecimal_decimal (n : Nat) : ofDecimal (decimal n) = n := by
  have chars : (decimal n).map (fun x => Char.ofNat x.toNat) = Nat.toDigits 10 n := by
    rw [decimal, List.map_map]
    refine (List.map_congr_left fun c digit => ?_).trans (List.map_id _)
    have isDigit := Nat.isDigit_of_mem_toDigits (by decide) (by decide) digit
    have small : c.toNat ≤ 57 := by
      simp only [Char.isDigit, Bool.and_eq_true, decide_eq_true_eq] at isDigit
      exact UInt32.le_iff_toNat_le.mp isDigit.2
    have same : (UInt8.ofNat c.toNat).toNat = c.toNat := by
      rw [UInt8.toNat_ofNat']
      omega
    rw [Function.comp_apply, same, Char.ofNat_toNat, id]
  rw [ofDecimal, chars, Nat.ofDigitChars_ten_toDigits]

theorem length_decimal_le {n k : Nat} (pos : 0 < k) (h : n < 10 ^ k) :
    (decimal n).length ≤ k := by
  rw [decimal, List.length_map]
  exact (Nat.length_toDigits_le_iff (by decide) pos).mpr h

/-- The loop `for (i = 0; i < n; i++) a[i] = f (i);`. -/
theorem foldl_set_range {α : Type} (f : Nat → α) (a : List α) :
    ∀ n ≤ a.length, (List.range n).foldl (fun out i => out.set i (f i)) a =
      (List.range n).map f ++ a.drop n := by
  intro n
  induction n with
  | zero =>
      intro _
      rfl
  | succ n ih =>
      intro room
      have here : a.drop n = a[n] :: a.drop (n + 1) := List.drop_eq_getElem_cons room
      have filled : ((List.range n).map f).length = n := by simp
      rw [List.range_succ, List.foldl_append, ih (by omega), List.map_append, List.foldl_cons,
        List.foldl_nil, here, List.set_append_right _ _ (Nat.le_of_eq filled), filled, Nat.sub_self,
        List.set_cons_zero, List.append_assoc]
      rfl

/-- Four bytes of `w`, most significant first. -/
def be32 (w : UInt32) : Bytes :=
  [UInt8.ofNat (w.toNat / 2 ^ 24), UInt8.ofNat (w.toNat / 2 ^ 16),
    UInt8.ofNat (w.toNat / 2 ^ 8), UInt8.ofNat w.toNat]

/-- Read a word from the first four bytes, most significant first. -/
def ofBe32 (b : Bytes) : UInt32 :=
  UInt32.ofNat ((b.take 4).foldl (fun n x => n * 2 ^ 8 + x.toNat) 0)

/-- Four bytes of `w`, least significant first. -/
def le32 (w : UInt32) : Bytes := (be32 w).reverse

/-- Read a word from the first four bytes, least significant first. -/
def ofLe32 (b : Bytes) : UInt32 := ofBe32 (b.take 4).reverse

@[simp] theorem length_be32 (w : UInt32) : (be32 w).length = 4 := rfl

@[simp] theorem length_le32 (w : UInt32) : (le32 w).length = 4 := rfl

/-- A decoder does not look past its four bytes. -/
theorem ofBe32_append {b : Bytes} (h : 4 ≤ b.length) (c : Bytes) :
    ofBe32 (b ++ c) = ofBe32 b := by
  unfold ofBe32
  rw [List.take_append_of_le_length h]

@[simp] theorem ofBe32_be32 (w : UInt32) : ofBe32 (be32 w) = w := by
  apply UInt32.toNat_inj.mp
  have bound := w.toNat_lt
  simp only [ofBe32, be32, List.take_succ_cons, List.take_zero, List.foldl_cons,
    List.foldl_nil, UInt8.toNat_ofNat', UInt32.toNat_ofNat']
  omega

@[simp] theorem ofBe32_be32_append (w : UInt32) (c : Bytes) :
    ofBe32 (be32 w ++ c) = w := by
  rw [ofBe32_append (by simp), ofBe32_be32]

@[simp] theorem ofLe32_le32_append (w : UInt32) (c : Bytes) :
    ofLe32 (le32 w ++ c) = w := by
  have four : (le32 w ++ c).take 4 = le32 w := by
    rw [List.take_append_of_le_length (by simp), List.take_of_length_le (by simp)]
  rw [ofLe32, four, le32, List.reverse_reverse, ofBe32_be32]

end Lib
