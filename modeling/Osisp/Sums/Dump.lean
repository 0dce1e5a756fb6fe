import Osisp.Lib.CInt
import Osisp.Lib.Lines
import Osisp.Lib.Repeats
import Osisp.Lib.Rounding
import Osisp.Lib.Runs

/-!
# The sum of the bytes of a file (`LabWork_1/scr.sh`)

The script has `od -An -tu1` write the bytes as decimal numbers, 16 to a line, and `awk`
add up the fields of that text. Without `-v`, `od` leaves out a line that is the same as
the one before it, and a `*` stands for those left out in a row. `awk` takes the `*` for
0, so what was left out is missing in the sum (`fileSum_eq_iff`).
-/

namespace Osisp.Sums

open Lib

/-! ## `od -An -tu1` -/

/-- The bytes of a line. -/
def lineWidth : Nat := 16

/-- The file, 16 bytes at a time. -/
def blocks (file : Bytes) : List Bytes :=
  (List.range ((file.length + (lineWidth - 1)) / lineWidth)).map fun k =>
    (file.drop (lineWidth * k)).take lineWidth

/-- A byte in four columns. -/
def cell (x : UInt8) : Bytes :=
  List.replicate (4 - (decimal x.toNat).length) 32 ++ decimal x.toNat

def line (block : Bytes) : Bytes := block.flatMap cell

/-- The output for a file. -/
def od (file : Bytes) : Bytes :=
  ((abbreviate ((blocks file).map line)).map fun l => l.getD (ascii "*") ++ [10]).flatten

/-! ## `awk '{for(i=1;i<=NF;i++) s+=$i} END{print s+0}'` -/

def isblank (x : UInt8) : Bool := x == 32 || x == 9

/-- The fields of a record. -/
def fields (record : Bytes) : List Bytes := (record.splitOnP isblank).filter (· ≠ [])

/-- What a field without signs and points is worth: the number it begins with, or 0. -/
def value (field : Bytes) : Nat := ofDecimal (field.takeWhile isdigit)

/-- What is printed; `s` is 0 when nothing was added. -/
def awk (text : Bytes) : Bytes :=
  decimal (addDoubles 0 (((text.splitOn 10).flatMap fields).map value))

/-- `FILE_SUM`. -/
def fileSum (file : Bytes) : Bytes := awk (od file)

/-! ## What is meant, and what is lost -/

/-- The sum of all bytes. -/
def byteSum (file : Bytes) : Nat := (file.map UInt8.toNat).sum

/-- The numbers that `awk` adds up. -/
def printed (file : Bytes) : List Nat :=
  (abbreviate (blocks file)).flatMap fun block => (block.map fun b => b.map UInt8.toNat).getD [0]

/-- The sum of the bytes that `od` leaves out. -/
def omitted (file : Bytes) : Nat := ((repeats (blocks file)).map byteSum).sum

/-- As long as the bytes that are not left out add up to something that a `double` can count
to, nothing but zeros may be repeated. Behind that the file would have to be one for which
rounding the sum to 53 bits at each of its bytes makes up for what is left out. -/
def Summable (file : Bytes) : Prop :=
  if (printed file).sum ≤ 2 ^ 53 then ∀ block ∈ repeats (blocks file), ∀ x ∈ block, x = 0
  else roundingError 0 (printed file) = omitted file

/-! ## The text and its fields -/

/-- The blocks make up the file. -/
theorem flatten_blocks (file : Bytes) : (blocks file).flatten = file := by
  have front (n : Nat) : ((List.range n).map fun k =>
      (file.drop (lineWidth * k)).take lineWidth).flatten = file.take (lineWidth * n) := by
    induction n with
    | zero => rfl
    | succ n ih =>
        rw [List.range_succ, List.map_append, List.flatten_append, ih, List.map_singleton,
          List.flatten_singleton, Nat.mul_succ, List.take_add]
  rw [blocks, front]
  apply List.take_of_length_le
  show _ ≤ 16 * ((file.length + 15) / 16)
  omega

theorem sum_byteSum (bs : List Bytes) : (bs.map byteSum).sum = byteSum bs.flatten := by
  rw [byteSum, List.map_flatten, List.sum_flatten, List.map_map]
  rfl

theorem byteSum_eq_zero {b : Bytes} : byteSum b = 0 ↔ ∀ x ∈ b, x = 0 := by
  rw [byteSum, List.sum_eq_zero_iff_forall_eq_nat, List.forall_mem_map]
  constructor
  · intro zero x mem
    exact UInt8.toNat_inj.mp (zero x mem)
  · intro zero x mem
    rw [zero x mem]
    rfl

/-- Nothing is lost exactly if zeros only are left out. -/
theorem omitted_eq_zero {file : Bytes} :
    omitted file = 0 ↔ ∀ block ∈ repeats (blocks file), ∀ x ∈ block, x = 0 := by
  rw [omitted, List.sum_eq_zero_iff_forall_eq_nat, List.forall_mem_map]
  constructor
  · intro zero block mem
    exact byteSum_eq_zero.mp (zero block mem)
  · intro zero block mem
    exact byteSum_eq_zero.mpr (zero block mem)

/-- What is printed and what is left out make up the sum. -/
theorem sum_printed (file : Bytes) : (printed file).sum + omitted file = byteSum file := by
  have perBlock : (printed file).sum =
      ((abbreviate (blocks file)).map fun b => (b.map byteSum).getD 0).sum := by
    rw [printed, List.flatMap_def, List.sum_flatten, List.map_map]
    congr 1
    apply List.map_congr_left
    intro b _
    cases b with
    | none => rfl
    | some b => rfl
  rw [perBlock, omitted, sum_abbreviate, sum_byteSum, flatten_blocks]

/-! ## Cells and lines -/

theorem length_digits_le (x : UInt8) : (decimal x.toNat).length ≤ 3 :=
  length_decimal_le (by decide) (Nat.lt_trans x.toNat_lt (by decide))

/-- The columns of a cell: blanks, then the digits. -/
theorem cell_eq (x : UInt8) : ∃ k, cell x = List.replicate (k + 1) 32 ++ decimal x.toNat := by
  have digits := length_digits_le x
  have width : 4 - (decimal x.toNat).length = 3 - (decimal x.toNat).length + 1 := by omega
  exact ⟨3 - (decimal x.toNat).length, by rw [cell, width]⟩

theorem length_cell (x : UInt8) : (cell x).length = 4 := by
  have digits := length_digits_le x
  rw [cell, List.length_append, List.length_replicate]
  omega

theorem length_line (block : Bytes) : (line block).length = 4 * block.length := by
  induction block with
  | nil => rfl
  | cons x block ih =>
      rw [line] at ih ⊢
      rw [List.flatMap_cons, List.length_append, length_cell, ih, List.length_cons]
      omega

theorem mem_cell {x y : UInt8} (mem : y ∈ cell x) : y = 32 ∨ isdigit y = true := by
  rcases List.mem_append.mp mem with blank | digit
  · exact Or.inl (List.eq_of_mem_replicate blank)
  · exact Or.inr (isdigit_of_mem_decimal digit)

/-- The byte can be read from its cell. -/
theorem cell_injective : Function.Injective cell := by
  intro x y same
  have read (z : UInt8) : ofDecimal ((cell z).dropWhile (· == 32)) = z.toNat := by
    obtain ⟨k, eq⟩ := cell_eq z
    have stop : ∀ d ∈ (decimal z.toNat).head?, ¬ (d == 32) = true := by
      intro d head
      have digit := isdigit_of_mem_decimal (List.mem_of_mem_head? head)
      rw [beq_iff_eq]
      exact ne_of_isdigit digit rfl
    rw [eq, dropWhile_run (by simp) stop, ofDecimal_decimal]
  apply UInt8.toNat_inj.mp
  rw [← read x, same, read y]

/-- Lines of different bytes differ. -/
theorem line_injective : Function.Injective line := by
  intro a
  induction a with
  | nil =>
      intro b same
      have lengths := congrArg List.length same
      rw [length_line, length_line, List.length_nil] at lengths
      exact (List.eq_nil_of_length_eq_zero (by omega)).symm
  | cons x a ih =>
      intro b same
      cases b with
      | nil =>
          have lengths := congrArg List.length same
          rw [length_line, length_line, List.length_cons, List.length_nil] at lengths
          omega
      | cons y b =>
          rw [line, line, List.flatMap_cons, List.flatMap_cons] at same
          obtain ⟨first, rest⟩ := List.append_inj same (by rw [length_cell, length_cell])
          rw [cell_injective first, ih rest]

/-! ## Fields -/

theorem fields_append (a b : Bytes) : fields (a ++ 32 :: b) = fields a ++ fields b := by
  rw [fields, List.splitOnP_append_cons a b rfl, List.filter_append]
  rfl

theorem fields_nil : fields [] = [] := rfl

/-- A word is one field. -/
theorem fields_word {w : Bytes} (nonempty : w ≠ []) (plain : ∀ x ∈ w, isblank x = false) :
    fields w = [w] := by
  rw [fields, List.splitOnP_eq_singleton plain]
  exact List.filter_cons_of_pos (by simpa using nonempty)

/-- Blanks in front do not count. -/
theorem fields_blanks (k : Nat) (b : Bytes) : fields (List.replicate k 32 ++ b) = fields b := by
  induction k with
  | zero => rfl
  | succ k ih =>
      have front : List.replicate (k + 1) 32 ++ b = [] ++ 32 :: (List.replicate k 32 ++ b) := rfl
      rw [front, fields_append, ih]
      rfl

theorem fields_digits (n : Nat) : fields (decimal n) = [decimal n] := by
  apply fields_word (decimal_ne_nil n)
  intro x mem
  have digit := isdigit_of_mem_decimal mem
  rw [isblank, Bool.or_eq_false_iff]
  constructor
  · exact beq_false_of_ne (ne_of_isdigit digit rfl)
  · exact beq_false_of_ne (ne_of_isdigit digit rfl)

/-- Whatever cells follow it, a number is a field. -/
theorem fields_decimal_line (n : Nat) (block : Bytes) :
    fields (decimal n ++ line block) = decimal n :: fields (line block) := by
  cases block with
  | nil =>
      rw [line, List.flatMap_nil, List.append_nil, fields_digits]
      rfl
  | cons y block =>
      obtain ⟨k, eq⟩ := cell_eq y
      have blank : line (y :: block) =
          32 :: (List.replicate k 32 ++ decimal y.toNat ++ line block) := by
        rw [line, List.flatMap_cons, eq, List.replicate_succ]
        rfl
      have alone := fields_append [] (List.replicate k 32 ++ decimal y.toNat ++ line block)
      rw [List.nil_append, fields_nil, List.nil_append] at alone
      rw [blank, fields_append, fields_digits, alone]
      rfl

/-- The fields of a line are its bytes. -/
theorem fields_line (block : Bytes) : fields (line block) = block.map fun x => decimal x.toNat := by
  induction block with
  | nil => rfl
  | cons x block ih =>
      obtain ⟨k, eq⟩ := cell_eq x
      have first : line (x :: block) =
          List.replicate (k + 1) 32 ++ (decimal x.toNat ++ line block) := by
        rw [line, List.flatMap_cons, eq, List.append_assoc]
        rfl
      rw [first, fields_blanks, fields_decimal_line, ih, List.map_cons]

theorem value_decimal (n : Nat) : value (decimal n) = n := by
  have digits : (decimal n).takeWhile isdigit = decimal n := by
    rw [List.takeWhile_eq_self_iff]
    intro x mem
    exact isdigit_of_mem_decimal mem
  rw [value, digits, ofDecimal_decimal]

/-- **What `awk` adds up.** -/
theorem values_od (file : Bytes) :
    (((od file).splitOn 10).flatMap fields).map value = printed file := by
  have plain : ∀ l ∈ (abbreviate ((blocks file).map line)).map (fun l => l.getD (ascii "*")),
      (10 : UInt8) ∉ l := by
    rw [abbreviate_map line_injective, List.map_map]
    intro l mem eol
    obtain ⟨block, -, rfl⟩ := List.mem_map.mp mem
    cases block with
    | none => exact absurd eol (by decide)
    | some block =>
        obtain ⟨x, -, inCell⟩ := List.mem_flatMap.mp eol
        rcases mem_cell inCell with blank | digit
        · cases blank
        · cases digit
  have records : (od file).splitOn 10 =
      (abbreviate ((blocks file).map line)).map (fun l => l.getD (ascii "*")) ++ [[]] := by
    rw [← splitOn_terminated plain, List.map_map]
    rfl
  rw [records, abbreviate_map line_injective, List.flatMap_append, List.map_map, List.map_append,
    List.flatMap_map, List.map_flatMap, printed]
  have last : ([[]].flatMap fields).map value = [] := rfl
  rw [last, List.append_nil]
  apply List.flatMap_congr
  intro block _
  cases block with
  | none => rfl
  | some block =>
      show (fields (line block)).map value = block.map UInt8.toNat
      rw [fields_line, List.map_map]
      apply List.map_congr_left
      intro x _
      exact value_decimal x.toNat

/-- Exactly when the sum that is printed is the sum of the bytes. -/
theorem fileSum_eq_iff (file : Bytes) : fileSum file = decimal (byteSum file) ↔ Summable file := by
  have text : fileSum file = decimal (addDoubles 0 (printed file)) := by
    rw [fileSum, awk, values_od]
  have number : fileSum file = decimal (byteSum file) ↔
      addDoubles 0 (printed file) = byteSum file := by
    rw [text]
    constructor
    · intro same
      rw [← ofDecimal_decimal (addDoubles 0 (printed file)), same, ofDecimal_decimal]
    · exact congrArg decimal
  have total := sum_printed file
  have sum := addDoubles_eq 0 (printed file)
  rw [Nat.zero_add] at sum
  rw [number, Summable]
  split
  · rename_i small
    have exact : roundingError 0 (printed file) = 0 :=
      roundingError_eq_zero (by omega)
    rw [← omitted_eq_zero]
    omega
  · omega

end Osisp.Sums
