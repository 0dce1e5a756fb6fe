import Mathlib
import Osisp.Lib.Bytes
import Osisp.Lib.Literals

/-!
# The awk program of the CSV converter

The first two lines of the file name the table and its columns. Each further line
that is not empty becomes an `INSERT`: its pieces between commas are trimmed, an
empty one and `NULL` become `NULL`, what looks like a number stays as it is, and
everything else is quoted.
-/

namespace Osisp.Csv

open Lib

/-- `\047`. -/
def quote : UInt8 := 39

def comma : UInt8 := 44

def newline : UInt8 := 10

/-- The class `[ \t]`. -/
def blank (x : UInt8) : Bool := x == 32 || x == 9

/-- The class `[0-9]`. -/
def digit (x : UInt8) : Bool := 48 ≤ x && x ≤ 57

def dot : UInt8 := 46

def minus : UInt8 := 45

/-- `gsub(/^[ \t]+|[ \t]+$/, "", $i)`. -/
def trim (field : Bytes) : Bytes := (field.dropWhile blank).rdropWhile blank

/-- `-?`, left out. -/
def unsigned : Bytes → Bytes
  | [] => []
  | x :: l => if x = minus then l else x :: l

/-- `$i ~ /^-?[0-9.]+$/`. -/
def numeric (s : Bytes) : Bool :=
  unsigned s ≠ [] && (unsigned s).all fun x => digit x || x == dot

/-- `$i == "" || $i == "NULL"`. -/
def null (s : Bytes) : Bool := s == [] || s == ascii "NULL"

/-- What a trimmed field becomes. -/
def value (s : Bytes) : Bytes :=
  if null s then ascii "NULL"
  else if numeric s then s
  else [quote] ++ doubled quote s ++ [quote]

/-- `NF` pieces; an empty record has none. -/
def fields (line : Bytes) : List Bytes := if line = [] then [] else line.splitOn comma

/-- The loop over the fields. -/
def valList (line : Bytes) : Bytes :=
  (fields line).foldl
    (fun val_list field =>
      (if val_list = [] then [] else val_list ++ ascii ", ") ++ value (trim field)) []

/-- `printf "INSERT INTO %s (%s) VALUES (%s);\n"`. -/
def insertInto (table cols line : Bytes) : Bytes :=
  ascii "INSERT INTO " ++ table ++ ascii " (" ++ cols ++ ascii ") VALUES (" ++
    (valList line ++ ascii ");\n")

/-- The records of a file, the last one with or without its terminator. -/
def records (file : Bytes) : List Bytes :=
  if (file.splitOn newline).getLast? = some [] then (file.splitOn newline).dropLast
  else file.splitOn newline

/-- `NR > 2 && NF > 0`. -/
def dataLines (file : Bytes) : List Bytes :=
  ((records file).drop 2).filter fun line => 0 < (fields line).length

/-- What goes to the output file. -/
def script (table cols file : Bytes) : Bytes :=
  (dataLines file).flatMap (insertInto table cols)

/-! ## Values and lists -/

theorem value_of_null {s : Bytes} (h : null s) : value s = ascii "NULL" := if_pos h

theorem value_of_numeric {s : Bytes} (text : ¬ null s) (h : numeric s) : value s = s := by
  rw [value, if_neg text, if_pos h]

theorem value_of_text {s : Bytes} (text : ¬ null s) (h : ¬ numeric s) :
    value s = literal quote s := by
  rw [value, if_neg text, if_neg h]
  rfl

theorem numeric_null {s : Bytes} (h : null s) : ¬ numeric s := by
  simp only [null, Bool.or_eq_true, beq_iff_eq] at h
  rcases h with rfl | rfl <;> decide

theorem numeric_ne_nil {s : Bytes} (h : numeric s) : s ≠ [] := by
  rintro rfl
  exact absurd h (by decide)

/-- Nothing is left out: a value is never empty. -/
theorem value_ne_nil (s : Bytes) : value s ≠ [] := by
  by_cases text : null s
  · rw [value_of_null text]
    decide
  · by_cases number : numeric s
    · rw [value_of_numeric text number]
      exact numeric_ne_nil number
    · rw [value_of_text text number]
      exact List.cons_ne_nil _ _

theorem foldl_values (fs : List Bytes) (done : Bytes) (some_ : done ≠ []) :
    fs.foldl (fun val_list field =>
        (if val_list = [] then [] else val_list ++ ascii ", ") ++ value (trim field)) done =
      (ascii ", ").intercalate (done :: fs.map fun field => value (trim field)) := by
  induction fs generalizing done with
  | nil => rw [List.foldl_nil, List.map_nil, List.intercalate_singleton]
  | cons f fs ih =>
      have next : done ++ ascii ", " ++ value (trim f) ≠ [] :=
        List.append_ne_nil_of_right_ne_nil _ (value_ne_nil _)
      rw [List.foldl_cons, if_neg some_, ih _ next, List.map_cons, List.intercalate_cons_cons]
      cases fs with
      | nil => simp only [List.map_nil, List.intercalate_singleton]
      | cons g gs =>
          simp only [List.map_cons, List.intercalate_cons_cons, List.append_assoc]

/-- The list of values, separated by a comma and a blank. -/
theorem valList_eq (line : Bytes) :
    valList line =
      (ascii ", ").intercalate ((fields line).map fun field => value (trim field)) := by
  rw [valList]
  cases fields line with
  | nil => rfl
  | cons f fs =>
      rw [List.foldl_cons, if_pos rfl, List.nil_append, foldl_values fs _ (value_ne_nil _),
        List.map_cons]

theorem fields_ne_nil {file line : Bytes} (data : line ∈ dataLines file) : fields line ≠ [] := by
  have some_ := (List.mem_filter.mp data).2
  exact List.length_pos_iff.mp (of_decide_eq_true some_)

/-! ## Trimming -/

/-- `t` is `field` without the blanks and tabs at its ends. -/
structure Trimmed (field t : Bytes) : Prop where
  within : ∃ before behind, field = before ++ t ++ behind ∧
    (∀ x ∈ before, blank x) ∧ ∀ x ∈ behind, blank x
  head : ∀ x ∈ t.head?, ¬ blank x
  last : ∀ x ∈ t.getLast?, ¬ blank x

theorem trimmed_trim (field : Bytes) : Trimmed field (trim field) := by
  have rest : field.dropWhile blank = trim field ++ (field.dropWhile blank).rtakeWhile blank :=
    List.rdropWhile_append_rtakeWhile.symm
  refine ⟨⟨field.takeWhile blank, (field.dropWhile blank).rtakeWhile blank, ?_, ?_, ?_⟩, ?_, ?_⟩
  · rw [List.append_assoc, ← rest, List.takeWhile_append_dropWhile]
  · exact fun x mem => List.mem_takeWhile_imp mem
  · exact fun x mem => List.mem_rtakeWhile_imp mem
  · intro x head
    have first : (field.dropWhile blank).head? = some x := by
      rw [rest, List.head?_append, Option.mem_def.mp head]
      rfl
    have stop := List.head?_dropWhile_not blank field
    rw [first] at stop
    simpa using stop
  · intro x last
    obtain ⟨some_, rfl⟩ := List.mem_getLast?_eq_getLast last
    exact List.rdropWhile_last_not blank _ some_

end Osisp.Csv
