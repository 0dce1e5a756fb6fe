import Mathlib
import Osisp.Csv.Values

/-!
# Reading the generated script

An SQL reader takes the script apart at the semicolons outside literals, and each statement
at the commas. Whatever the file has in its fields, quotes, semicolons and parentheses too,
it finds one `INSERT` for each line of data and in it one value for each field
(`script_read`). Only the table and its columns are taken over as they are.
-/

namespace Osisp.Csv

open Lib

def semicolon : UInt8 := 59

/-- What stands before the values. -/
def insertFront (table cols : Bytes) : Bytes :=
  ascii "INSERT INTO " ++ table ++ ascii " (" ++ cols ++ ascii ") VALUES ("

/-- The row that a statement inserts into the table, if it does nothing else. -/
def readInsert (table cols statement : Bytes) : Option (List (Option Bytes)) :=
  if insertFront table cols <+: statement then
    match scanValues (statement.drop (insertFront table cols).length) with
    | some (items, []) => items.mapM decode
    | _ => none
  else none

/-- The rows that a script inserts, if each statement of it inserts one. -/
def readScript (table cols text : Bytes) : Option (List (List (Option Bytes))) :=
  (scanStatements quote semicolon newline false [] text).bind fun statements =>
    statements.mapM (readInsert table cols)

/-- What the fields of a line stand for. -/
def row (line : Bytes) : List (Option Bytes) := (fields line).map fun field => reading (trim field)

/-- A statement without its end. -/
def insertText (table cols line : Bytes) : Bytes :=
  insertFront table cols ++ (valList line ++ ascii ")")

variable {table cols line file : Bytes}

theorem insertInto_eq (table cols line : Bytes) :
    insertInto table cols line = insertText table cols line ++ [semicolon, newline] := by
  have close : ascii ");\n" = ascii ")" ++ [semicolon, newline] := rfl
  rw [insertInto, insertText, insertFront, close]
  simp only [List.append_assoc]

/-! ## One statement -/

/-- What a number is made of ends no statement. -/
theorem numeric_ne_semicolon {s : Bytes} (h : numeric s) : ∀ x ∈ s, x ≠ quote ∧ x ≠ semicolon := by
  intro x mem
  refine ⟨(numeric_symbols h mem).1, ?_⟩
  rintro rfl
  rcases mem_unsigned mem with sign | body
  · exact absurd sign (by decide)
  · have symbol := List.all_eq_true.mp (Bool.and_eq_true_iff.mp h).2 semicolon body
    exact absurd symbol (by decide)

theorem isPart_value (t : Bytes) : IsPart quote semicolon newline (value t) := by
  by_cases text : null t
  · rw [value_of_null text]
    exact isPart_bare (by decide +kernel)
  · by_cases number : numeric t
    · rw [value_of_numeric text number]
      exact isPart_bare (numeric_ne_semicolon number)
    · rw [value_of_text text number]
      exact isPart_literal (by decide) t

theorem isPart_valList (line : Bytes) : IsPart quote semicolon newline (valList line) := by
  rw [valList_eq]
  refine IsPart.intercalate (isPart_bare (by decide +kernel)) fun s mem => ?_
  obtain ⟨field, -, rfl⟩ := List.mem_map.mp mem
  exact isPart_value _

theorem isStatement_insert (plain : ∀ x ∈ table ++ cols, x ≠ quote ∧ x ≠ semicolon)
    (line : Bytes) : IsStatement quote semicolon newline (insertText table cols line) := by
  have front : IsPart quote semicolon newline
      (ascii "NSERT INTO " ++ table ++ ascii " (" ++ cols ++ ascii ") VALUES (") := by
    rw [List.forall_mem_append] at plain
    have insert : IsPart quote semicolon newline (ascii "NSERT INTO ") :=
      isPart_bare (by decide +kernel)
    have opens : IsPart quote semicolon newline (ascii " (") := isPart_bare (by decide +kernel)
    have values : IsPart quote semicolon newline (ascii ") VALUES (") :=
      isPart_bare (by decide +kernel)
    exact (((insert.append (isPart_bare plain.1)).append opens).append
      (isPart_bare plain.2)).append values
  exact ⟨73, _, rfl, by decide, by decide, by decide,
    front.append ((isPart_valList line).append (isPart_bare (by decide +kernel)))⟩

theorem mapM_eq_map {α β : Type} {f : α → Option β} {g : α → β} {l : List α}
    (each : ∀ x ∈ l, f x = some (g x)) : l.mapM f = some (l.map g) := by
  induction l with
  | nil => rfl
  | cons x l ih =>
      rw [List.forall_mem_cons] at each
      rw [List.mapM_cons, each.1, ih each.2]
      rfl

theorem readInsert_insertText (some_ : fields line ≠ []) :
    readInsert table cols (insertText table cols line) = some (row line) := by
  have items : (fields line).map (fun field => value (trim field)) ≠ [] := by
    rwa [Ne, List.map_eq_nil_iff]
  have whole : ∀ s ∈ (fields line).map (fun field => value (trim field)),
      IsItem quote comma 32 41 s := by
    intro s mem
    obtain ⟨field, -, rfl⟩ := List.mem_map.mp mem
    exact isItem_value _
  have scanned : scanValues (valList line ++ ascii ")") =
      some ((fields line).map fun field => value (trim field), []) := by
    rw [valList_eq]
    exact scanItems_intercalate (by decide) items whole []
  rw [readInsert, insertText, if_pos (List.prefix_append _ _), List.drop_left, scanned]
  simp only
  rw [List.mapM_map, row]
  exact mapM_eq_map fun field _ => decode_value (trim field)

/-! ## The script -/

/-- The script is read back to the data: nothing in a field ends a value or a statement, or
begins one. -/
theorem script_read (table cols file : Bytes)
    (plain : ∀ x ∈ table ++ cols, x ≠ quote ∧ x ≠ semicolon) :
    readScript table cols (script table cols file) = some ((dataLines file).map row) := by
  have text : script table cols file =
      ((dataLines file).map (insertText table cols)).flatMap (· ++ [semicolon, newline]) := by
    rw [List.flatMap_map]
    exact List.flatMap_congr fun line _ => insertInto_eq table cols line
  have whole : ∀ s ∈ (dataLines file).map (insertText table cols),
      IsStatement quote semicolon newline s := by
    intro s mem
    obtain ⟨line, -, rfl⟩ := List.mem_map.mp mem
    exact isStatement_insert plain line
  rw [readScript, text, scanStatements_terminated whole, Option.bind_some, List.mapM_map]
  exact mapM_eq_map fun line data => readInsert_insertText (fields_ne_nil data)

/-- A field that looks like the end of a statement and the beginning of another one. -/
theorem script_read_quote :
    readScript (ascii "t") (ascii "id,name")
        (script (ascii "t") (ascii "id,name") (ascii "t\nid,name\n1, O'Neil\n2,'); DROP t;\n")) =
      some [[some (ascii "1"), some (ascii "O'Neil")],
        [some (ascii "2"), some (ascii "'); DROP t;")]] := by
  have rows : (dataLines (ascii "t\nid,name\n1, O'Neil\n2,'); DROP t;\n")).map row =
      [[some (ascii "1"), some (ascii "O'Neil")],
        [some (ascii "2"), some (ascii "'); DROP t;")]] := by
    decide +kernel
  rw [← rows]
  exact script_read _ _ _ (by decide +kernel)

end Osisp.Csv
