import Mathlib
import Osisp.Csv.Convert

/-!
# What the generated values mean

Read as SQL, the values of a line are its fields again, and nothing in a field
reaches beyond its own value. What stays without quotes is not always a number: the
regular expression counts neither the dots nor the digits.
-/

namespace Osisp.Csv

open Lib

/-! ## Reading the values back -/

/-- What an SQL reader makes of an item: `NULL`, a literal, or a text without quotes. -/
def decode (item : Bytes) : Option (Option Bytes) :=
  if item = ascii "NULL" then some none
  else if item.head? = some quote then (literalText quote item.tail).map some
  else if quote ∈ item then none
  else some (some item)

/-- What a trimmed field stands for. -/
def reading (t : Bytes) : Option Bytes := if t = [] ∨ t = ascii "NULL" then none else some t

/-- The symbols of the SQL list. -/
abbrev scanValues (text : Bytes) : Option (List Bytes × Bytes) :=
  scanItems quote comma 32 41 false [] text

theorem mem_unsigned {s : Bytes} {x : UInt8} (mem : x ∈ s) : x = minus ∨ x ∈ unsigned s := by
  cases s with
  | nil => exact absurd mem List.not_mem_nil
  | cons y l =>
      rw [unsigned]
      split
      case isTrue sign =>
        rcases List.mem_cons.mp mem with rfl | behind
        · exact Or.inl sign
        · exact Or.inr behind
      case isFalse _ => exact Or.inr mem

/-- A number has none of the symbols that the list is read by. -/
theorem numeric_symbols {s : Bytes} (h : numeric s) {x : UInt8} (mem : x ∈ s) :
    x ≠ quote ∧ x ≠ comma ∧ x ≠ 41 := by
  have all := List.all_eq_true.mp (Bool.and_eq_true_iff.mp h).2
  rcases mem_unsigned mem with rfl | body
  · decide
  · have symbol := all x body
    simp only [digit, Bool.or_eq_true, Bool.and_eq_true, decide_eq_true_eq, beq_iff_eq] at symbol
    rcases symbol with range | rfl
    · refine ⟨?_, ?_, ?_⟩ <;> rintro rfl <;> exact absurd range.1 (by decide)
    · decide

theorem isItem_bare {s : Bytes} (plain : ∀ x ∈ s, x ≠ quote ∧ x ≠ comma ∧ x ≠ 41) :
    IsItem quote comma 32 41 s := scanItems_bare plain

/-- Each value is read to its end. -/
theorem isItem_value (t : Bytes) : IsItem quote comma 32 41 (value t) := by
  by_cases text : null t
  · rw [value_of_null text]
    exact isItem_bare (by simp [ascii, quote, comma])
  · by_cases number : numeric t
    · rw [value_of_numeric text number]
      exact isItem_bare fun x mem => numeric_symbols number mem
    · rw [value_of_text text number]
      exact scanItems_literal (by decide) (by decide) t

theorem decode_value (t : Bytes) : decode (value t) = some (reading t) := by
  by_cases text : null t
  · have either : t = [] ∨ t = ascii "NULL" := by
      simpa only [null, Bool.or_eq_true, beq_iff_eq] using text
    rw [value_of_null text, decode, if_pos rfl, reading, if_pos either]
  · have neither : ¬ (t = [] ∨ t = ascii "NULL") := by
      simpa only [null, Bool.or_eq_true, beq_iff_eq] using text
    rw [reading, if_neg neither]
    by_cases number : numeric t
    · have plain : quote ∉ t := fun mem => (numeric_symbols number mem).1 rfl
      have bare : t.head? ≠ some quote := fun head => plain (List.mem_of_head? head)
      rw [value_of_numeric text number, decode, if_neg fun eq => neither (Or.inr eq),
        if_neg bare, if_neg plain]
    · have starts : literal quote t ≠ ascii "NULL" := by
        rw [literal, show ascii "NULL" = 78 :: ascii "ULL" from rfl]
        exact fun eq => absurd (List.cons.inj eq).1 (by decide)
      have opens : (literal quote t).head? = some quote := rfl
      rw [value_of_text text number, decode, if_neg starts, if_pos opens, literal,
        List.tail_cons, literalText_doubled, Option.map_some]

/-- Read as SQL up to its closing parenthesis, the list of values of a line has one
item for each field, and in order they stand for the trimmed fields. -/
theorem values_decode (file line : Bytes) (data : line ∈ dataLines file) :
    ∃ items, scanValues (valList line ++ ascii ");\n") = some (items, ascii ";\n") ∧
      items.length = (fields line).length ∧
      List.Forall₂ (fun field item => ∃ t, Trimmed field t ∧ decode item = some (reading t))
        (fields line) items := by
  refine ⟨(fields line).map fun field => value (trim field), ?_, List.length_map _, ?_⟩
  · have some_ : (fields line).map (fun field => value (trim field)) ≠ [] := by
      rw [Ne, List.map_eq_nil_iff]
      exact fields_ne_nil data
    have whole : ∀ s ∈ (fields line).map (fun field => value (trim field)),
        IsItem quote comma 32 41 s := by
      intro s mem
      obtain ⟨field, -, rfl⟩ := List.mem_map.mp mem
      exact isItem_value _
    rw [valList_eq]
    exact scanItems_intercalate (by decide) some_ whole _
  · rw [List.forall₂_map_right_iff, List.forall₂_same]
    exact fun field _ => ⟨trim field, trimmed_trim field, decode_value _⟩

/-- `1, O'Neil` and an empty field behind two lines. -/
theorem values_decode_quote :
    ∃ items, scanValues (valList (ascii "1, O'Neil,") ++ ascii ");\n") =
        some (items, ascii ";\n") ∧
      items.length = (fields (ascii "1, O'Neil,")).length ∧
      List.Forall₂ (fun field item => ∃ t, Trimmed field t ∧ decode item = some (reading t))
        (fields (ascii "1, O'Neil,")) items :=
  values_decode (ascii "t\nid,name,note\n1, O'Neil,\n") _ (by decide)

/-! ## Numbers -/

/-- A numeric literal of SQL: a sign, digits, and among them at most one point. -/
def NumericLiteral (s : Bytes) : Prop :=
  ∃ sign whole frac, s = sign ++ whole ++ frac ∧ (sign = [] ∨ sign = [minus]) ∧
    (∀ x ∈ whole, digit x) ∧ (frac = [] ∨ ∃ ds, frac = dot :: ds ∧ ∀ x ∈ ds, digit x) ∧
    ∃ x ∈ whole ++ frac, digit x

/-- Digits and dots, behind a minus sign or not, with a dot too many or no digit. -/
def Astray (s : Bytes) : Prop :=
  numeric s ∧ (2 ≤ (unsigned s).count dot ∨ ∀ x ∈ unsigned s, ¬ digit x)

instance (s : Bytes) : Decidable (Astray s) :=
  inferInstanceAs (Decidable (numeric s ∧ (2 ≤ (unsigned s).count dot ∨
    ∀ x ∈ unsigned s, ¬ digit x)))

theorem sign_append_unsigned (s : Bytes) :
    ∃ sign, s = sign ++ unsigned s ∧ (sign = [] ∨ sign = [minus]) := by
  cases s with
  | nil => exact ⟨[], rfl, Or.inl rfl⟩
  | cons x l =>
      by_cases sign : x = minus
      · exact ⟨[x], by rw [unsigned, if_pos sign]; rfl, Or.inr (by rw [sign])⟩
      · exact ⟨[], by rw [unsigned, if_neg sign]; rfl, Or.inl rfl⟩

theorem unsigned_of_not_minus {s : Bytes} (first : minus ∉ s.head?) : unsigned s = s := by
  cases s with
  | nil => rfl
  | cons x l =>
      have ne : x ≠ minus := by
        rintro rfl
        exact first rfl
      rw [unsigned, if_neg ne]

theorem digit_ne_dot {x : UInt8} (h : digit x) : x ≠ dot := by
  rintro rfl
  exact absurd h (by decide)

/-- Digits and dots are a number exactly if there is a digit and at most one dot. -/
theorem numericLiteral_iff {s : Bytes} (h : numeric s) :
    NumericLiteral s ↔ (unsigned s).count dot < 2 ∧ ∃ x ∈ unsigned s, digit x := by
  have all := List.all_eq_true.mp (Bool.and_eq_true_iff.mp h).2
  have symbol : ∀ x ∈ unsigned s, digit x ∨ x = dot := by
    intro x mem
    simpa only [Bool.or_eq_true, beq_iff_eq] using all x mem
  constructor
  · rintro ⟨sign, whole, frac, rfl, signs, digits, point, some_⟩
    have body : unsigned (sign ++ whole ++ frac) = whole ++ frac := by
      rcases signs with rfl | rfl
      · refine unsigned_of_not_minus fun first => ?_
        have mem : minus ∈ whole ++ frac := List.mem_of_head? first
        rcases List.mem_append.mp mem with front | behind
        · exact absurd (digits minus front) (by decide)
        · rcases point with rfl | ⟨ds, rfl, more⟩
          · exact absurd behind List.not_mem_nil
          · rcases List.mem_cons.mp behind with eq | tail
            · exact absurd eq (by decide)
            · exact absurd (more minus tail) (by decide)
      · rw [List.append_assoc, List.singleton_append, unsigned, if_pos rfl]
    have front : whole.count dot = 0 :=
      List.count_eq_zero.mpr fun mem => digit_ne_dot (digits dot mem) rfl
    rw [body, List.count_append, front]
    refine ⟨?_, some_⟩
    rcases point with rfl | ⟨ds, rfl, more⟩
    · decide
    · have rest : ds.count dot = 0 :=
        List.count_eq_zero.mpr fun mem => digit_ne_dot (more dot mem) rfl
      rw [List.count_cons_self, rest]
      decide
  · rintro ⟨few, some_⟩
    obtain ⟨sign, parts, signs⟩ := sign_append_unsigned s
    have cut := List.takeWhile_append_dropWhile (p := (· ≠ dot)) (l := unsigned s)
    refine ⟨sign, (unsigned s).takeWhile (· ≠ dot), (unsigned s).dropWhile (· ≠ dot), ?_, signs,
      ?_, ?_, ?_⟩
    · rw [List.append_assoc, cut, ← parts]
    · intro x mem
      have ne : x ≠ dot := by simpa using List.mem_takeWhile_imp mem
      exact (symbol x ((List.takeWhile_prefix _).subset mem)).resolve_right ne
    · cases behind : (unsigned s).dropWhile (· ≠ dot) with
      | nil => exact Or.inl rfl
      | cons x ds =>
          have stop := List.head?_dropWhile_not (· ≠ dot) (unsigned s)
          rw [behind] at stop
          have point : x = dot := by simpa using stop
          subst point
          rw [← cut, behind, List.count_append, List.count_cons_self] at few
          refine Or.inr ⟨ds, rfl, fun y mem => ?_⟩
          have ne : y ≠ dot := by
            rintro rfl
            have again := List.count_pos_iff.mpr mem
            omega
          have inside : y ∈ unsigned s := by
            rw [← cut, behind]
            exact List.mem_append_right _ (List.mem_cons_of_mem _ mem)
          exact (symbol y inside).resolve_right ne
    · rwa [cut]

/-- The field is a number if it is written without quotes, other than as `NULL`. -/
def SoundField (field : Bytes) : Prop :=
  value (trim field) ≠ ascii "NULL" → (value (trim field)).head? ≠ some quote →
    NumericLiteral (trim field)

theorem soundField_iff (field : Bytes) : SoundField field ↔ ¬ Astray (trim field) := by
  by_cases number : numeric (trim field)
  · have text : ¬ null (trim field) := fun null => numeric_null null number
    have bare : (trim field).head? ≠ some quote := fun head =>
      (numeric_symbols number (List.mem_of_head? head)).1 rfl
    have other : trim field ≠ ascii "NULL" := fun eq => text (by rw [eq]; decide)
    rw [SoundField, value_of_numeric text number, Astray, numericLiteral_iff number]
    simp only [ne_eq, other, bare, not_false_iff, forall_const, number, true_and, not_or,
      not_le, not_forall, not_not, exists_prop]
  · refine iff_of_true ?_ fun astray => number astray.1
    intro other bare
    by_cases text : null (trim field)
    · exact absurd (value_of_null text) other
    · rw [value_of_text text number] at bare
      exact absurd rfl bare

/-- In all of a file, what is written without quotes is a number, unless a trimmed
field has digits and dots only and not those of a number. -/
theorem unquoted_numbers_iff (file : Bytes) :
    (∀ line ∈ dataLines file, ∀ field ∈ fields line, SoundField field) ↔
      ∀ line ∈ dataLines file, ∀ field ∈ fields line, ¬ Astray (trim field) := by
  constructor
  · exact fun sound line data field mem => (soundField_iff field).mp (sound line data field mem)
  · exact fun plain line data field mem => (soundField_iff field).mpr (plain line data field mem)

/-- A version number is written as it is. -/
theorem unquoted_version :
    ¬ ∀ line ∈ dataLines (ascii "t\nid,version\n1,1.2.3\n"), ∀ field ∈ fields line,
      SoundField field := by
  intro sound
  have field := sound (ascii "1,1.2.3") (by decide) (ascii "1.2.3") (by decide)
  exact (soundField_iff _).mp field (by decide)

end Osisp.Csv
