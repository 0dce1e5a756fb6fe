import Osisp.Fifo.Parse
import Osisp.Lib.Runs

/-!
# What the user typed

The command of a line is its first word, and its text what follows the command and
the spaces behind it. `parse_command` finds both in a line that begins with the
command and is short enough for the array `input`; an empty text becomes
`Hello, Server!`.
-/

namespace Osisp.Fifo

open Lib Censor

/-- The commands that take a text. -/
def dataCommands : List (Bytes × RequestType) :=
  [(ascii "echo", .echo), (ascii "upper", .upper), (ascii "lower", .lower),
    (ascii "length", .length), (ascii "reverse", .reverse)]

def dataCommand (word : Bytes) : Option RequestType := dataCommands.lookup word

/-- The first word, between blanks. -/
def firstWord (line : Bytes) : Bytes :=
  (line.dropWhile isspace).takeWhile fun x => !isspace x

/-- The text after the first word and the spaces that follow it. -/
def textAfter (line : Bytes) : Bytes :=
  ((line.dropWhile isspace).dropWhile fun x => !isspace x).dropWhile (· == 32)

/-- No blanks stand before the command. -/
def Unpadded (line : Bytes) : Prop := ∀ x ∈ line.head?, ¬ isspace x

/-- The array `input` has room for the line, or for as much of its text as a request
has. -/
def Reached (line : Bytes) : Prop :=
  line.length < inputSize ∨ line.length - (textAfter line).length ≤ 256

instance (line : Bytes) : Decidable (Unpadded line) :=
  inferInstanceAs (Decidable (∀ x ∈ line.head?, ¬ isspace x))

instance (line : Bytes) : Decidable (Reached line) := inferInstanceAs (Decidable (_ ∨ _))

/-- The command of the line and the given text of it. -/
def ParsedAs (line text : Bytes) (parsed : Parsed) : Prop :=
  ∀ type, dataCommand (firstWord line) = some type →
    ∃ data, parsed = .command type data ∧ IsString msgSize data text

/-! ## Commands are short words -/

theorem of_dataCommand {word : Bytes} {type : RequestType} (h : dataCommand word = some type) :
    (word, type) ∈ dataCommands := by
  obtain ⟨before, behind, parts, -⟩ := List.lookup_eq_some_iff.mp h
  rw [parts]
  exact List.mem_append_right _ List.mem_cons_self

theorem commandType_of_data {word : Bytes} {type : RequestType}
    (h : dataCommand word = some type) : commandType word = some type ∧ type ≠ .quit := by
  have mem := of_dataCommand h
  simp only [dataCommands, List.mem_cons, Prod.mk.injEq, List.not_mem_nil, or_false] at mem
  rcases mem with ⟨rfl, rfl⟩ | ⟨rfl, rfl⟩ | ⟨rfl, rfl⟩ | ⟨rfl, rfl⟩ | ⟨rfl, rfl⟩ <;> decide

theorem command_word {word : Bytes} {type : RequestType} (h : dataCommand word = some type) :
    word ≠ [] ∧ word.length ≤ 7 ∧ (0 : UInt8) ∉ word := by
  have mem := of_dataCommand h
  simp only [dataCommands, List.mem_cons, Prod.mk.injEq, List.not_mem_nil, or_false] at mem
  rcases mem with ⟨rfl, -⟩ | ⟨rfl, -⟩ | ⟨rfl, -⟩ | ⟨rfl, -⟩ | ⟨rfl, -⟩ <;> decide

/-! ## What is left of a line in a C string -/

theorem cstr_append {a : Bytes} (noNul : (0 : UInt8) ∉ a) (b : Bytes) :
    cstr (a ++ b) = a ++ cstr b := by
  refine List.takeWhile_append_of_pos fun x mem => decide_eq_true ?_
  rintro rfl
  exact noNul mem

theorem head_of_part {t u : Bytes} {x : UInt8} (part : u <+: t) (head : x ∈ u.head?) :
    x ∈ t.head? := by
  cases u with
  | nil => cases head
  | cons y u =>
      obtain ⟨rest, rfl⟩ := part
      exact head

theorem textAfter_head {line : Bytes} : ∀ x ∈ (textAfter line).head?, x ≠ 32 := by
  intro x head
  have stop := List.head?_dropWhile_not (· == (32 : UInt8))
    ((line.dropWhile isspace).dropWhile fun x => !isspace x)
  rw [textAfter] at head
  rw [Option.mem_def.mp head] at stop
  simpa using stop

/-- Only the first 255 bytes of a text matter. -/
theorem dataText_congr {t u : Bytes} (same : t.take (msgSize - 1) = u.take (msgSize - 1)) :
    dataText t = dataText u := by
  have empty : t = [] ↔ u = [] := by
    have nil (v : Bytes) : v.take (msgSize - 1) = [] ↔ v = [] := by
      rw [List.take_eq_nil_iff]
      exact or_iff_right (by decide)
    rw [← nil t, ← nil u, same]
  simp only [dataText, same, empty]

/-- A line in three parts: its command, spaces, and its text. -/
theorem line_parts {line : Bytes} (unpadded : Unpadded line) :
    ∃ spaces, line = firstWord line ++ (spaces ++ textAfter line) ∧ (∀ x ∈ spaces, x = 32) ∧
      ∀ x ∈ (spaces ++ textAfter line).head?, isspace x := by
  have first : line.dropWhile isspace = line := dropWhile_of_head unpadded
  have behind := List.takeWhile_append_dropWhile (p := (· == (32 : UInt8)))
    (l := line.dropWhile fun x => !isspace x)
  have whole := List.takeWhile_append_dropWhile (p := fun x => !isspace x) (l := line)
  rw [firstWord, textAfter, first]
  refine ⟨(line.dropWhile fun x => !isspace x).takeWhile (· == 32), ?_, ?_, ?_⟩
  · rw [behind, whole]
  · intro x mem
    simpa using List.mem_takeWhile_imp mem
  · intro x head
    rw [behind] at head
    have stop := List.head?_dropWhile_not (fun x => !isspace x) line
    rw [Option.mem_def.mp head] at stop
    simpa using stop

/-- The command is the word that `sscanf` finds. -/
theorem scanWord_command {word rest : Bytes} (more : word ≠ []) (short : word.length ≤ 31)
    (plain : ∀ x ∈ word, ¬ isspace x) (sep : ∀ x ∈ rest.head?, isspace x) :
    scanWord (word ++ rest) = word := by
  have first : (word ++ rest).dropWhile isspace = word ++ rest := by
    cases word with
    | nil => exact absurd rfl more
    | cons x word => exact List.dropWhile_cons_of_neg (plain x List.mem_cons_self)
  have stop : ∀ x ∈ rest.head?, ¬ (!isspace x) = true := fun x head => by
    simpa using sep x head
  have all : ∀ x ∈ word, (!isspace x) = true := fun x mem => by simpa using plain x mem
  rw [scanWord, first, takeWhile_run all stop, List.take_of_length_le short]

theorem mem_firstWord {line : Bytes} {x : UInt8} (mem : x ∈ firstWord line) : ¬ isspace x := by
  simpa using List.mem_takeWhile_imp mem

/-- A line that begins with a data command and is reached is parsed as it was typed. -/
theorem parsedAs_of_string {line : Bytes} {parsed : Parsed} (unpadded : Unpadded line)
    (reached : Reached line) (h : ParsesTo (cstr (line.take (inputSize - 1))) parsed) :
    ParsedAs line (dataText (cstr (textAfter line))) parsed := by
  intro type command
  obtain ⟨more, short, noNul⟩ := command_word command
  obtain ⟨selected, notQuit⟩ := commandType_of_data command
  obtain ⟨spaces, parts, blanks, sep⟩ := line_parts unpadded
  have plain : ∀ x ∈ firstWord line, ¬ isspace x := fun x mem => mem_firstWord mem
  have first : ∀ x ∈ (textAfter line).head?, x ≠ 32 := textAfter_head
  have lengths := congrArg List.length parts
  rw [List.length_append, List.length_append] at lengths
  rw [Reached] at reached
  generalize firstWord line = word at more short noNul selected parts plain lengths
  generalize textAfter line = text at parts sep first lengths reached ⊢
  have size : inputSize = 512 := rfl
  have small : msgSize = 256 := rfl
  obtain ⟨j, room⟩ : ∃ j, inputSize - 1 = word.length + (spaces.length + j) :=
    ⟨inputSize - 1 - word.length - spaces.length, by omega⟩
  have noNul' : (0 : UInt8) ∉ spaces := fun mem => absurd (blanks 0 mem) (by decide)
  have string : cstr (line.take (inputSize - 1)) = word ++ (spaces ++ (cstr text).take j) := by
    rw [parts, room, List.take_length_add_append, List.take_length_add_append, cstr_append noNul,
      cstr_append noNul', cstr, cstr, List.take_takeWhile]
  have part : (cstr text).take j <+: text := (List.take_prefix _ _).trans (cstr_part text)
  have sep' : ∀ x ∈ (spaces ++ (cstr text).take j).head?, isspace x := fun x head =>
    sep x (head_of_part ((List.prefix_append_right_inj spaces).mpr part) head)
  have found := scanWord_command more (by omega) plain sep'
  have skipped : (spaces ++ (cstr text).take j).dropWhile (· == 32) = (cstr text).take j := by
    apply dropWhile_run
    · intro x mem
      simpa using blanks x mem
    · intro x head
      simpa using first x (head_of_part part head)
  have same : ((cstr text).take j).take (msgSize - 1) = (cstr text).take (msgSize - 1) := by
    rw [List.take_take]
    by_cases whole : msgSize - 1 ≤ j
    · rw [Nat.min_eq_left whole]
    · have le := length_cstr_le text
      rw [List.take_of_length_le (by omega), List.take_of_length_le (by omega)]
  rw [string] at h
  obtain ⟨data, eq, isString⟩ := h.command type (by rw [found, selected])
  rw [requestText, if_neg notQuit, found, List.drop_left, skipped, dataText_congr same]
    at isString
  exact ⟨data, eq, isString⟩

/-! ## Both modes -/

theorem takeWhile_comm {α : Type} (p q : α → Bool) (l : List α) :
    (l.takeWhile p).takeWhile q = (l.takeWhile q).takeWhile p := by
  rw [List.takeWhile_takeWhile, List.takeWhile_takeWhile]
  simp only [and_comm]

/-- What `fgets` hands over, up to the end of the line, is the front of the first line. -/
theorem chomp_fgets {stream piece : Bytes} (read : fgets inputSize stream = some piece) :
    piece.length < inputSize ∧
      chomp piece = cstr ((stream.takeWhile (· ≠ newline)).take (inputSize - 1)) := by
  rw [fgets] at read
  split at read
  · cases read
  · obtain rfl := Option.some.inj read
    have room : (stream.take (inputSize - 1)).length ≤ inputSize - 1 := List.length_take_le _ _
    have size : inputSize = 512 := rfl
    constructor
    · rw [List.length_take]
      omega
    · rw [chomp, cstr, takeWhile_comm, ← List.take_takeWhile,
        List.take_of_length_le (Nat.le_succ _), ← List.take_takeWhile, cstr]

/-- The arguments of a process. -/
abbrev Argument := { arg : Bytes // (0 : UInt8) ∉ arg }

/-- A line that is read, or joined arguments that fit, are parsed inside the arrays.
What begins with a data command and is reached gives the command's type, and the text
as a C string, cut to 255 bytes, or the default for an empty one. -/
theorem parsed_line (input : Chars inputSize) (data : Chars msgSize) :
    (∀ stream piece, fgets inputSize stream = some piece →
      ∃ buffer parsed, readLine input piece = some buffer ∧
        parseCommand buffer data = some parsed ∧
        ∀ line, line = stream.takeWhile (· ≠ newline) → Unpadded line → Reached line →
          ParsedAs line (dataText (cstr (textAfter line))) parsed) ∧
    ∀ args : List Argument, (joined (args.map (·.1))).length < inputSize →
      ∃ buffer parsed, joinArgs input (args.map (·.1)) = some buffer ∧
        parseCommand buffer data = some parsed ∧
        (Unpadded (joined (args.map (·.1))) →
          ParsedAs (joined (args.map (·.1)))
            (dataText (textAfter (joined (args.map (·.1))))) parsed) := by
  constructor
  · intro stream piece read
    obtain ⟨short, front⟩ := chomp_fgets read
    obtain ⟨buffer, stored, string⟩ := readLine_eq input.2 short
    rw [front] at string
    obtain ⟨parsed, eq, h⟩ := parseCommand_eq string data.2
    refine ⟨buffer, parsed, stored, eq, ?_⟩
    rintro line rfl unpadded reached
    exact parsedAs_of_string unpadded reached h
  · intro args fits
    have noNul : ∀ arg ∈ args.map (·.1), (0 : UInt8) ∉ arg := by
      intro arg mem
      obtain ⟨a, -, rfl⟩ := List.mem_map.mp mem
      exact a.2
    obtain ⟨buffer, stored, string⟩ := joinArgs_eq input.2 _ noNul fits
    obtain ⟨parsed, eq, h⟩ := parseCommand_eq string data.2
    refine ⟨buffer, parsed, stored, eq, fun unpadded => ?_⟩
    have plain := string.noNul
    generalize joined (args.map (·.1)) = line at *
    have whole : cstr (line.take (inputSize - 1)) = line := by
      rw [List.take_of_length_le (by omega), cstr_eq_self plain]
    have text : cstr (textAfter line) = textAfter line := by
      refine cstr_eq_self fun mem => plain ?_
      exact (List.dropWhile_suffix _).subset ((List.dropWhile_suffix _).subset
        ((List.dropWhile_suffix _).subset mem))
    rw [← whole] at h
    rw [← text]
    exact parsedAs_of_string unpadded (Or.inl fits) h

def upperAb : List Argument := [⟨ascii "upper", by decide⟩, ⟨ascii "a b", by decide⟩]

/-- A line that is typed, and the same as arguments. -/
theorem parsed_line_upper :
    (∃ buffer parsed, readLine (List.replicate inputSize 7) (ascii "upper a b\n") = some buffer ∧
      parseCommand buffer (List.replicate msgSize 7) = some parsed ∧
      ParsedAs (ascii "upper a b") (ascii "a b") parsed) ∧
    ∃ buffer parsed, joinArgs (List.replicate inputSize 7) (upperAb.map (·.1)) = some buffer ∧
      parseCommand buffer (List.replicate msgSize 7) = some parsed ∧
      ParsedAs (ascii "upper a b") (ascii "a b") parsed := by
  have unpadded : Unpadded (ascii "upper a b") := by decide +kernel
  have text : dataText (textAfter (ascii "upper a b")) = ascii "a b" := by decide +kernel
  obtain ⟨typed, given⟩ := parsed_line ⟨List.replicate inputSize 7, List.length_replicate⟩
    ⟨List.replicate msgSize 7, List.length_replicate⟩
  obtain ⟨buffer, parsed, stored, eq, reads⟩ :=
    typed (ascii "upper a b\nquit\n") (ascii "upper a b\n") (by decide +kernel)
  obtain ⟨buffer', parsed', stored', eq', reads'⟩ := given upperAb (by decide +kernel)
  have line := reads (ascii "upper a b") (by decide +kernel) unpadded (by decide)
  have plain : cstr (textAfter (ascii "upper a b")) = textAfter (ascii "upper a b") := by
    decide +kernel
  rw [plain, text] at line
  have args := reads' unpadded
  have both : joined (upperAb.map (·.1)) = ascii "upper a b" := by decide +kernel
  rw [both, text] at args
  exact ⟨⟨buffer, parsed, stored, eq, line⟩, buffer', parsed', stored', eq', args⟩

/-- `./client upper ""` sends the default text. -/
theorem empty_text_replaced :
    ¬ ∀ (input : Chars inputSize) (data : Chars msgSize) (args : List Argument),
      ∃ buffer parsed, joinArgs input (args.map (·.1)) = some buffer ∧
        parseCommand buffer data = some parsed ∧
        ParsedAs (joined (args.map (·.1)))
          ((textAfter (joined (args.map (·.1)))).take (msgSize - 1)) parsed := by
  intro typed
  have size : (List.replicate inputSize (0 : UInt8)).length = inputSize := List.length_replicate
  have size' : (List.replicate msgSize (0 : UInt8)).length = msgSize := List.length_replicate
  obtain ⟨buffer, parsed, stored, eq, asTyped⟩ := typed ⟨_, size⟩ ⟨_, size'⟩
    [⟨ascii "upper", by decide⟩, ⟨[], by decide⟩]
  obtain ⟨data, rfl, empty⟩ := asTyped .upper (by decide)
  obtain ⟨buffer', stored', string⟩ := joinArgs_eq size [ascii "upper", []] (by decide) (by decide)
  obtain rfl := Option.some.inj (stored.symm.trans stored')
  obtain ⟨parsed', eq', parses⟩ := parseCommand_eq string size'
  obtain rfl := Option.some.inj (eq.symm.trans eq')
  obtain ⟨data', same, default⟩ := parses.command .upper (by decide)
  cases same
  exact absurd (empty.text.symm.trans default.text) (by decide)

end Osisp.Fifo
