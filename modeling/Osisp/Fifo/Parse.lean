import Osisp.Censor.Text
import Osisp.Fifo.Bounds
import Osisp.Lib.CInt

/-!
# What the client makes of a line (`parse_command`)

A line comes from `fgets`, which hands over at most 511 bytes of it, or from the
arguments of the client, joined in an array of 512. `parse_command` looks for the
command behind any blanks and for its text behind as many bytes as the command has,
and puts a default in the place of an empty text.
-/

namespace Osisp.Fifo

open Lib Censor

/-- `sizeof (input)`. -/
def inputSize : Nat := 512

/-- The text that stands for an empty one. -/
def defaultText : Bytes := ascii "Hello, Server!"

/-- The word that `sscanf (s, "%31s", cmd)` stores; none if it is empty. -/
def scanWord (s : Bytes) : Bytes := ((s.dropWhile isspace).takeWhile fun x => !isspace x).take 31

/-- The comparisons with `cmd`. -/
def commandType (cmd : Bytes) : Option RequestType :=
  if cmd = ascii "echo" then some .echo
  else if cmd = ascii "upper" then some .upper
  else if cmd = ascii "lower" then some .lower
  else if cmd = ascii "length" then some .length
  else if cmd = ascii "reverse" then some .reverse
  else if cmd = ascii "quit" ∨ cmd = ascii "exit" then some .quit
  else none

/-- What `parse_command` does; it returns 0 in the last case only, and in the others
leaves `*type` as it was. -/
inductive Parsed
  /-- `sscanf` finds no word. -/
  | empty
  /-- `show_help` is called. -/
  | help
  | unknown (cmd : Bytes)
  | command (type : RequestType) (data : Bytes)

/-- The part of `parse_command` that fills in the data. -/
def fillData (data text : Bytes) : Option Bytes :=
  ((strncpy data (text ++ [0]) (msgSize - 1)).bind fun data => store data (msgSize - 1) 0).bind
    fun data =>
      if strlen data = some 0 then storeAll data 0 (defaultText ++ [0]) else some data

/-- `parse_command`, with the arrays of its caller. It has no value if it reads or
writes outside of them. -/
def parseCommand (input data : Bytes) : Option Parsed :=
  if (0 : UInt8) ∈ input then
    let cmd := scanWord (cstr input)
    let text := ((cstr input).drop cmd.length).dropWhile (· == 32)
    if cmd = [] then some .empty
    else
      match commandType cmd with
      | some .quit => (store data 0 0).map (.command .quit)
      | some type => (fillData data text).map (.command type)
      | none => some (if cmd = ascii "help" ∨ cmd = ascii "?" then .help else .unknown cmd)
  else none

/-- `fgets (input, sizeof (input), stdin)` has read `piece`;
`input[strcspn (input, "\n")] = '\0'`. -/
def readLine (input piece : Bytes) : Option Bytes :=
  (storeAll input 0 (piece ++ [0])).bind fun input => store input (chomp input).length 0

/-- `strcat (dst, src)`. -/
def strcat (dst src : Bytes) : Option Bytes :=
  (strlen dst).bind fun len => storeAll dst len (src ++ [0])

/-- The loop of `single_command_mode` over `argv`. -/
def joinLoop : Nat → List Bytes → Bytes → Option Bytes
  | _, [], input => some input
  | i, arg :: args, input =>
      ((if i > 1 then strcat input (ascii " ") else some input).bind
        fun input => strcat input arg).bind (joinLoop (i + 1) args)

/-- `input` after the loop. -/
def joinArgs (input : Bytes) (args : List Bytes) : Option Bytes :=
  (store input 0 0).bind (joinLoop 1 args)

/-! ## The data -/

/-- What a text becomes as the data of a request. -/
def dataText (text : Bytes) : Bytes := if text = [] then defaultText else text.take (msgSize - 1)

theorem fillData_eq {data text : Bytes} (size : data.length = msgSize)
    (noNul : (0 : UInt8) ∉ text) :
    ∃ out, fillData data text = some out ∧ IsString msgSize out (dataText text) := by
  have small : msgSize = 256 := rfl
  have string : cstr (text ++ [0]) = text := cstr_append_nul noNul []
  have reads : (0 : UInt8) ∈ text ++ [0] ∨ msgSize - 1 ≤ (text ++ [0]).length :=
    Or.inl (List.mem_append_right _ (List.mem_singleton_self 0))
  have short : (text.take (msgSize - 1)).length ≤ msgSize - 1 := List.length_take_le _ _
  have plain : (0 : UInt8) ∉ text.take (msgSize - 1) := fun mem => noNul (List.mem_of_mem_take mem)
  generalize copied : text.take (msgSize - 1) = c at short plain
  have written : (c ++ List.replicate (msgSize - 1 - c.length) (0 : UInt8)).length =
      msgSize - 1 := by
    rw [List.length_append, List.length_replicate]
    omega
  have rest : (data.drop (msgSize - 1)).length = 1 := by
    rw [List.length_drop]
    omega
  obtain ⟨last, single⟩ := List.length_eq_one_iff.mp rest
  have zeros : List.replicate (msgSize - 1 - c.length) (0 : UInt8) ++ [0] =
      0 :: List.replicate (msgSize - 1 - c.length) 0 := by
    rw [← List.replicate_succ', List.replicate_succ]
  have filled : ((strncpy data (text ++ [0]) (msgSize - 1)).bind
      fun data => store data (msgSize - 1) 0) =
        some (c ++ 0 :: List.replicate (msgSize - 1 - c.length) 0) := by
    rw [strncpy, if_pos reads, string, copied, storeAll_front (by omega), written, single,
      Option.bind_some, store_inside (by simp; omega), List.set_append_right _ _ (by omega),
      written, Nat.sub_self, List.set_cons_zero, List.append_assoc, zeros]
  have isString : IsString msgSize (c ++ 0 :: List.replicate (msgSize - 1 - c.length) 0) c := by
    refine IsString.of_parts ?_ plain
    rw [List.length_append, List.length_cons, List.length_replicate]
    omega
  have measured : strlen (c ++ 0 :: List.replicate (msgSize - 1 - c.length) 0) =
      some c.length := by
    rw [strlen, if_pos isString.nul, isString.text]
  rw [fillData, filled, Option.bind_some, measured, dataText]
  by_cases empty : text = []
  · have none : some c.length = some 0 := by
      rw [← copied, empty]
      rfl
    rw [if_pos empty, if_pos none]
    exact storeAll_string isString.length (by decide) (by decide)
  · have some_ : ¬ some c.length = some 0 := by
      intro eq
      have zero := Option.some.inj eq
      have lengths := congrArg List.length copied
      rw [List.length_take, zero] at lengths
      exact empty (List.eq_nil_of_length_eq_zero (by omega))
    rw [if_neg empty, if_neg some_, copied]
    exact ⟨_, rfl, isString⟩

/-! ## Strings in the array `input` -/

theorem readLine_eq {input piece : Bytes} (size : input.length = inputSize)
    (short : piece.length < inputSize) :
    ∃ buffer, readLine input piece = some buffer ∧ IsString inputSize buffer (chomp piece) := by
  have fits : (piece ++ [0]).length ≤ input.length := by
    rw [List.length_append, List.length_singleton]
    omega
  have stored := storeAll_front fits
  generalize rest : input.drop (piece ++ [0]).length = junk at stored
  have length : (piece ++ [0] ++ junk).length = inputSize :=
    (length_of_storeAll stored).trans size
  have string : cstr (piece ++ [0] ++ junk) = cstr piece := by
    by_cases nul : (0 : UInt8) ∈ piece
    · obtain ⟨front, behind, rfl, noNul⟩ := List.eq_append_cons_of_mem nul
      rw [List.append_assoc, List.append_assoc, List.cons_append, cstr_append_nul noNul,
        cstr_append_nul noNul]
    · rw [List.append_assoc, List.singleton_append, cstr_append_nul nul, cstr_eq_self nul]
  have line : chomp (piece ++ [0] ++ junk) = chomp piece := by rw [chomp, string, chomp]
  have front : chomp piece <+: piece ++ [0] ++ junk := by
    rw [← line]
    exact (List.takeWhile_prefix _).trans (cstr_part _)
  have noNul : (0 : UInt8) ∉ chomp piece := fun mem =>
    zero_not_mem_cstr piece ((List.takeWhile_prefix _).subset mem)
  have room : (chomp piece).length < inputSize := by
    have le : (chomp piece).length ≤ (cstr piece).length := (List.takeWhile_prefix _).length_le
    have le' := length_cstr_le piece
    omega
  obtain ⟨behind, parts⟩ := front
  cases behind with
  | nil =>
      rw [List.append_nil] at parts
      rw [parts] at room
      omega
  | cons x behind =>
      refine ⟨chomp piece ++ 0 :: behind, ?_, IsString.of_parts ?_ noNul⟩
      · rw [readLine, stored, Option.bind_some, line, store_inside (by omega), ← parts,
          List.set_append_right _ _ (le_refl _), Nat.sub_self, List.set_cons_zero]
      · rw [← parts] at length
        simpa using length

theorem strcat_eq {dst src s : Bytes} (string : IsString inputSize dst s)
    (noNul : (0 : UInt8) ∉ src) (room : s.length + src.length < inputSize) :
    ∃ out, strcat dst src = some out ∧ IsString inputSize out (s ++ src) := by
  have measured : strlen dst = some s.length := by rw [strlen, if_pos string.nul, string.text]
  have length := string.length
  have front : dst.take s.length = s := by
    have part := cstr_part dst
    rw [string.text] at part
    exact (List.prefix_iff_eq_take.mp part).symm
  have plain : (0 : UInt8) ∉ s ++ src := by
    intro mem
    rcases List.mem_append.mp mem with old | new
    · exact string.noNul old
    · exact noNul new
  have fits : s.length + (src ++ [0]).length ≤ dst.length := by
    rw [List.length_append, List.length_singleton]
    omega
  have stored := storeAll_inside fits
  rw [front, ← List.append_assoc, List.append_assoc (s ++ src), List.singleton_append] at stored
  refine ⟨_, by rw [strcat, measured, Option.bind_some, stored], IsString.of_parts ?_ plain⟩
  rw [← length, ← length_of_storeAll stored]

/-- The arguments behind the first one, each behind a blank. -/
theorem joinLoop_eq {i : Nat} (later : 1 < i) (args : List Bytes) {input s : Bytes}
    (string : IsString inputSize input s) (noNul : ∀ arg ∈ args, (0 : UInt8) ∉ arg)
    (room : s.length + (args.flatMap (ascii " " ++ ·)).length < inputSize) :
    ∃ out, joinLoop i args input = some out ∧
      IsString inputSize out (s ++ args.flatMap (ascii " " ++ ·)) := by
  induction args generalizing i input s with
  | nil => exact ⟨input, rfl, by rwa [List.flatMap_nil, List.append_nil]⟩
  | cons arg args ih =>
      have blank : (ascii " ").length = 1 := rfl
      have plain : (0 : UInt8) ∉ ascii " " := by decide
      rw [List.flatMap_cons, List.length_append, List.length_append] at room
      obtain ⟨first, eq, string⟩ := strcat_eq string plain (by omega)
      obtain ⟨second, eq', string⟩ := strcat_eq string (noNul arg List.mem_cons_self)
        (by rw [List.length_append]; omega)
      obtain ⟨out, rest, string⟩ := ih (i := i + 1) (by omega) string
        (fun arg mem => noNul arg (List.mem_cons_of_mem _ mem))
        (by rw [List.length_append, List.length_append]; omega)
      refine ⟨out, ?_, ?_⟩
      · rw [joinLoop, if_pos later, eq, Option.bind_some, eq', Option.bind_some, rest]
      · rw [List.flatMap_cons]
        simpa only [List.append_assoc] using string

/-- The arguments with single blanks between them. -/
def joined (args : List Bytes) : Bytes := (ascii " ").intercalate args

theorem joined_cons (arg : Bytes) (args : List Bytes) :
    joined (arg :: args) = arg ++ args.flatMap (ascii " " ++ ·) := by
  induction args generalizing arg with
  | nil => rw [joined, List.intercalate_singleton, List.flatMap_nil, List.append_nil]
  | cons next args ih =>
      have rest := ih next
      rw [joined] at rest
      rw [joined, List.intercalate_cons_cons, rest, List.flatMap_cons]
      simp only [List.append_assoc]

/-- Arguments that fit are joined in the array. -/
theorem joinArgs_eq {input : Bytes} (size : input.length = inputSize) (args : List Bytes)
    (noNul : ∀ arg ∈ args, (0 : UInt8) ∉ arg) (room : (joined args).length < inputSize) :
    ∃ out, joinArgs input args = some out ∧ IsString inputSize out (joined args) := by
  obtain ⟨start, cleared, string⟩ :
      ∃ start, store input 0 0 = some start ∧ IsString inputSize start [] := by
    cases input with
    | nil => exact absurd size (by decide)
    | cons x input =>
        exact ⟨0 :: input, if_pos (Nat.succ_pos _), IsString.of_parts (s := []) size (by decide)⟩
  rw [joinArgs, cleared, Option.bind_some]
  cases args with
  | nil => exact ⟨start, rfl, string⟩
  | cons arg args =>
      rw [joined_cons, List.length_append] at room
      obtain ⟨first, eq, string⟩ := strcat_eq string (noNul arg List.mem_cons_self)
        (by rw [List.length_nil]; omega)
      rw [List.nil_append] at string
      obtain ⟨out, rest, string⟩ := joinLoop_eq (i := 2) (by decide) args string
        (fun arg mem => noNul arg (List.mem_cons_of_mem _ mem)) room
      refine ⟨out, ?_, by rwa [joined_cons]⟩
      rw [joinLoop, if_neg (by decide), Option.bind_some, eq, Option.bind_some, rest]

/-! ## The command -/

/-- What `parse_command` leaves in `data`. -/
def requestText (type : RequestType) (s : Bytes) : Bytes :=
  if type = .quit then [] else dataText ((s.drop (scanWord s).length).dropWhile (· == 32))

/-- What `parse_command` makes of the string in its array. -/
structure ParsesTo (s : Bytes) (parsed : Parsed) : Prop where
  command : ∀ type, commandType (scanWord s) = some type →
    ∃ data, parsed = .command type data ∧ IsString msgSize data (requestText type s)
  refused : commandType (scanWord s) = none → ∀ type data, parsed ≠ .command type data

theorem parseCommand_eq {n : Nat} {input data s : Bytes} (string : IsString n input s)
    (size : data.length = msgSize) :
    ∃ parsed, parseCommand input data = some parsed ∧ ParsesTo s parsed := by
  have noNul : (0 : UInt8) ∉ (s.drop (scanWord s).length).dropWhile (· == 32) := fun mem =>
    string.noNul (List.mem_of_mem_drop ((List.dropWhile_suffix _).subset mem))
  simp only [parseCommand, if_pos string.nul, string.text]
  by_cases empty : scanWord s = []
  · refine ⟨.empty, if_pos empty, ⟨fun type eq => ?_, fun _ _ _ => nofun⟩⟩
    rw [empty] at eq
    cases eq
  · rw [if_neg empty]
    cases selected : commandType (scanWord s) with
    | none =>
        refine ⟨_, rfl, ⟨fun type eq => ?_, fun _ type data => ?_⟩⟩
        · exact absurd (selected.symm.trans eq) (Option.some_ne_none type).symm
        · split <;> exact nofun
    | some type =>
        have only {other : RequestType} (eq : commandType (scanWord s) = some other) :
            type = other := Option.some.inj (selected.symm.trans eq)
        have refused (none : commandType (scanWord s) = none) : False :=
          Option.some_ne_none type (selected.symm.trans none)
        obtain ⟨filled, eq, isString⟩ := fillData_eq size noNul
        cases type with
        | quit =>
            cases data with
            | nil => exact absurd size (by decide)
            | cons x data =>
                have cleared : store (x :: data) 0 0 = some (0 :: data) := if_pos (Nat.succ_pos _)
                refine ⟨.command .quit (0 :: data), by dsimp only; rw [cleared]; rfl, ?_⟩
                refine ⟨fun type eq => ?_, fun none => (refused none).elim⟩
                obtain rfl := only eq
                exact ⟨_, rfl, IsString.of_parts (s := []) size (by decide)⟩
        | echo | upper | lower | length | reverse =>
            refine ⟨.command _ filled, by dsimp only; rw [eq]; rfl, ?_⟩
            refine ⟨fun type eq => ?_, fun none => (refused none).elim⟩
            obtain rfl := only eq
            exact ⟨_, rfl, isString⟩

end Osisp.Fifo
