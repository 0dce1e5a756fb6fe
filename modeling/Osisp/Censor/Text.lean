import Osisp.Lib.CString

/-!
# The censor of `autocensor` (`Lab_3/censor.c`)

`load_dict` takes one word from each piece of the file that `fgets` hands it, and
`censor_text` makes one pass over the text for each word. A text, a word and the
replacement are the bytes before the NUL of a C string. The `k`-th `malloc` or
`strdup` of a run succeeds if `alloc k` says so. A loop need not come to an end, so
it is run for a number of turns (`fuel`), and what is left when they are over is
`running`.
-/

namespace Osisp.Censor

open Lib

/-- `MAX_WORD_LEN`. -/
def maxWordLen : Nat := 256

/-- `MAX_DICT_WORDS`. -/
def maxDictWords : Nat := 1000

def newline : UInt8 := 10

/-! ## The dictionary -/

/-- `fgets (line, size, f)`: the next bytes of the file, to the end of the line if it
comes early enough; none at the end of the file. -/
def fgets (size : Nat) (file : Bytes) : Option Bytes :=
  let room := file.take (size - 1)
  if file = [] then none else some (room.take ((room.takeWhile (· ≠ newline)).length + 1))

/-- `line[strcspn (line, "\n")] = '\0'`. -/
def chomp (line : Bytes) : Bytes := (cstr line).takeWhile (· ≠ newline)

/-- The loop of `load_dict` with room for so many words; it has no result when
`strdup` fails. -/
def loadLoop (alloc : Nat → Bool) : Nat → Nat → Bytes → Option (List Bytes)
  | 0, _, _ => some []
  | room + 1, allocs, file =>
      match fgets maxWordLen file with
      | none => some []
      | some line =>
          if alloc allocs then
            (loadLoop alloc room (allocs + 1) (file.drop line.length)).map (chomp line :: ·)
          else none

/-- The words that `load_dict` stores; there are none when it returns -1. The file is
`none` when `fopen` fails. -/
def loadDict (alloc : Nat → Bool) : Option Bytes → Option (List Bytes)
  | none => none
  | some file => loadLoop alloc maxDictWords 0 file

/-! ## One pass -/

/-- `isalnum` in the C locale. -/
def isalnum (c : UInt8) : Bool :=
  (48 ≤ c && c ≤ 57) || (65 ≤ c && c ≤ 90) || (97 ≤ c && c ≤ 122)

/-- The byte `s[i]`; the NUL stands behind the last one. -/
def charAt (s : Bytes) (i : Nat) : UInt8 := s.getD i 0

/-- The local variables of the loop over the matches of a word, and the number of
allocations made. -/
structure Scan where
  result : Bytes
  pos : Nat
  allocs : Nat
  deriving DecidableEq, Repr

/-- How a call goes on. -/
inductive Outcome (α : Type)
  /-- Not finished after the turns it was given. -/
  | running
  /-- It returns `NULL`. -/
  | null
  /-- The cursor has been moved past the NUL, and is used there. -/
  | wild
  | value (a : α)
  deriving DecidableEq, Repr

/-- How one turn of the `while` loop ends. -/
inductive Turn
  | again (s : Scan)
  /-- `strstr` returns `NULL`. -/
  | leave (s : Scan)
  /-- `malloc` returns `NULL`. -/
  | null
  /-- `strstr` is called with a cursor behind the NUL. -/
  | wild
  deriving DecidableEq, Repr

/-- One turn of the `while` loop. -/
def turn (alloc : Nat → Bool) (word replacement : Bytes) (s : Scan) : Turn :=
  if s.result.length < s.pos then .wild
  else
    match strstr word (s.result.drop s.pos) with
    | none => .leave s
    | some k =>
        let pos := s.pos + k
        let leftOk := pos = 0 ∨ ¬ isalnum (charAt s.result (pos - 1))
        let rightOk := charAt s.result (pos + word.length) = 0 ∨
          ¬ isalnum (charAt s.result (pos + word.length))
        if ¬ leftOk ∨ ¬ rightOk then .again { s with pos := pos + 1 }
        else if alloc s.allocs then
          .again {
            result := s.result.take pos ++ replacement ++ s.result.drop (pos + word.length)
            pos := pos + replacement.length
            allocs := s.allocs + 1 }
        else .null

/-- The `while` loop. -/
def scanLoop (alloc : Nat → Bool) (word replacement : Bytes) : Nat → Scan → Outcome Scan
  | 0, _ => .running
  | fuel + 1, s =>
      match turn alloc word replacement s with
      | .again s => scanLoop alloc word replacement fuel s
      | .leave s => .value s
      | .null => .null
      | .wild => .wild

/-! ## The whole text -/

/-- The loop over the dictionary; every `while` loop in it gets `fuel` turns. -/
def dictLoop (alloc : Nat → Bool) (fuel : Nat) (replacement : Bytes) :
    List Bytes → Bytes → Nat → Outcome Bytes
  | [], result, _ => .value result
  | word :: words, result, allocs =>
      match scanLoop alloc word replacement fuel ⟨result, 0, allocs⟩ with
      | .value s => dictLoop alloc fuel replacement words s.result s.allocs
      | .running => .running
      | .null => .null
      | .wild => .wild

/-- `censor_text`, for a text that is not `NULL`. -/
def censorText (alloc : Nat → Bool) (fuel : Nat) (dictionary : List Bytes)
    (text replacement : Bytes) : Outcome Bytes :=
  if dictionary.length = 0 then
    if alloc 0 then .value text else .null
  else if alloc 0 then dictLoop alloc fuel replacement dictionary text 1
  else .null

end Osisp.Censor
