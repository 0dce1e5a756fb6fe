import Osisp.Fifo.Typed

/-!
# The interactive client (`interactive_mode`)

The loop takes what `fgets` hands over for a line, and asks what `type` is only after
`parse_command` has failed, which leaves `type` as it was. So a line that says `quit`
is sent like any other command, the next line that is none ends the loop, and what
`type` is before the first command is not known. `follow` is the loop over the strings
that `input` holds, each with the number of its line.
-/

namespace Osisp.Fifo

open Lib Censor

/-- The variables of the loop; `line` counts the lines that are over, and each request
is sent with its number. -/
structure Loop where
  input : Bytes
  type : UInt32
  data : Bytes
  line : Nat
  sent : List (Nat × Request)

/-- The body of the loop when `fgets` has read `piece` and every request is answered;
`true` stands for the `break`. -/
def interactiveTurn (pid : Pid) (v : Loop) (piece : Bytes) : Option (Bool × Loop) :=
  (readLine v.input piece).bind fun input =>
    let next := { v with input := input, line := v.line + piece.count newline }
    if strlen input = some 0 then some (false, next)
    else (parseCommand input v.data).map fun
      | .command type data =>
          (false, { next with
            type := type.code
            data := data
            sent := v.sent ++ [(v.line, Request.fill pid type (cstr data))] })
      | _ => (v.type = RequestType.quit.code, next)

/-- How the loop is left. -/
inductive Left
  | atLine (line : Nat)
  | atEnd
  deriving DecidableEq

/-- The loop, for at most `fuel` turns; it has no value either if it leaves its arrays. -/
def interactiveLoop (pid : Pid) : Nat → Loop → Bytes → Option (Left × List (Nat × Request))
  | 0, _, _ => none
  | fuel + 1, v, stdin =>
      match fgets inputSize stdin with
      | none => some (.atEnd, v.sent)
      | some piece =>
          (interactiveTurn pid v piece).bind fun (leave, next) =>
            if leave then some (.atLine v.line, next.sent)
            else interactiveLoop pid fuel next (stdin.drop piece.length)

/-- `interactive_mode`, with whatever its variables contain at first; each turn reads a
byte, at least. -/
def interactiveMode (pid : Pid) (type : UInt32) (input data stdin : Bytes) :
    Option (Left × List (Nat × Request)) :=
  interactiveLoop pid (stdin.length + 1) ⟨input, type, data, 0, []⟩ stdin

/-! ## What the lines ask for -/

def lines (stdin : Bytes) : List Bytes := stdin.splitOn newline

/-- The line asks the client to end. -/
def Quits (line : Bytes) : Prop := firstWord line = ascii "quit" ∨ firstWord line = ascii "exit"

instance (line : Bytes) : Decidable (Quits line) := inferInstanceAs (Decidable (_ ∨ _))

/-- The commands of the lines, from number `n` on, with their numbers. -/
def asked (n : Nat) (lines : List Bytes) : List (Nat × RequestType) :=
  (lines.zipIdx n).flatMap fun (line, i) => (dataCommand (firstWord line)).toList.map (i, ·)

/-- Where the loop is to be left. -/
def leftAt (lines : List Bytes) : Left :=
  match lines.findIdx? fun line => Quits line with
  | some i => .atLine i
  | none => .atEnd

/-- One request for each line with a data command, none for the others, until a line
asks to end or there are no more. -/
def FollowsLines (stdin : Bytes) : Prop :=
  ∀ (pid : Pid) (type : UInt32) (input : Chars inputSize) (data : Chars msgSize), ∃ sent,
    interactiveMode pid type input data stdin = some (leftAt (lines stdin), sent) ∧
      sent.map (fun r => (r.1, r.2.requestType)) =
        (asked 0 ((lines stdin).takeWhile fun line => ¬ Quits line)).map fun r => (r.1, r.2.code)

/-! ## The strings of a line -/

/-- What `fgets` hands over of a line, without its end. -/
def chunks : Nat → Bytes → List Bytes
  | 0, _ => []
  | fuel + 1, line =>
      if line = [] then []
      else line.take (inputSize - 1) :: chunks fuel (line.drop (inputSize - 1))

/-- The strings that are parsed while a line is read. -/
def strings (line : Bytes) : List Bytes := ((chunks line.length line).map cstr).filter (· ≠ [])

/-- The commands that they begin with. -/
def spelled (line : Bytes) : List RequestType :=
  (strings line).filterMap fun s => commandType (scanWord s)

/-- The strings of the lines, from number `n` on. -/
def tagged (n : Nat) (lines : List Bytes) : List (Nat × Bytes) :=
  (lines.zipIdx n).flatMap fun (line, i) => (strings line).map (i, ·)

/-- No line asks to end, each spells the command it begins with and no other, and the
first string that is parsed is a command. -/
def Plain (stdin : Bytes) : Prop :=
  (∀ line ∈ lines stdin, ¬ Quits line ∧
    spelled line = (dataCommand (firstWord line)).toList) ∧
    ∀ s ∈ ((lines stdin).flatMap strings).head?, (commandType (scanWord s)).isSome

/-- The loop over the strings; `quitting` says whether `type` is `REQ_QUIT`. -/
def follow : Bool → List (Nat × Bytes) → Left × List (Nat × RequestType)
  | _, [] => (.atEnd, [])
  | quitting, (i, s) :: rest =>
      match commandType (scanWord s) with
      | some type =>
          ((follow (type = .quit) rest).1, (i, type) :: (follow (type = .quit) rest).2)
      | none => if quitting then (.atLine i, []) else follow quitting rest

theorem chunks_sufficient {fuel other : Nat} {line : Bytes} (enough : line.length ≤ fuel)
    (otherEnough : line.length ≤ other) : chunks fuel line = chunks other line := by
  induction fuel generalizing other line with
  | zero =>
      obtain rfl := List.eq_nil_of_length_eq_zero (Nat.le_zero.mp enough)
      cases other <;> rfl
  | succ fuel ih =>
      cases line with
      | nil => cases other <;> rfl
      | cons x line =>
          cases other with
          | zero => exact absurd otherEnough (Nat.not_succ_le_zero _)
          | succ other =>
              have size : inputSize = 512 := rfl
              rw [List.length_cons] at enough otherEnough
              have left : ((x :: line).drop (inputSize - 1)).length ≤ fuel ∧
                  ((x :: line).drop (inputSize - 1)).length ≤ other := by
                rw [List.length_drop, List.length_cons]
                omega
              rw [chunks, chunks, ih left.1 left.2]

@[simp] theorem strings_nil : strings [] = [] := rfl

/-- The first 511 bytes of a line, and the rest. -/
theorem strings_eq (line : Bytes) :
    strings line = [cstr (line.take (inputSize - 1))].filter (· ≠ []) ++
      strings (line.drop (inputSize - 1)) := by
  cases line with
  | nil => rfl
  | cons x line =>
      have size : inputSize = 512 := rfl
      have shorter : ((x :: line).drop (inputSize - 1)).length ≤ line.length := by
        rw [List.length_drop, List.length_cons]
        omega
      rw [strings, List.length_cons, chunks, if_neg (List.cons_ne_nil x line), strings,
        chunks_sufficient shorter (le_refl _), List.map_cons, ← List.singleton_append,
        List.filter_append]

theorem tagged_cons (n : Nat) (line : Bytes) (ls : List Bytes) :
    tagged n (line :: ls) = (strings line).map (n, ·) ++ tagged (n + 1) ls := by
  rw [tagged, List.zipIdx_cons, List.flatMap_cons, tagged]

theorem asked_cons (n : Nat) (line : Bytes) (ls : List Bytes) :
    asked n (line :: ls) =
      (dataCommand (firstWord line)).toList.map (n, ·) ++ asked (n + 1) ls := by
  rw [asked, List.zipIdx_cons, List.flatMap_cons, asked]

theorem lines_cons {line : Bytes} (one : newline ∉ line) (rest : Bytes) :
    lines (line ++ newline :: rest) = line :: lines rest :=
  List.splitOn_append_cons_self_of_not_mem one rest

theorem lines_last {line : Bytes} (one : newline ∉ line) : lines line = [line] :=
  List.splitOn_eq_singleton one

/-- What stands before the first line belongs to it. -/
theorem lines_append {front : Bytes} (one : newline ∉ front) (rest : Bytes) :
    ∃ line ls, lines rest = line :: ls ∧ lines (front ++ rest) = (front ++ line) :: ls := by
  by_cases more : newline ∈ rest
  · obtain ⟨line, behind, rfl, none⟩ := List.eq_append_cons_of_mem more
    have none' : newline ∉ front ++ line := fun mem =>
      (List.mem_append.mp mem).elim one none
    refine ⟨line, lines behind, lines_cons none behind, ?_⟩
    rw [← List.append_assoc, lines_cons none']
  · have none' : newline ∉ front ++ rest := fun mem => (List.mem_append.mp mem).elim one more
    exact ⟨rest, [], lines_last more, lines_last none'⟩

/-! ## What a piece of the input is -/

/-- `fgets` hands over the first line, or the front of it that fits, or the end. -/
theorem fgets_cases {stdin piece : Bytes} (read : fgets inputSize stdin = some piece) :
    (∃ line rest, stdin = line ++ newline :: rest ∧ piece = line ++ [newline] ∧
      newline ∉ line ∧ line.length < inputSize - 1) ∨
    ∃ rest, stdin = piece ++ rest ∧ newline ∉ piece ∧ piece.length ≤ inputSize - 1 ∧
      (rest = [] ∨ piece.length = inputSize - 1) := by
  rw [fgets] at read
  split at read
  · cases read
  · obtain rfl := Option.some.inj read
    have parts := List.take_append_drop (inputSize - 1) stdin
    have room : (stdin.take (inputSize - 1)).length ≤ inputSize - 1 := List.length_take_le _ _
    have full : stdin.drop (inputSize - 1) = [] ∨
        (stdin.take (inputSize - 1)).length = inputSize - 1 := by
      rw [List.drop_eq_nil_iff, List.length_take]
      omega
    generalize stdin.take (inputSize - 1) = front at *
    by_cases eol : newline ∈ front
    · obtain ⟨line, behind, rfl, none⟩ := List.eq_append_cons_of_mem eol
      refine Or.inl ⟨line, behind ++ stdin.drop (inputSize - 1), ?_, ?_, none, ?_⟩
      · exact parts.symm.trans (by rw [List.append_assoc, List.cons_append])
      · rw [takeWhile_ne_append none, List.take_length_add_append, List.take_succ_cons,
          List.take_zero]
      · rw [List.length_append, List.length_cons] at room
        omega
    · have all : front.takeWhile (· ≠ newline) = front := by
        rw [List.takeWhile_eq_self_iff]
        intro x mem
        exact decide_eq_true fun eq => eol (eq ▸ mem)
      rw [all, List.take_of_length_le (Nat.le_succ _)]
      exact Or.inr ⟨_, parts.symm, eol, room, full⟩

theorem fgets_shorter {stdin piece : Bytes} (read : fgets inputSize stdin = some piece) :
    (stdin.drop piece.length).length < stdin.length := by
  have more : stdin ≠ [] := by
    rintro rfl
    cases read
  have pos := List.length_pos_iff.mpr more
  rw [List.length_drop]
  have size : inputSize = 512 := rfl
  rcases fgets_cases read with ⟨line, rest, -, rfl, -, -⟩ | ⟨rest, rfl, -, -, rfl | full⟩
  · rw [List.length_append, List.length_singleton]
    omega
  · rw [List.append_nil] at pos ⊢
    omega
  · omega

theorem chomp_line {line : Bytes} (one : newline ∉ line) :
    chomp (line ++ [newline]) = cstr line ∧ chomp line = cstr line := by
  have all : line.takeWhile (· ≠ newline) = line := by
    rw [List.takeWhile_eq_self_iff]
    intro x mem
    exact decide_eq_true fun eq => one (eq ▸ mem)
  constructor
  · rw [chomp, cstr, takeWhile_comm, takeWhile_ne_append one, cstr]
  · rw [chomp, cstr, takeWhile_comm, all]

/-- What is parsed of a piece: nothing of an empty string. -/
def held (piece : Bytes) : List Bytes := [chomp piece].filter (· ≠ [])

theorem held_of_empty {piece : Bytes} (empty : chomp piece = []) : held piece = [] := by
  rw [held, empty]
  rfl

theorem held_of_some {piece : Bytes} (some_ : chomp piece ≠ []) : held piece = [chomp piece] := by
  simp [held, some_]

/-- A piece is the front of the first line, and what follows it are the lines that are
left. -/
theorem tagged_fgets {stdin piece : Bytes} (read : fgets inputSize stdin = some piece) (n : Nat) :
    tagged n (lines stdin) = (held piece).map (n, ·) ++
      tagged (n + piece.count newline) (lines (stdin.drop piece.length)) := by
  rcases fgets_cases read with ⟨line, rest, rfl, rfl, one, short⟩ | ⟨rest, rfl, one, short, full⟩
  · have count : (line ++ [newline]).count newline = 1 := by
      rw [List.count_append, List.count_eq_zero.mpr one, List.count_singleton_self]
    have behind : (line ++ newline :: rest).drop (line ++ [newline]).length = rest := by
      rw [List.length_append, List.drop_length_add_append, List.length_singleton,
        List.drop_succ_cons, List.drop_zero]
    rw [lines_cons one, tagged_cons, count, behind, held, (chomp_line one).1, strings_eq,
      List.take_of_length_le (by omega), List.drop_of_length_le (by omega), strings_nil,
      List.append_nil]
  · have count : piece.count newline = 0 := List.count_eq_zero.mpr one
    obtain ⟨line, ls, left, whole⟩ := lines_append one rest
    have cut : strings (piece ++ line) = held piece ++ strings line := by
      rw [held, (chomp_line one).2, strings_eq]
      rcases full with rfl | exactly
      · rw [lines_last List.not_mem_nil] at left
        obtain ⟨rfl, -⟩ := List.cons.inj left
        rw [List.append_nil, List.take_of_length_le short, List.drop_of_length_le short]
      · rw [← exactly, List.take_left, List.drop_left]
    rw [whole, tagged_cons, cut, List.map_append, List.append_assoc, ← tagged_cons, ← left, count,
      List.drop_left, Nat.add_zero]

/-! ## The loop follows the strings -/

/-- The arrays keep their sizes. -/
structure Sized (v : Loop) : Prop where
  input : v.input.length = inputSize
  data : v.data.length = msgSize

/-- What a turn does whose piece holds the string `s`. -/
inductive Effect (v : Loop) (s : Bytes) : Bool → Loop → Prop
  | blank {next : Loop} : s = [] → next.type = v.type → next.sent = v.sent →
      Effect v s false next
  | sends {next : Loop} {type : RequestType} {request : Request} : s ≠ [] →
      commandType (scanWord s) = some type → next.type = type.code →
      request.requestType = type.code → next.sent = v.sent ++ [(v.line, request)] →
      Effect v s false next
  | refused {next : Loop} : s ≠ [] → commandType (scanWord s) = none → next.type = v.type →
      next.sent = v.sent → Effect v s (v.type = RequestType.quit.code) next

theorem interactiveTurn_eq (pid : Pid) {v : Loop} {piece : Bytes} (sized : Sized v)
    (short : piece.length < inputSize) :
    ∃ leave next, interactiveTurn pid v piece = some (leave, next) ∧ Sized next ∧
      next.line = v.line + piece.count newline ∧ Effect v (chomp piece) leave next := by
  obtain ⟨buffer, stored, string⟩ := readLine_eq sized.input short
  have measured : strlen buffer = some (chomp piece).length := by
    rw [strlen, if_pos string.nul, string.text]
  rw [interactiveTurn, stored, Option.bind_some]
  by_cases empty : chomp piece = []
  · have none : strlen buffer = some 0 := by rw [measured, empty, List.length_nil]
    refine ⟨false, _, if_pos none, ⟨string.length, sized.data⟩, rfl, .blank empty rfl rfl⟩
  · have some_ : ¬ strlen buffer = some 0 := by
      rw [measured]
      exact fun eq => empty (List.eq_nil_of_length_eq_zero (Option.some.inj eq))
    obtain ⟨parsed, eq, parses⟩ := parseCommand_eq string sized.data
    simp only [if_neg some_, eq, Option.map_some]
    cases selected : commandType (scanWord (chomp piece)) with
    | some type =>
        obtain ⟨data, rfl, filled⟩ := parses.command type selected
        exact ⟨false, _, rfl, ⟨string.length, filled.length⟩, rfl,
          .sends empty selected rfl rfl rfl⟩
    | none =>
        have refused := parses.refused selected
        cases parsed with
        | command type data => exact absurd rfl (refused type data)
        | empty | help | unknown =>
            exact ⟨_, _, rfl, ⟨string.length, sized.data⟩, rfl, .refused empty selected rfl rfl⟩

theorem code_inj {t u : RequestType} (eq : t.code = u.code) : t = u := by
  have same := congrArg RequestType.ofCode eq
  rw [RequestType.ofCode_code, RequestType.ofCode_code] at same
  exact Option.some.inj same

/-- **The loop over the input** leaves and sends as the one over the strings does. -/
theorem interactiveLoop_eq (pid : Pid) {fuel : Nat} {v : Loop} {stdin : Bytes} (sized : Sized v)
    (enough : stdin.length < fuel) :
    ∃ sent, interactiveLoop pid fuel v stdin =
        some ((follow (v.type = RequestType.quit.code) (tagged v.line (lines stdin))).1,
          v.sent ++ sent) ∧
      sent.map (fun r => (r.1, r.2.requestType)) =
        (follow (v.type = RequestType.quit.code) (tagged v.line (lines stdin))).2.map
          fun r => (r.1, r.2.code) := by
  induction fuel generalizing v stdin with
  | zero => exact absurd enough (Nat.not_lt_zero _)
  | succ fuel ih =>
      rw [interactiveLoop]
      cases read : fgets inputSize stdin with
      | none =>
          have ended : stdin = [] := by
            by_contra more
            rw [fgets, if_neg more] at read
            cases read
          subst ended
          exact ⟨[], by rw [List.append_nil]; rfl, rfl⟩
      | some piece =>
          have shorter : (stdin.drop piece.length).length < fuel :=
            Nat.lt_of_lt_of_le (fgets_shorter read) (Nat.le_of_lt_succ enough)
          obtain ⟨leave, next, turn, sized', line, effect⟩ :=
            interactiveTurn_eq pid sized (chomp_fgets read).1
          dsimp only
          rw [turn, Option.bind_some, tagged_fgets read]
          obtain ⟨sent, rest, types⟩ := ih sized' shorter
          rw [line] at rest types
          cases effect with
          | blank empty type same =>
              rw [type] at rest types
              rw [held_of_empty empty, List.map_nil, List.nil_append]
              exact ⟨sent, by rw [if_neg Bool.false_ne_true, rest, same], types⟩
          | @sends _ type request some_ selected kind code same =>
              have quits : (next.type = RequestType.quit.code) ↔ type = .quit := by
                rw [kind]
                exact ⟨code_inj, congrArg _⟩
              simp only [quits] at rest types
              rw [held_of_some some_, List.map_singleton, List.singleton_append, follow, selected]
              refine ⟨(v.line, request) :: sent, ?_, ?_⟩
              · rw [if_neg Bool.false_ne_true, rest, same, List.append_assoc,
                  List.singleton_append]
              · rw [List.map_cons, List.map_cons, types, code]
          | refused some_ unselected type same =>
              rw [type] at rest types
              rw [held_of_some some_, List.map_singleton, List.singleton_append, follow, unselected]
              by_cases quitting : v.type = RequestType.quit.code
              · have yes : decide (v.type = RequestType.quit.code) = true := decide_eq_true quitting
                simp only [yes, if_true]
                exact ⟨[], by rw [same, List.append_nil], rfl⟩
              · have no : decide (v.type = RequestType.quit.code) = false :=
                  decide_eq_false quitting
                simp only [no, if_neg Bool.false_ne_true] at rest types ⊢
                exact ⟨sent, by rw [rest, same], types⟩

/-! ## What the strings lead to -/

/-- The commands of the strings. -/
def commands (l : List (Nat × Bytes)) : List (Nat × RequestType) :=
  l.filterMap fun p => (commandType (scanWord p.2)).map (p.1, ·)

variable {l : List (Nat × Bytes)} {quitting : Bool}

theorem commands_cons_some {i : Nat} {s : Bytes} {type : RequestType}
    (selected : commandType (scanWord s) = some type) :
    commands ((i, s) :: l) = (i, type) :: commands l :=
  List.filterMap_cons_some (by rw [selected]; rfl)

theorem commands_cons_none {i : Nat} {s : Bytes}
    (unselected : commandType (scanWord s) = none) : commands ((i, s) :: l) = commands l :=
  List.filterMap_cons_none (by rw [unselected]; rfl)

/-- A loop that reaches the end of the input has sent all commands. -/
theorem follow_atEnd (ended : (follow quitting l).1 = .atEnd) :
    (follow quitting l).2 = commands l := by
  induction l generalizing quitting with
  | nil => rfl
  | cons p l ih =>
      obtain ⟨i, s⟩ := p
      rw [follow] at ended ⊢
      cases selected : commandType (scanWord s) with
      | some type =>
          simp only [selected] at ended
          rw [commands_cons_some selected, ← ih ended]
      | none =>
          simp only [selected] at ended
          rw [commands_cons_none selected]
          split at ended
          · cases ended
          next running =>
            dsimp only
            rw [if_neg running, ih ended]

/-- A `break` needs the type `REQ_QUIT`, and then it has been sent. -/
theorem follow_break {line : Nat} (left : (follow quitting l).1 = .atLine line) :
    quitting = true ∨ ∃ i, (i, RequestType.quit) ∈ (follow quitting l).2 := by
  induction l generalizing quitting with
  | nil => cases left
  | cons p l ih =>
      obtain ⟨i, s⟩ := p
      rw [follow] at left ⊢
      cases selected : commandType (scanWord s) with
      | some type =>
          simp only [selected] at left
          right
          rcases ih left with quit | ⟨j, mem⟩
          · exact ⟨i, List.mem_cons.mpr (Or.inl (by rw [of_decide_eq_true quit]))⟩
          · exact ⟨j, List.mem_cons_of_mem _ mem⟩
      | none =>
          simp only [selected] at left
          cases quitting with
          | true => exact Or.inl rfl
          | false => exact ih left

/-- What is sent are commands of the strings, in order. -/
theorem follow_part : (follow quitting l).2 <+: commands l := by
  induction l generalizing quitting with
  | nil => exact List.prefix_rfl
  | cons p l ih =>
      obtain ⟨i, s⟩ := p
      rw [follow]
      cases selected : commandType (scanWord s) with
      | some type =>
          rw [commands_cons_some selected]
          exact (List.prefix_cons_inj (i, type)).mpr ih
      | none =>
          rw [commands_cons_none selected]
          cases quitting with
          | true => exact List.nil_prefix
          | false => exact ih

/-- Without such a command the loop reaches the end. -/
theorem follow_plain (plain : ∀ p ∈ commands l, p.2 ≠ .quit) :
    follow false l = (.atEnd, commands l) := by
  cases left : (follow false l).1 with
  | atEnd => exact Prod.ext left (follow_atEnd left)
  | atLine line =>
      rcases follow_break left with quit | ⟨i, mem⟩
      · cases quit
      · exact absurd rfl (plain _ (follow_part.subset mem))

/-- What `type` is at first does not matter if the first string is a command. -/
theorem follow_started (first : ∀ p ∈ l.head?, (commandType (scanWord p.2)).isSome) :
    follow true l = follow false l := by
  cases l with
  | nil => rfl
  | cons p l =>
      obtain ⟨i, s⟩ := p
      obtain ⟨type, selected⟩ := Option.isSome_iff_exists.mp (first (i, s) rfl)
      rw [follow, follow, selected]

/-- If it is not, the loop may end there. -/
theorem follow_stopped (ended : (follow true l).1 = .atEnd) :
    ∀ p ∈ l.head?, (commandType (scanWord p.2)).isSome := by
  rintro ⟨i, s⟩ head
  cases l with
  | nil => cases head
  | cons p l =>
      obtain rfl := Option.some.inj head
      cases selected : commandType (scanWord s) with
      | some type => rfl
      | none =>
          rw [follow, selected] at ended
          cases ended

/-! ## Line by line -/

theorem commands_append (a b : List (Nat × Bytes)) :
    commands (a ++ b) = commands a ++ commands b := List.filterMap_append

theorem commands_line (n : Nat) (line : Bytes) :
    commands ((strings line).map (n, ·)) = (spelled line).map (n, ·) := by
  rw [commands, spelled, List.filterMap_map, List.map_filterMap]
  rfl

theorem commands_tagged_cons (n : Nat) (line : Bytes) (ls : List Bytes) :
    commands (tagged n (line :: ls)) =
      (spelled line).map (n, ·) ++ commands (tagged (n + 1) ls) := by
  rw [tagged_cons, commands_append, commands_line]

theorem le_of_mem_commands {n : Nat} {ls : List Bytes} {p : Nat × RequestType}
    (mem : p ∈ commands (tagged n ls)) : n ≤ p.1 := by
  induction ls generalizing n with
  | nil => cases mem
  | cons line ls ih =>
      rw [commands_tagged_cons] at mem
      rcases List.mem_append.mp mem with here | later
      · obtain ⟨type, -, rfl⟩ := List.mem_map.mp here
        exact le_refl n
      · exact Nat.le_of_succ_le (ih later)

theorem le_of_mem_asked {n : Nat} {ls : List Bytes} {p : Nat × RequestType}
    (mem : p ∈ asked n ls) : n ≤ p.1 := by
  induction ls generalizing n with
  | nil => cases mem
  | cons line ls ih =>
      rw [asked_cons] at mem
      rcases List.mem_append.mp mem with here | later
      · obtain ⟨type, -, rfl⟩ := List.mem_map.mp here
        exact le_refl n
      · exact Nat.le_of_succ_le (ih later)

/-- What carries the number `n` and what does not are told apart. -/
theorem tagged_append_inj {α : Type} {n : Nat} {a b : List α} {x y : List (Nat × α)}
    (left : ∀ p ∈ x, n < p.1) (right : ∀ p ∈ y, n < p.1)
    (eq : a.map (n, ·) ++ x = b.map (n, ·) ++ y) : a = b ∧ x = y := by
  have own (u : List α) : (u.map (n, ·)).filter (·.1 = n) = u.map (n, ·) :=
    List.filter_eq_self.mpr fun p mem => by
      obtain ⟨t, -, rfl⟩ := List.mem_map.mp mem
      exact decide_eq_true rfl
  have other {z : List (Nat × α)} (above : ∀ p ∈ z, n < p.1) : z.filter (·.1 = n) = [] :=
    List.filter_eq_nil_iff.mpr fun p mem => by
      have lt := above p mem
      simp only [decide_eq_true_eq]
      omega
  have front := congrArg (List.filter (·.1 = n)) eq
  rw [List.filter_append, List.filter_append, own, own, other left, other right, List.append_nil,
    List.append_nil] at front
  have same : a = b := List.map_injective_iff.mpr (fun s t h => (Prod.mk.inj h).2) front
  subst same
  exact ⟨rfl, List.append_cancel_left eq⟩

/-- The strings are commands as the lines ask if each line is. -/
theorem commands_eq_asked {n : Nat} {ls : List Bytes} :
    commands (tagged n ls) = asked n ls ↔
      ∀ line ∈ ls, spelled line = (dataCommand (firstWord line)).toList := by
  induction ls generalizing n with
  | nil => exact iff_of_true rfl fun line mem => absurd mem List.not_mem_nil
  | cons line ls ih =>
      rw [commands_tagged_cons, asked_cons, List.forall_mem_cons, ← ih (n := n + 1)]
      constructor
      · exact tagged_append_inj (fun p mem => le_of_mem_commands mem) fun p mem =>
          le_of_mem_asked mem
      · rintro ⟨here, later⟩
        rw [here, later]

theorem not_quit_of_mem_asked {n : Nat} {ls : List Bytes} {p : Nat × RequestType}
    (mem : p ∈ asked n ls) : p.2 ≠ .quit := by
  obtain ⟨⟨line, i⟩, -, here⟩ := List.mem_flatMap.mp mem
  obtain ⟨type, one, rfl⟩ := List.mem_map.mp here
  exact (commandType_of_data (Option.mem_toList.mp one)).2

theorem head_tagged (n : Nat) (ls : List Bytes) :
    (tagged n ls).map (·.2) = ls.flatMap strings := by
  induction ls generalizing n with
  | nil => rfl
  | cons line ls ih =>
      rw [tagged_cons, List.map_append, ih, List.flatMap_cons, List.map_map]
      congr 1
      exact List.map_id _

/-- If no line asks to end, all are to be read. -/
theorem asked_all {ls : List Bytes} (stay : ∀ line ∈ ls, ¬ Quits line) :
    leftAt ls = .atEnd ∧ (ls.takeWhile fun line => ¬ Quits line) = ls := by
  have none : ls.findIdx? (fun line => Quits line) = none :=
    List.findIdx?_eq_none_iff.mpr fun line mem => decide_eq_false (stay line mem)
  refine ⟨by rw [leftAt, none], ?_⟩
  rw [List.takeWhile_eq_self_iff]
  exact fun line mem => decide_eq_true (stay line mem)

/-- The loop over the strings does what the lines ask for if and only if they are
plain. -/
theorem follow_iff (stdin : Bytes) :
    (∀ quitting, follow quitting (tagged 0 (lines stdin)) =
      (leftAt (lines stdin), asked 0 ((lines stdin).takeWhile fun line => ¬ Quits line))) ↔
        Plain stdin := by
  rw [Plain, ← head_tagged 0]
  constructor
  · intro follows
    have stay : ∀ line ∈ lines stdin, ¬ Quits line := by
      cases found : (lines stdin).findIdx? fun line => Quits line with
      | none =>
          intro line mem
          exact of_decide_eq_false (List.findIdx?_eq_none_iff.mp found line mem)
      | some i =>
          have left : leftAt (lines stdin) = .atLine i := by rw [leftAt, found]
          have run := follows false
          rw [left] at run
          rcases follow_break (congrArg Prod.fst run) with quit | ⟨j, mem⟩
          · cases quit
          · rw [run] at mem
            exact absurd rfl (not_quit_of_mem_asked mem)
    obtain ⟨left, all⟩ := asked_all stay
    rw [left, all] at follows
    have sent := follow_atEnd (congrArg Prod.fst (follows false))
    rw [follows false] at sent
    have each := commands_eq_asked.mp sent.symm
    refine ⟨fun line mem => ⟨stay line mem, each line mem⟩, ?_⟩
    intro s head
    rw [List.head?_map] at head
    obtain ⟨p, first, rfl⟩ := Option.map_eq_some_iff.mp head
    exact follow_stopped (congrArg Prod.fst (follows true)) p first
  · rintro ⟨plain, first⟩ quitting
    obtain ⟨left, all⟩ := asked_all fun line mem => (plain line mem).1
    have sent := (commands_eq_asked (n := 0)).mpr fun line mem => (plain line mem).2
    have run := follow_plain (l := tagged 0 (lines stdin)) fun p mem => by
      rw [sent] at mem
      exact not_quit_of_mem_asked mem
    rw [left, all, ← sent]
    cases quitting with
    | false => exact run
    | true =>
        rw [follow_started fun p head => first p.2 ?_, run]
        rw [List.head?_map, Option.mem_def.mp head]
        rfl

/-- What the client does with any content of its variables is what the loop over the
strings does. -/
theorem followsLines_iff_follow (stdin : Bytes) :
    FollowsLines stdin ↔ ∀ quitting, follow quitting (tagged 0 (lines stdin)) =
      (leftAt (lines stdin), asked 0 ((lines stdin).takeWhile fun line => ¬ Quits line)) := by
  have codes {a b : List (Nat × RequestType)}
      (eq : a.map (fun r => (r.1, r.2.code)) = b.map fun r => (r.1, r.2.code)) : a = b := by
    refine List.map_injective_iff.mpr (fun s t h => ?_) eq
    exact Prod.ext (Prod.mk.inj h).1 (code_inj (Prod.mk.inj h).2)
  constructor
  · intro follows quitting
    obtain ⟨type, kind⟩ : ∃ type : UInt32, quitting = decide (type = RequestType.quit.code) := by
      cases quitting with
      | true => exact ⟨5, by decide⟩
      | false => exact ⟨0, by decide⟩
    obtain ⟨sent, run, types⟩ := follows 0 type ⟨_, List.length_replicate⟩
      ⟨List.replicate msgSize 0, List.length_replicate⟩
    obtain ⟨sent', run', types'⟩ := interactiveLoop_eq 0
      (v := ⟨List.replicate inputSize 0, type, List.replicate msgSize 0, 0, []⟩)
      ⟨List.length_replicate, List.length_replicate⟩ (Nat.lt_succ_self stdin.length)
    obtain ⟨left, same⟩ := Prod.mk.inj (Option.some.inj (run.symm.trans run'))
    rw [List.nil_append] at same
    rw [kind]
    exact Prod.ext left.symm (codes (types'.symm.trans (same ▸ types)))
  · intro follows pid type input data
    obtain ⟨sent, run, types⟩ := interactiveLoop_eq pid (v := ⟨input, type, data, 0, []⟩)
      ⟨input.2, data.2⟩ (Nat.lt_succ_self stdin.length)
    rw [follows] at run types
    exact ⟨sent, run, types⟩

/-- **Main.** The client sends what its lines ask for, and returns where they ask for
it, if and only if its input is plain. -/
theorem followsLines_iff (stdin : Bytes) : FollowsLines stdin ↔ Plain stdin :=
  (followsLines_iff_follow stdin).trans (follow_iff stdin)

/-! ## Short lines -/

theorem commandType_eq (word : Bytes) (stay : ¬ (word = ascii "quit" ∨ word = ascii "exit")) :
    commandType word = dataCommand word := by
  simp only [commandType, dataCommand, dataCommands, List.lookup_cons, List.lookup_nil,
    if_neg stay]
  repeat' split
  all_goals simp_all

theorem commandType_long {word : Bytes} (long : 7 < word.length) : commandType word = none := by
  have ne {name : Bytes} (short : name.length ≤ 7) : ¬ word = name := by
    rintro rfl
    omega
  rw [commandType, if_neg (ne (by decide)), if_neg (ne (by decide)), if_neg (ne (by decide)),
    if_neg (ne (by decide)), if_neg (ne (by decide)),
    if_neg (not_or.mpr ⟨ne (by decide), ne (by decide)⟩)]

/-- A line that is read at once and has no NUL spells its own command. -/
theorem spelled_short {line : Bytes} (short : line.length < inputSize)
    (noNul : (0 : UInt8) ∉ line) (stay : ¬ Quits line) :
    spelled line = (dataCommand (firstWord line)).toList := by
  have word : commandType (scanWord line) = dataCommand (firstWord line) := by
    have cut : scanWord line = (firstWord line).take 31 := rfl
    by_cases long : 31 < (firstWord line).length
    · have none : dataCommand (firstWord line) = none := by
        cases found : dataCommand (firstWord line) with
        | none => rfl
        | some type =>
            have le := (command_word found).2.1
            omega
      have size : 7 < ((firstWord line).take 31).length := by
        rw [List.length_take]
        omega
      rw [cut, commandType_long size, none]
    · rw [cut, List.take_of_length_le (by omega), commandType_eq _ stay]
  rw [spelled, strings_eq, List.take_of_length_le (by omega), List.drop_of_length_le (by omega),
    strings_nil, List.append_nil, cstr_eq_self noNul, ← word]
  by_cases empty : line = []
  · rw [empty]
    rfl
  · rw [List.filter_cons_of_pos (by simpa using empty), List.filter_nil]
    simp only [List.filterMap_cons, List.filterMap_nil]
    cases commandType (scanWord line) <;> rfl

/-- So of short lines it is only asked that none is to end the loop, and that the first
one which is not empty is a command. -/
theorem plain_short {stdin : Bytes}
    (short : ∀ line ∈ lines stdin, line.length < inputSize ∧ (0 : UInt8) ∉ line) :
    Plain stdin ↔ (∀ line ∈ lines stdin, ¬ Quits line) ∧
      ∀ s ∈ ((lines stdin).flatMap strings).head?, (commandType (scanWord s)).isSome := by
  refine and_congr_left fun _ => forall_congr' fun line => forall_congr' fun mem => ?_
  exact and_iff_left_of_imp fun stay => spelled_short (short line mem).1 (short line mem).2 stay

/-- `quit` is sent, and the client does not return. -/
theorem followsLines_quit : ¬ FollowsLines (ascii "quit\n") := by
  intro follows
  have run := (followsLines_iff_follow _).mp follows false
  have left := congrArg Prod.fst run
  exact absurd left (by decide)

end Osisp.Fifo
