import Mathlib
import Osisp.Lib.Lines
import Osisp.Censor.Order

/-!
# The program around the censor (`Lab_3/autocensor.c`)

`main` reads the standard input line by line and prints what `censor_text` makes of each
line, or the line as it is when `censor_text` returns `NULL`. If no word of the dictionary
is a run of the replacement, what is printed has the lines of the input, none of the words,
and is left as it is when the program reads it again (`autocensor_correct`).
-/

namespace Osisp.Censor

open Lib

/-- What `getopt (argc, argv, "d:o:r:")` returns, with `optarg`; `other` is `'?'`. -/
inductive Opt
  | d (arg : Bytes)
  | o (arg : Bytes)
  | r (arg : Bytes)
  | other
  deriving DecidableEq, Repr

/-- The variables that the options set. -/
structure Options where
  dictFile : Option Bytes := none
  outFile : Option Bytes := none
  replacement : Bytes := ascii "[CENSORED]"
  deriving DecidableEq, Repr

/-- The `switch`. -/
def Options.set (options : Options) : Opt → Option Options
  | .d arg => some { options with dictFile := some arg }
  | .o arg => some { options with outFile := some arg }
  | .r arg => some { options with replacement := arg }
  | .other => none

/-- The loop over the options; it is left with `return 1`. -/
def parseOptions (opts : List Opt) : Option Options := opts.foldlM Options.set {}

/-- What the program finds: the files it can read, the files it can write, and the
allocations that succeed. Those of `load_dict` come first, and then those of each call of
`censor_text`. -/
structure World where
  reads : Bytes → Option Bytes
  creates : Bytes → Bool
  alloc : Nat → Nat → Bool

/-- `getline (&line, &len, stdin)`: the next line with its end; none at the end of the file. -/
def getline (stdin : Bytes) : Option Bytes :=
  if stdin = [] then none
  else some (stdin.take ((stdin.takeWhile (· ≠ newline)).length + 1))

/-- The loop over the lines, so many turns of it. `call` counts the calls, `out` is what has
been printed. -/
def lineLoop (alloc : Nat → Nat → Bool) (fuel : Nat) (dictionary : List Bytes)
    (replacement : Bytes) : Nat → Nat → Bytes → Bytes → Outcome Bytes
  | 0, _, _, _ => .running
  | turns + 1, call, stdin, out =>
      match getline stdin with
      | none => .value out
      | some line =>
          let next := lineLoop alloc fuel dictionary replacement turns (call + 1)
            (stdin.drop line.length)
          match censorText (alloc call) fuel dictionary (chomp line) replacement with
          | .value censored => next (out ++ (censored ++ [newline]))
          | .null => next (out ++ (chomp line ++ [newline]))
          | .running => .running
          | .wild => .wild

/-- How `main` returns. -/
inductive Exit
  /-- After `print_usage`. -/
  | usage
  | noDictionary
  | noOutput
  /-- Returns 0; what has been printed is in the file, or on the standard output. -/
  | done (outFile : Option Bytes) (out : Bytes)
  deriving DecidableEq, Repr

/-- `main`. Each loop of it gets `fuel` turns. -/
def autocensor (w : World) (fuel : Nat) (opts : List Opt) (stdin : Bytes) : Outcome Exit :=
  match parseOptions opts with
  | none => .value .usage
  | some options =>
      match options.dictFile with
      | none => .value .usage
      | some dictFile =>
          match loadDict (w.alloc 0) (w.reads dictFile) with
          | none => .value .noDictionary
          | some dictionary =>
              if dictionary.length = 0 then .value .noDictionary
              else if options.outFile.any fun name => !w.creates name then .value .noOutput
              else
                match lineLoop w.alloc fuel dictionary options.replacement fuel 1 stdin [] with
                | .value out => .value (.done options.outFile out)
                | .running => .running
                | .null => .null
                | .wild => .wild

/-! ## Lines of the input -/

theorem chomp_eq (line : Bytes) : chomp line = cstr (line.takeWhile (· ≠ newline)) := by
  rw [chomp, cstr, cstr, List.takeWhile_takeWhile, List.takeWhile_takeWhile]
  simp only [and_comm]

/-- No line of the input has a newline or a NUL in it. -/
theorem mem_inputLines {stdin line : Bytes} (mem : line ∈ (linesOf newline stdin).map cstr) :
    newline ∉ line ∧ 0 ∉ line := by
  obtain ⟨text, inside, rfl⟩ := List.mem_map.mp mem
  refine ⟨fun eol => ?_, zero_not_mem_cstr text⟩
  exact not_mem_of_mem_linesOf inside ((cstr_part text).subset eol)

/-- What `getline` makes of the input. -/
inductive Getline (stdin : Bytes) : Prop
  | eof (empty : stdin = []) (none : getline stdin = none)
  | line (line text rest : Bytes) (read : getline stdin = some line)
      (drop : stdin.drop line.length = rest) (shorter : rest.length < stdin.length)
      (content : chomp line = cstr text)
      (lines : linesOf newline stdin = text :: linesOf newline rest)

theorem getline_cases (stdin : Bytes) : Getline stdin := by
  by_cases empty : stdin = []
  · exact .eof empty (if_pos empty)
  have read : getline stdin =
      some (stdin.take ((stdin.takeWhile (· ≠ newline)).length + 1)) := if_neg empty
  by_cases mem : newline ∈ stdin
  · obtain ⟨text, rest, rfl, plain⟩ := List.eq_append_cons_of_mem mem
    have first : (text ++ newline :: rest).takeWhile (· ≠ newline) = text :=
      takeWhile_ne_append plain rest
    have line : (text ++ newline :: rest).take (text.length + 1) = text ++ [newline] := by
      rw [List.take_length_add_append, List.take_succ_cons, List.take_zero]
    rw [first, line] at read
    refine .line _ text rest read ?_ ?_ ?_ (linesOf_append_cons plain rest)
    · rw [List.length_append, List.length_singleton, List.drop_length_add_append,
        List.drop_succ_cons, List.drop_zero]
    · rw [List.length_append, List.length_cons]
      omega
    · rw [chomp_eq, takeWhile_ne_append plain]
  · have all : stdin.takeWhile (· ≠ newline) = stdin := by
      refine List.takeWhile_eq_self_iff.mpr fun x inside => ?_
      exact decide_eq_true fun same => mem (same ▸ inside)
    rw [all, List.take_of_length_le (Nat.le_succ _)] at read
    refine .line _ stdin [] read List.drop_length (List.length_pos_of_ne_nil empty) ?_ ?_
    · rw [chomp_eq, all]
    · rw [linesOf_of_not_mem mem empty, linesOf_nil]

/-! ## What is printed -/

/-- Every maximal alphanumeric run that is in the dictionary is replaced. -/
def censored (dictionary : List Bytes) (replacement text : Bytes) : Bytes :=
  mapRuns isalnum (fun run => if run ∈ dictionary then replacement else run) text

/-- What is printed for a line, which may be left as it is when an allocation fails. -/
def Shows (alloc : Nat → Bool) (dictionary : List Bytes) (replacement line shown : Bytes) :
    Prop :=
  shown = censored dictionary replacement line ∨ shown = line ∧ ∃ k, alloc k = false

/-- What is printed for the lines, from the given call on. -/
inductive Prints (alloc : Nat → Nat → Bool) (dictionary : List Bytes) (replacement : Bytes) :
    Nat → List Bytes → List Bytes → Prop
  | nil {call : Nat} : Prints alloc dictionary replacement call [] []
  | cons {call : Nat} {line shown : Bytes} {lines printed : List Bytes}
      (first : Shows (alloc call) dictionary replacement line shown)
      (rest : Prints alloc dictionary replacement (call + 1) lines printed) :
      Prints alloc dictionary replacement call (line :: lines) (shown :: printed)

variable {alloc : Nat → Nat → Bool} {dictionary lines printed : List Bytes}
  {replacement text word : Bytes} {call : Nat}

theorem foldl_pass_eq_censored (plain : ∀ word ∈ dictionary, Word word)
    (untouched : Untouched dictionary replacement) (text : Bytes) :
    dictionary.foldl (pass replacement) text = censored dictionary replacement text := by
  rw [foldl_pass]
  exact mapRuns_congr (fun run all => foldl_pass_run plain untouched all) text

/-- If no allocation fails, each line is censored. -/
theorem Prints.eq_map (room : ∀ n k, alloc n k)
    (h : Prints alloc dictionary replacement call lines printed) :
    printed = lines.map (censored dictionary replacement) := by
  induction h with
  | nil => rfl
  | @cons call _ _ _ _ first _ ih =>
      rcases first with rfl | ⟨-, k, full⟩
      · rw [List.map_cons, ih]
      · rw [room call k] at full
        cases full

/-- A run of what is printed is no word of the dictionary but the replacement. -/
theorem eq_of_mem_runs_censored (untouched : Untouched dictionary replacement)
    (mem : word ∈ runs isalnum (censored dictionary replacement text))
    (inDict : word ∈ dictionary) : word = replacement := by
  rw [censored, runs_mapRuns, List.mem_flatMap] at mem
  obtain ⟨run, inText, mem⟩ := mem
  split at mem
  · exact untouched word inDict mem
  · next other =>
      rw [runs_of_all (all_of_mem_runs inText), List.mem_singleton] at mem
      exact absurd (mem ▸ inDict) other

/-- A second pass has nothing to do. -/
theorem censored_censored (untouched : Untouched dictionary replacement) (text : Bytes) :
    censored dictionary replacement (censored dictionary replacement text) =
      censored dictionary replacement text := by
  refine mapRuns_eq_self fun run mem => ?_
  split
  · next inDict => exact (eq_of_mem_runs_censored untouched mem inDict).symm
  · rfl

/-- Every byte of it is one of the line or of the replacement. -/
theorem mem_censored {x : UInt8} (mem : x ∈ censored dictionary replacement text) :
    x ∈ text ∨ x ∈ replacement := by
  rcases mem_mapRuns mem with between | ⟨run, inText, mem⟩
  · exact Or.inl between
  · split at mem
    · exact Or.inr mem
    · exact Or.inl (mem_of_mem_runs inText mem)

theorem Prints.not_mem {x : UInt8} (other : x ∉ replacement) (lacks : ∀ line ∈ lines, x ∉ line)
    (h : Prints alloc dictionary replacement call lines printed) :
    ∀ shown ∈ printed, x ∉ shown := by
  induction h with
  | nil => exact fun _ mem => absurd mem List.not_mem_nil
  | cons first _ ih =>
      rw [List.forall_mem_cons] at lacks ⊢
      refine ⟨fun mem => ?_, ih lacks.2⟩
      rcases first with rfl | ⟨rfl, -⟩
      · rcases mem_censored mem with inLine | inserted
        · exact lacks.1 inLine
        · exact other inserted
      · exact lacks.1 mem

/-! ## The loop over the lines -/

/-- What `censor_text` gives, and what is printed then. -/
theorem censorText_shows (plain : ∀ word ∈ dictionary, Word word)
    (untouched : Untouched dictionary replacement) (alloc : Nat → Bool) (line : Bytes) :
    ∃ enough shown, Shows alloc dictionary replacement line shown ∧ ∀ fuel ≥ enough,
      censorText alloc fuel dictionary line replacement = .value shown ∨
        censorText alloc fuel dictionary line replacement = .null ∧ shown = line := by
  obtain ⟨enough, ends⟩ := censorText_ends alloc replacement
    (fun word mem => (plain word mem).1) line
  have ended := (ends enough (le_refl _)).ne_running
  rcases ends enough (le_refl _) with ⟨out, value, fold⟩ | ⟨null, full⟩
  · refine ⟨enough, out, Or.inl ?_, fun fuel le => Or.inl ?_⟩
    · rw [fold plain, foldl_pass_eq_censored plain untouched]
    · rw [censorText_mono ended le, value]
  · refine ⟨enough, line, Or.inr ⟨rfl, full⟩, fun fuel le => Or.inr ⟨?_, rfl⟩⟩
    rw [censorText_mono ended le, null]

/-- A line printed in either way is on a line of its own. -/
theorem lineLoop_line {fuel turns : Nat} {stdin line shown : Bytes}
    (read : getline stdin = some line)
    (gives : censorText (alloc call) fuel dictionary (chomp line) replacement = .value shown ∨
      censorText (alloc call) fuel dictionary (chomp line) replacement = .null ∧
        shown = chomp line) (out : Bytes) :
    lineLoop alloc fuel dictionary replacement (turns + 1) call stdin out =
      lineLoop alloc fuel dictionary replacement turns (call + 1) (stdin.drop line.length)
        (out ++ (shown ++ [newline])) := by
  rw [lineLoop, read]
  rcases gives with value | ⟨null, rfl⟩
  · simp only [value]
  · simp only [null]

theorem lineLoop_prints (plain : ∀ word ∈ dictionary, Word word)
    (untouched : Untouched dictionary replacement) (alloc : Nat → Nat → Bool) (bound : Nat) :
    ∀ stdin call, stdin.length < bound → ∃ enough printed,
      Prints alloc dictionary replacement call ((linesOf newline stdin).map cstr) printed ∧
        ∀ fuel ≥ enough, ∀ turns ≥ bound, ∀ out,
          lineLoop alloc fuel dictionary replacement turns call stdin out =
            .value (out ++ printed.flatMap (· ++ [newline])) := by
  induction bound with
  | zero => exact fun _ _ short => absurd short (Nat.not_lt_zero _)
  | succ bound ih =>
      intro stdin call short
      cases getline_cases stdin with
      | eof empty none =>
          refine ⟨0, [], ?_, fun fuel _ turns more out => ?_⟩
          · rw [empty]
            exact .nil
          · obtain ⟨turns, rfl⟩ := Nat.exists_eq_add_of_le' (Nat.one_le_of_lt more)
            rw [lineLoop, none, List.flatMap_nil, List.append_nil]
      | line line text rest read drop shorter content lines =>
          obtain ⟨enough', printed, prints, later⟩ := ih rest (call + 1) (by omega)
          obtain ⟨enough, shown, shows, gives⟩ :=
            censorText_shows plain untouched (alloc call) (cstr text)
          refine ⟨max enough enough', shown :: printed, ?_, fun fuel le turns more out => ?_⟩
          · rw [lines, List.map_cons]
            exact .cons shows prints
          · obtain ⟨turns, rfl⟩ := Nat.exists_eq_add_of_le' (Nat.one_le_of_lt more)
            have first := gives fuel (le_of_max_le_left le)
            rw [← content] at first
            rw [lineLoop_line read first, drop,
              later fuel (le_of_max_le_right le) turns (Nat.le_of_succ_le_succ more),
              List.append_assoc, List.flatMap_cons]

/-! ## The program -/

/-- `main` gets to its loop: the options are right, the dictionary has been loaded and has a
word, and the output can be written. -/
structure Ready (w : World) (opts : List Opt) (options : Options) (dictionary : List Bytes) :
    Prop where
  parsed : parseOptions opts = some options
  loaded : ∃ dictFile, options.dictFile = some dictFile ∧
    loadDict (w.alloc 0) (w.reads dictFile) = some dictionary
  more : dictionary ≠ []
  opens : ∀ name ∈ options.outFile, w.creates name

section Program

variable {w : World} {opts : List Opt} {options : Options} {stdin out : Bytes} {fuel : Nat}

theorem Ready.autocensor_eq (ready : Ready w opts options dictionary)
    (loop : lineLoop w.alloc fuel dictionary options.replacement fuel 1 stdin [] = .value out) :
    autocensor w fuel opts stdin = .value (.done options.outFile out) := by
  obtain ⟨dictFile, given, loaded⟩ := ready.loaded
  have some_ : ¬ dictionary.length = 0 := fun none =>
    ready.more (List.length_eq_zero_iff.mp none)
  have open_ : ¬ (options.outFile.any fun name => !w.creates name) = true := by
    rw [Option.any_eq_true]
    rintro ⟨name, named, fails⟩
    rw [ready.opens name named] at fails
    cases fails
  simp only [autocensor, ready.parsed, given, loaded, if_neg some_, if_neg open_, loop]

/-- The program ends, and prints a line for each line of the input. -/
theorem Ready.prints (ready : Ready w opts options dictionary)
    (plain : ∀ word ∈ dictionary, Word word)
    (untouched : Untouched dictionary options.replacement) (stdin : Bytes) :
    ∃ enough printed,
      Prints w.alloc dictionary options.replacement 1 ((linesOf newline stdin).map cstr)
        printed ∧
      ∀ fuel ≥ enough, autocensor w fuel opts stdin =
        .value (.done options.outFile (printed.flatMap (· ++ [newline]))) := by
  obtain ⟨enough, printed, prints, loop⟩ :=
    lineLoop_prints plain untouched w.alloc (stdin.length + 1) stdin 1 (Nat.lt_succ_self _)
  refine ⟨max enough (stdin.length + 1), printed, prints, fun fuel le => ?_⟩
  exact ready.autocensor_eq (loop fuel (le_of_max_le_left le) fuel (le_of_max_le_right le) [])

end Program

/-- The program prints a line for each line of the input, censored or, when an allocation of
its call fails, as it is. If none fails, no word of the dictionary is a run of what is printed,
unless it is the replacement, and the program prints the same for that again. -/
theorem autocensor_correct (w : World) (opts : List Opt) (options : Options)
    (dictionary : List Bytes) (ready : Ready w opts options dictionary)
    (plain : ∀ word ∈ dictionary, Word word)
    (untouched : Untouched dictionary options.replacement)
    (oneLine : newline ∉ options.replacement) (noNul : 0 ∉ options.replacement) (stdin : Bytes) :
    ∃ enough printed,
      Prints w.alloc dictionary options.replacement 1 ((linesOf newline stdin).map cstr)
        printed ∧
      (∀ fuel ≥ enough, autocensor w fuel opts stdin =
        .value (.done options.outFile (printed.flatMap (· ++ [newline])))) ∧
      linesOf newline (printed.flatMap (· ++ [newline])) = printed ∧
      ((∀ n k, w.alloc n k) →
        (∀ word ∈ dictionary, word ∈ runs isalnum (printed.flatMap (· ++ [newline])) →
          word = options.replacement) ∧
        ∃ enough', ∀ fuel ≥ enough',
          autocensor w fuel opts (printed.flatMap (· ++ [newline])) =
            .value (.done options.outFile (printed.flatMap (· ++ [newline])))) := by
  obtain ⟨enough, printed, prints, ends⟩ := ready.prints plain untouched stdin
  have noEol : ∀ shown ∈ printed, newline ∉ shown :=
    prints.not_mem oneLine fun _ mem => (mem_inputLines mem).1
  have noZero : ∀ shown ∈ printed, 0 ∉ shown :=
    prints.not_mem noNul fun _ mem => (mem_inputLines mem).2
  have lines : linesOf newline (printed.flatMap (· ++ [newline])) = printed :=
    linesOf_terminated noEol
  refine ⟨enough, printed, prints, ends, lines, fun room => ⟨fun word inDict run => ?_, ?_⟩⟩
  · have sep : ¬ isalnum newline := by decide
    rw [runs_terminated sep, List.mem_append, List.mem_flatMap] at run
    rcases run with ⟨shown, mem, run⟩ | empty
    · rw [prints.eq_map room, List.mem_map] at mem
      obtain ⟨line, -, rfl⟩ := mem
      exact eq_of_mem_runs_censored untouched run inDict
    · exact absurd (List.mem_singleton.mp empty) (plain word inDict).1
  · obtain ⟨enough', again, prints', ends'⟩ :=
      ready.prints plain untouched (printed.flatMap (· ++ [newline]))
    have read : (linesOf newline (printed.flatMap (· ++ [newline]))).map cstr = printed := by
      rw [lines]
      exact (List.map_congr_left fun shown mem => cstr_eq_self (noZero shown mem)).trans
        (List.map_id printed)
    have same : again = printed := by
      rw [prints'.eq_map room, read, prints.eq_map room, List.map_map]
      exact List.map_congr_left fun line _ => censored_censored untouched line
    rw [same] at ends'
    exact ⟨enough', ends'⟩

/-- The program with the dictionary `bad` and no memory for the second line. -/
def badWorld : World where
  reads name := if name = ascii "dict" then some (ascii "bad
") else none
  creates _ := true
  alloc call _ := call ≠ 2

theorem autocensor_correct_bad :
    ∃ enough printed,
      Prints badWorld.alloc [ascii "bad"] (ascii "**") 1 [ascii "so bad", ascii "bad"] printed ∧
        ∀ fuel ≥ enough, autocensor badWorld fuel [.d (ascii "dict"), .r (ascii "**")]
          (ascii "so bad
bad") = .value (.done none (printed.flatMap (· ++ [newline]))) := by
  have ready : Ready badWorld [.d (ascii "dict"), .r (ascii "**")]
      ⟨some (ascii "dict"), none, ascii "**"⟩ [ascii "bad"] := by
    exact ⟨by decide, ⟨ascii "dict", rfl, by decide⟩, by decide, nofun⟩
  obtain ⟨enough, printed, prints, ends, -⟩ :=
    autocensor_correct _ _ _ _ ready (by decide) (by decide) (by decide) (by decide)
      (ascii "so bad
bad")
  have lines : (linesOf newline (ascii "so bad
bad")).map cstr =
      [ascii "so bad", ascii "bad"] := by decide
  rw [lines] at prints
  exact ⟨enough, printed, prints, ends⟩

end Osisp.Censor
