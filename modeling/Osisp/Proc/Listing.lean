import Mathlib
import Osisp.Lib.Lines
import Osisp.Proc.Recovered

/-!
# The list of all processes (`LabWork_3/proc.c`)

`list_all_procs` goes through `/proc`, whose directories with numbers for names are the
processes, and prints a line for each one that `get_proc_info` can read. The list is
complete, and it can be read back: the name of a process, whatever is in it, cannot be
taken for another line or for another number (`listAllProcs_reads`).
-/

namespace Osisp.Proc

open Lib Censor

/-! ## `list_all_procs` -/

/-- `%-8s` and `%-8d`. -/
def padded (text : Bytes) : Bytes := text ++ List.replicate (8 - text.length) 32

/-- `fprintf (out, "%-8d %s\n", info.pid, info.name)`. -/
def listLine (pid : Int32) (name : Bytes) : Bytes :=
  padded (decimalInt pid.toInt) ++ 32 :: (cstr name ++ [newline])

/-- The two lines above the list. -/
def listHeader : Bytes :=
  padded (ascii "PID") ++ ascii " NAME\n" ++ ascii "-------- ----------------\n"

/-- `fprintf (out, "\nTotal: %d processes\n", count)`. -/
def listTotal (count : Nat) : Bytes :=
  ascii "\nTotal: " ++ decimal count ++ ascii " processes\n"

/-- `is_pid`. -/
def isPid (name : Bytes) : Bool := name.all isdigit

/-- The loop over the entries of the directory, with the number of calls so far; each call
finds another array `buf`. -/
def listLoop (files : Bytes → Option Bytes) (bufs : Nat → Chars bufSize) :
    Nat → List Bytes → Nat → Bytes → Option (Nat × Bytes)
  | _, [], count, out => some (count, out)
  | call, name :: dir, count, out =>
      if isPid name then
        (getProcInfo files (bufs call) (Int32.ofInt (atoi name).1)).bind fun (result, info) =>
          if result = 0 then
            listLoop files bufs (call + 1) dir (count + 1) (out ++ listLine info.pid info.name)
          else listLoop files bufs (call + 1) dir count out
      else listLoop files bufs call dir count out

/-- `list_all_procs`, with what it prints. `dir` is what `/proc` contains. -/
def listAllProcs (files : Bytes → Option Bytes) (bufs : Nat → Chars bufSize) :
    Option (List Bytes) → Option (Int × Bytes)
  | none => some (-1, [])
  | some dir =>
      (listLoop files bufs 0 dir 0 listHeader).map fun (count, out) =>
        ((count : Int), out ++ listTotal count)

/-! ## What there is to list -/

/-- A process that can be read, with its line of `/proc/<pid>/stat`. -/
structure Process where
  pid : Int32
  line : StatLine
  positive : 0 ≤ pid.toInt
  short : line.text.length < bufSize

/-- The processes among the entries of the directory. One whose file cannot be read has
ended. -/
inductive Contains (files : Bytes → Option Bytes) : List Bytes → List Process → Prop
  | nil : Contains files [] []
  | other {name : Bytes} {dir : List Bytes} {ps : List Process} (notPid : isPid name = false)
      (rest : Contains files dir ps) : Contains files (name :: dir) ps
  | ended {pid : Int32} {dir : List Bytes} {ps : List Process} (positive : 0 ≤ pid.toInt)
      (gone : files (statPath pid) = none) (rest : Contains files dir ps) :
      Contains files (decimalInt pid.toInt :: dir) ps
  | process {p : Process} {dir : List Bytes} {ps : List Process}
      (file : files (statPath p.pid) = some (p.line.text ++ [newline]))
      (rest : Contains files dir ps) :
      Contains files (decimalInt p.pid.toInt :: dir) (p :: ps)

/-- The name as it is shown. -/
def Process.shown (p : Process) : Bytes := p.line.comm.take 255

theorem cstr_shown (p : Process) : cstr p.shown = p.shown :=
  cstr_eq_self fun mem => p.line.commNul ((List.take_sublist _ _).subset mem)

/-! ## One process -/

section Pid

variable {files : Bytes → Option Bytes} {buf : Chars bufSize} {pid : Int32} {result : Int}
  {info info' : ProcInfo}

theorem scanStat_pid {a : Bytes} {stop : Nat} (eq : scanStat a stop info = some info') :
    info'.pid = info.pid := by
  have keeps : ∀ d ∈ statFormat, d.Keeps ProcInfo.pid := by
    simp [statFormat, Directive.Keeps]
  have same := scanf_keeps keeps 0 0 (cstr (a.drop (stop + 2))) info
  rw [scanStat] at eq
  dsimp only at eq
  split at eq
  · cases eq
    split
    · exact same
    · exact same
  · cases eq

theorem parseStat_pid {a : Bytes} (eq : parseStat files a info = some (result, info')) :
    info'.pid = info.pid := by
  rw [parseStat] at eq
  split at eq
  · obtain ⟨name, -, eq⟩ := Option.bind_eq_some_iff.mp eq
    obtain ⟨scanned, scans, eq⟩ := Option.bind_eq_some_iff.mp eq
    obtain ⟨state, -, eq⟩ := Option.map_eq_some_iff.mp eq
    cases eq
    have same := scanStat_pid scans
    exact same
  · cases eq
    rfl

/-- `info->pid` is the one that was asked for, whatever the files contain. -/
theorem getProcInfo_pid (eq : getProcInfo files buf pid = some (result, info)) :
    info.pid = pid := by
  rw [getProcInfo] at eq
  split at eq
  · cases eq
    rfl
  · obtain ⟨a, -, eq⟩ := Option.bind_eq_some_iff.mp eq
    exact parseStat_pid eq

end Pid

/-- The line is in the buffer as it is in the file, with its end or without. -/
theorem getProcInfo_line (l : StatLine) {files : Bytes → Option Bytes} (buf : Chars bufSize)
    {pid : Int32} (file : files (statPath pid) = some (l.text ++ [newline]))
    (short : l.text.length < bufSize) :
    ∃ info, getProcInfo files buf pid = some (0, info) ∧ info.pid = pid ∧ Recovered l info := by
  obtain ⟨eol, eol_, fits, read⟩ := fgets_line (newline_not_mem_text l) short
  have noNul : (0 : UInt8) ∉ l.text ++ eol := by
    rw [List.mem_append, not_or]
    refine ⟨zero_not_mem_text l, ?_⟩
    rcases eol_ with rfl | rfl <;> decide
  obtain ⟨out, stored, string⟩ := storeAll_string buf.2 fits noNul
  obtain ⟨info, parsed, recovered⟩ := parseStat_recovers l string files pid eol_
  have eq : getProcInfo files buf pid = some (0, info) := by
    rw [getProcInfo, file, Option.bind_some, read]
    dsimp only
    rw [stored, Option.bind_some, parsed]
  exact ⟨info, eq, getProcInfo_pid eq, recovered⟩

/-! ## The loop -/

section Loop

variable {files : Bytes → Option Bytes} {bufs : Nat → Chars bufSize} {pid : Int32}

theorem decimalInt_of_nonneg {n : Int} (nonneg : 0 ≤ n) : decimalInt n = decimal n.natAbs :=
  if_neg (not_lt.mpr nonneg)

/-- The name of the directory of a process gives its number. -/
theorem atoi_name (positive : 0 ≤ pid.toInt) :
    isPid (decimalInt pid.toInt) = true ∧
      Int32.ofInt (atoi (decimalInt pid.toInt)).1 = pid := by
  have upper := pid.toInt_lt
  rw [decimalInt_of_nonneg positive]
  constructor
  · exact List.all_eq_true.mpr fun x mem => isdigit_of_mem_decimal mem
  · rw [atoi_decimal (by omega), Int.natAbs_of_nonneg positive, Int32.ofInt_toInt]

variable (bufs) in
/-- An entry that is not listed. -/
theorem listLoop_skip {name : Bytes} (dir : List Bytes) (count : Nat) (out : Bytes)
    (skipped : isPid name = false ∨ isPid name = true ∧
      files (statPath (Int32.ofInt (atoi name).1)) = none) (call : Nat) :
    ∃ call', listLoop files bufs call (name :: dir) count out =
      listLoop files bufs call' dir count out := by
  rcases skipped with other | ⟨number, gone⟩
  · exact ⟨call, by rw [listLoop, other]; rfl⟩
  · refine ⟨call + 1, ?_⟩
    have failed : getProcInfo files (bufs call) (Int32.ofInt (atoi name).1) =
        some (-1, .start (Int32.ofInt (atoi name).1)) := by
      rw [getProcInfo, gone, Option.bind_none]
    rw [listLoop, if_pos number, failed, Option.bind_some]
    exact if_neg (by decide)

/-- An entry that is. -/
theorem listLoop_process {p : Process} (dir : List Bytes) (count : Nat) (out : Bytes)
    (file : files (statPath p.pid) = some (p.line.text ++ [newline])) (call : Nat) :
    listLoop files bufs call (decimalInt p.pid.toInt :: dir) count out =
      listLoop files bufs (call + 1) dir (count + 1) (out ++ listLine p.pid p.shown) := by
  obtain ⟨number, value⟩ := atoi_name p.positive
  obtain ⟨info, read, pid, recovered⟩ := getProcInfo_line p.line (bufs call) file p.short
  have line : listLine info.pid info.name = listLine p.pid p.shown := by
    rw [pid, listLine, listLine, recovered.name.text, cstr_shown]
    rfl
  rw [listLoop, if_pos number, value, read, Option.bind_some, ← line]
  exact if_pos rfl

/-- Each process is printed and counted once. -/
theorem listLoop_contains {dir : List Bytes} {ps : List Process} (h : Contains files dir ps)
    (call count : Nat) (out : Bytes) :
    listLoop files bufs call dir count out =
      some (count + ps.length, out ++ ps.flatMap fun p => listLine p.pid p.shown) := by
  induction h generalizing call count out with
  | nil => rw [listLoop, List.length_nil, List.flatMap_nil, List.append_nil, Nat.add_zero]
  | other notPid _ ih =>
      obtain ⟨call', step⟩ := listLoop_skip bufs _ count out (Or.inl notPid) call
      rw [step, ih]
  | ended positive gone _ ih =>
      obtain ⟨number, value⟩ := atoi_name positive
      rw [← value] at gone
      obtain ⟨call', step⟩ := listLoop_skip bufs _ count out (Or.inr ⟨number, gone⟩) call
      rw [step, ih]
  | process file _ ih =>
      rw [listLoop_process _ _ _ file, ih, List.length_cons, List.flatMap_cons, List.append_assoc,
        Nat.add_right_comm, Nat.add_assoc]

end Loop

/-! ## Reading the list -/

/-- The number and the name in a line of the list. -/
def readLine (line : Bytes) : Int32 × Bytes :=
  let digits := line.takeWhile isdigit
  (Int32.ofInt (ofDecimal digits), line.drop (max 8 digits.length + 1))

/-- The processes of a list: its lines but for the two at the top and the two at the end. -/
def readListing (text : Bytes) : List (Int32 × Bytes) :=
  ((((linesOf newline text).drop 2).dropLast).dropLast).map readLine

/-- The line without its end. -/
def Process.row (p : Process) : Bytes := padded (decimalInt p.pid.toInt) ++ 32 :: p.shown

/-- The lines of a list. -/
def listRows (ps : List Process) : List Bytes :=
  [padded (ascii "PID") ++ ascii " NAME", ascii "-------- ----------------"] ++
    ps.map Process.row ++ [[], ascii "Total: " ++ decimal ps.length ++ ascii " processes"]

theorem length_padded (text : Bytes) : (padded text).length = max 8 text.length := by
  rw [padded, List.length_append, List.length_replicate]
  omega

theorem listing_eq (ps : List Process) :
    listHeader ++ (ps.flatMap fun p => listLine p.pid p.shown) ++ listTotal ps.length =
      (listRows ps).flatMap (· ++ [newline]) := by
  have rows : (ps.map Process.row).flatMap (· ++ [newline]) =
      ps.flatMap fun p => listLine p.pid p.shown := by
    rw [List.flatMap_map]
    refine List.flatMap_congr fun p _ => ?_
    rw [listLine, cstr_shown, Process.row, List.append_assoc, List.cons_append]
  have header : listHeader = [padded (ascii "PID") ++ ascii " NAME",
      ascii "-------- ----------------"].flatMap (· ++ [newline]) := by decide
  have total : listTotal ps.length =
      [[], ascii "Total: " ++ decimal ps.length ++ ascii " processes"].flatMap
        (· ++ [newline]) := by
    have first : ascii "\nTotal: " = newline :: ascii "Total: " := rfl
    have last : ascii " processes\n" = ascii " processes" ++ [newline] := rfl
    rw [listTotal, first, last]
    simp
  rw [listRows, List.flatMap_append, List.flatMap_append, rows, header, total]

theorem newline_not_mem_padded {text : Bytes} (plain : newline ∉ text) :
    newline ∉ padded text := by
  rw [padded, List.mem_append, not_or]
  exact ⟨plain, fun mem => absurd (List.eq_of_mem_replicate mem) (by decide)⟩

theorem newline_not_mem_decimal (n : Nat) : newline ∉ decimal n := by
  intro mem
  exact absurd (isdigit_of_mem_decimal mem) (by decide)

/-- No part of a line ends it. -/
theorem newline_not_mem_rows {ps : List Process} {line : Bytes} (mem : line ∈ listRows ps) :
    newline ∉ line := by
  rw [listRows, List.mem_append, List.mem_append] at mem
  rcases mem with (header | row) | total
  · revert line
    decide
  · obtain ⟨p, -, rfl⟩ := List.mem_map.mp row
    rw [Process.row, decimalInt_of_nonneg p.positive, List.mem_append, List.mem_cons, not_or,
      not_or]
    refine ⟨newline_not_mem_padded (newline_not_mem_decimal _), by decide, fun mem => ?_⟩
    exact p.line.commLine ((List.take_sublist _ _).subset mem)
  · rcases List.mem_pair.mp total with rfl | rfl
    · exact List.not_mem_nil
    · rw [List.mem_append, List.mem_append, not_or, not_or]
      exact ⟨⟨by decide, newline_not_mem_decimal _⟩, by decide⟩

/-- A line is read back, whatever the name is. -/
theorem readLine_row (p : Process) : readLine p.row = (p.pid, p.shown) := by
  have upper := p.pid.toInt_lt
  have positive := p.positive
  have digits : p.row.takeWhile isdigit = decimal p.pid.toInt.natAbs := by
    rw [Process.row, decimalInt_of_nonneg positive, padded, List.append_assoc]
    refine (takeWhile_digits _ ?_).1
    intro x head
    cases k : 8 - (decimal p.pid.toInt.natAbs).length with
    | zero =>
        rw [k] at head
        cases head
        rfl
    | succ k' =>
        rw [k, List.replicate_succ] at head
        cases head
        rfl
  have behind : p.row.drop (max 8 (decimal p.pid.toInt.natAbs).length + 1) = p.shown := by
    rw [Process.row, decimalInt_of_nonneg positive, ← length_padded,
      List.drop_length_add_append, List.drop_succ_cons, List.drop_zero]
  rw [readLine, digits, behind, ofDecimal_decimal, Int.natAbs_of_nonneg positive, Int32.ofInt_toInt]

/-- **The list of processes.** Whatever else is in `/proc`, the function returns the number
of processes that can be read, and its list is read back to their numbers and names, of
which 255 bytes are kept, in the order of the directory. -/
theorem listAllProcs_reads (files : Bytes → Option Bytes) (bufs : Nat → Chars bufSize)
    (dir : List Bytes) (ps : List Process) (contains : Contains files dir ps) :
    ∃ out, listAllProcs files bufs (some dir) = some ((ps.length : Int), out) ∧
      readListing out = ps.map fun p => (p.pid, p.line.comm.take 255) := by
  refine ⟨(listRows ps).flatMap (· ++ [newline]), ?_, ?_⟩
  · rw [listAllProcs, listLoop_contains contains, Option.map_some, Nat.zero_add, ← listing_eq]
  · have lines : linesOf newline ((listRows ps).flatMap (· ++ [newline])) = listRows ps :=
      linesOf_terminated fun line mem => newline_not_mem_rows mem
    have rows : (((listRows ps).drop 2).dropLast).dropLast = ps.map Process.row := by
      rw [listRows, List.append_assoc]
      simp
    rw [readListing, lines, rows, List.map_map]
    exact List.map_congr_left fun p _ => readLine_row p

/-- A directory with two processes, of which one has ended. -/
theorem listAllProcs_reads_imitation :
    ∃ out, listAllProcs
        (fun path => if path = statPath 7 then some (imitation.text ++ [newline]) else none)
        (fun _ => ⟨List.replicate bufSize 255, List.length_replicate⟩)
        (some [ascii "self", ascii "7", ascii "12"]) = some (1, out) ∧
      readListing out = [(7, ascii "a) R 9 (b")] := by
  have short : imitation.text.length < bufSize := by decide +kernel
  have gone : ¬ statPath 12 = statPath 7 := by decide +kernel
  let p : Process := ⟨7, imitation, by decide, short⟩
  have seven : decimalInt (7 : Int32).toInt = ascii "7" := by decide
  have twelve : decimalInt (12 : Int32).toInt = ascii "12" := by decide
  have last : Contains
      (fun path => if path = statPath 7 then some (imitation.text ++ [newline]) else none)
      [decimalInt (12 : Int32).toInt] [] := .ended (by decide) (if_neg gone) .nil
  rw [twelve] at last
  have first : Contains
      (fun path => if path = statPath 7 then some (imitation.text ++ [newline]) else none)
      [decimalInt (7 : Int32).toInt, ascii "12"] [p] :=
    @Contains.process _ p _ _ (if_pos rfl) last
  rw [seven] at first
  exact listAllProcs_reads _ _ _ _ (.other (by decide) first)

end Osisp.Proc
