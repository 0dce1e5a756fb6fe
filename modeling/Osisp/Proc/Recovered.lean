import Osisp.Proc.Stat

/-!
# The name does not matter

A process chooses its name, so the name may hold blanks, parentheses and numbers. The
first `(` of the line is the one in front of it all the same, since the process id has
none, and the last `)` the one behind it, since the fields have none
(`getProcInfo_recovers`).
-/

namespace Osisp.Proc

open Lib Censor

/-! ## The fields -/

/-- The fields behind the state up to the last that is read. -/
def StatLine.fields (l : StatLine) : List (ScanField ProcInfo) :=
  [.signed l.ppid.toInt64 fun n info => { info with ppid := n.toInt32 },
    .signed l.pgrp.toInt64 fun _ info => info,
    .signed l.session.toInt64 fun _ info => info,
    .signed l.ttyNr.toInt64 fun _ info => info,
    .signed l.tpgid.toInt64 fun _ info => info,
    .unsigned l.flags.toUInt64 fun _ info => info,
    .unsigned l.minflt fun _ info => info,
    .unsigned l.cminflt fun _ info => info,
    .unsigned l.majflt fun _ info => info,
    .unsigned l.cmajflt fun _ info => info,
    .unsigned l.utime fun n info => { info with utime := n },
    .unsigned l.stime fun n info => { info with stime := n },
    .signed l.cutime fun _ info => info,
    .signed l.cstime fun _ info => info,
    .signed l.priority fun _ info => info,
    .signed l.nice fun _ info => info,
    .signed l.numThreads.toInt64 fun n info => { info with threads := n.toInt32 },
    .signed l.itrealvalue fun _ info => info,
    .skipped l.starttime,
    .unsigned l.vsize fun n info => { info with vsize := n },
    .signed l.rss fun n info => { info with rss := n }]

section Line

variable (l : StatLine)

/-- The format is the one for these fields. -/
theorem statFormat_eq :
    statFormat = .char (fun c info => { info with state := c }) :: formatOf l.fields := rfl

/-- The fields that are not read, as text. -/
def StatLine.unread : Bytes := (l.later.map decimalInt).flatMap fun number => 32 :: number

theorem tail_eq : l.tail = textOf l.fields ++ l.unread := by
  have same : l.fields.map ScanField.text ++ l.later.map decimalInt = l.numbers := by
    simp only [StatLine.fields, StatLine.numbers, List.map_cons, List.map_nil, ScanField.text,
      Int32.toInt_toInt64, UInt32.toNat_toUInt64]
  rw [StatLine.tail, ← same, List.flatMap_append, List.flatMap_map]
  rfl

/-- What is scanned behind the state. -/
def scanned (info : ProcInfo) : ProcInfo :=
  { info with
    state := l.state
    ppid := l.ppid
    utime := l.utime
    stime := l.stime
    threads := l.numThreads
    vsize := l.vsize
    rss := l.rss }

/-- The assignments one after the other. -/
theorem foldl_effects (info : ProcInfo) :
    l.fields.foldl (fun info f => f.effect info) info =
      { info with
        ppid := l.ppid
        utime := l.utime
        stime := l.stime
        threads := l.numThreads
        vsize := l.vsize
        rss := l.rss } := by
  have ppid : l.ppid.toInt64.toInt32 = l.ppid := Int32.toInt32_toInt64 _
  have threads : l.numThreads.toInt64.toInt32 = l.numThreads := Int32.toInt32_toInt64 _
  rw [StatLine.fields]
  -- the conversions are not to be computed
  generalize l.ppid.toInt64 = n₁ at ppid ⊢
  generalize l.pgrp.toInt64 = n₂
  generalize l.session.toInt64 = n₃
  generalize l.ttyNr.toInt64 = n₄
  generalize l.tpgid.toInt64 = n₅
  generalize l.flags.toUInt64 = n₆
  generalize l.numThreads.toInt64 = n₇ at threads ⊢
  rw [← ppid, ← threads]
  rfl

theorem sscanf_statFormat {rest : Bytes} (separated : Separated rest) (info : ProcInfo) :
    sscanf statFormat (l.state :: (textOf l.fields ++ rest)) info = (21, scanned l info) := by
  have count : (l.fields.map ScanField.count).sum = 20 := by
    simp only [StatLine.fields, List.map_cons, List.map_nil, List.sum_cons, List.sum_nil,
      ScanField.count, Nat.reduceAdd]
  rw [statFormat_eq l, sscanf, scanf, scanf_fields l.fields _ _ separated, count, foldl_effects]
  rfl

/-! ## The parentheses -/

/-- The bytes of the numbers. -/
theorem mem_tail {x : UInt8} (mem : x ∈ l.tail) : x = 32 ∨ x = 45 ∨ isdigit x = true := by
  rw [tail_eq] at mem
  rcases List.mem_append.mp mem with read | unread
  · exact mem_textOf read
  · obtain ⟨t, number, behind⟩ := List.mem_flatMap.mp unread
    obtain ⟨n, -, rfl⟩ := List.mem_map.mp number
    rcases List.mem_cons.mp behind with blank | inside
    · exact Or.inl blank
    · exact Or.inr (mem_decimalInt inside)

/-- What is neither a blank, nor a sign, nor a digit is not in the numbers. -/
theorem not_mem_tail {x : UInt8} (blank : x ≠ 32) (sign : x ≠ 45) (digit : isdigit x = false) :
    x ∉ l.tail := by
  intro mem
  rcases mem_tail l mem with eq | eq | eq
  · exact blank eq
  · exact sign eq
  · rw [digit] at eq
    cases eq

/-- What stands in front of the name. -/
def StatLine.front : Bytes := decimalInt l.pid.toInt ++ [32]

theorem not_mem_front {x : UInt8} (blank : x ≠ 32) (sign : x ≠ 45) (digit : isdigit x = false) :
    x ∉ l.front := by
  intro mem
  rcases List.mem_append.mp mem with inside | eq
  · rcases mem_decimalInt inside with eq | eq
    · exact sign eq
    · rw [digit] at eq
      cases eq
  · exact blank (List.mem_singleton.mp eq)

theorem text_eq : l.text = l.front ++ 40 :: (l.comm ++ 41 :: 32 :: l.state :: l.tail) := by
  have opening : ascii " (" = [32, 40] := rfl
  have closing : ascii ") " = [41, 32] := rfl
  rw [StatLine.text, StatLine.front, opening, closing]
  simp only [List.append_assoc, List.cons_append, List.nil_append]

theorem zero_not_mem_text : (0 : UInt8) ∉ l.text := by
  rw [text_eq]
  have front := not_mem_front l (x := 0) (by decide) (by decide) rfl
  have tail := not_mem_tail l (x := 0) (by decide) (by decide) rfl
  simp [front, tail, l.commNul, Ne.symm l.stateChar.1]

theorem newline_not_mem_text : newline ∉ l.text := by
  rw [text_eq]
  have front := not_mem_front l (x := newline) (by decide) (by decide) rfl
  have tail := not_mem_tail l (x := newline) (by decide) (by decide) rfl
  have others : newline ≠ 40 ∧ newline ≠ 41 ∧ newline ≠ 32 := by decide
  simp [front, tail, l.commLine, Ne.symm l.stateChar.2.1, others]

/-- The first `(`, whatever the line ends with. -/
theorem strchr_text (rest : Bytes) : strchr 40 (l.text ++ rest) = some l.front.length := by
  have front := not_mem_front l (x := 40) (by decide) (by decide) rfl
  rw [text_eq, List.append_assoc, List.cons_append]
  exact strchr_append front _

/-- The last `)`. -/
theorem strrchr_text {rest : Bytes} (none : (41 : UInt8) ∉ rest) :
    strrchr 41 (l.text ++ rest) = some (l.front.length + 1 + l.comm.length) := by
  have tail := not_mem_tail l (x := 41) (by decide) (by decide) rfl
  have behind : (41 : UInt8) ∉ 32 :: l.state :: l.tail ++ rest := by
    simp [tail, none, Ne.symm l.stateChar.2.2]
  have split : l.text ++ rest =
      (l.front ++ 40 :: l.comm) ++ 41 :: (32 :: l.state :: l.tail ++ rest) := by
    rw [text_eq]
    simp only [List.append_assoc, List.cons_append]
  rw [split, strrchr_append _ behind, List.length_append, List.length_cons]
  congr 1
  omega

end Line

/-! ## The name -/

theorem nameLen_eq {start len : Nat} (short : start + len < 2048) :
    nameLen start (start + 1 + len) = min len 255 := by
  have stop : (UInt64.ofNat (start + 1 + len)).toNat = start + 1 + len :=
    UInt64.toNat_ofNat_of_lt' (Nat.lt_of_le_of_lt (show _ ≤ 2048 by omega) (by decide))
  have begins : (UInt64.ofNat start).toNat = start :=
    UInt64.toNat_ofNat_of_lt' (Nat.lt_of_le_of_lt (show _ ≤ 2048 by omega) (by decide))
  have difference : (UInt64.ofNat (start + 1 + len) - UInt64.ofNat start - 1).toNat = len := by
    rw [UInt64.toNat_sub_of_le, UInt64.toNat_sub_of_le, stop, begins]
    · have one : (1 : UInt64).toNat = 1 := rfl
      omega
    · rw [UInt64.le_iff_toNat_le, stop, begins]
      omega
    · rw [UInt64.le_iff_toNat_le, UInt64.toNat_sub_of_le, stop, begins]
      · have one : (1 : UInt64).toNat = 1 := rfl
        omega
      · rw [UInt64.le_iff_toNat_le, stop, begins]
        omega
  have size : (UInt64.ofNat nameSize).toNat = 256 := rfl
  have last : nameSize - 1 = 255 := rfl
  unfold nameLen
  dsimp only
  generalize UInt64.ofNat (start + 1 + len) - UInt64.ofNat start - 1 = d at difference ⊢
  split
  · rename_i long
    have long := UInt64.le_iff_toNat_le.mp long
    omega
  · rename_i fits
    have fits := mt UInt64.le_iff_toNat_le.mpr fits
    omega

/-- The name is copied and cut to 255 bytes. -/
theorem copyName_eq {buf name comm rest : Bytes} {start : Nat} (short : start + comm.length < 2048)
    (behind : (0 : UInt8) ∈ buf.drop (start + 1))
    (text : cstr (buf.drop (start + 1)) = comm ++ rest) (size : name.length = nameSize) :
    ∃ out, copyName buf start (start + 1 + comm.length) name = some out ∧
      IsString nameSize out (comm.take 255) := by
  have small : nameSize = 256 := rfl
  have len := nameLen_eq short
  have copied : (cstr (buf.drop (start + 1))).take (min comm.length 255) = comm.take 255 := by
    rw [text, List.take_append_of_le_length (Nat.min_le_left _ _)]
    rcases Nat.le_total comm.length 255 with le | ge
    · rw [Nat.min_eq_left le, List.take_length, List.take_of_length_le le]
    · rw [Nat.min_eq_right ge]
  have length : (comm.take 255).length = min comm.length 255 := by
    rw [List.length_take, Nat.min_comm]
  have noNul : (0 : UInt8) ∉ comm.take 255 := by
    rw [← copied]
    exact fun mem => zero_not_mem_cstr _ (List.mem_of_mem_take mem)
  have room : (comm.take 255).length < name.length := by omega
  have first : strncpy name (buf.drop (start + 1)) (min comm.length 255) =
      some (comm.take 255 ++ name.drop (comm.take 255).length) := by
    rw [strncpy, if_pos (Or.inl behind), copied, ← length, Nat.sub_self, List.replicate_zero,
      List.append_nil, storeAll_front (Nat.le_of_lt room)]
  obtain ⟨x, padding, rest⟩ : ∃ x l, name.drop (comm.take 255).length = x :: l := by
    apply List.exists_cons_of_ne_nil
    rw [Ne, List.drop_eq_nil_iff]
    omega
  have inside : (comm.take 255).length < (comm.take 255 ++ x :: padding).length := by
    rw [List.length_append, List.length_cons]
    omega
  apply Exists.intro (comm.take 255 ++ 0 :: padding)
  constructor
  · rw [copyName, len, first, Option.bind_some, rest, ← length, store_inside inside,
      List.set_append_right _ _ (Nat.le_refl _), Nat.sub_self, List.set_cons_zero]
  · have total := congrArg List.length rest
    rw [List.length_drop, List.length_cons] at total
    apply IsString.of_parts _ noNul
    rw [List.length_append, List.length_cons]
    omega

/-! ## The whole line -/

/-- `fgets` takes a line, and the end of it if there is room for that. -/
theorem fgets_line {line : Bytes} {size : Nat} (noEnd : newline ∉ line)
    (short : line.length < size) :
    ∃ eol, (eol = [] ∨ eol = [newline]) ∧ (line ++ eol).length < size ∧
      fgets size (line ++ [newline]) = some (line ++ eol) := by
  have more : line ++ [newline] ≠ [] := by simp
  have all : line.takeWhile (· ≠ newline) = line := by
    rw [List.takeWhile_eq_self_iff]
    intro x mem
    exact decide_eq_true fun eq => noEnd (eq ▸ mem)
  by_cases room : line.length < size - 1
  · refine ⟨[newline], Or.inr rfl, ?_, ?_⟩
    · rw [List.length_append, List.length_singleton]
      omega
    · have whole : (line ++ [newline]).take (size - 1) = line ++ [newline] := by
        apply List.take_of_length_le
        rw [List.length_append, List.length_singleton]
        omega
      rw [fgets, if_neg more, whole, takeWhile_ne_append noEnd]
      congr 1
      apply List.take_of_length_le
      rw [List.length_append, List.length_singleton]
  · have full : size - 1 = line.length := by omega
    refine ⟨[], Or.inl rfl, ?_, ?_⟩
    · rwa [List.append_nil]
    · rw [fgets, if_neg more, full, List.take_left, all, List.append_nil]
      congr 1
      exact List.take_of_length_le (Nat.le_succ _)

section Buffer

variable (l : StatLine) {buf eol : Bytes}

theorem drop_front (rest : Bytes) : (l.text ++ rest).drop (l.front.length + 1) =
    l.comm ++ 41 :: 32 :: l.state :: (l.tail ++ rest) := by
  rw [text_eq, List.append_assoc, List.drop_length_add_append]
  simp only [List.cons_append, List.drop_succ_cons, List.drop_zero, List.append_assoc]

theorem length_text_append (rest : Bytes) : (l.text ++ rest).length =
    l.front.length + l.comm.length + l.tail.length + rest.length + 4 := by
  rw [text_eq]
  simp only [List.length_append, List.length_cons]
  omega

/-- Behind the last number that is read there is a blank or the end. -/
theorem separated_unread (eol_ : eol = [] ∨ eol = [newline]) : Separated (l.unread ++ eol) := by
  intro x head
  unfold StatLine.unread at head
  cases later : l.later with
  | nil =>
      rw [later] at head
      rcases eol_ with rfl | rfl
      · cases head
      · cases head
        rfl
  | cons n ns =>
      rw [later] at head
      cases head
      rfl

variable (string : IsString bufSize buf (l.text ++ eol))
include string

/-- The name in `buf`. -/
theorem copyName_recovers {name : Bytes} (size : name.length = nameSize) :
    ∃ out, copyName buf l.front.length (l.front.length + 1 + l.comm.length) name = some out ∧
      IsString nameSize out (l.comm.take 255) := by
  have total := string.lt
  have bound : bufSize = 2048 := rfl
  have length := length_text_append l eol
  obtain ⟨nul, text⟩ := string.drop (k := l.front.length + 1) (by omega)
  rw [drop_front] at text
  exact copyName_eq (by omega) nul text size

/-- The fields in `buf`. -/
theorem scanStat_recovers (eol_ : eol = [] ∨ eol = [newline]) (info : ProcInfo) :
    scanStat buf (l.front.length + 1 + l.comm.length) info = some (scanned l info) := by
  have length := length_text_append l eol
  obtain ⟨nul, text⟩ := string.drop (k := l.front.length + 1 + l.comm.length + 2) (by omega)
  have behind : (l.text ++ eol).drop (l.front.length + 1 + l.comm.length + 2) =
      l.state :: (textOf l.fields ++ (l.unread ++ eol)) := by
    rw [Nat.add_assoc, ← List.drop_drop, drop_front, List.drop_length_add_append, tail_eq]
    simp only [List.drop_succ_cons, List.drop_zero, List.append_assoc]
  rw [behind] at text
  rw [scanStat]
  dsimp only
  rw [if_pos nul, text, sscanf_statFormat l (separated_unread l eol_)]
  rfl

/-- What is made of the line once it is in `buf`. -/
theorem parseStat_recovers (files : Bytes → Option Bytes) (pid : Int32)
    (eol_ : eol = [] ∨ eol = [newline]) :
    ∃ info, parseStat files buf (.start pid) = some (0, info) ∧ Recovered l info := by
  have noParen : (41 : UInt8) ∉ eol := by
    rcases eol_ with rfl | rfl
    · exact List.not_mem_nil
    · decide
  have size : (ProcInfo.start pid).name.length = nameSize := List.length_replicate
  obtain ⟨name, copied, isName⟩ := copyName_recovers l string size
  have room (text : Bytes) : (text.take (stateSize - 1) ++ [0]).length ≤
      (List.replicate stateSize (0 : UInt8)).length := by
    have small : stateSize = 32 := rfl
    rw [List.length_append, List.length_take, List.length_singleton, List.length_replicate]
    omega
  rw [parseStat, string.text, strchr_text, strrchr_text l noParen]
  dsimp only
  rw [copied, Option.bind_some, scanStat_recovers l string eol_, Option.bind_some, snprintf]
  simp only [scanned, ProcInfo.start]
  rw [storeAll_front (room _)]
  exact ⟨_, rfl, ⟨isName, rfl, rfl, rfl, rfl, rfl, rfl, rfl⟩⟩

end Buffer

/-- **The line is taken apart rightly.** Whatever the name is, `get_proc_info` recovers it
up to its 255th byte, and the fields it keeps are those of the line. -/
theorem getProcInfo_recovers (l : StatLine) (files : Bytes → Option Bytes) (buf : Chars bufSize)
    (pid : Int32) (file : files (statPath pid) = some (l.text ++ [newline]))
    (short : l.text.length < bufSize) :
    ∃ info, getProcInfo files buf pid = some (0, info) ∧ Recovered l info := by
  obtain ⟨eol, eol_, fits, read⟩ := fgets_line (newline_not_mem_text l) short
  have noNul : (0 : UInt8) ∉ l.text ++ eol := by
    intro mem
    rcases List.mem_append.mp mem with inText | inEnd
    · exact zero_not_mem_text l inText
    · rcases eol_ with rfl | rfl
      · cases inEnd
      · exact absurd inEnd (by decide)
  obtain ⟨out, stored, string⟩ := storeAll_string buf.2 fits noNul
  rw [getProcInfo, file, Option.bind_some, read]
  dsimp only
  rw [stored, Option.bind_some]
  exact parseStat_recovers l string files pid eol_

/-- The line of a process whose name looks like the fields behind it. -/
def imitation : StatLine where
  pid := 7
  comm := ascii "a) R 9 (b"
  state := 83
  ppid := 1
  pgrp := 7
  session := 7
  ttyNr := 0
  tpgid := -1
  flags := 4194560
  minflt := 120
  cminflt := 0
  majflt := 3
  cmajflt := 0
  utime := 41
  stime := 12
  cutime := 0
  cstime := 0
  priority := -2
  nice := 0
  numThreads := 2
  itrealvalue := 0
  starttime := 30211
  vsize := 18446744073709551615
  rss := 900
  later := [18446744073709551615, 0, -17]
  commLine := by decide
  commNul := by decide
  stateChar := by decide

theorem getProcInfo_recovers_imitation :
    ∃ info, getProcInfo
        (fun path => if path = statPath 7 then some (imitation.text ++ [newline]) else none)
        ⟨List.replicate bufSize 255, List.length_replicate⟩ 7 = some (0, info) ∧
      Recovered imitation info :=
  getProcInfo_recovers imitation _ _ 7 (if_pos rfl) (by decide +kernel)

end Osisp.Proc
