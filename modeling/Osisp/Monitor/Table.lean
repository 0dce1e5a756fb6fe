import Osisp.Lib.Meter
import Osisp.Monitor.Readings
import Osisp.Stress.Schedule

/-!
# The rows of the monitor

Each row accounts for the time since the row before it, so that a reading that fails loses
nothing: all rows together account for the time from the first reading to the last
(`runMonitor_accounts`).
-/

namespace Osisp.Monitor

open Lib Censor

/-! ## `read_cpu_stats` -/

theorem readCpuStats_text (f : StatFile) (t : CpuTimes) :
    readCpuStats (some f.text) t = (0, f.times) := by
  have begins : ascii "cpu" <+: f.text :=
    ⟨32 :: (textOf (StatFile.fields f.times) ++ f.behind), rfl⟩
  have behind : f.text.drop 3 = 32 :: (textOf (StatFile.fields f.times) ++ f.behind) := rfl
  have format : cpuFormat = formatOf (StatFile.fields f.times) := rfl
  have blank : scanf 0 0 cpuFormat (32 :: (textOf (StatFile.fields f.times) ++ f.behind)) t =
      scanf 0 0 cpuFormat (textOf (StatFile.fields f.times) ++ f.behind) t := by
    rw [cpuFormat, scanf, scanf, List.dropWhile_cons_of_pos (by decide)]
  have read : sscanf cpuFormat (f.text.drop 3) t = (4, f.times) := by
    rw [behind, sscanf, blank, format, scanf_fields _ _ _ f.separated]
    rfl
  rw [readCpuStats]
  dsimp only
  rw [if_pos begins, read]
  rfl

/-- Whether the file can be read does not depend on the variables. -/
theorem readCpuStats_result (file : Option Bytes) (t t' : CpuTimes) :
    (readCpuStats file t).1 = (readCpuStats file t').1 := by
  cases file with
  | none => rfl
  | some text =>
      rw [readCpuStats, readCpuStats]
      dsimp only
      split
      · dsimp only
        rw [sscanf, sscanf, scanf_result _ _ _ _ t t']
      · rfl

/-! ## `read_mem_stats` -/

/-- What a line does. -/
def MemStats.set (mem : MemStats) (e : MemEntry) : MemStats :=
  if e.name = ascii "MemTotal" then { mem with total := e.value }
  else if e.name = ascii "MemFree" then { mem with free := e.value }
  else if e.name = ascii "MemAvailable" then { mem with available := e.value }
  else mem

section Line

variable (e : MemEntry) (mem : MemStats)

theorem label_begins (label : Bytes) {name rest : Bytes} (one : (58 : UInt8) ∉ label)
    (other : (58 : UInt8) ∉ name) : label ++ [58] <+: name ++ 58 :: rest ↔ name = label := by
  constructor
  · rintro ⟨behind, same⟩
    rw [List.append_assoc, List.singleton_append] at same
    have fronts := congrArg (List.takeWhile (· ≠ 58)) same
    rwa [takeWhile_ne_append one, takeWhile_ne_append other, eq_comm] at fronts
  · rintro rfl
    exact ⟨rest, by rw [List.append_assoc, List.singleton_append]⟩

/-- The value behind a label. -/
theorem scan_entry (assign : Int64 → MemStats → MemStats) {label : Bytes}
    (name : e.name = label) :
    (sscanf [.signed assign] ((e.text ++ [newline]).drop (label.length + 1)) mem).2 =
      assign e.value mem := by
  have separated : Separated (e.unit ++ [newline]) := by
    intro x head
    cases unit : e.unit with
    | nil =>
        rw [unit] at head
        cases head
        rfl
    | cons y unit' =>
        rw [unit] at head
        exact e.separated x (by rw [unit]; exact head)
  have behind : (e.text ++ [newline]).drop (label.length + 1) = List.replicate e.blanks 32 ++
      (decimalInt e.value.toInt ++ (e.unit ++ [newline])) := by
    rw [MemEntry.text, ← name, List.append_assoc, List.drop_length_add_append, List.cons_append,
      List.drop_succ_cons, List.drop_zero, List.append_assoc, List.append_assoc]
  rw [behind, sscanf_value _ _ _ separated]

theorem memLine_text : memLine (e.text ++ [newline]) mem = mem.set e := by
  have text : e.text ++ [newline] = e.name ++ 58 :: (List.replicate e.blanks 32 ++
      (decimalInt e.value.toInt ++ e.unit) ++ [newline]) := by
    rw [MemEntry.text, List.append_assoc, List.cons_append]
  have other : (58 : UInt8) ∉ e.name := fun mem => (e.nameLine _ mem).2.2 rfl
  have total : ascii "MemTotal:" <+: e.text ++ [newline] ↔ e.name = ascii "MemTotal" := by
    rw [text]
    exact label_begins (ascii "MemTotal") (by decide) other
  have free : ascii "MemFree:" <+: e.text ++ [newline] ↔ e.name = ascii "MemFree" := by
    rw [text]
    exact label_begins (ascii "MemFree") (by decide) other
  have available : ascii "MemAvailable:" <+: e.text ++ [newline] ↔
      e.name = ascii "MemAvailable" := by
    rw [text]
    exact label_begins (ascii "MemAvailable") (by decide) other
  rw [memLine, MemStats.set]
  simp only [total, free, available]
  split
  · rename_i name
    exact scan_entry e mem _ name
  · split
    · rename_i name
      exact scan_entry e mem _ name
    · split
      · rename_i name
        exact scan_entry e mem _ name
      · rfl

end Line

/-- `fgets` takes the first line with its end. -/
theorem fgets_first {line rest : Bytes} {size : Nat} (one : newline ∉ line)
    (short : line.length < size - 1) :
    fgets size (line ++ newline :: rest) = some (line ++ [newline]) := by
  obtain ⟨room, size_⟩ : ∃ room, size - 1 = line.length + (room + 1) :=
    ⟨size - 1 - line.length - 1, by omega⟩
  have more : line ++ newline :: rest ≠ [] := List.append_ne_nil_of_right_ne_nil _ (by simp)
  rw [fgets, if_neg more, size_, List.take_length_add_append, List.take_succ_cons,
    takeWhile_ne_append one, List.take_length_add_append, List.take_succ_cons, List.take_zero]

theorem MemEntry.plain (e : MemEntry) :
    newline ∉ e.text ∧ (0 : UInt8) ∉ e.text ∧ e.text.length < lineSize - 1 := by
  have number : ∀ x ∈ decimalInt e.value.toInt, x ≠ newline ∧ x ≠ 0 := by
    intro x mem
    rcases mem_decimalInt mem with rfl | digit
    · decide
    · exact ⟨ne_of_isdigit digit rfl, ne_of_isdigit digit rfl⟩
  have all : ∀ x ∈ e.text, x ≠ newline ∧ x ≠ 0 := by
    intro x mem
    simp only [MemEntry.text, List.mem_append, List.mem_cons, List.mem_replicate] at mem
    rcases mem with name | rfl | ⟨-, rfl⟩ | digit | unit
    · exact ⟨(e.nameLine x name).1, (e.nameLine x name).2.1⟩
    · decide
    · decide
    · exact number x digit
    · exact e.unitLine x unit
  refine ⟨fun mem => (all _ mem).1 rfl, fun mem => (all _ mem).2 rfl, ?_⟩
  have short := e.short
  rw [MemEntry.text]
  simp only [List.length_append, List.length_cons, List.length_replicate]
  omega

/-- The loop goes through the lines. -/
theorem memLoop_entries (es : List MemEntry) {fuel : Nat}
    (enough : (es.flatMap fun e => e.text ++ [newline]).length ≤ fuel) (mem : MemStats) :
    memLoop fuel (es.flatMap fun e => e.text ++ [newline]) mem = es.foldl MemStats.set mem := by
  induction es generalizing fuel mem with
  | nil =>
      cases fuel with
      | zero => rfl
      | succ fuel => rfl
  | cons e es ih =>
      obtain ⟨line, noNul, short⟩ := e.plain
      rw [List.flatMap_cons] at enough ⊢
      have whole : cstr (e.text ++ [newline]) = e.text ++ [newline] := by
        refine cstr_eq_self fun mem => ?_
        rcases List.mem_append.mp mem with inside | last
        · exact noNul inside
        · exact absurd (List.mem_singleton.mp last) (by decide)
      have first : fgets lineSize ((e.text ++ [newline]) ++
          es.flatMap fun e => e.text ++ [newline]) = some (e.text ++ [newline]) := by
        rw [List.append_assoc, List.singleton_append]
        exact fgets_first line short
      rw [List.length_append, List.length_append, List.length_singleton] at enough
      cases fuel with
      | zero => omega
      | succ fuel =>
          rw [memLoop, first]
          dsimp only
          rw [List.drop_left, whole, memLine_text, ih (by omega), List.foldl_cons]

/-- A variable that one line sets. -/
theorem foldl_set (proj : MemStats → Int64) {label : Bytes}
    (sets : ∀ mem e, proj (MemStats.set mem e) = if e.name = label then e.value else proj mem)
    {es : List MemEntry} (distinct : (es.map MemEntry.name).Nodup) (mem : MemStats) :
    proj (es.foldl MemStats.set mem) =
      (es.find? fun e => e.name = label).elim (proj mem) MemEntry.value := by
  induction es generalizing mem with
  | nil => rfl
  | cons e es ih =>
      obtain ⟨fresh, distinct'⟩ := List.nodup_cons.mp distinct
      rw [List.foldl_cons, ih distinct', sets]
      by_cases name : e.name = label
      · have others : (es.find? fun e => e.name = label) = none := by
          refine List.find?_eq_none.mpr fun e' mem same => fresh ?_
          rw [List.map_cons] at *
          rw [name, ← of_decide_eq_true same]
          exact List.mem_map_of_mem mem
        rw [others, List.find?_cons_of_pos (by simpa using name), if_pos name]
        rfl
      · rw [List.find?_cons_of_neg (by simpa using name), if_neg name]

theorem MemStats.set_total (mem : MemStats) (e : MemEntry) :
    (mem.set e).total = if e.name = ascii "MemTotal" then e.value else mem.total := by
  unfold set
  split
  · rfl
  · split
    · rfl
    · split <;> rfl

theorem MemStats.set_free (mem : MemStats) (e : MemEntry) :
    (mem.set e).free = if e.name = ascii "MemFree" then e.value else mem.free := by
  unfold set
  split
  · rename_i name
    rw [name, if_neg (by decide)]
  · split
    · rfl
    · split <;> rfl

theorem MemStats.set_available (mem : MemStats) (e : MemEntry) :
    (mem.set e).available = if e.name = ascii "MemAvailable" then e.value else mem.available := by
  unfold set
  split
  · rename_i name
    rw [name, if_neg (by decide)]
  · split
    · rename_i name
      rw [name, if_neg (by decide)]
    · split <;> rfl

/-- `read_mem_stats` finds the three values, wherever their lines are. -/
theorem readMemStats_text (f : MemFile) (mem : Option MemStats) :
    readMemStats (some f.text) mem =
      (0, some ⟨f.value "MemTotal", f.value "MemFree", f.value "MemAvailable"⟩) := by
  have loop := memLoop_entries f.entries (Nat.le_refl _) ⟨0, 0, 0⟩
  have total := foldl_set MemStats.total MemStats.set_total f.distinct ⟨0, 0, 0⟩
  have free := foldl_set MemStats.free MemStats.set_free f.distinct ⟨0, 0, 0⟩
  have available :=
    foldl_set MemStats.available MemStats.set_available f.distinct ⟨0, 0, 0⟩
  rw [readMemStats, MemFile.text, loop, MemFile.value, MemFile.value, MemFile.value, ← total,
    ← free, ← available]

/-! ## `calculate_cpu_usage` -/

section Usage

variable {f g : StatFile}

theorem StatFile.total_times (f : StatFile) :
    ∃ n, f.times.total = some n ∧ n.toInt = f.total := by
  have user := f.user
  have nice := f.nice
  have system := f.system
  have idle := f.idle
  have fits := f.fits
  obtain ⟨n, first, value⟩ := @checkedLong_of_fits (f.times.user.toInt + f.times.nice.toInt)
    (by omega) (by omega)
  obtain ⟨n', second, value'⟩ := @checkedLong_of_fits (n.toInt + f.times.system.toInt)
    (by omega) (by omega)
  obtain ⟨n'', third, value''⟩ := @checkedLong_of_fits (n'.toInt + f.times.idle.toInt)
    (by omega) (by omega)
  refine ⟨n'', ?_, ?_⟩
  · rw [CpuTimes.total, first, Option.bind_some, second, Option.bind_some, third]
  · rw [value'', value', value]
    rfl

theorem StatFile.Before.bounds (h : f.Before g) :
    0 ≤ g.busy - f.busy ∧ g.busy - f.busy ≤ g.total - f.total ∧ g.total - f.total < 2 ^ 63 := by
  obtain ⟨user, nice, system, idle⟩ := h
  have user₀ := f.user
  have nice₀ := f.nice
  have system₀ := f.system
  have idle₀ := f.idle
  have fits := g.fits
  unfold total busy
  refine ⟨?_, ?_, ?_⟩ <;> omega

/-- The operands are what happened between two readings. -/
theorem calculateCpuUsage_between (h : f.Before g) :
    ∃ u, calculateCpuUsage f.times g.times = some u ∧ u.busy.toInt = g.busy - f.busy ∧
      u.total.toInt = g.total - f.total := by
  obtain ⟨lower, part, upper⟩ := h.bounds
  obtain ⟨prev, prevTotal, prevValue⟩ := f.total_times
  obtain ⟨curr, currTotal, currValue⟩ := g.total_times
  have idle : g.times.idle.toInt - f.times.idle.toInt =
      (g.total - f.total) - (g.busy - f.busy) := by
    unfold StatFile.total StatFile.busy
    omega
  obtain ⟨total, totalDiff, totalValue⟩ := @checkedLong_of_fits (g.total - f.total)
    (by omega) (by omega)
  obtain ⟨rest, idleDiff, idleValue⟩ :=
    @checkedLong_of_fits (g.times.idle.toInt - f.times.idle.toInt) (by omega) (by omega)
  obtain ⟨busy, busyDiff, busyValue⟩ := @checkedLong_of_fits (total.toInt - rest.toInt)
    (by omega) (by omega)
  rw [calculateCpuUsage, prevTotal, Option.bind_some, currTotal, Option.bind_some, prevValue,
    currValue, totalDiff, Option.bind_some, idleDiff, Option.bind_some]
  by_cases none : total = 0
  · rw [if_pos none]
    have zero : g.total - f.total = 0 := by
      rw [← totalValue, none]
      rfl
    have value : (0 : Int64).toInt = 0 := rfl
    exact ⟨⟨0, 0⟩, rfl, by rw [value]; omega, by rw [value]; omega⟩
  · rw [if_neg none, busyDiff]
    exact ⟨⟨busy, total⟩, rfl, by rw [busyValue, totalValue, idleValue]; omega, totalValue⟩

/-- The processors are never more busy than there is time. -/
theorem Usage.percent_bounds {u : Usage} (lower : 0 ≤ u.busy.toInt)
    (upper : u.busy.toInt ≤ u.total.toInt) : 0 ≤ u.percent ∧ u.percent ≤ 100 := by
  unfold percent
  split
  · exact ⟨le_refl _, by norm_num⟩
  · rename_i some_
    have positive : (0 : ℚ) < (u.total.toInt : ℚ) := by
      have nonzero : u.total.toInt ≠ 0 := fun zero => some_ (Int64.toInt_inj.mp zero)
      exact_mod_cast lt_of_le_of_ne (lower.trans upper) (Ne.symm nonzero)
    have lower' : (0 : ℚ) ≤ (u.busy.toInt : ℚ) := by exact_mod_cast lower
    have upper' : (u.busy.toInt : ℚ) ≤ (u.total.toInt : ℚ) := by exact_mod_cast upper
    refine ⟨by positivity, ?_⟩
    rw [div_le_iff₀ positive]
    exact mul_le_mul_of_nonneg_left upper' (by norm_num)

end Usage

/-! ## The loop -/

/-- What the files contain when a row is printed. -/
structure Sample where
  timestamp : Bytes
  stat : StatFile
  mem : MemFile
  dir : List DirEntry

/-- The samples that the loop finds from turn `i` on. A turn in which `/proc/stat` cannot be
opened, or has no four numbers, has none, and after a signal there are no more. -/
inductive Finds (turns : Nat → Turn) : Nat → Nat → List Sample → Prop
  | done {i : Nat} : Finds turns i 0 []
  | stopped {i left : Nat} (stop : (turns i).running = false) : Finds turns i (left + 1) []
  | unread {i left : Nat} {ss : List Sample} (running : (turns i).running = true)
      (lost : (readCpuStats (turns i).stat ⟨0, 0, 0, 0⟩).1 ≠ 0)
      (rest : Finds turns (i + 1) left ss) : Finds turns i (left + 1) ss
  | sample {i left : Nat} {s : Sample} {ss : List Sample}
      (here : turns i = ⟨true, s.timestamp, some s.stat.text, some s.mem.text, some s.dir⟩)
      (rest : Finds turns (i + 1) left ss) : Finds turns i (left + 1) (s :: ss)

/-- The row between two readings. -/
structure Row.Shows (row : Row) (f : StatFile) (s : Sample) : Prop where
  timestamp : row.timestamp = s.timestamp
  busy : row.usage.busy.toInt = s.stat.busy - f.busy
  total : row.usage.total.toInt = s.stat.total - f.total
  percent : 0 ≤ row.usage.percent ∧ row.usage.percent ≤ 100
  mem : row.mem = ⟨s.mem.value "MemTotal", s.mem.value "MemFree", s.mem.value "MemAvailable"⟩
  processes : row.processes = s.dir.countP DirEntry.isProcess

/-- The rows of the samples, after the reading `f`. -/
inductive Table : StatFile → List Row → List Sample → Prop
  | nil {f : StatFile} : Table f [] []
  | cons {f : StatFile} {row : Row} {rows : List Row} {s : Sample} {ss : List Sample}
      (shows : row.Shows f s) (rest : Table s.stat rows ss) : Table f (row :: rows) (s :: ss)

/-- The last reading. -/
def lastStat (f : StatFile) (ss : List Sample) : StatFile := (ss.map Sample.stat).getLastD f

theorem Table.usage_eq {f : StatFile} {rows : List Row} {ss : List Sample} (h : Table f rows ss) :
    (rows.map fun row => row.usage.busy.toInt) =
        differences f.busy ((ss.map Sample.stat).map StatFile.busy) ∧
      (rows.map fun row => row.usage.total.toInt) =
        differences f.total ((ss.map Sample.stat).map StatFile.total) := by
  induction h with
  | nil => exact ⟨rfl, rfl⟩
  | cons shows _ ih =>
      simp only [List.map_cons, differences_cons]
      rw [ih.1, ih.2, shows.busy, shows.total]
      exact ⟨rfl, rfl⟩

/-- What the rows account for lies between the first reading and the last. -/
theorem Table.sums {f : StatFile} {rows : List Row} {ss : List Sample} (h : Table f rows ss) :
    (rows.map fun row => row.usage.busy.toInt).sum = (lastStat f ss).busy - f.busy ∧
      (rows.map fun row => row.usage.total.toInt).sum = (lastStat f ss).total - f.total := by
  obtain ⟨busy, total⟩ := h.usage_eq
  rw [busy, total, sum_differences, sum_differences, List.getLastD_map, List.getLastD_map]
  exact ⟨rfl, rfl⟩

variable {turns : Nat → Turn} {i left : Nat} {ss : List Sample}

theorem monitorLoop_table (finds : Finds turns i left ss) {f : StatFile}
    (grows : (f :: ss.map Sample.stat).IsChain StatFile.Before) (curr : CpuTimes)
    (mem : Option MemStats) :
    ∃ rows, monitorLoop turns i left f.times curr mem = some rows ∧ Table f rows ss := by
  induction finds generalizing f curr mem with
  | done => exact ⟨[], rfl, .nil⟩
  | stopped stop =>
      refine ⟨[], ?_, .nil⟩
      rw [monitorLoop]
      dsimp only
      rw [stop]
      rfl
  | @unread i left ss running lost _ ih =>
      -- the variables that the format has reached are not copied
      obtain ⟨rows, eq, table⟩ := ih grows (readCpuStats (turns i).stat curr).2 mem
      rw [readCpuStats_result _ _ curr] at lost
      refine ⟨rows, ?_, table⟩
      rw [monitorLoop]
      dsimp only
      rw [if_pos running, if_neg lost]
      exact eq
  | @sample i left s ss here _ ih =>
      rw [List.map_cons, List.isChain_cons_cons] at grows
      obtain ⟨before, grows⟩ := grows
      obtain ⟨usage, between, busy, total⟩ := calculateCpuUsage_between before
      obtain ⟨lower, part, -⟩ := before.bounds
      let shown : MemStats :=
        ⟨s.mem.value "MemTotal", s.mem.value "MemFree", s.mem.value "MemAvailable"⟩
      obtain ⟨rows, eq, table⟩ := ih grows s.stat.times (some shown)
      refine ⟨⟨s.timestamp, usage, shown, getProcessCount (some s.dir)⟩ :: rows, ?_,
        .cons ⟨rfl, busy, total, ?_, rfl, rfl⟩ table⟩
      · rw [monitorLoop, here]
        dsimp only
        rw [if_pos rfl, readCpuStats_text]
        dsimp only
        rw [if_pos rfl, between, Option.bind_some, readMemStats_text, Option.bind_some, eq]
        rfl
      · exact Usage.percent_bounds (by rw [busy]; exact lower) (by rw [busy, total]; exact part)

/-! ## `run_monitor` -/

/-- **The table is complete.** If the counters only grow, a row shows for each reading what has
been done since the reading before it, with the memory and the number of processes, and all
rows together account for the time from the first reading to the last, whichever readings
have failed in between. -/
theorem runMonitor_accounts {interval duration iterations : CInt}
    (quotient : cdiv duration interval = some iterations) (first : StatFile)
    (found : CpuTimes × CpuTimes) (finds : Finds turns 0 iterations.1.toNat ss)
    (grows : (first :: ss.map Sample.stat).IsChain StatFile.Before) :
    ∃ rows, runMonitor (some first.text) turns found interval duration = some (.ok rows) ∧
      Table first rows ss ∧
      (rows.map fun row => row.usage.busy.toInt).sum = (lastStat first ss).busy - first.busy ∧
      (rows.map fun row => row.usage.total.toInt).sum =
        (lastStat first ss).total - first.total := by
  obtain ⟨rows, eq, table⟩ := monitorLoop_table finds grows found.2 none
  refine ⟨rows, ?_, table, table.sums⟩
  rw [runMonitor, quotient, Option.bind_some, readCpuStats_text]
  dsimp only
  rw [if_neg (by decide), eq]
  rfl

/-- Two readings of the counters. -/
def earlier : StatFile where
  times := ⟨10, 0, 5, 100⟩
  behind := ascii " 0\n"
  separated x head := by
    cases head
    rfl
  user := by decide
  nice := by decide
  system := by decide
  idle := by decide
  fits := by decide

def later : StatFile where
  times := ⟨30, 0, 15, 170⟩
  behind := ascii " 0\n"
  separated x head := by
    cases head
    rfl
  user := by decide
  nice := by decide
  system := by decide
  idle := by decide
  fits := by decide

def memory : MemFile where
  entries := [{
    name := ascii "MemFree"
    blanks := 3
    value := 4096
    unit := ascii " kB"
    nameLine := by decide +kernel
    unitLine := by decide +kernel
    separated := fun x head => by
      cases head
      rfl
    short := by decide }]
  distinct := by decide

/-- A turn in which `/proc/stat` cannot be opened, one in which it has two numbers, and one in
which it can be read. -/
def lostReading (i : Nat) : Turn :=
  if i = 0 then ⟨true, [], none, none, none⟩
  else if i = 1 then ⟨true, [], some (ascii "cpu 1 2\n"), none, none⟩
  else ⟨true, ascii "12:00", some later.text, some memory.text, some [⟨ascii "1", true⟩]⟩

theorem runMonitor_accounts_lostReading :
    ∃ rows, runMonitor (some earlier.text) lostReading (⟨0, 0, 0, 0⟩, ⟨0, 0, 0, 0⟩)
        ⟨2, by decide⟩ ⟨6, by decide⟩ = some (.ok rows) ∧
      (rows.map fun row => row.usage.busy.toInt).sum = 30 ∧
      (rows.map fun row => row.usage.total.toInt).sum = 100 := by
  let sample : Sample := ⟨ascii "12:00", later, memory, [⟨ascii "1", true⟩]⟩
  have finds : Finds lostReading 0 3 [sample] :=
    .unread rfl (by decide +kernel) (.unread rfl (by decide +kernel)
      (@Finds.sample _ 2 0 sample [] rfl .done))
  have before : earlier.Before later := ⟨by decide, by decide, by decide, by decide⟩
  have grows : (earlier :: [sample].map Sample.stat).IsChain StatFile.Before :=
    List.isChain_pair.mpr before
  have quotient : cdiv ⟨6, by decide⟩ ⟨2, by decide⟩ = some ⟨3, by decide⟩ := by decide +kernel
  have worked : later.busy - earlier.busy = 30 := by decide
  have passed : later.total - earlier.total = 100 := by decide +kernel
  obtain ⟨rows, eq, -, busy, total⟩ :=
    runMonitor_accounts quotient earlier (⟨0, 0, 0, 0⟩, ⟨0, 0, 0, 0⟩) finds grows
  exact ⟨rows, eq, busy.trans worked, total.trans passed⟩

/-! ## The number of rows -/

/-- Whether `/proc/stat` can be read before the loop, and in each turn of it. -/
def reads (first : Option Bytes) (turns : Nat → Turn) : Nat → Bool
  | 0 => (readCpuStats first ⟨0, 0, 0, 0⟩).1 = 0
  | k + 1 => (readCpuStats (turns k).stat ⟨0, 0, 0, 0⟩).1 = 0

theorem readCpuStats_cases (file : Option Bytes) (t : CpuTimes) :
    (readCpuStats file t).1 = 0 ∨ (readCpuStats file t).1 = -1 := by
  cases file with
  | none => exact .inr rfl
  | some text =>
      rw [readCpuStats]
      dsimp only
      split
      · dsimp only
        split
        · exact .inl rfl
        · exact .inr rfl
      · exact .inr rfl

/-- While no signal comes, there is a row for each turn in which the file can be read. -/
theorem monitorLoop_counts (first : Option Bytes) (running : ∀ k, (turns k).running = true)
    {prev curr : CpuTimes} {mem : Option MemStats} {rows : List Row}
    (eq : monitorLoop turns i left prev curr mem = some rows) :
    rows.length = Stress.sampleLoop (reads first turns) i left := by
  induction left generalizing i prev curr mem rows with
  | zero =>
      cases eq
      rfl
  | succ left ih =>
      have same : reads first turns (i + 1) =
          decide ((readCpuStats (turns i).stat curr).1 = 0) := by
        rw [reads, readCpuStats_result _ _ curr]
      rw [monitorLoop] at eq
      dsimp only at eq
      rw [if_pos (running i)] at eq
      rw [Stress.sampleLoop, same]
      by_cases read : (readCpuStats (turns i).stat curr).1 = 0
      · rw [if_pos read] at eq
        obtain ⟨usage, -, eq⟩ := Option.bind_eq_some_iff.mp eq
        obtain ⟨shown, -, eq⟩ := Option.bind_eq_some_iff.mp eq
        obtain ⟨later, rest, rfl⟩ := Option.map_eq_some_iff.mp eq
        rw [List.length_cons, ih rest, if_pos (decide_eq_true read), Nat.add_comm]
      · rw [if_neg read] at eq
        rw [ih eq, if_neg (by simpa using read), Nat.zero_add]

/-- The rows that were printed. -/
def rowCount : Except String (List Row) → Nat
  | .error _ => 0
  | .ok rows => rows.length

/-- The table has as many rows as there are samples. -/
theorem runMonitor_counts {first : Option Bytes} (running : ∀ k, (turns k).running = true)
    {found : CpuTimes × CpuTimes} {interval duration : CInt} {outcome : Except String (List Row)}
    (eq : runMonitor first turns found interval duration = some outcome) :
    Stress.runMonitor (reads first turns) interval duration = some (rowCount outcome) := by
  obtain ⟨iterations, quotient, eq⟩ := Option.bind_eq_some_iff.mp eq
  have start : reads first turns 0 = decide ((readCpuStats first found.1).1 = 0) := by
    rw [reads, readCpuStats_result _ _ found.1]
  rw [Stress.runMonitor, quotient, Option.map_some, start]
  dsimp only at eq
  rcases readCpuStats_cases first found.1 with read | lost
  · rw [read, if_neg (by decide)] at eq
    obtain ⟨rows, printed, rfl⟩ := Option.map_eq_some_iff.mp eq
    rw [if_pos (decide_eq_true read), ← monitorLoop_counts first running printed]
    rfl
  · rw [lost, if_pos (by decide)] at eq
    cases eq
    rw [lost]
    rfl

end Osisp.Monitor
