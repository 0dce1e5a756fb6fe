import Osisp.Lib.Meter
import Osisp.Proc.Listing

/-!
# What the stress test uses (`LabWork_5/stress_test.c`)

In front of each step `main` prints the processor time that the process has used since the
step before it, and its memory. The time is the 14th and the 15th word of
`/proc/<pid>/stat`, where other programs look behind the name; as long as there is no blank
in the name both find the same (`readTimes_agrees`), and all steps together account for the
time from the first to the last (`measure_accounts`).
-/

namespace Osisp.Stress

open Lib Censor Proc

/-- `fscanf (stat, "%*s ")`: what is left of the file, or `EOF`. -/
def skipWord (input : Bytes) : Option Bytes :=
  let input := input.dropWhile isspace
  if input = [] then none
  else some ((input.dropWhile fun x => !isspace x).dropWhile isspace)

/-- The loop over the words in front of the times. -/
def skipWords : Nat → Bytes → Bytes
  | 0, input => input
  | n + 1, input =>
      match skipWord input with
      | none => []
      | some rest => skipWords n rest

/-- `"%ld %ld"`. -/
def pairFormat : List (Directive (Int64 × Int64)) :=
  [.signed fun n p => (n, p.2), .space, .signed fun n p => (p.1, n)]

/-- Two numbers of a file, if both can be read. -/
def readPair (input : Bytes) : Option (Int64 × Int64) :=
  let (n, pair) := sscanf pairFormat input (0, 0)
  if n = 2 then some pair else none

/-- `utime` and `stime`. -/
def readTimes (text : Bytes) : Option (Int64 × Int64) := readPair (skipWords 13 text)

/-- The `static` variables of `get_process_cpu_usage`, the time in nanoseconds. -/
structure Statics where
  prevUtime : Int64
  prevStime : Int64
  prevTime : Nat

def Statics.zero : Statics := ⟨0, 0, 0⟩

/-- The operands of the percentage: `delta_utime + delta_stime` and `delta_time`. -/
structure Share where
  ticks : Int64
  time : Nat

/-- `get_process_cpu_usage`; without operands the result is `0.0`. -/
def getProcessCpuUsage (stat : Option Bytes) (currTime : Nat) (st : Statics) :
    Option (Option Share × Statics) :=
  match stat.bind readTimes with
  | none => some (none, st)
  | some (utime, stime) =>
      if st.prevTime < currTime ∧ 0 < st.prevTime then
        (checkedLong (utime.toInt - st.prevUtime.toInt)).bind fun deltaUtime =>
          (checkedLong (stime.toInt - st.prevStime.toInt)).bind fun deltaStime =>
            (checkedLong (deltaUtime.toInt + deltaStime.toInt)).map fun ticks =>
              (some ⟨ticks, currTime - st.prevTime⟩, ⟨utime, stime, currTime⟩)
      else some (none, ⟨utime, stime, currTime⟩)

/-- `get_process_memory_kb`. -/
def getProcessMemoryKb (statm : Option Bytes) (pageSize : Int64) : Option Int64 :=
  match statm.bind readPair with
  | none => some 0
  | some (_, rss) => checkedLong (rss.toInt * pageSize.toInt.tdiv 1024)

/-- The two files and the time, when `main` prints the figures of a step. -/
structure Reading where
  stat : Option Bytes
  statm : Option Bytes
  time : Nat

/-- The figures that `main` prints, one pair for each step. -/
def measure (pageSize : Int64) : List Reading → Statics → Option (List (Option Share × Int64))
  | [], _ => some []
  | r :: rs, st =>
      (getProcessCpuUsage r.stat r.time st).bind fun (usage, st) =>
        (getProcessMemoryKb r.statm pageSize).bind fun memKb =>
          (measure pageSize rs st).map ((usage, memKb) :: ·)

/-! ## The words of a line -/

/-- A word of a line. -/
def Word (w : Bytes) : Prop := w ≠ [] ∧ ∀ x ∈ w, isspace x = false

theorem Word.head {w : Bytes} (h : Word w) (rest : Bytes) :
    ∀ x ∈ (w ++ rest).head?, ¬ isspace x = true := by
  obtain ⟨y, l, rfl⟩ := List.exists_cons_of_ne_nil h.1
  intro x head
  cases head
  rw [h.2 y List.mem_cons_self]
  exact Bool.false_ne_true

theorem word_decimal (n : Nat) : Word (decimal n) :=
  ⟨decimal_ne_nil n, fun _ mem => isspace_of_isdigit (isdigit_of_mem_decimal mem)⟩

theorem word_decimalInt (n : Int) : Word (decimalInt n) := by
  unfold decimalInt
  split
  · refine ⟨List.cons_ne_nil _ _, fun x mem => ?_⟩
    rcases List.mem_cons.mp mem with rfl | digit
    · rfl
    · exact (word_decimal n.natAbs).2 x digit
  · exact word_decimal n.natAbs

/-- A word is skipped with the blank behind it. -/
theorem skipWord_word {w next : Bytes} (word : Word w) (other : Word next) (rest : Bytes) :
    skipWord (w ++ 32 :: (next ++ rest)) = some (next ++ rest) := by
  have inside : ∀ x ∈ w, (!isspace x) = true := by
    intro x mem
    rw [word.2 x mem]
    rfl
  have stop : ∀ x ∈ (32 :: (next ++ rest)).head?, ¬ (!isspace x) = true := by
    intro x head
    cases head
    decide
  have more : w ++ 32 :: (next ++ rest) ≠ [] := List.append_ne_nil_of_left_ne_nil word.1 _
  rw [skipWord, dropWhile_of_head (word.head _), if_neg more, dropWhile_run inside stop,
    List.dropWhile_cons_of_pos (by decide), dropWhile_of_head (other.head rest)]

/-- Words with a blank in front of each. -/
def spaced (ws : List Bytes) : Bytes := ws.flatMap fun w => 32 :: w

theorem skipWords_words {w next : Bytes} (word : Word w) {ws : List Bytes}
    (words : ∀ w ∈ ws, Word w) (other : Word next) (rest : Bytes) :
    skipWords (ws.length + 1) (w ++ (spaced ws ++ 32 :: (next ++ rest))) = next ++ rest := by
  induction ws generalizing w with
  | nil =>
      change skipWords 1 (w ++ 32 :: (next ++ rest)) = _
      rw [skipWords, skipWord_word word other]
      rfl
  | cons v ws ih =>
      obtain ⟨first, later⟩ := List.forall_mem_cons.mp words
      have text : w ++ (spaced (v :: ws) ++ 32 :: (next ++ rest)) =
          w ++ 32 :: (v ++ (spaced ws ++ 32 :: (next ++ rest))) := by
        rw [spaced, List.flatMap_cons, List.cons_append, List.cons_append, List.append_assoc]
        rfl
      rw [text, List.length_cons, skipWords, skipWord_word word first]
      exact ih first later

/-- Two numbers are read back. -/
theorem readPair_numbers (n m : Int64) {rest : Bytes} (separated : Separated rest) :
    readPair (decimalInt n.toInt ++ 32 :: (decimalInt m.toInt ++ rest)) = some (n, m) := by
  let fields : List (ScanField (Int64 × Int64)) :=
    [.signed n fun n p => (n, p.2), .signed m fun n p => (p.1, n)]
  have text : textOf fields ++ rest =
      32 :: (decimalInt n.toInt ++ 32 :: (decimalInt m.toInt ++ rest)) := by
    simp [fields, textOf, ScanField.text]
  have format : formatOf fields = .space :: pairFormat := rfl
  have blank : (32 :: (decimalInt n.toInt ++ 32 :: (decimalInt m.toInt ++ rest))).dropWhile
      isspace = decimalInt n.toInt ++ 32 :: (decimalInt m.toInt ++ rest) := by
    rw [List.dropWhile_cons_of_pos (by decide), dropWhile_of_head ((word_decimalInt _).head _)]
  have read := scanf_fields fields 0 0 separated (0, 0)
  rw [text, format, scanf, blank] at read
  rw [readPair, sscanf, read]
  rfl

/-! ## The own line -/

/-- The line of a process, and its memory, at some time. There is no blank in the name. -/
structure OwnReading where
  line : StatLine
  plain : ∀ x ∈ line.comm, isspace x = false
  state : isspace line.state = false
  fits : line.utime.toNat + line.stime.toNat < 2 ^ 63
  size : Int64
  rss : Int64
  /-- What follows the two sizes. -/
  behind : Bytes
  separated : Separated behind
  time : Nat

namespace OwnReading

/-- The time of the processor that was used. -/
def ticks (r : OwnReading) : Int := r.line.utime.toNat + r.line.stime.toNat

def statm (r : OwnReading) : Bytes :=
  decimalInt r.size.toInt ++ 32 :: (decimalInt r.rss.toInt ++ r.behind)

def reading (r : OwnReading) : Reading :=
  ⟨some (r.line.text ++ [newline]), some r.statm, r.time⟩

/-- `r'` is read later than `r`. -/
structure Before (r r' : OwnReading) : Prop where
  utime : r.line.utime.toNat ≤ r'.line.utime.toNat
  stime : r.line.stime.toNat ≤ r'.line.stime.toNat
  time : r.time < r'.time

end OwnReading

theorem separated_spaced (ws : List Bytes) : Separated (spaced ws ++ [newline]) := by
  intro x head
  cases ws with
  | nil =>
      cases head
      rfl
  | cons w ws =>
      cases head
      rfl

theorem word_numbers (l : StatLine) : ∀ w ∈ l.numbers, Word w := by
  intro w mem
  rcases List.mem_append.mp mem with inside | later
  · simp only [List.mem_cons, List.not_mem_nil, or_false] at inside
    rcases inside with rfl | rfl | rfl | rfl | rfl | rfl | rfl | rfl | rfl | rfl | rfl | rfl |
      rfl | rfl | rfl | rfl | rfl | rfl | rfl | rfl | rfl
    all_goals first | exact word_decimalInt _ | exact word_decimal _
  · obtain ⟨n, -, rfl⟩ := List.mem_map.mp later
    exact word_decimalInt n

theorem tail_times (l : StatLine) : l.tail = spaced (l.numbers.take 10) ++
    32 :: (decimal l.utime.toNat ++
      32 :: (decimal l.stime.toNat ++ spaced (l.numbers.drop 12))) := by
  calc l.tail = spaced (l.numbers.take 10 ++
        decimal l.utime.toNat :: decimal l.stime.toNat :: l.numbers.drop 12) := rfl
    _ = _ := by simp [spaced]

namespace OwnReading

variable (r : OwnReading)

/-- The words between the number of the process and the times. -/
def front : List Bytes :=
  (40 :: (r.line.comm ++ [41])) :: [r.line.state] :: r.line.numbers.take 10

theorem words_front : ∀ w ∈ r.front, Word w := by
  intro w mem
  simp only [front, List.mem_cons] at mem
  rcases mem with rfl | rfl | inside
  · refine ⟨List.cons_ne_nil _ _, fun x mem => ?_⟩
    simp only [List.mem_cons, List.mem_append, List.not_mem_nil, or_false] at mem
    rcases mem with rfl | name | rfl
    · rfl
    · exact r.plain x name
    · rfl
  · refine ⟨List.cons_ne_nil _ _, fun x mem => ?_⟩
    rw [List.mem_singleton.mp mem]
    exact r.state
  · exact word_numbers _ w (List.mem_of_mem_take inside)

theorem text_words : r.line.text ++ [newline] = decimalInt r.line.pid.toInt ++ (spaced r.front ++
    32 :: (decimal r.line.utime.toNat ++ 32 :: (decimal r.line.stime.toNat ++
      (spaced (r.line.numbers.drop 12) ++ [newline])))) := by
  have opens : ascii " (" = [32, 40] := rfl
  have closes : ascii ") " = [41, 32] := rfl
  rw [StatLine.text, tail_times, opens, closes]
  simp [front, spaced]

/-- The times are found by counting words. -/
theorem readTimes_line : ∃ utime stime : Int64,
    readTimes (r.line.text ++ [newline]) = some (utime, stime) ∧
      utime.toInt = r.line.utime.toNat ∧ stime.toInt = r.line.stime.toNat := by
  have fits := r.fits
  have number : ∀ {n : Nat}, n < 2 ^ 63 → ∃ k : Int64, decimal n = decimalInt k.toInt ∧
      k.toInt = n := by
    intro n small
    have value := Int64.toInt_ofNat_of_lt small
    refine ⟨Int64.ofNat n, ?_, value⟩
    rw [value, decimalInt_of_nonneg (Int.natCast_nonneg n), Int.natAbs_natCast]
  obtain ⟨utime, uText, uValue⟩ := @number r.line.utime.toNat (by omega)
  obtain ⟨stime, sText, sValue⟩ := @number r.line.stime.toNat (by omega)
  have skipped := skipWords_words (word_decimalInt r.line.pid.toInt) r.words_front
    (word_decimalInt utime.toInt) (32 :: (decimalInt stime.toInt ++
      (spaced (r.line.numbers.drop 12) ++ [newline])))
  have count : r.front.length + 1 = 13 := rfl
  rw [count, ← uText, ← sText, ← r.text_words] at skipped
  refine ⟨utime, stime, ?_, uValue, sValue⟩
  rw [readTimes, skipped, uText, sText, readPair_numbers _ _ (separated_spaced _)]

/-- `get_proc_info` finds the same behind the name. -/
theorem readTimes_agrees (files : Bytes → Option Bytes) (buf : Chars bufSize)
    (file : files (statPath r.line.pid) = some (r.line.text ++ [newline]))
    (short : r.line.text.length < bufSize) :
    ∃ utime stime info, readTimes (r.line.text ++ [newline]) = some (utime, stime) ∧
      getProcInfo files buf r.line.pid = some (0, info) ∧
      utime.toInt = info.utime.toNat ∧ stime.toInt = info.stime.toNat := by
  obtain ⟨utime, stime, read, uValue, sValue⟩ := r.readTimes_line
  obtain ⟨info, found, -, recovered⟩ := getProcInfo_line r.line buf file short
  refine ⟨utime, stime, info, read, found, ?_, ?_⟩
  · rw [recovered.utime]
    exact uValue
  · rw [recovered.stime]
    exact sValue

end OwnReading

/-! ## All steps -/

/-- The variables after a call that has found `r`. -/
structure Statics.After (st : Statics) (r : OwnReading) : Prop where
  utime : st.prevUtime.toInt = r.line.utime.toNat
  stime : st.prevStime.toInt = r.line.stime.toNat
  time : st.prevTime = r.time

section Calls

variable {r r' : OwnReading} {st : Statics}

/-- The first call has nothing to compare with. -/
theorem getProcessCpuUsage_first (r : OwnReading) :
    ∃ st, getProcessCpuUsage r.reading.stat r.time .zero = some (none, st) ∧ st.After r := by
  obtain ⟨utime, stime, read, uValue, sValue⟩ := r.readTimes_line
  refine ⟨⟨utime, stime, r.time⟩, ?_, uValue, sValue, rfl⟩
  rw [getProcessCpuUsage, OwnReading.reading, Option.bind_some, read]
  exact if_neg fun h => Nat.lt_irrefl 0 h.2

/-- Every other call reports what has been used since the one before it. -/
theorem getProcessCpuUsage_next (after : st.After r) (positive : 0 < r.time) (h : r.Before r') :
    ∃ share st', getProcessCpuUsage r'.reading.stat r'.time st = some (some share, st') ∧
      st'.After r' ∧ share.ticks.toInt = r'.ticks - r.ticks ∧
      (share.time : Int) = r'.time - r.time := by
  obtain ⟨utime, stime, read, uValue, sValue⟩ := r'.readTimes_line
  obtain ⟨uGrows, sGrows, later⟩ := h
  have fits := r'.fits
  obtain ⟨deltaU, uDiff, uDelta⟩ :=
    @checkedLong_of_fits (utime.toInt - st.prevUtime.toInt) (by rw [after.utime]; omega)
      (by rw [after.utime]; omega)
  obtain ⟨deltaS, sDiff, sDelta⟩ :=
    @checkedLong_of_fits (stime.toInt - st.prevStime.toInt) (by rw [after.stime]; omega)
      (by rw [after.stime]; omega)
  rw [uValue, after.utime] at uDelta
  rw [sValue, after.stime] at sDelta
  obtain ⟨ticks, total, value⟩ := @checkedLong_of_fits (deltaU.toInt + deltaS.toInt)
    (by omega) (by omega)
  have counted : st.prevTime < r'.time ∧ 0 < st.prevTime := by
    rw [after.time]
    exact ⟨later, positive⟩
  refine ⟨⟨ticks, r'.time - st.prevTime⟩, ⟨utime, stime, r'.time⟩, ?_, ⟨uValue, sValue, rfl⟩,
    ?_, ?_⟩
  · rw [getProcessCpuUsage, OwnReading.reading, Option.bind_some, read]
    dsimp only
    rw [if_pos counted, uDiff, Option.bind_some, sDiff, Option.bind_some, total]
    rfl
  · rw [value, uDelta, sDelta, OwnReading.ticks, OwnReading.ticks]
    omega
  · rw [after.time, Nat.cast_sub later.le]

/-- The memory in kilobytes, for pages of this size. -/
def OwnReading.memory (r : OwnReading) (pageSize : Int64) : Int :=
  r.rss.toInt * pageSize.toInt.tdiv 1024

theorem getProcessMemoryKb_statm {pageSize : Int64} (lower : -2 ^ 63 ≤ r.memory pageSize)
    (upper : r.memory pageSize < 2 ^ 63) :
    ∃ kb, getProcessMemoryKb r.reading.statm pageSize = some kb ∧
      kb.toInt = r.memory pageSize := by
  obtain ⟨kb, eq, value⟩ := checkedLong_of_fits lower upper
  refine ⟨kb, ?_, value⟩
  rw [getProcessMemoryKb, OwnReading.reading, Option.bind_some, OwnReading.statm,
    readPair_numbers _ _ r.separated]
  exact eq

end Calls

/-- The figures of a step that is not the first. -/
structure Figures where
  share : Share
  memKb : Int64

def Figures.printed (f : Figures) : Option Share × Int64 := (some f.share, f.memKb)

/-- The figures of the readings `rs`, after the reading `r`. -/
structure Accounts (pageSize : Int64) (r : OwnReading) (rs : List OwnReading)
    (fs : List Figures) : Prop where
  ticks : (fs.map fun f => f.share.ticks.toInt) = differences r.ticks (rs.map OwnReading.ticks)
  time : (fs.map fun f => (f.share.time : Int)) =
    differences (r.time : Int) (rs.map fun r => (r.time : Int))
  memory : (fs.map fun f => f.memKb.toInt) = rs.map fun r => r.memory pageSize

/-- The product of the pages and their size is a `long`. -/
def OwnReading.MemoryFits (pageSize : Int64) (r : OwnReading) : Prop :=
  -2 ^ 63 ≤ r.memory pageSize ∧ r.memory pageSize < 2 ^ 63

theorem measure_after {pageSize : Int64} {rs : List OwnReading} {r : OwnReading} {st : Statics}
    (after : st.After r) (positive : 0 < r.time) (grows : (r :: rs).IsChain OwnReading.Before)
    (fit : ∀ r ∈ rs, r.MemoryFits pageSize) :
    ∃ fs, measure pageSize (rs.map OwnReading.reading) st = some (fs.map Figures.printed) ∧
      Accounts pageSize r rs fs := by
  induction rs generalizing r st with
  | nil => exact ⟨[], rfl, rfl, rfl, rfl⟩
  | cons r' rs ih =>
      obtain ⟨before, grows'⟩ := List.isChain_cons_cons.mp grows
      obtain ⟨fits, fit'⟩ := List.forall_mem_cons.mp fit
      obtain ⟨share, st', used, after', ticks, time⟩ :=
        getProcessCpuUsage_next after positive before
      obtain ⟨kb, memory, value⟩ := getProcessMemoryKb_statm fits.1 fits.2
      obtain ⟨fs, eq, accounts⟩ := ih after' (positive.trans before.time) grows' fit'
      refine ⟨⟨share, kb⟩ :: fs, ?_, ?_, ?_, ?_⟩
      · rw [List.map_cons, measure]
        change (getProcessCpuUsage r'.reading.stat r'.time st).bind _ = _
        rw [used, Option.bind_some]
        dsimp only
        rw [memory, Option.bind_some, eq]
        rfl
      · rw [List.map_cons, List.map_cons, differences_cons, accounts.ticks, ticks]
      · rw [List.map_cons, List.map_cons, differences_cons, accounts.time, time]
      · rw [List.map_cons, List.map_cons, accounts.memory, value]

/-- **The figures add up.** The first step has no processor time to show; the others show what
has been used since the step before them, all of them together what has been used from the
first step to the last, and each the memory of its own time. -/
theorem measure_accounts {pageSize : Int64} (first : OwnReading) (positive : 0 < first.time)
    (rs : List OwnReading) (grows : (first :: rs).IsChain OwnReading.Before)
    (fit : ∀ r ∈ first :: rs, r.MemoryFits pageSize) :
    ∃ memKb fs, measure pageSize ((first :: rs).map OwnReading.reading) .zero =
        some ((none, memKb) :: fs.map Figures.printed) ∧
      memKb.toInt = first.memory pageSize ∧ Accounts pageSize first rs fs ∧
      (fs.map fun f => f.share.ticks.toInt).sum = (rs.getLastD first).ticks - first.ticks := by
  obtain ⟨fits, fit'⟩ := List.forall_mem_cons.mp fit
  obtain ⟨st, none, after⟩ := getProcessCpuUsage_first first
  obtain ⟨kb, memory, value⟩ := getProcessMemoryKb_statm fits.1 fits.2
  obtain ⟨fs, eq, accounts⟩ := measure_after after positive grows fit'
  refine ⟨kb, fs, ?_, value, accounts, ?_⟩
  · rw [List.map_cons, measure]
    change (getProcessCpuUsage first.reading.stat first.time .zero).bind _ = _
    rw [none, Option.bind_some]
    dsimp only
    rw [memory, Option.bind_some, eq]
    rfl
  · rw [accounts.ticks, sum_differences, List.getLastD_map]

/-- The line of the stress test after so much work. -/
def loadedLine (utime stime : UInt64) : StatLine :=
  { imitation with
    comm := ascii "stress_test"
    utime := utime
    stime := stime
    commLine := by decide
    commNul := by decide }

/-- Its readings in front of two steps. -/
def idleReading : OwnReading where
  line := loadedLine 10 5
  plain := by decide +kernel
  state := rfl
  fits := by decide
  size := 700
  rss := 300
  behind := ascii " 120\n"
  separated x head := by
    cases head
    rfl
  time := 1000

def busyReading : OwnReading where
  line := loadedLine 30 9
  plain := by decide +kernel
  state := rfl
  fits := by decide
  size := 900
  rss := 420
  behind := ascii " 120\n"
  separated x head := by
    cases head
    rfl
  time := 2000

theorem measure_accounts_busyReading :
    ∃ (memKb : Int64) (fs : List Figures),
      measure 4096 [idleReading.reading, busyReading.reading] .zero =
        some ((none, memKb) :: fs.map Figures.printed) ∧ memKb.toInt = 1200 ∧
      (fs.map fun f => f.share.ticks.toInt).sum = 24 := by
  have grows : [idleReading, busyReading].IsChain OwnReading.Before :=
    List.isChain_pair.mpr ⟨by decide, by decide, by decide⟩
  have fit : ∀ r ∈ [idleReading, busyReading], r.MemoryFits 4096 := by
    intro r mem
    rcases List.mem_cons.mp mem with rfl | last
    · exact ⟨by decide, by decide⟩
    · rw [List.mem_singleton.mp last]
      exact ⟨by decide, by decide⟩
  have pages : idleReading.memory 4096 = 1200 := by decide
  have used : busyReading.ticks - idleReading.ticks = 24 := by decide
  obtain ⟨memKb, fs, eq, memory, -, ticks⟩ :=
    measure_accounts idleReading (by decide) [busyReading] grows fit
  exact ⟨memKb, fs, eq, memory.trans pages, ticks.trans used⟩

end Osisp.Stress
