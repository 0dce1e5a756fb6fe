import Osisp.Censor.Text
import Osisp.Lib.Scanf

/-!
# What the monitor reads (`LabWork_5/monitor.c`)

`run_monitor` prints a row for each interval: how busy the processors were, from two
readings of `/proc/stat`, the memory from `/proc/meminfo`, and the number of processes.
Arithmetic that overflows a `long` has no result, and neither has a row with a variable
that has never been set.
-/

namespace Osisp.Monitor

open Lib Censor

/-- `user`, `nice`, `system` and `idle`. -/
structure CpuTimes where
  user : Int64
  nice : Int64
  system : Int64
  idle : Int64
  deriving DecidableEq

/-- What is behind `cpu` in the format of the `fscanf`. -/
def cpuFormat : List (Directive CpuTimes) :=
  [.space, .signed fun n t => { t with user := n },
    .space, .signed fun n t => { t with nice := n },
    .space, .signed fun n t => { t with system := n },
    .space, .signed fun n t => { t with idle := n }]

/-- `read_cpu_stats` with its result. The file is `none` when it cannot be opened; a variable
that is not assigned keeps what it had. -/
def readCpuStats (file : Option Bytes) (t : CpuTimes) : Int × CpuTimes :=
  match file with
  | none => (-1, t)
  | some text =>
      if ascii "cpu" <+: text then
        let (n, t) := sscanf cpuFormat (text.drop 3) t
        (if n = 4 then 0 else -1, t)
      else (-1, t)

/-- `mem_total`, `mem_free` and `mem_available`. -/
structure MemStats where
  total : Int64
  free : Int64
  available : Int64
  deriving DecidableEq

/-- `sizeof (line)`. -/
def lineSize : Nat := 256

/-- The body of the loop over the lines. -/
def memLine (line : Bytes) (mem : MemStats) : MemStats :=
  if ascii "MemTotal:" <+: line then
    (sscanf [.signed fun n mem => { mem with total := n }] (line.drop 9) mem).2
  else if ascii "MemFree:" <+: line then
    (sscanf [.signed fun n mem => { mem with free := n }] (line.drop 8) mem).2
  else if ascii "MemAvailable:" <+: line then
    (sscanf [.signed fun n mem => { mem with available := n }] (line.drop 13) mem).2
  else mem

/-- The loop over the lines, each of at least a byte. -/
def memLoop : Nat → Bytes → MemStats → MemStats
  | 0, _, mem => mem
  | fuel + 1, file, mem =>
      match fgets lineSize file with
      | none => mem
      | some line => memLoop fuel (file.drop line.length) (memLine (cstr line) mem)

/-- `read_mem_stats` with its result. -/
def readMemStats (file : Option Bytes) (mem : Option MemStats) : Int × Option MemStats :=
  match file with
  | none => (-1, mem)
  | some text => (0, some (memLoop text.length text ⟨0, 0, 0⟩))

/-- `struct dirent`, with `d_type == DT_DIR` for the type. -/
structure DirEntry where
  name : Bytes
  isDir : Bool

/-- `entry->d_type == DT_DIR` and `is_pid`. -/
def DirEntry.isProcess (e : DirEntry) : Bool := e.isDir && e.name.all isdigit

/-- `get_process_count`. -/
def getProcessCount : Option (List DirEntry) → Int
  | none => -1
  | some dir => dir.countP DirEntry.isProcess

/-- `user + nice + system + idle`. -/
def CpuTimes.total (t : CpuTimes) : Option Int64 :=
  (checkedLong (t.user.toInt + t.nice.toInt)).bind fun n =>
    (checkedLong (n.toInt + t.system.toInt)).bind fun n => checkedLong (n.toInt + t.idle.toInt)

/-- The operands of the percentage: `total_diff - idle_diff` and `total_diff`. -/
structure Usage where
  busy : Int64
  total : Int64
  deriving DecidableEq

/-- The percentage, before it is rounded. -/
def Usage.percent (u : Usage) : ℚ :=
  if u.total = 0 then 0 else 100 * (u.busy.toInt : ℚ) / (u.total.toInt : ℚ)

/-- `calculate_cpu_usage`. -/
def calculateCpuUsage (prev curr : CpuTimes) : Option Usage :=
  prev.total.bind fun prevTotal => curr.total.bind fun currTotal =>
    (checkedLong (currTotal.toInt - prevTotal.toInt)).bind fun totalDiff =>
      (checkedLong (curr.idle.toInt - prev.idle.toInt)).bind fun idleDiff =>
        if totalDiff = 0 then some ⟨0, 0⟩
        else (checkedLong (totalDiff.toInt - idleDiff.toInt)).map fun busy => ⟨busy, totalDiff⟩

/-- A row of the table. -/
structure Row where
  timestamp : Bytes
  usage : Usage
  mem : MemStats
  processes : Int

/-- What a turn of the loop finds: `g_running` at its head, and behind the `sleep` the time
and the files. -/
structure Turn where
  running : Bool
  timestamp : Bytes
  stat : Option Bytes
  meminfo : Option Bytes
  proc : Option (List DirEntry)

/-- The loop of `run_monitor` from turn `i` on, with as many turns left, and the rows that it
prints. -/
def monitorLoop (turns : Nat → Turn) :
    Nat → Nat → CpuTimes → CpuTimes → Option MemStats → Option (List Row)
  | _, 0, _, _, _ => some []
  | i, left + 1, prev, curr, mem =>
      let turn := turns i
      if turn.running then
        let (result, curr) := readCpuStats turn.stat curr
        if result = 0 then
          (calculateCpuUsage prev curr).bind fun usage =>
            let mem := (readMemStats turn.meminfo mem).2
            mem.bind fun shown =>
              (monitorLoop turns (i + 1) left curr curr mem).map
                (⟨turn.timestamp, usage, shown, getProcessCount turn.proc⟩ :: ·)
        else monitorLoop turns (i + 1) left prev curr mem
      else some []

/-- `run_monitor`: the rows, or the diagnostic. `first` is what the file contains before the
loop, `found` what the variables contain. -/
def runMonitor (first : Option Bytes) (turns : Nat → Turn) (found : CpuTimes × CpuTimes)
    (intervalSec durationSec : CInt) : Option (Except String (List Row)) :=
  (cdiv durationSec intervalSec).bind fun iterations =>
    let (result, prev) := readCpuStats first found.1
    if result < 0 then some (.error "ERROR: Cannot read CPU stats\n")
    else (monitorLoop turns 0 iterations.1.toNat prev found.2 none).map .ok

/-! ## The files -/

/-- `/proc/stat`, whose counters fit in a `long` together. -/
structure StatFile where
  times : CpuTimes
  /-- What follows the counters that are read. -/
  behind : Bytes
  separated : Separated behind
  user : 0 ≤ times.user.toInt
  nice : 0 ≤ times.nice.toInt
  system : 0 ≤ times.system.toInt
  idle : 0 ≤ times.idle.toInt
  fits : times.user.toInt + times.nice.toInt + times.system.toInt + times.idle.toInt < 2 ^ 63

namespace StatFile

def fields (t : CpuTimes) : List (ScanField CpuTimes) :=
  [.signed t.user fun n t => { t with user := n },
    .signed t.nice fun n t => { t with nice := n },
    .signed t.system fun n t => { t with system := n },
    .signed t.idle fun n t => { t with idle := n }]

/-- `cpu  user nice system idle ...`. -/
def text (f : StatFile) : Bytes := ascii "cpu " ++ (textOf (fields f.times) ++ f.behind)

/-- The time that was counted, and the part of it in which something was done. -/
def total (f : StatFile) : Int :=
  f.times.user.toInt + f.times.nice.toInt + f.times.system.toInt + f.times.idle.toInt

def busy (f : StatFile) : Int :=
  f.times.user.toInt + f.times.nice.toInt + f.times.system.toInt

/-- `g` is read later than `f`. -/
structure Before (f g : StatFile) : Prop where
  user : f.times.user.toInt ≤ g.times.user.toInt
  nice : f.times.nice.toInt ≤ g.times.nice.toInt
  system : f.times.system.toInt ≤ g.times.system.toInt
  idle : f.times.idle.toInt ≤ g.times.idle.toInt

end StatFile

/-- A line of `/proc/meminfo`. -/
structure MemEntry where
  name : Bytes
  blanks : Nat
  value : Int64
  unit : Bytes
  nameLine : ∀ x ∈ name, x ≠ newline ∧ x ≠ 0 ∧ x ≠ 58
  unitLine : ∀ x ∈ unit, x ≠ newline ∧ x ≠ 0
  separated : Separated unit
  short : name.length + 1 + blanks + (decimalInt value.toInt).length + unit.length < lineSize - 1

/-- `Name:     value unit`, without its end. -/
def MemEntry.text (e : MemEntry) : Bytes :=
  e.name ++ 58 :: (List.replicate e.blanks 32 ++ (decimalInt e.value.toInt ++ e.unit))

/-- `/proc/meminfo`, with a line for each name. -/
structure MemFile where
  entries : List MemEntry
  distinct : (entries.map MemEntry.name).Nodup

namespace MemFile

def text (f : MemFile) : Bytes := f.entries.flatMap fun e => e.text ++ [newline]

/-- The value under a name, or 0. -/
def value (f : MemFile) (name : String) : Int64 :=
  (f.entries.find? fun e => e.name = ascii name).elim 0 MemEntry.value

end MemFile

end Osisp.Monitor
