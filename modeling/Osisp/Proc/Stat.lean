import Osisp.Censor.Text
import Osisp.Lib.Access
import Osisp.Lib.Scanf

/-!
# What is known of a process (`LabWork_3/proc.c` on Linux)

`get_proc_info` takes the first line of `/proc/<pid>/stat` apart: the name between the
first `(` and the last `)`, the fields behind it with one `sscanf`. The user comes from
`/proc/<pid>/status`. A function that reads or writes outside of an array has no value.
-/

namespace Osisp.Proc

open Lib Censor

/-- `proc_info_t`. -/
structure ProcInfo where
  pid : Int32
  ppid : Int32
  name : Bytes
  state : UInt8
  stateStr : Bytes
  vsize : UInt64
  rss : Int64
  utime : UInt64
  stime : UInt64
  threads : Int32
  uid : UInt32
  deriving DecidableEq

/-- `sizeof (info->name)`. -/
def nameSize : Nat := 256

/-- `sizeof (info->state_str)`. -/
def stateSize : Nat := 32

/-- `memset (info, 0, sizeof (*info)); info->pid = pid`. -/
def ProcInfo.start (pid : Int32) : ProcInfo :=
  ⟨pid, 0, List.replicate nameSize 0, 0, List.replicate stateSize 0, 0, 0, 0, 0, 0, 0⟩

/-- `sizeof (buf)`. -/
def bufSize : Nat := 2048

/-- `sizeof (line)`. -/
def lineSize : Nat := 256

def stateToStr (state : UInt8) : String :=
  match Char.ofNat state.toNat with
  | 'R' => "Running"
  | 'S' => "Sleeping"
  | 'D' => "Disk sleep"
  | 'Z' => "Zombie"
  | 'T' => "Stopped"
  | 't' => "Tracing stop"
  | 'X' => "Dead"
  | 'I' => "Idle"
  | _ => "Unknown"

def statPath (pid : Int32) : Bytes := ascii "/proc/" ++ decimalInt pid.toInt ++ ascii "/stat"

def statusPath (pid : Int32) : Bytes := ascii "/proc/" ++ decimalInt pid.toInt ++ ascii "/status"

/-- `name_len`: a `)` in front of the `(` wraps it round. -/
def nameLen (start stop : Nat) : Nat :=
  let len := UInt64.ofNat stop - UInt64.ofNat start - 1
  if len ≥ UInt64.ofNat nameSize then nameSize - 1 else len.toNat

/-- The two assignments to `info->name`. -/
def copyName (buf : Bytes) (start stop : Nat) (name : Bytes) : Option Bytes :=
  (strncpy name (buf.drop (start + 1)) (nameLen start stop)).bind fun name =>
    store name (nameLen start stop) 0

/-- The format of the `sscanf` with its arguments; the dummies are not read again. -/
def statFormat : List (Directive ProcInfo) :=
  [.char fun c info => { info with state := c },
    .space, .signed fun n info => { info with ppid := n.toInt32 },
    .space, .signed fun _ info => info,
    .space, .signed fun _ info => info,
    .space, .signed fun _ info => info,
    .space, .signed fun _ info => info,
    .space, .unsigned fun _ info => info,
    .space, .unsigned fun _ info => info,
    .space, .unsigned fun _ info => info,
    .space, .unsigned fun _ info => info,
    .space, .unsigned fun _ info => info,
    .space, .unsigned fun n info => { info with utime := n },
    .space, .unsigned fun n info => { info with stime := n },
    .space, .signed fun _ info => info,
    .space, .signed fun _ info => info,
    .space, .signed fun _ info => info,
    .space, .signed fun _ info => info,
    .space, .signed fun n info => { info with threads := n.toInt32 },
    .space, .signed fun _ info => info,
    .space, .skipWord,
    .space, .unsigned fun n info => { info with vsize := n },
    .space, .signed fun n info => { info with rss := n }]

/-- The `sscanf` from `end + 2` on, and the test of its result. -/
def scanStat (buf : Bytes) (stop : Nat) (info : ProcInfo) : Option ProcInfo :=
  let input := buf.drop (stop + 2)
  if (0 : UInt8) ∈ input then
    let (n, info) := sscanf statFormat (cstr input) info
    some (if n < 21 then { info with vsize := 0 } else info)
  else none

/-- The loop over the lines of the status file, each of at least a byte. -/
def uidLoop : Nat → Bytes → UInt32 → UInt32
  | 0, _, uid => uid
  | fuel + 1, file, uid =>
      match fgets lineSize file with
      | none => uid
      | some line =>
          if ascii "Uid:" <+: cstr line then
            (sscanf [.signed fun n _ => n.toInt32.toUInt32] ((cstr line).drop 4) uid).2
          else uidLoop fuel (file.drop line.length) uid

/-- `info->uid` after the status file. -/
def readUid (files : Bytes → Option Bytes) (info : ProcInfo) : UInt32 :=
  match files (statusPath info.pid) with
  | none => info.uid
  | some file => uidLoop file.length file info.uid

/-- What `get_proc_info` does with the line in `buf`. -/
def parseStat (files : Bytes → Option Bytes) (buf : Bytes) (info : ProcInfo) :
    Option (Int × ProcInfo) :=
  match strchr 40 (cstr buf), strrchr 41 (cstr buf) with
  | some start, some stop =>
      (copyName buf start stop info.name).bind fun name =>
        (scanStat buf stop { info with name := name }).bind fun info =>
          (snprintf info.stateStr stateSize (ascii (stateToStr info.state))).map fun stateStr =>
            (0, { info with stateStr := stateStr, uid := readUid files info })
  | _, _ => some (-1, info)

/-- `get_proc_info` with its result. `files` is what can be opened and read under a path,
`buf` the array on its stack as it finds it. -/
def getProcInfo (files : Bytes → Option Bytes) (buf : Chars bufSize) (pid : Int32) :
    Option (Int × ProcInfo) :=
  match (files (statPath pid)).bind (fgets bufSize) with
  | none => some (-1, .start pid)
  | some piece =>
      (storeAll buf.1 0 (piece ++ [0])).bind fun buf => parseStat files buf (.start pid)

/-! ## The line -/

/-- A line of `/proc/<pid>/stat`, with the types that the kernel's fields are read as. -/
structure StatLine where
  pid : Int32
  comm : Bytes
  state : UInt8
  ppid : Int32
  pgrp : Int32
  session : Int32
  ttyNr : Int32
  tpgid : Int32
  flags : UInt32
  minflt : UInt64
  cminflt : UInt64
  majflt : UInt64
  cmajflt : UInt64
  utime : UInt64
  stime : UInt64
  cutime : Int64
  cstime : Int64
  priority : Int64
  nice : Int64
  numThreads : Int32
  itrealvalue : Int64
  starttime : Nat
  vsize : UInt64
  rss : Int64
  /-- The fields that are not read. -/
  later : List Int
  commLine : newline ∉ comm
  commNul : (0 : UInt8) ∉ comm
  /-- The state is no NUL, no end of line and no `)`. -/
  stateChar : state ≠ 0 ∧ state ≠ newline ∧ state ≠ 41

namespace StatLine

variable (l : StatLine)

/-- The numbers behind the state, as they are written. -/
def numbers : List Bytes :=
  [decimalInt l.ppid.toInt, decimalInt l.pgrp.toInt, decimalInt l.session.toInt,
    decimalInt l.ttyNr.toInt, decimalInt l.tpgid.toInt, decimal l.flags.toNat,
    decimal l.minflt.toNat, decimal l.cminflt.toNat, decimal l.majflt.toNat,
    decimal l.cmajflt.toNat, decimal l.utime.toNat, decimal l.stime.toNat,
    decimalInt l.cutime.toInt, decimalInt l.cstime.toInt, decimalInt l.priority.toInt,
    decimalInt l.nice.toInt, decimalInt l.numThreads.toInt, decimalInt l.itrealvalue.toInt,
    decimal l.starttime, decimal l.vsize.toNat, decimalInt l.rss.toInt] ++
  l.later.map decimalInt

/-- What follows the state. -/
def tail : Bytes := l.numbers.flatMap fun number => 32 :: number

/-- `pid (comm) state ppid ...`. -/
def text : Bytes :=
  decimalInt l.pid.toInt ++ ascii " (" ++ l.comm ++ ascii ") " ++ l.state :: l.tail

end StatLine

/-- What is to be known of a process. -/
structure Recovered (l : StatLine) (info : ProcInfo) : Prop where
  name : IsString nameSize info.name (l.comm.take 255)
  state : info.state = l.state
  ppid : info.ppid = l.ppid
  utime : info.utime = l.utime
  stime : info.stime = l.stime
  threads : info.threads = l.numThreads
  vsize : info.vsize = l.vsize
  rss : info.rss = l.rss

end Osisp.Proc
