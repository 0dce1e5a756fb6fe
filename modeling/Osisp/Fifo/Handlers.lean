import Osisp.Fifo.Common

/-!
# What the server answers (`process_echo` … `process_request`)

The handlers work on `char` arrays: `strlen` has no value on an array without a
NUL, and a handler that would read past the array has none either.
`processRequest` is the part of `process_request` before the client's FIFO is
opened: the response it fills in, or that it returns without one.
-/

namespace Osisp.Fifo

open Lib

/-- `strlen` of an array; without a NUL it runs past the end. -/
def strlen (a : Bytes) : Option Nat := if (0 : UInt8) ∈ a then some (cstr a).length else none

/-- `toupper` in the C locale. -/
def toupper (c : UInt8) : UInt8 := if 97 ≤ c ∧ c ≤ 122 then c - 32 else c

/-- `tolower` in the C locale. -/
def tolower (c : UInt8) : UInt8 := if 65 ≤ c ∧ c ≤ 90 then c + 32 else c

/-- `for (i = 0; i < len && i < MSG_SIZE - 1; i++) output[i] = f (i); output[len] = '\0';` -/
def fillLoop (len : Nat) (f : Nat → UInt8) (output : Bytes) : Bytes :=
  ((List.range (min len (msgSize - 1))).foldl (fun out i => out.set i (f i)) output).set len 0

def processEcho (input _output : Bytes) : Option Bytes :=
  let copied := (cstr input).take (msgSize - 1)
  some (copied ++ List.replicate (msgSize - 1 - copied.length) 0 ++ [0])

def processUpper (input output : Bytes) : Option Bytes :=
  (strlen input).map fun len => fillLoop len (fun i => toupper (input.getD i 0)) output

def processLower (input output : Bytes) : Option Bytes :=
  (strlen input).map fun len => fillLoop len (fun i => tolower (input.getD i 0)) output

/-- `snprintf (output, MSG_SIZE, "Length: %zu", strlen (input))`. -/
def processLength (input output : Bytes) : Option Bytes :=
  (strlen input).map fun len =>
    let line := (ascii "Length: " ++ decimal len).take (msgSize - 1) ++ [0]
    line ++ output.drop line.length

def processReverse (input output : Bytes) : Option Bytes :=
  (strlen input).map fun len => fillLoop len (fun i => input.getD (len - 1 - i) 0) output

/-- `%d` of a word. -/
def signedDecimal (w : UInt32) : Bytes :=
  if w.toNat < 2 ^ 31 then decimal w.toNat else ascii "-" ++ decimal (2 ^ 32 - w.toNat)

/-- `snprintf (resp.response, …, "Unknown request type: %d", req->request_type)`. -/
def unknownType (type : UInt32) (output : Bytes) : Bytes :=
  let line := ascii "Unknown request type: " ++ signedDecimal type ++ [0]
  line ++ output.drop line.length

/-- What the `switch` of `process_request` leads to. -/
inductive Served
  /-- `resp` is filled in and is sent next. -/
  | answer (resp : Response)
  /-- The function returns 0 and sends nothing. -/
  | silent
  /-- Unterminated data: the first `log_message` already reads past it. -/
  | overrun
  deriving DecidableEq

/-- `resp.status = 0` and what the handler wrote. -/
def served : Option Bytes → Served
  | some output => .answer ⟨0, output⟩
  | none => .overrun

def processRequest (req : Request) : Served :=
  let response := List.replicate msgSize (0 : UInt8)
  if strlen req.data = none then .overrun
  else
    match RequestType.ofCode req.requestType with
    | some .echo => served (processEcho req.data response)
    | some .upper => served (processUpper req.data response)
    | some .lower => served (processLower req.data response)
    | some .length => served (processLength req.data response)
    | some .reverse => served (processReverse req.data response)
    | some .quit => .silent
    | none => .answer ⟨-1, unknownType req.requestType response⟩

/-- `client.c` sends nothing that is left unanswered, `REQ_QUIT` apart. -/
theorem processRequest_fill (pid : Pid) {type : RequestType} (text : Bytes)
    (notQuit : type ≠ .quit) : ∃ resp, processRequest (.fill pid type text) = .answer resp := by
  have len : strlen (Request.fill pid type text).data = some _ :=
    if_pos (Request.zero_mem_fill pid type text)
  have terminated : ¬ strlen (Request.fill pid type text).data = none := by
    rw [len]
    exact Option.some_ne_none _
  simp only [processRequest, if_neg terminated, Request.requestType_fill,
    RequestType.ofCode_code]
  cases type with
  | echo => exact ⟨_, rfl⟩
  | upper => exact ⟨_, by rw [processUpper, len]; rfl⟩
  | lower => exact ⟨_, by rw [processLower, len]; rfl⟩
  | length => exact ⟨_, by rw [processLength, len]; rfl⟩
  | reverse => exact ⟨_, by rw [processReverse, len]; rfl⟩
  | quit => exact absurd rfl notQuit

/-- `REQ_QUIT` is what `client.c` sends and the server does not answer. -/
theorem processRequest_quit (pid : Pid) (text : Bytes) :
    processRequest (.fill pid .quit text) = .silent := by
  have terminated : ¬ strlen (Request.fill pid .quit text).data = none := by
    rw [strlen, if_pos (Request.zero_mem_fill pid .quit text)]
    exact Option.some_ne_none _
  simp only [processRequest, if_neg terminated, Request.requestType_fill,
    RequestType.ofCode_code]

end Osisp.Fifo
