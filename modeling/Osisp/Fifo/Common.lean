import Osisp.Lib.CString

/-!
# Requests and responses of the FIFO server (`common.h`)

A request is one `write` of `sizeof (request_t)` bytes: the client's PID, the
request type and a `char[256]`, in the memory layout of the machine. `decode` is
the reading side, whose only check is that size.
-/

namespace Osisp.Fifo

open Lib

def msgSize : Nat := 256

/-- A process, by its PID. -/
abbrev Pid := UInt32

/-- `request_type_t`. -/
inductive RequestType
  | echo
  | upper
  | lower
  | length
  | reverse
  | quit
  deriving DecidableEq, Repr

/-- The enumeration starts at 0. -/
def RequestType.code : RequestType → UInt32
  | .echo => 0
  | .upper => 1
  | .lower => 2
  | .length => 3
  | .reverse => 4
  | .quit => 5

/-- The `case` a received word selects, if any. -/
def RequestType.ofCode (w : UInt32) : Option RequestType :=
  [echo, upper, lower, length, reverse, quit].find? (·.code = w)

@[simp] theorem RequestType.ofCode_code (t : RequestType) :
    RequestType.ofCode t.code = some t := by
  cases t <;> rfl

/-- `request_t`. -/
structure Request where
  clientPid : Pid
  requestType : UInt32
  data : Bytes
  size : data.length = msgSize
  deriving DecidableEq

/-- `response_t`. -/
structure Response where
  status : Int
  response : Bytes
  deriving DecidableEq

namespace Request

/-- `sizeof (request_t)`. -/
def sizeof : Nat := 4 + 4 + msgSize

/-- The bytes `write (server_fd, &req, sizeof (req))` hands over. -/
def encode (r : Request) : Bytes := le32 r.clientPid ++ (le32 r.requestType ++ r.data)

/-- The request in a buffer that `read` filled. -/
def decode (b : Bytes) : Option Request :=
  if full : b.length = sizeof then
    some ⟨ofLe32 b, ofLe32 (b.drop 4), b.drop 8, by
      rw [List.length_drop, full]
      rfl⟩
  else none

@[simp] theorem length_encode (r : Request) : r.encode.length = sizeof := by
  simp [encode, r.size, sizeof]
  omega

theorem decode_encode (r : Request) : decode r.encode = some r := by
  have type : r.encode.drop 4 = le32 r.requestType ++ r.data :=
    List.drop_left' (length_le32 _)
  have data : r.encode.drop 8 = r.data := by
    rw [show (8 : Nat) = 4 + 4 from rfl, ← List.drop_drop, type]
    exact List.drop_left' (length_le32 _)
  have pid : ofLe32 r.encode = r.clientPid := ofLe32_le32_append _ _
  unfold decode
  rw [dif_pos r.length_encode]
  cases r with
  | mk clientPid requestType bytes size =>
      simp only [pid, type, data, ofLe32_le32_append]

/-- What `send_request` fills in: `strncpy` pads with NULs, and the last byte is
set to NUL. -/
def fill (pid : Pid) (type : RequestType) (text : Bytes) : Request :=
  let copied := (cstr text).take (msgSize - 1)
  ⟨pid, type.code, copied ++ List.replicate (msgSize - copied.length) 0, by
    have fits : copied.length ≤ msgSize - 1 := List.length_take_le _ _
    rw [List.length_append, List.length_replicate]
    omega⟩

@[simp] theorem clientPid_fill (pid : Pid) (type : RequestType) (text : Bytes) :
    (fill pid type text).clientPid = pid := rfl

@[simp] theorem requestType_fill (pid : Pid) (type : RequestType) (text : Bytes) :
    (fill pid type text).requestType = type.code := rfl

/-- The data a client sends is terminated. -/
theorem zero_mem_fill (pid : Pid) (type : RequestType) (text : Bytes) :
    (0 : UInt8) ∈ (fill pid type text).data := by
  have room : msgSize - ((cstr text).take (msgSize - 1)).length ≠ 0 := by
    have fits : ((cstr text).take (msgSize - 1)).length ≤ msgSize - 1 := List.length_take_le _ _
    have pos : 0 < msgSize := by decide
    omega
  exact List.mem_append_right _ (List.mem_replicate.mpr ⟨room, rfl⟩)

end Request

end Osisp.Fifo
