import Osisp.Lib.Framing
import Osisp.Lib.CString

/-!
# The chat wire format (`chat_proto.h`)

A message is a 16-byte header of four big-endian words followed by `body_len`
bytes. `scanFrame` is the head test that `process_message`,
`handshake_blocking`, `process_server` and `incomplete_frame` each begin with;
`chatCodec` packages it with the encoder of `send_frame`.
-/

namespace Osisp.Chat

open Lib

def chatMagic : UInt32 := 0x43484154
def chatVersion : UInt32 := 1

def chatMaxNick : Nat := 31
def chatMaxBody : Nat := 2048
def chatHeaderSize : Nat := 16

/-- `RECV_CAP` of both programs: one frame of the largest size. -/
def recvCap : Nat := chatHeaderSize + chatMaxBody

/-- `chat_msg_type_t`. -/
inductive MsgType
  | join
  | joinAck
  | broadcast
  | privateMsg
  | list
  | listReply
  | notify
  | error
  | history
  deriving DecidableEq, Repr

/-- The enumeration starts at 1. -/
def MsgType.code : MsgType → UInt32
  | .join => 1
  | .joinAck => 2
  | .broadcast => 3
  | .privateMsg => 4
  | .list => 5
  | .listReply => 6
  | .notify => 7
  | .error => 8
  | .history => 9

/-- The enumerator a received word stands for, if any. -/
def MsgType.ofCode (w : UInt32) : Option MsgType :=
  [join, joinAck, broadcast, privateMsg, list, listReply, notify, error, history].find?
    (·.code = w)

@[simp] theorem MsgType.ofCode_code (t : MsgType) : MsgType.ofCode t.code = some t := by
  cases t <;> rfl

/-- `chat_header_host_t`. -/
structure Header where
  magic : UInt32
  version : UInt32
  type : UInt32
  bodyLen : UInt32
  deriving DecidableEq

def chatHeaderToWire (h : Header) : Bytes :=
  be32 h.magic ++ be32 h.version ++ be32 h.type ++ be32 h.bodyLen

def chatHeaderFromWire (wh : Bytes) : Header :=
  ⟨ofBe32 wh, ofBe32 (wh.drop 4), ofBe32 (wh.drop 8), ofBe32 (wh.drop 12)⟩

def chatHeaderValid (h : Header) : Bool :=
  if h.magic ≠ chatMagic then false
  else if h.version ≠ chatVersion then false
  else if h.bodyLen.toNat > chatMaxBody then false
  else true

/-- A received message: the type word as it came, and the body. -/
structure Frame where
  type : UInt32
  body : Bytes
  deriving DecidableEq

/-- The header `send_frame` writes for a body of `len` bytes. -/
def frameHeader (type : UInt32) (len : Nat) : Header :=
  ⟨chatMagic, chatVersion, type, UInt32.ofNat len⟩

/-- The bytes of a frame on the wire. -/
def Frame.encode (f : Frame) : Bytes :=
  chatHeaderToWire (frameHeader f.type f.body.length) ++ f.body

/-- The head of a receive buffer. -/
def scanFrame (buf : Bytes) : Scan Frame :=
  if buf.length < chatHeaderSize then .more
  else
    let h := chatHeaderFromWire (buf.take chatHeaderSize)
    if !chatHeaderValid h then .bad
    else
      let need := chatHeaderSize + h.bodyLen.toNat
      if buf.length < need then .more
      else .frame ⟨h.type, (buf.drop chatHeaderSize).take h.bodyLen.toNat⟩ need

@[simp] theorem length_chatHeaderToWire (h : Header) :
    (chatHeaderToWire h).length = chatHeaderSize := rfl

/-- Converting to wire order and back is the identity on headers. -/
@[simp] theorem chatHeaderFromWire_toWire (h : Header) :
    chatHeaderFromWire (chatHeaderToWire h) = h := by
  have version : (chatHeaderToWire h).drop 4 =
      be32 h.version ++ (be32 h.type ++ be32 h.bodyLen) := rfl
  have type : (chatHeaderToWire h).drop 8 = be32 h.type ++ be32 h.bodyLen := rfl
  have bodyLen : (chatHeaderToWire h).drop 12 = be32 h.bodyLen ++ [] := rfl
  have magic : chatHeaderToWire h =
      be32 h.magic ++ (be32 h.version ++ (be32 h.type ++ be32 h.bodyLen)) := rfl
  unfold chatHeaderFromWire
  rw [version, type, bodyLen, magic]
  simp only [ofBe32_be32_append]

theorem chatHeaderValid_iff {h : Header} :
    chatHeaderValid h = true ↔
      h.magic = chatMagic ∧ h.version = chatVersion ∧ h.bodyLen.toNat ≤ chatMaxBody := by
  unfold chatHeaderValid
  split
  · simp_all
  · split
    · simp_all
    · split <;> simp_all

theorem toNat_ofNat_bodyLen {len : Nat} (fits : len ≤ chatMaxBody) :
    (UInt32.ofNat len).toNat = len := by
  have small : len < 2 ^ 32 := lt_of_le_of_lt fits (by decide)
  rw [UInt32.toNat_ofNat', Nat.mod_eq_of_lt small]

/-- A header written for a body of legal size is accepted. -/
theorem chatHeaderValid_frameHeader {type : UInt32} {len : Nat} (fits : len ≤ chatMaxBody) :
    chatHeaderValid (frameHeader type len) = true := by
  rw [chatHeaderValid_iff]
  refine ⟨rfl, rfl, ?_⟩
  rw [frameHeader, toNat_ofNat_bodyLen fits]
  exact fits

/-! ## The head test -/

section ScanFrame

variable {buf : Bytes}

theorem scanFrame_eq_bad_iff :
    scanFrame buf = .bad ↔ chatHeaderSize ≤ buf.length ∧
      chatHeaderValid (chatHeaderFromWire (buf.take chatHeaderSize)) = false := by
  unfold scanFrame
  by_cases short : buf.length < chatHeaderSize
  · simp only [if_pos short, reduceCtorEq, false_iff]
    omega
  · have long : chatHeaderSize ≤ buf.length := by omega
    cases valid : chatHeaderValid (chatHeaderFromWire (buf.take chatHeaderSize)) with
    | false => simp only [if_neg short, valid, Bool.not_false, if_pos, long, true_and]
    | true =>
        simp only [if_neg short, valid, Bool.not_true, Bool.false_eq_true, if_false,
          Bool.true_eq_false, and_false, iff_false]
        split <;> simp

theorem scanFrame_eq_frame_iff {f : Frame} {n : Nat} :
    scanFrame buf = .frame f n ↔ ∃ h, h = chatHeaderFromWire (buf.take chatHeaderSize) ∧
      chatHeaderValid h = true ∧ n = chatHeaderSize + h.bodyLen.toNat ∧ n ≤ buf.length ∧
        f = ⟨h.type, (buf.drop chatHeaderSize).take h.bodyLen.toNat⟩ := by
  unfold scanFrame
  constructor
  · intro scan
    split at scan
    · cases scan
    · dsimp only at scan
      split at scan
      · cases scan
      · split at scan
        · cases scan
        · rename_i long valid enough
          cases scan
          exact ⟨_, rfl, by simpa using valid, rfl, by omega, rfl⟩
  · intro parts
    rcases parts with ⟨h, rfl, valid, rfl, enough, rfl⟩
    have long : ¬ buf.length < chatHeaderSize := by omega
    have full : ¬ buf.length < chatHeaderSize +
        (chatHeaderFromWire (buf.take chatHeaderSize)).bodyLen.toNat := by omega
    simp only [if_neg long, valid, Bool.not_true, Bool.false_eq_true, if_false, if_neg full]

/-- A whole frame is at least a header and at most the receive buffer. -/
theorem need_bounds {f : Frame} {n : Nat} (scan : scanFrame buf = .frame f n) :
    chatHeaderSize ≤ n ∧ n ≤ recvCap ∧ f.body.length + chatHeaderSize = n := by
  obtain ⟨h, -, valid, rfl, enough, rfl⟩ := scanFrame_eq_frame_iff.mp scan
  have bound := (chatHeaderValid_iff.mp valid).2.2
  refine ⟨Nat.le_add_right _ _, Nat.add_le_add_left bound _, ?_⟩
  simp only [List.length_take, List.length_drop]
  omega

/-- Waiting for more input leaves room for it. -/
theorem length_lt_recvCap_of_more (scan : scanFrame buf = .more) : buf.length < recvCap := by
  unfold scanFrame at scan
  by_cases short : buf.length < chatHeaderSize
  · exact lt_of_lt_of_le short (Nat.le_add_right _ _)
  · rw [if_neg short] at scan
    dsimp only at scan
    split at scan
    · cases scan
    · rename_i valid
      split at scan
      · rename_i partly
        have bound := (chatHeaderValid_iff.mp (by simpa using valid)).2.2
        unfold recvCap
        omega
      · cases scan

end ScanFrame

/-- The wire format as an incremental codec. -/
def chatCodec : Codec UInt8 Frame where
  scan := scanFrame
  need_pos scan := lt_of_lt_of_le (by decide) (need_bounds scan).1
  need_le scan := by
    obtain ⟨_, -, -, -, enough, -⟩ := scanFrame_eq_frame_iff.mp scan
    exact enough
  frame_append c scan := by
    obtain ⟨h, header, valid, rfl, enough, rfl⟩ := scanFrame_eq_frame_iff.mp scan
    have long := le_trans (Nat.le_add_right _ _) enough
    refine scanFrame_eq_frame_iff.mpr ⟨h, ?_, valid, rfl, ?_, ?_⟩
    · rw [header, List.take_append_of_le_length long]
    · rw [List.length_append]
      omega
    · rw [List.drop_append_of_le_length long, List.take_append_of_le_length]
      rw [List.length_drop]
      omega
  bad_append c scan := by
    obtain ⟨long, invalid⟩ := scanFrame_eq_bad_iff.mp scan
    refine scanFrame_eq_bad_iff.mpr ⟨?_, ?_⟩
    · rw [List.length_append]
      omega
    · rw [List.take_append_of_le_length long]
      exact invalid
  encode := Frame.encode
  Fits f := f.body.length ≤ chatMaxBody
  scan_encode {f} c fits := by
    have header : (f.encode ++ c).take chatHeaderSize =
        chatHeaderToWire (frameHeader f.type f.body.length) := by
      rw [Frame.encode, List.append_assoc]
      exact List.take_left' (length_chatHeaderToWire _)
    have body : (f.encode ++ c).drop chatHeaderSize = f.body ++ c := by
      rw [Frame.encode, List.append_assoc]
      exact List.drop_left' (length_chatHeaderToWire _)
    have len : (frameHeader f.type f.body.length).bodyLen.toNat = f.body.length :=
      toNat_ofNat_bodyLen fits
    refine scanFrame_eq_frame_iff.mpr ⟨frameHeader f.type f.body.length, ?_,
      chatHeaderValid_frameHeader fits, ?_, ?_, ?_⟩
    · rw [header, chatHeaderFromWire_toWire]
    · rw [len, Frame.encode, List.length_append, length_chatHeaderToWire]
    · rw [List.length_append]
      omega
    · rw [body, len, List.take_left]
      rfl
  scan_nil := rfl

@[simp] theorem chatCodec_scan (buf : Bytes) : chatCodec.scan buf = scanFrame buf := rfl

@[simp] theorem chatCodec_encode (f : Frame) : chatCodec.encode f = f.encode := rfl

end Osisp.Chat
