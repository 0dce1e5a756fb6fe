import Osisp.Lib.Buffer
import Osisp.Chat.Proto

/-!
# The chat client's receiving side (`client.c`)

`handshake_blocking` and the main loop both append what `recv` returns to `rx`
and decode from its head. The client is modelled between two calls of `recv`:
`Phase` says which call it is at, and `receive` is everything it does up to the
next one. Its output is the list of `print_incoming` calls and diagnostics.
-/

namespace Osisp.Chat

open Lib

/-- A line of output. -/
inductive Output
  /-- A call of `print_incoming`. -/
  | print (f : Frame)
  /-- A message of the client's own. -/
  | diag (text : Bytes)
  deriving DecidableEq

/-- Where the client is. -/
inductive Phase
  /-- In `handshake_blocking`, with its `got_join`. -/
  | handshake (gotJoin : Bool)
  /-- In the main loop. -/
  | connected
  /-- The program has ended. -/
  | stopped
  deriving DecidableEq

structure ClientSys where
  phase : Phase
  rx : Buf recvCap
  out : List Output
  deriving DecidableEq

/-- What one call of `print_incoming` puts on `stdout` or, for an error, on
`stderr`. -/
def printIncoming (f : Frame) : Bytes :=
  match MsgType.ofCode f.type with
  | some .joinAck => ascii "[server] join ok: " ++ cstr f.body ++ ascii "\n"
  | some .broadcast | some .privateMsg | some .notify => cstr f.body ++ ascii "\n"
  | some .listReply => ascii "[users]\n" ++ cstr f.body
  | some .error => ascii "[error] " ++ cstr f.body ++ ascii "\n"
  | some .history => ascii "[history] " ++ cstr f.body ++ ascii "\n"
  | _ => ascii "[msg type=" ++ decimal f.type.toNat ++ ascii "] " ++ cstr f.body ++ ascii "\n"

/-- The text of an output line. -/
def Output.text : Output → Bytes
  | .print f => printIncoming f
  | .diag text => text

namespace ClientSys

/-- The client after `connect` and the `JOIN` frame, at the first `recv`. -/
def init : ClientSys := ⟨.handshake false, .empty, []⟩

/-- `print_incoming`. -/
def print (f : Frame) (c : ClientSys) : ClientSys := { c with out := c.out ++ [.print f] }

/-- Write a message and leave the program. What `perror` adds to it is left out. -/
def quit (text : String) (c : ClientSys) : ClientSys :=
  { c with phase := .stopped, out := c.out ++ [.diag (ascii text)] }

/-- The `memmove` behind a frame of `need` bytes. -/
def consume (need : Nat) (c : ClientSys) : ClientSys := { c with rx := c.rx.consume need }

end ClientSys

def unexpected (type : UInt32) : Bytes :=
  ascii "Unexpected message during handshake (type=" ++ decimal type.toNat ++ ascii ")\n"

/-- `handshake_blocking` from one `recv` to the next, for at most `fuel` frames:
the inner loop, and the test behind it. -/
def handshakeLoop : Nat → Bool → ClientSys → ClientSys
  | 0, gotJoin, c => { c with phase := .handshake gotJoin }
  | fuel + 1, gotJoin, c =>
      match scanFrame c.rx.bytes with
      | .bad => c.quit "Protocol error, disconnecting.\n"
      | .more =>
          if gotJoin && c.rx.bytes = [] then { c with phase := .connected }
          else { c with phase := .handshake gotJoin }
      | .frame f need =>
          match MsgType.ofCode f.type with
          | some .error => { c.print f with phase := .stopped }
          | some .joinAck => handshakeLoop fuel true ((c.print f).consume need)
          | some .history =>
              if !gotJoin then c.quit "Unexpected HISTORY before JOIN_ACK\n"
              else handshakeLoop fuel gotJoin ((c.print f).consume need)
          | _ => { c with phase := .stopped, out := c.out ++ [.diag (unexpected f.type)] }

/-- `process_server` for at most `fuel` frames. -/
def serverLoop : Nat → ClientSys → ClientSys
  | 0, c => c
  | fuel + 1, c =>
      match scanFrame c.rx.bytes with
      | .bad =>
          { c with
            rx := .empty
            out := c.out ++ [.diag (ascii "Protocol error, disconnecting.\n")] }
      | .more => c
      | .frame f need => serverLoop fuel ((c.print f).consume need)

def processServer (c : ClientSys) : ClientSys := serverLoop (c.rx.bytes.length + 1) c

/-- What `recv` returns. -/
inductive RecvRet
  | data (chunk : Bytes)
  | closed
  | error

/-- The client from the return of `recv` to the next call. -/
def ClientSys.receive (c : ClientSys) (ret : RecvRet) : ClientSys :=
  match c.phase, ret with
  | .handshake gotJoin, .data chunk =>
      let c := { c with rx := c.rx.recv chunk }
      handshakeLoop (c.rx.bytes.length + 1) gotJoin c
  | .handshake _, .closed => c.quit "Server closed connection during handshake.\n"
  | .handshake _, .error => c.quit "recv"
  | .connected, .data chunk => processServer { c with rx := c.rx.recv chunk }
  | .connected, _ => c.quit "Disconnected.\n"
  | .stopped, _ => c

/-- The client over a sequence of received chunks. -/
def ClientSys.receiveAll (c : ClientSys) (chunks : List Bytes) : ClientSys :=
  chunks.foldl (fun c chunk => c.receive (.data chunk)) c

/-- Every chunk is of a size that the `recv` it answers can return. -/
def ClientSys.ValidCuts (c : ClientSys) : List Bytes → Prop
  | [] => True
  | chunk :: chunks => c.phase ≠ .stopped → 1 ≤ chunk.length ∧ chunk.length ≤ c.rx.room ∧
      (c.receive (.data chunk)).ValidCuts chunks

end Osisp.Chat
