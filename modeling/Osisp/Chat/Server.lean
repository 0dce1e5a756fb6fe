import Mathlib
import Osisp.Lib.Buffer
import Osisp.Lib.Ring
import Osisp.Chat.Io

/-!
# The chat server (`server.c`)

The process's static variables are `Server`; `Sys` adds the trace. Functions of
the source that only write to sockets act on the trace alone and read the table
they are given, so a loop over the slots runs over a fixed table.
-/

namespace Osisp.Chat

open Lib

def historyLines : Nat := 32

/-- `client_t`; `inbuf` is the array with its `inlen`. -/
structure Client where
  fd : Fd
  used : Bool
  joined : Bool
  id : UInt32
  nick : CStr chatMaxNick
  inbuf : Buf recvCap
  deriving DecidableEq

/-- A slot after `memset` to zero. -/
def Client.zero : Client := ⟨0, false, false, 0, .empty, .empty⟩

/-- A slot as `close_slot` and the start of `main` leave it. -/
def Client.free : Client := { Client.zero with fd := -1 }

/-- Store a new fill of the receive buffer. -/
def Client.setInbuf (c : Client) (inbuf : Buf recvCap) : Client := { c with inbuf := inbuf }

/-- `c` joined under `nick`. -/
def Client.setJoined (c : Client) (nick : CStr chatMaxNick) : Client :=
  { c with nick := nick, joined := true }

@[simp] theorem Client.inbuf_setInbuf (c : Client) (inbuf : Buf recvCap) :
    (c.setInbuf inbuf).inbuf = inbuf := rfl

/-- The `clients` array. -/
abbrev Table := Slot → Client

structure Server where
  clients : Table
  nextId : UInt32
  /-- `history`, `hist_start` and `hist_count`. -/
  history : Ring (CStr chatMaxBody) historyLines

structure Sys where
  srv : Server
  log : Log

/-- All slots, in the order of the loops. -/
def slots : List Slot := List.finRange maxClients

/-- A slot that takes part in the chat: used and joined. -/
def Client.active (c : Client) : Bool := c.used && c.joined

def Server.init : Server where
  clients := fun _ => .free
  nextId := 1
  history := ⟨fun _ => .empty, ⟨0, by decide⟩, 0, Nat.zero_le _⟩

def Sys.init : Sys := ⟨.init, []⟩

namespace Sys

/-- Assign to `clients[i]`. -/
def setClient (s : Sys) (i : Slot) (c : Client) : Sys :=
  { s with srv.clients := Function.update s.srv.clients i c }

/-- Replace the trace. -/
def withLog (s : Sys) (log : Log) : Sys := { s with log := log }

/-- Append one event to the trace. -/
def note (s : Sys) (e : Event) : Sys := { s with log := s.log ++ [e] }

variable (s : Sys) (i j : Slot) (c : Client) (log : Log) (e : Event)

theorem clients_setClient :
    (s.setClient i c).srv.clients = Function.update s.srv.clients i c := rfl

@[simp] theorem clients_setClient_self : (s.setClient i c).srv.clients i = c := by
  rw [clients_setClient, Function.update_self]

theorem clients_setClient_of_ne {i j : Slot} (ne : j ≠ i) :
    (s.setClient i c).srv.clients j = s.srv.clients j := by
  rw [clients_setClient, Function.update_of_ne ne]

@[simp] theorem log_setClient : (s.setClient i c).log = s.log := rfl

@[simp] theorem history_setClient : (s.setClient i c).srv.history = s.srv.history := rfl

@[simp] theorem nextId_setClient : (s.setClient i c).srv.nextId = s.srv.nextId := rfl

@[simp] theorem srv_withLog : (s.withLog log).srv = s.srv := rfl

@[simp] theorem log_withLog : (s.withLog log).log = log := rfl

@[simp] theorem srv_note : (s.note e).srv = s.srv := rfl

@[simp] theorem log_note : (s.note e).log = s.log ++ [e] := rfl

end Sys

/-- `hist_push`. -/
def histPush (text : Bytes) (s : Sys) : Sys :=
  { s with srv.history := s.srv.history.push (.strncpy chatMaxBody text) }

def closeSlot (i : Slot) (s : Sys) : Sys :=
  let fd := (s.srv.clients i).fd
  let s := if fd ≥ 0 then s.note (.close fd) else s
  s.setClient i .free

/-- `strcmp` with the nick of a slot. -/
def Client.hasNick (c : Client) (nick : Bytes) : Bool := c.nick.bytes = cstr nick

def findByNick (t : Table) (nick : Bytes) : Option Slot :=
  slots.find? fun i => (t i).active && (t i).hasNick nick

def nickTaken (t : Table) (nick : Bytes) (except : Slot) : Bool :=
  slots.any fun i => (t i).active && i ≠ except && (t i).hasNick nick

/-- Send one message to every joined client but `skip`; a failed send is passed
over. -/
def sendAll (env : Env) (t : Table) (type : MsgType) (body : Bytes) (skip : Option Slot)
    (log : Log) : Log :=
  slots.foldl (fun log i =>
    if !(t i).active then log
    else if skip = some i then log
    else (sendFrame env (t i).fd type body log).2) log

/-- `broadcast_notify`; both callers skip a client. -/
def broadcastNotify (env : Env) (t : Table) (text : Bytes) (skip : Slot) (log : Log) : Log :=
  sendAll env t .notify ((cstr text).take chatMaxBody) (some skip) log

/-- The loop of `send_history_to` over the remaining lines. -/
def sendLines (env : Env) (fd : Fd) : List (CStr chatMaxBody) → Log → Log
  | [], log => log
  | line :: lines, log =>
      let (ok, log) := sendFrame env fd .history ((cstr line.bytes).take chatMaxBody) log
      if !ok then log else sendLines env fd lines log

def sendHistoryTo (env : Env) (srv : Server) (fd : Fd) (log : Log) : Log :=
  sendLines env fd srv.history.toList log

/-- Answer the client in slot `i` with an `ERROR` message. -/
def sendError (env : Env) (i : Slot) (text : String) (s : Sys) : Sys :=
  s.withLog (sendFrame env (s.srv.clients i).fd .error (ascii text) s.log).2

/-- Formatted output into an array of `size` bytes. -/
def snprintf (size : Nat) (text : Bytes) : Bytes := text.take (size - 1)

def isNewline (x : UInt8) : Bool := x = 10 || x = 13

def joinAckText (id : UInt32) (nick : Bytes) : Bytes :=
  snprintf 128 (ascii "id=" ++ decimal id.toNat ++ ascii "\nnick=" ++ nick ++ ascii "\n")

def joinNote (nick : Bytes) : Bytes := snprintf (chatMaxBody + 1) (ascii "[JOIN] " ++ nick)

def partNote (nick : Bytes) : Bytes := snprintf (chatMaxBody + 1) (ascii "[PART] " ++ nick)

/-- The checks of `handle_join`: the nick without its trailing line ends, or the
text of the refusal. -/
def checkJoin (t : Table) (c : Slot) (body : Bytes) : Except String Bytes :=
  if body.length = 0 || body.length > chatMaxNick then .error "Invalid nickname length"
  else
    let nick := body.rdropWhile isNewline
    if nick.length = 0 then .error "Empty nickname"
    else if nickTaken t nick c then .error "Nickname already in use"
    else .ok nick

/-- The client in slot `c` becomes joined under `nick`. -/
def Sys.joinAs (c : Slot) (nick : Bytes) (s : Sys) : Sys :=
  s.setClient c ((s.srv.clients c).setJoined (.strncpy chatMaxNick nick))

/-- `handle_join` after its checks. -/
def acceptJoin (env : Env) (c : Slot) (nick : Bytes) (s : Sys) : Int × Sys :=
  let s := s.joinAs c nick
  let me := s.srv.clients c
  let (ok, log) := sendFrame env me.fd .joinAck (joinAckText me.id me.nick.bytes) s.log
  if !ok then (-1, s.withLog log)
  else
    let log := sendHistoryTo env s.srv me.fd log
    let log := broadcastNotify env s.srv.clients (joinNote me.nick.bytes) c log
    (0, s.withLog log)

/-- `handle_join` with its return value. -/
def handleJoin (env : Env) (c : Slot) (body : Bytes) (s : Sys) : Int × Sys :=
  match checkJoin s.srv.clients c body with
  | .error e => (-1, sendError env c e s)
  | .ok nick => acceptJoin env c nick s

def broadcastLine (nick body : Bytes) : Bytes :=
  snprintf (chatMaxBody + chatMaxNick + 8) (nick ++ ascii ": " ++ cstr body)

def handleBroadcast (env : Env) (c : Slot) (body : Bytes) (s : Sys) : Sys :=
  if !(s.srv.clients c).joined then s
  else
    let line := broadcastLine (s.srv.clients c).nick.bytes body
    let s := histPush line (s.note (.line line))
    s.withLog (sendAll env s.srv.clients .broadcast (line.take chatMaxBody) none s.log)

def privateLine (nick target msg : Bytes) : Bytes :=
  snprintf (chatMaxBody + chatMaxNick * 2 + 16)
    (ascii "(pm " ++ nick ++ ascii " -> " ++ target ++ ascii ") " ++ cstr msg)

/-- The checks of `handle_private`: the recipient, the target as written and the
text, or the text of the refusal. -/
def checkPrivate (t : Table) (body : Bytes) : Except String (Slot × Bytes × Bytes) :=
  if 0 ∉ body then .error "Malformed private message (need target\\0text)"
  else
    let target := cstr body
    let msg := body.drop (target.length + 1)
    if target.length = 0 || target.length > chatMaxNick || msg.length = 0 then
      .error "Invalid private message"
    else
      match findByNick t target with
      | none => .error "User not found"
      | some dest => .ok (dest, target, msg)

/-- The two sends of `handle_private`: the recipient's, then the sender's copy. -/
def sendPrivate (env : Env) (t : Table) (c dest : Slot) (out : Bytes) (log : Log) : Log :=
  let (ok, log) := sendFrame env (t dest).fd .privateMsg out log
  if !ok then log
  else if dest ≠ c then (sendFrame env (t c).fd .privateMsg out log).2
  else log

def handlePrivate (env : Env) (c : Slot) (body : Bytes) (s : Sys) : Sys :=
  if !(s.srv.clients c).joined then s
  else
    match checkPrivate s.srv.clients body with
    | .error e => sendError env c e s
    | .ok (dest, target, msg) =>
        let line := privateLine (s.srv.clients c).nick.bytes target msg
        s.withLog (sendPrivate env s.srv.clients c dest (line.take chatMaxBody) s.log)

def listEntry (c : Client) : Bytes := decimal c.id.toNat ++ ascii "\t" ++ c.nick.bytes ++ ascii "\n"

/-- The loop of `handle_list`: `buf` is the text written so far. -/
def listLoop (t : Table) : List Slot → Bytes → Bytes
  | [], buf => buf
  | i :: is, buf =>
      if buf.length + 1 < chatMaxBody + 1 then
        if !(t i).active then listLoop t is buf
        else if (listEntry (t i)).length ≥ chatMaxBody + 1 - buf.length then buf
        else listLoop t is (buf ++ listEntry (t i))
      else buf

def handleList (env : Env) (c : Slot) (s : Sys) : Sys :=
  let buf := listLoop s.srv.clients slots []
  let buf := if buf.length = 0 then ascii "(no users)\n" else buf
  s.withLog (sendFrame env (s.srv.clients c).fd .listReply buf s.log).2

/-- The `switch` of `process_message`. -/
def handleFrame (env : Env) (c : Slot) (f : Frame) (s : Sys) : Sys :=
  match MsgType.ofCode f.type with
  | some .join =>
      if (s.srv.clients c).joined then sendError env c "Already joined" s
      else (handleJoin env c f.body s).2
  | some .broadcast => handleBroadcast env c f.body s
  | some .privateMsg => handlePrivate env c f.body s
  | some .list => handleList env c s
  | _ => s

/-- One round of `process_message` for a complete frame `f` of `need` bytes. -/
def processFrame (env : Env) (c : Slot) (f : Frame) (need : Nat) (s : Sys) : Sys :=
  let s := handleFrame env c f (s.note (.frame c f))
  s.setClient c ((s.srv.clients c).setInbuf ((s.srv.clients c).inbuf.consume need))

/-- `process_message` for at most `fuel` rounds. -/
def processLoop (env : Env) (c : Slot) : Nat → Sys → Sys
  | 0, s => s
  | fuel + 1, s =>
      match scanFrame (s.srv.clients c).inbuf.bytes with
      | .more => s
      | .bad => closeSlot c s
      | .frame f need => processLoop env c fuel (processFrame env c f need s)

/-- `process_message`: a round takes at least one byte from the buffer, so its
length bounds the number of rounds. -/
def processMessage (env : Env) (c : Slot) (s : Sys) : Sys :=
  processLoop env c ((s.srv.clients c).inbuf.bytes.length + 1) s

/-- `add_client`. -/
def addClient (fd : Fd) (s : Sys) : Option Slot × Sys :=
  match slots.find? fun i => !(s.srv.clients i).used with
  | none => (none, s)
  | some i =>
      let s := s.setClient i { Client.zero with fd := fd, used := true, id := s.srv.nextId }
      (some i, { s with srv.nextId := s.srv.nextId + 1 })

def removeClientIndex (env : Env) (i : Slot) (s : Sys) : Sys :=
  let c := s.srv.clients i
  let s :=
    if c.joined then
      s.withLog (broadcastNotify env s.srv.clients (partNote c.nick.bytes) i s.log)
    else s
  closeSlot i s

end Osisp.Chat
