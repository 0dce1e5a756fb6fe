import Mathlib
import Osisp.Fifo.Handlers
import Osisp.Lib.Pipe
import Osisp.Lib.System

/-!
# The server and its clients (`server.c`, `client.c`)

One server, one `SERVER_FIFO` and a client for every PID. A program counter names
the system call each process makes next, an action is one call of one process,
and `Run` allows every interleaving. An `open` blocks until the other end is
there, so the two opens of a rendezvous are one action. A client's own FIFO
carries responses only; `inbox` is its content while its name exists.
-/

namespace Osisp.Fifo

open Lib

/-! ## States -/

/-- Where `main` of `server.c` is. -/
inductive ServerPc
  /-- No descriptor for `SERVER_FIFO`; about to open it. -/
  | closed
  /-- Blocked in that `open`. -/
  | opening
  /-- At the `read` of the loop. -/
  | reading
  /-- `read` returned 0; about to close. -/
  | sawEof
  /-- In `process_request`, before the client's FIFO is opened. -/
  | serving (req : Request)
  /-- The client's FIFO is open, `resp` is not written yet. -/
  | answering (req : Request) (resp : Response)
  /-- About to close the client's FIFO. -/
  | answered (req : Request)
  deriving DecidableEq

/-- Where `send_request` of a client is. -/
inductive ClientPc
  /-- Outside `send_request`. -/
  | idle
  /-- The own FIFO is made; about to open `SERVER_FIFO`. -/
  | ready (req : Request)
  | opened (req : Request)
  /-- The request is written; about to close `SERVER_FIFO`. -/
  | written (req : Request)
  /-- About to open the own FIFO, or blocked in that `open`. -/
  | waiting (req : Request)
  | reading (req : Request)
  /-- The process is gone. -/
  | dead
  deriving DecidableEq

/-- The state of all processes and pipes. The last four fields record what
happened: the requests whose `write` succeeded, the bytes each `read` of the
server took, the answers written, and what `send_request` returned (`none` for
-1). -/
structure Sys where
  pipe : Pipe Pid
  server : ServerPc
  client : Pid → ClientPc
  inbox : Pid → Option (List Response)
  written : List Request
  reads : List Bytes
  answers : List (Request × Response)
  returned : List (Request × Option Bytes)

/-- `SERVER_FIFO` is made, nobody has opened it. -/
def init : Sys :=
  ⟨.fresh, .closed, fun _ => .idle, fun _ => none, [], [], [], []⟩

/-- The request the server has taken and not answered. -/
def ServerPc.processing : ServerPc → Option Request
  | .serving req => some req
  | .answering req _ => some req
  | _ => none

/-- The server has the FIFO of `p` open. -/
def ServerPc.Holding (p : Pid) : ServerPc → Prop
  | .answering req _ => req.clientPid = p
  | .answered req => req.clientPid = p
  | _ => False

/-- The request the client has sent and has no answer to yet. -/
def ClientPc.awaited : ClientPc → Option Request
  | .written req => some req
  | .waiting req => some req
  | .reading req => some req
  | _ => none

/-! ## Actions -/

/-- One call of one process. -/
inductive Action
  /-- `send_request` is entered and makes the client's FIFO. -/
  | mkfifo (p : Pid) (type : RequestType) (text : Bytes)
  | openServer (req : Request)
  | write (req : Request)
  | closeServer (req : Request)
  /-- `read` of the own FIFO, up to the return of `send_request`. -/
  | readOwn (req : Request)
  /-- The client dies. -/
  | crash (p : Pid)
  | serverOpen
  | serverRead
  | serverClose
  /-- `process_request` returns without an answer. -/
  | serverSkip (req : Request)
  /-- The client's FIFO cannot be opened. -/
  | serverNoFifo (req : Request)
  /-- Server and client open the client's FIFO; the client asked for `own`. -/
  | rendezvous (req : Request) (resp : Response) (own : Request)
  | serverWrite (req : Request) (resp : Response)
  | serverCloseClient (req : Request)
  deriving DecidableEq

namespace Sys

def setClient (s : Sys) (p : Pid) (pc : ClientPc) : Sys :=
  { s with client := Function.update s.client p pc }

/-- A process that is gone holds no descriptor. -/
def die (s : Sys) (p : Pid) : Sys :=
  { s.setClient p .dead with pipe := s.pipe.closeWrite p }

end Sys

/-- What `send_request` makes of the response it read; `none` is -1. -/
def sendRequestResult : List Response → Option Bytes
  | [] => none
  | resp :: _ => if resp.status ≠ 0 then none else some ((cstr resp.response).take (msgSize - 1))

/-- When the call can be made and does not block. `capacity` is the size of the
pipe buffer. -/
def Enabled (capacity : Nat) (s : Sys) : Action → Prop
  | .mkfifo p _ _ => s.client p = .idle
  | .openServer req =>
      s.client req.clientPid = .ready req ∧ (s.pipe.reader = true ∨ s.server = .opening)
  | .write req =>
      s.client req.clientPid = .opened req ∧
        (s.pipe.reader = false ∨ s.pipe.bytes.length + Request.sizeof ≤ capacity)
  | .closeServer req => s.client req.clientPid = .written req
  | .readOwn req =>
      s.client req.clientPid = .reading req ∧
        (s.inbox req.clientPid ≠ some [] ∨ ¬ s.server.Holding req.clientPid)
  | .crash p => s.client p ≠ .dead
  | .serverOpen => s.server = .closed
  | .serverRead => s.server = .reading ∧ (s.pipe.bytes ≠ [] ∨ s.pipe.writers = ∅)
  | .serverClose => s.server = .sawEof
  | .serverSkip req => s.server = .serving req ∧ processRequest req = .silent
  | .serverNoFifo req =>
      s.server = .serving req ∧ processRequest req ≠ .silent ∧ processRequest req ≠ .overrun ∧
        s.inbox req.clientPid = none
  | .rendezvous req resp own =>
      s.server = .serving req ∧ processRequest req = .answer resp ∧
        s.client req.clientPid = .waiting own
  | .serverWrite req resp => s.server = .answering req resp
  | .serverCloseClient req => s.server = .answered req

/-- The state after the call. -/
def act (s : Sys) : Action → Sys
  | .mkfifo p type text =>
      { s.setClient p (.ready (.fill p type text)) with
        inbox := Function.update s.inbox p (some []) }
  | .openServer req =>
      let s := s.setClient req.clientPid (.opened req)
      if s.server = .opening then
        { s with server := .reading, pipe := s.pipe.openRead.openWrite req.clientPid }
      else { s with pipe := s.pipe.openWrite req.clientPid }
  | .write req =>
      if s.pipe.reader then
        { s.setClient req.clientPid (.written req) with
          pipe := s.pipe.write req.encode
          written := s.written ++ [req] }
      -- The client does not handle `SIGPIPE`.
      else s.die req.clientPid
  | .closeServer req =>
      { s.setClient req.clientPid (.waiting req) with
        pipe := s.pipe.closeWrite req.clientPid }
  | .readOwn req =>
      { s.setClient req.clientPid .idle with
        inbox := Function.update s.inbox req.clientPid none
        returned := s.returned ++
          [(req, sendRequestResult ((s.inbox req.clientPid).getD []))] }
  | .crash p => s.die p
  | .serverOpen =>
      if s.pipe.writers = ∅ then { s with server := .opening }
      else { s with server := .reading, pipe := s.pipe.openRead }
  | .serverRead =>
      if s.pipe.bytes = [] then { s with server := .sawEof }
      else
        let buf := s.pipe.bytes.take Request.sizeof
        { s with
          pipe := s.pipe.read Request.sizeof
          reads := s.reads ++ [buf]
          -- An incomplete request is dropped and the loop continues.
          server := match Request.decode buf with
            | some req => .serving req
            | none => .reading }
  | .serverClose => { s with server := .closed, pipe := s.pipe.closeRead }
  | .serverSkip _ => { s with server := .reading }
  | .serverNoFifo _ => { s with server := .reading }
  | .rendezvous req resp own =>
      { s.setClient req.clientPid (.reading own) with server := .answering req resp }
  | .serverWrite req resp =>
      match s.client req.clientPid, s.inbox req.clientPid with
      | .reading _, some rs =>
          { s with
            server := .answered req
            inbox := Function.update s.inbox req.clientPid (some (rs ++ [resp]))
            answers := s.answers ++ [(req, resp)] }
      -- No reader: `SIGPIPE` is ignored and `write` fails.
      | _, _ => { s with server := .answered req }
  | .serverCloseClient _ => { s with server := .reading }

instance (p : Pid) (pc : ServerPc) : Decidable (pc.Holding p) := by
  cases pc <;> unfold ServerPc.Holding <;> infer_instance

instance decidableEnabled (capacity : Nat) (s : Sys) (a : Action) :
    Decidable (Enabled capacity s a) := by
  cases a <;> unfold Enabled <;> infer_instance

/-- A run of the system: any interleaving of calls, each made when it is enabled. -/
abbrev Run (capacity : Nat) : Sys → List Action → Sys → Prop := Lib.Run (Enabled capacity) act

abbrev EachStep : (Sys → Action → Prop) → Sys → List Action → Prop := Lib.EachStep act

/-! ## What a call does to a client -/

/-- How the program counter of client `p` moves in a call that concerns it. -/
inductive ClientMoves (a : Action) (p : Pid) : ClientPc → ClientPc → Prop
  | mkfifo (type : RequestType) (text : Bytes) : a = .mkfifo p type text →
      ClientMoves a p .idle (.ready (.fill p type text))
  | openServer (req : Request) : a = .openServer req → req.clientPid = p →
      ClientMoves a p (.ready req) (.opened req)
  | write (req : Request) : a = .write req → req.clientPid = p →
      ClientMoves a p (.opened req) (.written req)
  | sigpipe (req : Request) : a = .write req → req.clientPid = p →
      ClientMoves a p (.opened req) .dead
  | closeServer (req : Request) : a = .closeServer req → req.clientPid = p →
      ClientMoves a p (.written req) (.waiting req)
  | rendezvous (req own : Request) (resp : Response) : a = .rendezvous req resp own →
      req.clientPid = p → ClientMoves a p (.waiting own) (.reading own)
  | readOwn (req : Request) : a = .readOwn req → req.clientPid = p →
      ClientMoves a p (.reading req) .idle
  | crash (pc : ClientPc) : a = .crash p → ClientMoves a p pc .dead

variable {capacity : Nat} {s : Sys} {a : Action}

/-- A call moves one client at most. -/
theorem client_act (enabled : Enabled capacity s a) (q : Pid) :
    (act s a).client q = s.client q ∨ ClientMoves a q (s.client q) ((act s a).client q) := by
  have moved : ∀ p pc, (act s a).client = Function.update s.client p pc →
      ClientMoves a p (s.client p) pc →
      (act s a).client q = s.client q ∨ ClientMoves a q (s.client q) ((act s a).client q) := by
    intro p pc eq move
    rw [eq]
    by_cases other : q = p
    · rw [other, Function.update_self]
      exact .inr move
    · exact .inl (Function.update_of_ne other _ _)
  cases a with
  | mkfifo p type text =>
      have idle : s.client p = .idle := enabled
      exact moved p _ rfl (idle ▸ .mkfifo type text rfl)
  | openServer req =>
      refine moved req.clientPid (.opened req) ?_ (enabled.1 ▸ .openServer req rfl rfl)
      simp only [act]
      split <;> rfl
  | write req =>
      cases reader : s.pipe.reader with
      | true =>
          refine moved req.clientPid (.written req) ?_ (enabled.1 ▸ .write req rfl rfl)
          simp [act, reader, Sys.setClient]
      | false =>
          refine moved req.clientPid .dead ?_ (enabled.1 ▸ .sigpipe req rfl rfl)
          simp [act, reader, Sys.die, Sys.setClient]
  | closeServer req =>
      have written : s.client req.clientPid = .written req := enabled
      exact moved req.clientPid _ rfl (written ▸ .closeServer req rfl rfl)
  | readOwn req => exact moved req.clientPid _ rfl (enabled.1 ▸ .readOwn req rfl rfl)
  | crash p => exact moved p _ rfl (.crash _ rfl)
  | rendezvous req resp own =>
      exact moved req.clientPid _ rfl (enabled.2.2 ▸ .rendezvous req own resp rfl rfl)
  | serverOpen | serverRead | serverWrite =>
      refine .inl ?_
      simp only [act]
      split <;> rfl
  | serverClose | serverSkip | serverNoFifo | serverCloseClient => exact .inl rfl

/-- The dead stay dead. -/
theorem client_act_dead (enabled : Enabled capacity s a) {p : Pid} (dead : s.client p = .dead) :
    (act s a).client p = .dead := by
  rcases client_act enabled p with same | move
  · exact same.trans dead
  · rw [dead] at move
    generalize (act s a).client p = pc at move ⊢
    cases move with
    | crash => rfl

/-! ## What a call does to the server -/

/-- How the program counter of the server moves in a call that concerns it. -/
inductive ServerMoves (a : Action) : ServerPc → ServerPc → Prop
  | opened (req : Request) : a = .openServer req → ServerMoves a .opening .reading
  | enters (pc : ServerPc) : a = .serverOpen → pc = .opening ∨ pc = .reading →
      ServerMoves a .closed pc
  | eof : a = .serverRead → ServerMoves a .reading .sawEof
  | took (req : Request) : a = .serverRead → ServerMoves a .reading (.serving req)
  | close : a = .serverClose → ServerMoves a .sawEof .closed
  | skip (req : Request) : a = .serverSkip req → ServerMoves a (.serving req) .reading
  | noFifo (req : Request) : a = .serverNoFifo req → ServerMoves a (.serving req) .reading
  | rendezvous (req own : Request) (resp : Response) : a = .rendezvous req resp own →
      ServerMoves a (.serving req) (.answering req resp)
  | write (req : Request) (resp : Response) : a = .serverWrite req resp →
      ServerMoves a (.answering req resp) (.answered req)
  | closeClient (req : Request) : a = .serverCloseClient req →
      ServerMoves a (.answered req) .reading

/-- The program counter of the server follows `main`. -/
theorem server_act (enabled : Enabled capacity s a) :
    (act s a).server = s.server ∨ ServerMoves a s.server (act s a).server := by
  cases a with
  | openServer req =>
      by_cases opening : s.server = .opening
      · have after : (act s (.openServer req)).server = .reading := by
          simp [act, opening, Sys.setClient]
        rw [opening, after]
        exact .inr (.opened req rfl)
      · exact .inl (by simp [act, opening, Sys.setClient])
  | write req =>
      refine .inl ?_
      simp only [act]
      split <;> rfl
  | serverOpen =>
      have closed : s.server = .closed := enabled
      rw [closed]
      refine .inr (.enters _ rfl ?_)
      simp only [act]
      split
      · exact .inl rfl
      · exact .inr rfl
  | serverRead =>
      rw [enabled.1]
      by_cases empty : s.pipe.bytes = []
      · have after : (act s .serverRead).server = .sawEof := by simp [act, empty]
        rw [after]
        exact .inr (.eof rfl)
      · simp only [act, if_neg empty]
        cases Request.decode (s.pipe.bytes.take Request.sizeof) with
        | none => exact .inl rfl
        | some req => exact .inr (.took req rfl)
  | serverClose =>
      have eof : s.server = .sawEof := enabled
      rw [eof]
      exact .inr (.close rfl)
  | serverSkip req =>
      rw [enabled.1]
      exact .inr (.skip req rfl)
  | serverNoFifo req =>
      rw [enabled.1]
      exact .inr (.noFifo req rfl)
  | rendezvous req resp own =>
      rw [enabled.1]
      exact .inr (.rendezvous req own resp rfl)
  | serverWrite req resp =>
      have answering : s.server = .answering req resp := enabled
      have after : (act s (.serverWrite req resp)).server = .answered req := by
        simp only [act]
        split <;> rfl
      rw [answering, after]
      exact .inr (.write req resp rfl)
  | serverCloseClient req =>
      have answered : s.server = .answered req := enabled
      rw [answered]
      exact .inr (.closeClient req rfl)
  | mkfifo | closeServer | readOwn | crash => exact .inl rfl

end Osisp.Fifo
