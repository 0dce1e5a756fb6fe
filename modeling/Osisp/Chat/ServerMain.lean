import Osisp.Chat.Server

/-!
# The event loop (`main` of `server.c`)

One iteration builds `fds` from the used slots, polls, accepts at most one
connection and walks the slots again with a running index into `fds`. What the
kernel answers in an iteration is its `LoopInput`.
-/

namespace Osisp.Chat

open Lib

/-- The bits of `revents` the loop tests. -/
structure Revents where
  pollin : Bool
  pollerr : Bool
  pollhup : Bool
  pollnval : Bool
  deriving DecidableEq

/-- `struct pollfd`; `events` is `POLLIN` throughout. -/
structure Pollfd where
  fd : Fd
  revents : Revents
  deriving DecidableEq

/-- The answers of the kernel during one iteration. -/
structure LoopInput where
  /-- What `poll` stores in `fds[k].revents`. -/
  revents : Nat → Revents
  /-- The result of `accept`, if it is called. -/
  accept : Fd
  /-- The bytes readable at each slot's socket, or `none` where `recv` fails. -/
  recv : Slot → Option Bytes

/-- The descriptors of `fds`: the listener and the used slots in order. -/
def fdsOf (listenFd : Fd) (t : Table) : List Fd :=
  listenFd :: (slots.filter fun i => (t i).used).map fun i => (t i).fd

/-- `fds` after `poll`. -/
def poll (revents : Nat → Revents) (fds : List Fd) : List Pollfd :=
  fds.mapIdx fun k fd => ⟨fd, revents k⟩

/-- `main` writes the refusal of a full server itself, ignoring both results. -/
def turnAway (env : Env) (fd : Fd) (s : Sys) : Sys :=
  let e := ascii "Server full"
  let (_, log) := writeFd env fd (chatHeaderToWire (frameHeader MsgType.error.code e.length)) s.log
  let (_, log) := writeFd env fd e log
  (s.withLog log).note (.close fd)

/-- A connection is accepted. -/
def acceptClient (env : Env) (fd : Fd) (s : Sys) : Sys :=
  match addClient fd (s.note (.accept fd)) with
  | (some _, s) => s
  | (none, s) => turnAway env fd s

/-- Does the listener's entry lead to `accept`? -/
def Revents.listener (rev : Revents) : Bool := rev.pollin || rev.pollerr || rev.pollhup

def acceptPhase (env : Env) (inp : LoopInput) (s : Sys) : Sys :=
  if (inp.revents 0).listener then
    if inp.accept < 0 then s else acceptClient env inp.accept s
  else s

/-- `recv` of `data` into the buffer of slot `i`. -/
def recvInto (i : Slot) (data : Bytes) (s : Sys) : Sys :=
  let c := s.srv.clients i
  (s.note (.recv c.fd (data.take c.inbuf.room))).setClient i (c.setInbuf (c.inbuf.recv data))

/-- The body of the dispatch loop for slot `i`, once `rev` is read from `fds`. -/
def handleSlot (env : Env) (inp : LoopInput) (i : Slot) (rev : Revents) (s : Sys) : Sys :=
  if rev.pollerr || rev.pollhup || rev.pollnval then removeClientIndex env i s
  else if rev.pollin then
    match inp.recv i with
    | none => removeClientIndex env i (s.note (.recv (s.srv.clients i).fd []))
    | some data =>
        if data.take (s.srv.clients i).inbuf.room = [] then
          removeClientIndex env i (s.note (.recv (s.srv.clients i).fd []))
        else
          let s := processMessage env i (recvInto i data s)
          if !(s.srv.clients i).used then s
          else if (s.srv.clients i).inbuf.bytes.length ≥ recvCap then removeClientIndex env i s
          else s
  else s

/-- The dispatch loop over the remaining slots, `fi` being the running index.
The second component lists the slots handled, each with the `revents` read for
it. -/
def dispatchLoop (env : Env) (inp : LoopInput) (fds : List Pollfd) :
    List Slot → Nat → Sys → Sys × List (Slot × Revents)
  | [], _, s => (s, [])
  | i :: is, fi, s =>
      if !(s.srv.clients i).used then dispatchLoop env inp fds is fi s
      else
        match fds[fi]? with
        | none => (s, [])
        | some p =>
            let (s, handled) :=
              dispatchLoop env inp fds is (fi + 1) (handleSlot env inp i p.revents s)
            (s, (i, p.revents) :: handled)

/-- One iteration in which `poll` succeeds. -/
def iteration (env : Env) (listenFd : Fd) (inp : LoopInput) (s : Sys) :
    Sys × List (Slot × Revents) :=
  dispatchLoop env inp (poll inp.revents (fdsOf listenFd s.srv.clients)) slots 1
    (acceptPhase env inp s)

/-- What `poll` returns. -/
inductive PollResult
  | eintr
  | error
  | ready (inp : LoopInput)

/-- After the loop every connection still open is closed. -/
def shutdown (s : Sys) : Sys :=
  slots.foldl (fun s i => if (s.srv.clients i).used then closeSlot i s else s) s

/-- The `for (;;)` of `main` under the given results of `poll`. -/
def mainLoop (env : Env) (listenFd : Fd) : List PollResult → Sys → Sys
  | [], s => s
  | .eintr :: rs, s => mainLoop env listenFd rs s
  | .error :: _, s => shutdown s
  | .ready inp :: rs, s => mainLoop env listenFd rs (iteration env listenFd inp s).1

end Osisp.Chat
