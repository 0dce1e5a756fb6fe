import Mathlib
import Osisp.Lib.Trace
import Osisp.Chat.Proto

/-!
# Writing to a connection (`io.c`, `send_frame`)

The operating system is an argument: `env fd n` lists the returns of `write(2)`
during the `n`-th `write_full` on descriptor `fd` that come before the write
that takes everything left. Every behaviour of the call is such a list; only a
write that never returns is left out.

What a program does to its descriptors is a trace of events. Three kinds of
event are bookkeeping: `sent` (a `send_frame` returned), `frame`
(`process_message` reached its `switch`) and `line` (`handle_broadcast` built a
line) name the calls that the properties speak about.

A write to a connection whose peer is gone raises `SIGPIPE`, and the event
`write _ _ .epipe` marks it. The model computes on from there as if the signal
were ignored; whether the process outlives the event is the business of
`Survives`.
-/

namespace Osisp.Chat

open Lib

abbrev Fd := Int

/-- One return of `write(2)` for a positive count. -/
inductive WriteRet
  /-- `k + 1` bytes were taken, or all that were left. -/
  | short (k : Nat)
  | eintr
  /-- -1 with an `errno` other than `EINTR` and `EPIPE`. -/
  | error
  /-- -1 with `EPIPE`: the peer is gone. -/
  | epipe
  deriving DecidableEq

/-- How a `write_full` ended. -/
inductive WriteOut
  | done
  | error
  | epipe
  deriving DecidableEq

/-- `write_full`, with the bytes it got rid of. -/
def writeFull : List WriteRet → Bytes → WriteOut × Bytes
  | _, [] => (.done, [])
  | [], buf => (.done, buf)
  | .short k :: rets, buf =>
      let rest := writeFull rets (buf.drop (k + 1))
      (rest.1, buf.take (k + 1) ++ rest.2)
  | .eintr :: rets, buf => writeFull rets buf
  | .error :: _, _ => (.error, [])
  | .epipe :: _, _ => (.epipe, [])

/-- The returns of `write(2)` in each `write_full` on each descriptor. -/
abbrev Env := Fd → Nat → List WriteRet

def maxClients : Nat := 64

instance neZeroMaxClients : NeZero maxClients := ⟨by decide⟩

/-- An index into `clients`. -/
abbrev Slot := Fin maxClients

inductive Event
  | accept (fd : Fd)
  | recv (fd : Fd) (data : Bytes)
  | write (fd : Fd) (data : Bytes) (out : WriteOut)
  | close (fd : Fd)
  | sent (fd : Fd) (type : MsgType) (body : Bytes) (ok : Bool)
  | frame (slot : Slot) (f : Frame)
  | line (text : Bytes)
  deriving DecidableEq

abbrev Log := List Event

/-- A message as `send_frame` takes it. -/
structure Message where
  type : MsgType
  body : Bytes
  deriving DecidableEq

def Message.frame (m : Message) : Frame := ⟨m.type.code, m.body⟩

/-! ## Observations of the trace -/

/-- Is this a `write_full` on `fd`? -/
def Event.isWrite (fd : Fd) : Event → Bool
  | .write fd' _ _ => fd' = fd
  | _ => false

/-- The event belongs to sending on `fd`. -/
def Event.ToFd (fd : Fd) : Event → Prop
  | .write fd' _ _ => fd' = fd
  | .sent fd' _ _ _ => fd' = fd
  | _ => False

/-- The event belongs to sending on some descriptor. -/
def Event.Sending : Event → Prop
  | .write _ _ _ => True
  | .sent _ _ _ _ => True
  | _ => False

theorem Event.ToFd.sending {fd : Fd} {e : Event} (h : e.ToFd fd) : e.Sending := by
  cases e <;> trivial

/-- The bytes the event puts on the connection `fd`. -/
def Event.bytesTo (fd : Fd) : Event → Bytes
  | .write fd' data _ => if fd' = fd then data else []
  | _ => []

/-- The message the event reports as sent on `fd`. -/
def Event.messagesTo (fd : Fd) : Event → List Message
  | .sent fd' type body true => if fd' = fd then [⟨type, body⟩] else []
  | _ => []

/-- The events of sending on `fd`, as they are. -/
def Event.onFd (fd : Fd) : Event → List Event
  | .write fd' data out => if fd' = fd then [.write fd' data out] else []
  | .sent fd' type body ok => if fd' = fd then [.sent fd' type body ok] else []
  | _ => []

/-- The frame the event reports as taken from `slot`. -/
def Event.framesFrom (slot : Slot) : Event → List Frame
  | .frame slot' f => if slot' = slot then [f] else []
  | _ => []

/-- The line the event reports as built. -/
def Event.lines : Event → List Bytes
  | .line text => [text]
  | _ => []

/-- The stream written to `fd`. -/
def bytesTo (fd : Fd) (log : Log) : Bytes := log.flatMap (Event.bytesTo fd)

/-- The messages sent whole to `fd`, in order. -/
def messagesTo (fd : Fd) (log : Log) : List Message := log.flatMap (Event.messagesTo fd)

/-- All that was done in sending on `fd`. -/
def onFd (fd : Fd) (log : Log) : List Event := log.flatMap (Event.onFd fd)

/-- The frames taken from `slot`, in order. -/
def framesFrom (slot : Slot) (log : Log) : List Frame := log.flatMap (Event.framesFrom slot)

/-- The lines built by `handle_broadcast`, in order. -/
def linesOf (log : Log) : List Bytes := log.flatMap Event.lines

/-- The number of `write_full` calls on `fd`. -/
def writeCalls (fd : Fd) (log : Log) : Nat := log.countP (Event.isWrite fd)

@[simp] theorem bytesTo_append (fd : Fd) (l l' : Log) :
    bytesTo fd (l ++ l') = bytesTo fd l ++ bytesTo fd l' := List.flatMap_append

@[simp] theorem messagesTo_append (fd : Fd) (l l' : Log) :
    messagesTo fd (l ++ l') = messagesTo fd l ++ messagesTo fd l' := List.flatMap_append

@[simp] theorem onFd_append (fd : Fd) (l l' : Log) :
    onFd fd (l ++ l') = onFd fd l ++ onFd fd l' := List.flatMap_append

@[simp] theorem framesFrom_append (slot : Slot) (l l' : Log) :
    framesFrom slot (l ++ l') = framesFrom slot l ++ framesFrom slot l' := List.flatMap_append

@[simp] theorem linesOf_append (l l' : Log) : linesOf (l ++ l') = linesOf l ++ linesOf l' :=
  List.flatMap_append

/-- Sending builds no line. -/
theorem linesOf_of_sending {l l' : Log} (h : Appends Event.Sending l l') :
    linesOf l' = linesOf l :=
  h.flatMap_eq fun e sending => by cases e <;> first | rfl | exact sending.elim

section OtherFd

variable {l l' : Log} {fd fd' : Fd} (h : Appends (Event.ToFd fd') l l') (ne : fd ≠ fd')
include h ne

/-- Sending on one descriptor says nothing on another. -/
theorem onFd_of_other : onFd fd l' = onFd fd l :=
  h.flatMap_eq fun e toFd => by
    cases e with
    | write fd'' data out => cases toFd; exact if_neg ne.symm
    | sent fd'' type body ok => cases toFd; exact if_neg ne.symm
    | _ => rfl

theorem messagesTo_of_other : messagesTo fd l' = messagesTo fd l :=
  h.flatMap_eq fun e toFd => by
    cases e with
    | sent fd'' type body ok =>
        cases toFd
        cases ok with
        | false => rfl
        | true => exact if_neg ne.symm
    | _ => rfl

theorem bytesTo_of_other : bytesTo fd l' = bytesTo fd l :=
  h.flatMap_eq fun e toFd => by
    cases e with
    | write fd'' data out => cases toFd; exact if_neg ne.symm
    | _ => rfl

end OtherFd

/-- What is done on `fd` determines the number of its `write_full` calls. -/
theorem writeCalls_eq_onFd (fd : Fd) (log : Log) :
    writeCalls fd log = (onFd fd log).countP (Event.isWrite fd) := by
  induction log with
  | nil => rfl
  | cons e log ih =>
      have split : onFd fd (e :: log) = e.onFd fd ++ onFd fd log := List.flatMap_cons
      rw [split, List.countP_append, ← ih, writeCalls, List.countP_cons, Nat.add_comm]
      congr 1
      cases e with
      | write fd' data out => by_cases eq : fd' = fd <;> simp [Event.onFd, Event.isWrite, eq]
      | sent fd' type body ok => by_cases eq : fd' = fd <;> simp [Event.onFd, Event.isWrite, eq]
      | _ => rfl

/-! ## Writing -/

/-- `write_full (fd, buf, count)`. -/
def writeFd (env : Env) (fd : Fd) (buf : Bytes) (log : Log) : WriteOut × Log :=
  let r := writeFull (env fd (writeCalls fd log)) buf
  (r.1, log ++ [.write fd r.2 r.1])

/-- `send_frame`; the first component is `true` for a return of 0. -/
def sendFrame (env : Env) (fd : Fd) (type : MsgType) (body : Bytes) (log : Log) : Bool × Log :=
  let (out, log) := writeFd env fd (chatHeaderToWire (frameHeader type.code body.length)) log
  if out ≠ .done then (false, log ++ [.sent fd type body false])
  else if body.length > 0 then
    let (out, log) := writeFd env fd body log
    if out ≠ .done then (false, log ++ [.sent fd type body false])
    else (true, log ++ [.sent fd type body true])
  else (true, log ++ [.sent fd type body true])

/-- Every write of `env` to `fd` gets through, however it is cut. -/
def Env.Delivers (env : Env) (fd : Fd) : Prop :=
  ∀ n, ∀ r ∈ env fd n, r ≠ .error ∧ r ≠ .epipe

/-- Every write takes all it is given. -/
def Env.smooth : Env := fun _ _ => []

theorem Env.smooth_delivers (fd : Fd) : Env.smooth.Delivers fd :=
  fun _ _ mem => absurd mem List.not_mem_nil

/-- Short writes and interruptions do not show in the result. -/
theorem writeFull_of_delivers {rets : List WriteRet}
    (ok : ∀ r ∈ rets, r ≠ .error ∧ r ≠ .epipe) (buf : Bytes) :
    writeFull rets buf = (.done, buf) := by
  induction rets generalizing buf with
  | nil => cases buf <;> rfl
  | cons r rets ih =>
      have rest := ih fun r mem => ok r (List.mem_cons_of_mem _ mem)
      have head := ok r List.mem_cons_self
      cases buf with
      | nil => rfl
      | cons x buf =>
          cases r with
          | short k =>
              simp only [writeFull, rest, List.take_append_drop]
          | eintr => simp only [writeFull, rest]
          | error => exact absurd rfl head.1
          | epipe => exact absurd rfl head.2

theorem writeFd_of_delivers {env : Env} {fd : Fd} (ok : env.Delivers fd) (buf : Bytes)
    (log : Log) : writeFd env fd buf log = (.done, log ++ [.write fd buf .done]) := by
  unfold writeFd
  rw [writeFull_of_delivers (ok _)]

/-- `send_frame` writes, and is reported behind its writes. -/
theorem sendFrame_log (env : Env) (fd : Fd) (type : MsgType) (body : Bytes) (log : Log) :
    ∃ writes : Log, (∀ e ∈ writes, ∃ data out, e = .write fd data out) ∧
      (sendFrame env fd type body log).2 =
        log ++ writes ++ [.sent fd type body (sendFrame env fd type body log).1] := by
  have write (buf : Bytes) (log : Log) : ∃ data out,
      (writeFd env fd buf log).2 = log ++ [.write fd data out] := ⟨_, _, rfl⟩
  obtain ⟨h, hOut, header⟩ := write (chatHeaderToWire (frameHeader type.code body.length)) log
  obtain ⟨b, bOut, rest⟩ := write body (log ++ [.write fd h hOut])
  unfold sendFrame
  simp only [header, rest]
  split
  · exact ⟨[.write fd h hOut], fun e mem => ⟨h, hOut, List.mem_singleton.mp mem⟩, rfl⟩
  · split
    · have both : ∀ e ∈ [Event.write fd h hOut, .write fd b bOut], ∃ data out,
          e = .write fd data out := by
        intro e mem
        rcases List.mem_pair.mp mem with rfl | rfl
        · exact ⟨h, hOut, rfl⟩
        · exact ⟨b, bOut, rfl⟩
      split
      · exact ⟨_, both, by rw [List.append_assoc log]; rfl⟩
      · exact ⟨_, both, by rw [List.append_assoc log]; rfl⟩
    · exact ⟨[.write fd h hOut], fun e mem => ⟨h, hOut, List.mem_singleton.mp mem⟩, rfl⟩

theorem sendFrame_appends (env : Env) (fd : Fd) (type : MsgType) (body : Bytes) (log : Log) :
    Appends (Event.ToFd fd) log (sendFrame env fd type body log).2 := by
  obtain ⟨writes, only, eq⟩ := sendFrame_log env fd type body log
  rw [eq, List.append_assoc]
  refine ⟨_, rfl, fun e mem => ?_⟩
  rcases List.mem_append.mp mem with write | sent
  · obtain ⟨data, out, rfl⟩ := only e write
    rfl
  · rw [List.mem_singleton.mp sent]
    rfl

/-- A message counts as sent if all of it was written. -/
theorem messagesTo_sendFrame_eq (env : Env) (fd : Fd) (type : MsgType) (body : Bytes)
    (log : Log) : messagesTo fd (sendFrame env fd type body log).2 =
      messagesTo fd log ++ if (sendFrame env fd type body log).1 then [⟨type, body⟩] else [] := by
  obtain ⟨writes, only, eq⟩ := sendFrame_log env fd type body log
  have nothing : messagesTo fd writes = [] := by
    refine List.flatMap_eq_nil_iff.mpr fun e mem => ?_
    obtain ⟨data, out, rfl⟩ := only e mem
    rfl
  rw [eq, messagesTo_append, messagesTo_append, nothing, List.append_nil]
  cases (sendFrame env fd type body log).1 <;> simp [messagesTo, Event.messagesTo]

/-- Both writes of the next `send_frame` on `fd` get through. -/
def Env.Takes (env : Env) (fd : Fd) (type : MsgType) (body : Bytes) (log : Log) : Prop :=
  (writeFull (env fd (writeCalls fd log))
    (chatHeaderToWire (frameHeader type.code body.length))).1 = .done ∧
  (writeFull (env fd (writeCalls fd log + 1)) body).1 = .done

theorem writeCalls_append (fd : Fd) (l l' : Log) :
    writeCalls fd (l ++ l') = writeCalls fd l + writeCalls fd l' := List.countP_append

/-- Only writes count. -/
theorem Env.Takes.snoc {env : Env} {fd : Fd} {type : MsgType} {body : Bytes} {log : Log}
    (h : env.Takes fd type body log) {e : Event} (other : e.isWrite fd = false) :
    env.Takes fd type body (log ++ [e]) := by
  have calls : writeCalls fd (log ++ [e]) = writeCalls fd log := by
    rw [writeCalls_append, writeCalls, writeCalls, List.countP_singleton, other]
    rfl
  unfold Env.Takes at h ⊢
  rwa [calls]

/-- A frame is reported as sent exactly when its writes get through. -/
theorem sendFrame_iff_takes {env : Env} {fd : Fd} {type : MsgType} {body : Bytes} {log : Log} :
    (sendFrame env fd type body log).1 = true ↔ env.Takes fd type body log := by
  have next (e : Event) (isWrite : e.isWrite fd = true) :
      writeCalls fd (log ++ [e]) = writeCalls fd log + 1 := by
    rw [writeCalls_append, writeCalls, writeCalls, List.countP_singleton, if_pos isWrite]
  have empty : ∀ rets : List WriteRet, (writeFull rets []).1 = .done := by
    intro rets
    cases rets <;> rfl
  unfold sendFrame Env.Takes
  simp only [writeFd]
  by_cases header : (writeFull (env fd (writeCalls fd log))
      (chatHeaderToWire (frameHeader type.code body.length))).1 = .done
  · simp only [header, ne_eq, not_true_eq_false, if_false, true_and]
    rw [next _ (by simp [Event.isWrite])]
    cases body with
    | nil => simp [empty]
    | cons x body =>
        by_cases rest : (writeFull (env fd (writeCalls fd log + 1)) (x :: body)).1 = .done
        · simp [rest]
        · simp [rest]
  · simp [header]

theorem Env.smooth_takes (fd : Fd) (type : MsgType) (body : Bytes) (log : Log) :
    Env.smooth.Takes fd type body log := by
  constructor
  · rw [writeFull_of_delivers (Env.smooth_delivers fd _)]
  · rw [writeFull_of_delivers (Env.smooth_delivers fd _)]

section Delivered

variable {env : Env} {fd : Fd} (ok : env.Delivers fd) (type : MsgType) (body : Bytes) (log : Log)
include ok

/-- A frame that gets through reports success. -/
theorem sendFrame_ok : (sendFrame env fd type body log).1 = true := by
  unfold sendFrame
  simp only [writeFd_of_delivers ok]
  cases body <;> rfl

/-- A frame that gets through is sent whole. -/
theorem bytesTo_sendFrame :
    bytesTo fd (sendFrame env fd type body log).2 =
      bytesTo fd log ++ (Message.frame ⟨type, body⟩).encode := by
  unfold sendFrame
  simp only [writeFd_of_delivers ok]
  cases body with
  | nil => simp [bytesTo, Event.bytesTo, Message.frame, Frame.encode]
  | cons x body => simp [bytesTo, Event.bytesTo, Message.frame, Frame.encode]

theorem messagesTo_sendFrame :
    messagesTo fd (sendFrame env fd type body log).2 = messagesTo fd log ++ [⟨type, body⟩] := by
  rw [messagesTo_sendFrame_eq, sendFrame_ok ok, if_pos rfl]

end Delivered

/-! ## Open descriptors -/

/-- One event's effect on the set of open connections. -/
def Event.openFds (fds : Finset Fd) : Event → Finset Fd
  | .accept fd => insert fd fds
  | .close fd => fds.erase fd
  | _ => fds

/-- The accepted descriptors that have not been closed. -/
def openFds (log : Log) : Finset Fd := log.foldl Event.openFds ∅

/-- Every `close` is of a connection that is open. -/
def ClosesOnce (log : Log) : Prop :=
  ∀ before fd after, log = before ++ .close fd :: after → fd ∈ openFds before

/-- The process is never sent `SIGPIPE`, whose default action it keeps. -/
def Survives (log : Log) : Prop := ∀ fd data, Event.write fd data .epipe ∉ log

end Osisp.Chat
