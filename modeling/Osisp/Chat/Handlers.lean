import Osisp.Chat.Sends

/-!
# What a handler can do

`handleFrame_case` says once what the `switch` of `process_message` can do with
a frame: answer the sender and nothing else, let the sender join, broadcast, or
deliver a private message. `acceptJoin_case` does the same for the part of
`handle_join` behind its checks. Every later result about handlers is a case
analysis of these two.
-/

namespace Osisp.Chat

open Lib

theorem MsgType.ofCode_eq_some {w : UInt32} {t : MsgType} (h : MsgType.ofCode w = some t) :
    w = t.code := by
  have found := List.find?_some h
  exact (of_decide_eq_true found).symm

/-- A message of these types answers its addressee's own request. -/
def MsgType.isAnswer : MsgType → Bool
  | .error | .listReply => true
  | _ => false

/-- The frame is an accepted `JOIN` of the client in slot `c`, who becomes
`nick`. -/
structure JoinAccepted (t : Table) (c : Slot) (f : Frame) (nick : Bytes) : Prop where
  type : f.type = MsgType.join.code
  fresh : (t c).joined = false
  check : checkJoin t c f.body = .ok nick

/-- The frame is a private message of the joined client in slot `c` that has a
recipient. -/
structure PrivateAccepted (t : Table) (c : Slot) (f : Frame) (dest : Slot)
    (target msg : Bytes) : Prop where
  type : f.type = MsgType.privateMsg.code
  joined : (t c).joined = true
  check : checkPrivate t f.body = .ok (dest, target, msg)

theorem checkPrivate_ok {t : Table} {body target msg : Bytes} {dest : Slot}
    (h : checkPrivate t body = .ok (dest, target, msg)) :
    target = cstr body ∧ msg = body.drop (target.length + 1) ∧ 0 < target.length ∧
      target.length ≤ chatMaxNick ∧ 0 < msg.length ∧ (t dest).active = true ∧
      (t dest).nick.bytes = target := by
  unfold checkPrivate at h
  split at h
  · cases h
  · dsimp only at h
    split at h
    · cases h
    · rename_i lens
      split at h
      · cases h
      · rename_i found
        cases h
        have named := List.find?_some found
        simp only [Client.hasNick, cstr_cstr, Bool.and_eq_true, decide_eq_true_eq] at named
        simp only [Bool.or_eq_true, decide_eq_true_eq, not_or, not_lt] at lens
        exact ⟨rfl, rfl, Nat.pos_of_ne_zero lens.1.1, lens.1.2, Nat.pos_of_ne_zero lens.2,
          named.1, named.2⟩

/-- The effects `handle_*` can have on a frame of the client in slot `c`. -/
inductive FrameCase (env : Env) (c : Slot) (f : Frame) (s : Sys) : Sys → Prop
  | quiet {log : Log} :
    Sends env (fun fd m => fd = (s.srv.clients c).fd ∧ m.type.isAnswer) s.log log →
    FrameCase env c f s (s.withLog log)
  | join {nick : Bytes} :
    JoinAccepted s.srv.clients c f nick → FrameCase env c f s (acceptJoin env c nick s).2
  | broadcast :
    f.type = MsgType.broadcast.code → (s.srv.clients c).joined = true →
    FrameCase env c f s (handleBroadcast env c f.body s)
  | privateMsg {dest : Slot} {target msg : Bytes} :
    PrivateAccepted s.srv.clients c f dest target msg →
    FrameCase env c f s (s.withLog (sendPrivate env s.srv.clients c dest
      ((privateLine (s.srv.clients c).nick.bytes target msg).take chatMaxBody) s.log))

section Cases

variable {env : Env} {c : Slot} {f : Frame} {s : Sys}

theorem FrameCase.same : FrameCase env c f s s := .quiet (.refl s.log)

theorem FrameCase.error (e : String) : FrameCase env c f s (sendError env c e s) :=
  .quiet (Sends.one (by exact ⟨rfl, rfl⟩) s.log)

theorem handlePrivate_case (type : f.type = MsgType.privateMsg.code) :
    FrameCase env c f s (handlePrivate env c f.body s) := by
  unfold handlePrivate
  cases joined : (s.srv.clients c).joined with
  | false => exact .same
  | true =>
      simp only [Bool.not_true, Bool.false_eq_true, if_false]
      split
      · exact .error _
      · rename_i accepted
        exact .privateMsg ⟨type, joined, accepted⟩

/-- **Inversion of the `switch`.** -/
theorem handleFrame_case (env : Env) (c : Slot) (f : Frame) (s : Sys) :
    FrameCase env c f s (handleFrame env c f s) := by
  unfold handleFrame
  split
  · rename_i type
    cases joined : (s.srv.clients c).joined with
    | true => exact .error _
    | false =>
        simp only [Bool.false_eq_true, if_false, handleJoin]
        split
        · exact .error _
        · rename_i accepted
          exact .join ⟨MsgType.ofCode_eq_some type, joined, accepted⟩
  · rename_i type
    cases joined : (s.srv.clients c).joined with
    | true => exact .broadcast (MsgType.ofCode_eq_some type) joined
    | false =>
        simp only [handleBroadcast, joined, Bool.not_false, if_true]
        exact .same
  · rename_i type
    exact handlePrivate_case (MsgType.ofCode_eq_some type)
  · exact .quiet (Sends.one (by exact ⟨rfl, rfl⟩) s.log)
  · exact .same

end Cases

/-! ## Admission -/

/-- The body of the `NOTIFY` that a note becomes. -/
def noteBody (note : Bytes) : Bytes := (cstr note).take chatMaxBody

/-- The `JOIN_ACK` of `acceptJoin`: the verdict of its `send_frame` and the trace
after it. -/
def sendAck (env : Env) (c : Slot) (nick : Bytes) (s : Sys) : Bool × Log :=
  let me := (s.joinAs c nick).srv.clients c
  sendFrame env me.fd .joinAck (joinAckText me.id me.nick.bytes) s.log

/-- The trace of an admission whose `JOIN_ACK` got through. -/
def acceptJoinLog (env : Env) (c : Slot) (nick : Bytes) (s : Sys) : Log :=
  let s' := s.joinAs c nick
  let me := s'.srv.clients c
  sendAll env s'.srv.clients .notify (noteBody (joinNote me.nick.bytes)) (some c)
    (sendLines env me.fd s.srv.history.toList (sendAck env c nick s).2)

/-- The two ways `acceptJoin` ends. -/
inductive AcceptJoinCase (env : Env) (c : Slot) (nick : Bytes) (s : Sys) : Sys → Prop
  | ackLost : (sendAck env c nick s).1 = false →
    AcceptJoinCase env c nick s ((s.joinAs c nick).withLog (sendAck env c nick s).2)
  | admitted : (sendAck env c nick s).1 = true →
    AcceptJoinCase env c nick s ((s.joinAs c nick).withLog (acceptJoinLog env c nick s))

theorem acceptJoin_eq (env : Env) (c : Slot) (nick : Bytes) (s : Sys) :
    acceptJoin env c nick s =
      if !(sendAck env c nick s).1 then (-1, (s.joinAs c nick).withLog (sendAck env c nick s).2)
      else (0, (s.joinAs c nick).withLog (acceptJoinLog env c nick s)) := rfl

theorem acceptJoin_case (env : Env) (c : Slot) (nick : Bytes) (s : Sys) :
    AcceptJoinCase env c nick s (acceptJoin env c nick s).2 := by
  rw [acceptJoin_eq]
  cases ack : (sendAck env c nick s).1 with
  | false => exact .ackLost ack
  | true => exact .admitted ack

theorem AcceptJoinCase.srv {env : Env} {c : Slot} {nick : Bytes} {s s' : Sys}
    (h : AcceptJoinCase env c nick s s') : s'.srv = (s.joinAs c nick).srv := by
  cases h <;> rfl

section JoinAs

variable {c : Slot} {nick : Bytes} {s : Sys}

theorem joinAs_self : (s.joinAs c nick).srv.clients c =
    (s.srv.clients c).setJoined (.strncpy chatMaxNick nick) :=
  s.clients_setClient_self c _

theorem joinAs_of_ne {i : Slot} (ne : i ≠ c) :
    (s.joinAs c nick).srv.clients i = s.srv.clients i :=
  s.clients_setClient_of_ne _ ne

end JoinAs

theorem sendAck_of_takes {env : Env} {c : Slot} {f : Frame} {nick : Bytes} {s : Sys}
    (takes : env.Takes (s.srv.clients c).fd .joinAck
      (joinAckText (s.srv.clients c).id (CStr.strncpy chatMaxNick nick).bytes) s.log) :
    (sendAck env c nick (s.note (.frame c f))).1 = true := by
  unfold sendAck
  rw [joinAs_self]
  exact sendFrame_iff_takes.mpr (takes.snoc rfl)

/-- What an admission sends: the newcomer's greeting and history, and the
notice to the others. -/
def AcceptJoinSends (t : Table) (c : Slot) (nick : Bytes) (fd : Fd) (m : Message) : Prop :=
  fd = (t c).fd ∧ (m.type = .joinAck ∨ m.type = .history) ∨
    m = ⟨.notify, noteBody (joinNote (CStr.strncpy chatMaxNick nick).bytes)⟩ ∧
      ∃ i, i ≠ c ∧ (t i).active ∧ (t i).fd = fd

theorem AcceptJoinCase.sends {env : Env} {c : Slot} {nick : Bytes} {s s' : Sys}
    (h : AcceptJoinCase env c nick s s') :
    Sends env (AcceptJoinSends s.srv.clients c nick) s.log s'.log := by
  have ack : Sends env (AcceptJoinSends s.srv.clients c nick) s.log (sendAck env c nick s).2 := by
    refine Sends.one (Or.inl ⟨?_, Or.inl rfl⟩) s.log
    rw [joinAs_self]
    rfl
  cases h with
  | ackLost => exact ack
  | admitted =>
      refine ack.trans (Sends.trans ((sendLines_sends _ _ _ _).mono ?_)
        ((sendAll_sends _ _ _ _ _ _).mono ?_))
      · intro fd m target
        rcases target with ⟨same, type, -⟩
        rw [joinAs_self] at same
        exact Or.inl ⟨same, Or.inr type⟩
      · intro fd m target
        rcases target with ⟨note, i, active, skipped, same⟩
        have ne : i ≠ c := fun eq => skipped (eq ▸ rfl)
        rw [joinAs_self] at note
        rw [joinAs_of_ne ne] at active same
        exact Or.inr ⟨note, i, ne, active, same⟩

/-! ## What a handler leaves alone -/

/-- The part of a slot that belongs to its connection. -/
def Client.SameConn (a b : Client) : Prop :=
  a.fd = b.fd ∧ a.used = b.used ∧ a.id = b.id ∧ a.inbuf = b.inbuf

theorem sendPrivate_sends (env : Env) (t : Table) (c dest : Slot) (out : Bytes) (log : Log) :
    Sends env (fun fd m => m = ⟨.privateMsg, out⟩ ∧ (fd = (t dest).fd ∨ fd = (t c).fd)) log
      (sendPrivate env t c dest out log) := by
  have first : Sends env
      (fun fd m => m = ⟨.privateMsg, out⟩ ∧ (fd = (t dest).fd ∨ fd = (t c).fd)) log
      (sendFrame env (t dest).fd .privateMsg out log).2 := Sends.one ⟨rfl, Or.inl rfl⟩ log
  unfold sendPrivate
  dsimp only
  split
  · exact first
  · split
    · exact first.trans (Sends.one ⟨rfl, Or.inr rfl⟩ _)
    · exact first

/-- `handle_broadcast` for a joined client. -/
theorem handleBroadcast_of_joined (env : Env) {c : Slot} {s : Sys}
    (joined : (s.srv.clients c).joined = true) (body : Bytes) :
    handleBroadcast env c body s =
      let line := broadcastLine (s.srv.clients c).nick.bytes body
      let s := histPush line (s.note (.line line))
      s.withLog (sendAll env s.srv.clients .broadcast (line.take chatMaxBody) none s.log) := by
  simp only [handleBroadcast, joined, Bool.not_true, Bool.false_eq_true, if_false]

/-- What a handler adds to the trace: sends, and the line of `handle_broadcast`. -/
def Event.OfHandler (e : Event) : Prop := e.Sending ∨ ∃ text, e = .line text

/-- No handler takes a frame from a buffer. -/
theorem framesFrom_of_handler {l l' : Log} (h : Appends Event.OfHandler l l') (i : Slot) :
    framesFrom i l' = framesFrom i l :=
  h.flatMap_eq fun e handler => by
    rcases handler with sending | ⟨text, rfl⟩
    · cases e <;> first | rfl | exact sending.elim
    · rfl

namespace FrameCase

variable {env : Env} {c i : Slot} {f : Frame} {s s' : Sys} (h : FrameCase env c f s s')
include h

/-- No handler touches a connection. -/
theorem sameConn (i : Slot) : Client.SameConn (s'.srv.clients i) (s.srv.clients i) := by
  cases h with
  | quiet _ => exact ⟨rfl, rfl, rfl, rfl⟩
  | join _ =>
      rw [(acceptJoin_case env c _ s).srv]
      by_cases eq : i = c
      · rw [eq, joinAs_self]
        exact ⟨rfl, rfl, rfl, rfl⟩
      · rw [joinAs_of_ne eq]
        exact ⟨rfl, rfl, rfl, rfl⟩
  | broadcast _ joined =>
      rw [handleBroadcast_of_joined env joined]
      exact ⟨rfl, rfl, rfl, rfl⟩
  | privateMsg _ => exact ⟨rfl, rfl, rfl, rfl⟩

/-- A handler leaves the other slots as they are. -/
theorem clients_of_ne (ne : i ≠ c) : s'.srv.clients i = s.srv.clients i := by
  cases h with
  | quiet _ => rfl
  | join _ => rw [(acceptJoin_case env c _ s).srv, joinAs_of_ne ne]
  | broadcast _ joined =>
      rw [handleBroadcast_of_joined env joined]
      rfl
  | privateMsg _ => rfl

/-- What sending appends and what building a line appends is all there is. -/
theorem appends_of {P : Event → Prop}
    (sends : ∀ {Q : Fd → Message → Prop} {l l' : Log}, Sends env Q l l' → Appends P l l')
    (line : ∀ text, P (.line text)) : Appends P s.log s'.log := by
  cases h with
  | quiet h => exact sends h
  | join _ => exact sends (acceptJoin_case env c _ s).sends
  | broadcast _ joined =>
      rw [handleBroadcast_of_joined env joined]
      have built (text : Bytes) : Appends P s.log (s.log ++ [.line text]) :=
        Appends.single (line text)
      exact (built _).trans (sends (sendAll_sends _ _ _ _ _ _))
  | privateMsg _ => exact sends (sendPrivate_sends _ _ _ _ _ _)

theorem appends : Appends Event.OfHandler s.log s'.log :=
  h.appends_of (fun sends => sends.appends_sending.mono fun _ => Or.inl)
    fun text => Or.inr ⟨text, rfl⟩

theorem framesFrom_eq (i : Slot) : framesFrom i s'.log = framesFrom i s.log :=
  framesFrom_of_handler h.appends i

end FrameCase

end Osisp.Chat
