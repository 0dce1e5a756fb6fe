import Osisp.Chat.Transport

/-!
# What each message of the server is

`Tells` lists what `process_message` can send because of a frame, each time with the
descriptor it goes to and what it is made of. A private message is written by a joined
client and goes to that client and to the one it names.
-/

namespace Osisp.Chat

open Lib

/-- The messages that the frame `f` of the client in slot `c` can cause. -/
inductive Tells (t : Table) (c : Slot) (f : Frame) : Fd → Message → Prop
  | answer {m : Message} :
    m.type.isAnswer = true → m.body.length ≤ chatMaxBody → Tells t c f (t c).fd m
  | greet {m : Message} :
    f.type = MsgType.join.code → (t c).joined = false →
    m.type = .joinAck ∨ m.type = .history → m.body.length ≤ chatMaxBody →
    Tells t c f (t c).fd m
  | note (fd : Fd) {m : Message} :
    m.type = .notify → m.body.length ≤ chatMaxBody → Tells t c f fd m
  | spoke (fd : Fd) :
    f.type = MsgType.broadcast.code → (t c).joined = true →
    Tells t c f fd
      ⟨.broadcast, (broadcastLine (t c).nick.bytes f.body).take chatMaxBody⟩
  | whisper {fd : Fd} {dest : Slot} {target msg : Bytes} :
    PrivateAccepted t c f dest target msg →
    fd = (t dest).fd ∨ fd = (t c).fd →
    Tells t c f fd ⟨.privateMsg,
      (privateLine (t c).nick.bytes target msg).take chatMaxBody⟩

/-- Every message fits a body. -/
theorem Tells.fits {t : Table} {c : Slot} {f : Frame} {fd : Fd} {m : Message}
    (h : Tells t c f fd m) : m.body.length ≤ chatMaxBody := by
  cases h with
  | answer _ fits => exact fits
  | greet _ _ _ fits => exact fits
  | note _ _ fits => exact fits
  | spoke => exact List.length_take_le _ _
  | whisper => exact List.length_take_le _ _

section Handlers

variable (env : Env) (c : Slot) (s : Sys) (f : Frame)

/-- The messages that are reported are such messages. -/
def Sys.TellsOnly (c : Slot) (f : Frame) (s : Sys) (log : Log) : Prop :=
  Appends (Event.Reports (Tells s.srv.clients c f)) s.log log

theorem sendError_tells {text : String} (known : text ∈ errorTexts) :
    s.TellsOnly c f (sendError env c text s).log :=
  (Sends.one (.answer rfl (ServerSite.error known).fits) s.log).reports

theorem AcceptJoinCase.tells {env : Env} {c : Slot} {f : Frame} {nick : Bytes} {s s' : Sys}
    (h : AcceptJoinCase env c nick s s') (type : f.type = MsgType.join.code)
    (fresh : (s.srv.clients c).joined = false) : s.TellsOnly c f s'.log := by
  have own : ((s.joinAs c nick).srv.clients c).fd = (s.srv.clients c).fd := by
    rw [joinAs_self]
    rfl
  have ack : Sends env (Tells s.srv.clients c f) s.log (sendAck env c nick s).2 := by
    unfold sendAck
    dsimp only
    rw [own]
    refine Sends.one (.greet type fresh (.inl rfl) ?_) s.log
    rw [joinAs_self]
    exact (ServerSite.joinAck _ (CStr.strncpy chatMaxNick nick)).fits
  cases h with
  | ackLost => exact ack.reports
  | admitted =>
      refine (ack.trans (Sends.trans ((sendLines_sends _ _ _ _).mono ?_)
        ((sendAll_sends _ _ _ _ _ _).mono ?_))).reports
      · intro fd m sent
        rcases sent with ⟨rfl, history, line, -, body⟩
        rw [own]
        refine .greet type fresh (.inr history) ?_
        rw [body]
        exact line.fits
      · intro fd m sent
        rcases sent with ⟨rfl, -⟩
        exact .note fd rfl (ServerSite.joinNote _).fits

theorem handlePrivate_tells (type : f.type = MsgType.privateMsg.code) :
    s.TellsOnly c f (handlePrivate env c f.body s).log := by
  unfold handlePrivate
  split
  · exact .refl _
  · rename_i joined
    split
    · rename_i refused
      exact sendError_tells env c s f (checkPrivate_error refused)
    · rename_i dest target msg check
      refine ((sendPrivate_sends _ _ _ _ _ _).mono ?_).reports
      intro fd m sent
      rcases sent with ⟨rfl, reader⟩
      exact .whisper ⟨type, by simpa using joined, check⟩ reader

theorem handleBroadcast_tells (type : f.type = MsgType.broadcast.code) :
    s.TellsOnly c f (handleBroadcast env c f.body s).log := by
  by_cases joined : (s.srv.clients c).joined = true
  · rw [handleBroadcast_of_joined env joined]
    have line (text : Bytes) : s.TellsOnly c f (s.log ++ [.line text]) := .single trivial
    refine (line _).trans ((sendAll_sends _ _ _ _ _ _).mono ?_).reports
    intro fd m sent
    rcases sent with ⟨rfl, -⟩
    exact .spoke fd type joined
  · unfold handleBroadcast
    rw [if_pos (by simpa using joined)]
    exact .refl _

/-- **What a frame makes the server say.** -/
theorem handleFrame_tells : s.TellsOnly c f (handleFrame env c f s).log := by
  unfold handleFrame
  split
  · rename_i type
    split
    · exact sendError_tells env c s f (by decide)
    · rename_i fresh
      unfold handleJoin
      split
      · rename_i refused
        exact sendError_tells env c s f (checkJoin_error c refused)
      · exact (acceptJoin_case env c _ s).tells (MsgType.ofCode_eq_some type) (by simpa using fresh)
  · rename_i type
    exact handleBroadcast_tells env c s f (MsgType.ofCode_eq_some type)
  · rename_i type
    exact handlePrivate_tells env c s f (MsgType.ofCode_eq_some type)
  · exact (Sends.one (.answer rfl (ServerSite.listReply _).fits) s.log).reports
  · exact .refl _

end Handlers

/-- The messages that an action can make the server send. -/
inductive Origin (s : Sys) (a : Action) (fd : Fd) (m : Message) : Prop
  | left {i : Slot} :
    a = .remove i → m.type = .notify → m.body.length ≤ chatMaxBody → Origin s a fd m
  | frame {c : Slot} {f : Frame} {need : Nat} :
    a = .frame c → scanFrame (s.srv.clients c).inbuf.bytes = .frame f need →
    Tells s.srv.clients c f fd m → Origin s a fd m

theorem Origin.fits {s : Sys} {a : Action} {fd : Fd} {m : Message} (h : Origin s a fd m) :
    m.body.length ≤ chatMaxBody := by
  cases h with
  | left _ _ fits => exact fits
  | frame _ _ tells => exact tells.fits

theorem closeSlot_reports (P : Fd → Message → Prop) (i : Slot) (s : Sys) :
    Appends (Event.Reports P) s.log (closeSlot i s).log := by
  rw [log_closeSlot]
  split
  · exact .single trivial
  · exact .refl _

/-- **One action.** -/
theorem act_tells (env : Env) (s : Sys) (a : Action) :
    Appends (Event.Reports (Origin s a)) s.log (act env s a).log := by
  cases a with
  | accept fd =>
      change Appends _ s.log (acceptClient env fd s).log
      have accepted : Appends (Event.Reports (Origin s (.accept fd))) s.log
          (s.log ++ [.accept fd]) := .single trivial
      rcases acceptClient_cases env fd s with ⟨i, added, eq⟩ | ⟨-, eq⟩
      · obtain ⟨-, -, -, log, -⟩ := addClient_some added
        rw [eq, log]
        exact accepted
      · obtain ⟨d, d', out, out', away⟩ := turnAway_eq env fd (s.note (.accept fd))
        rw [eq, away]
        refine accepted.trans ((Appends.trans (.single ?_) (.single ?_)).trans (.single ?_)) <;>
          trivial
  | recv i data => exact .single trivial
  | frame i =>
      cases scan : scanFrame (s.srv.clients i).inbuf.bytes with
      | more =>
          simp only [act, scan]
          exact .refl _
      | bad =>
          simp only [act, scan]
          exact .refl _
      | frame f need =>
          rw [act_frame scan]
          have noted : Appends (Event.Reports (Origin s (.frame i))) s.log
              (s.log ++ [.frame i f]) := .single trivial
          exact noted.trans ((handleFrame_tells env i (s.note (.frame i f)) f).mono
            fun _ h => h.mono fun _ _ tells => .frame rfl scan tells)
  | invalid i => exact closeSlot_reports _ i s
  | remove i =>
      change Appends _ s.log (removeClientIndex env i s).log
      unfold removeClientIndex
      dsimp only
      refine Appends.trans ?_ (closeSlot_reports _ i _)
      split
      · refine ((sendAll_sends _ _ _ _ _ _).mono ?_).reports
        intro fd m sent
        rcases sent with ⟨rfl, -⟩
        exact .left rfl rfl (ServerSite.partNote _).fits
      · exact .refl _

theorem messagesTo_origin {env : Env} {s : Sys} {a : Action} {fd : Fd} {m : Message}
    (mem : m ∈ messagesTo fd (addedBy env s a)) : Origin s a fd m := by
  obtain ⟨added, eq, all⟩ := act_tells env s a
  have same : addedBy env s a = added := by rw [addedBy, eq, List.drop_left]
  rw [same] at mem
  obtain ⟨e, mem, here⟩ := List.mem_flatMap.mp mem
  have reports := all e mem
  cases e with
  | sent fd' type body ok =>
      cases ok with
      | false => cases here
      | true =>
          change m ∈ if fd' = fd then [(⟨type, body⟩ : Message)] else [] at here
          by_cases own : fd' = fd
          · rw [if_pos own, List.mem_singleton] at here
            rw [here, ← own]
            exact reports
          · rw [if_neg own] at here
            cases here
  | accept | recv | write | close | frame | line => cases here

end Osisp.Chat
