import Mathlib
import Osisp.Chat.Invariant

/-!
# Failing connections

Two runs of the same actions are compared, under two behaviours of `write` that
differ only on a set `F` of connections: in the first the writes to `F` may fail
in any way, in the second they succeed. `Agree` relates the states of the two
runs: the server is the same and so is all that is sent outside `F`. Every
action keeps it except where a failed send makes a handler return early
(`Harmless` excludes exactly that).
-/

namespace Osisp.Chat

open Lib

/-- The same is sent on all descriptors outside `F`. -/
def SameOff (F : Set Fd) (l l' : Log) : Prop := ∀ fd, fd ∉ F → onFd fd l' = onFd fd l

namespace SameOff

variable {F : Set Fd} {l l' l'' : Log}

theorem refl (l : Log) : SameOff F l l := fun _ _ => rfl

theorem symm (h : SameOff F l l') : SameOff F l' l := fun fd off => (h fd off).symm

theorem trans (first : SameOff F l l') (second : SameOff F l' l'') : SameOff F l l'' :=
  fun fd off => (second fd off).trans (first fd off)

theorem snoc (h : SameOff F l l') (e : Event) : SameOff F (l ++ [e]) (l' ++ [e]) :=
  fun fd off => by rw [onFd_append, onFd_append, h fd off]

/-- Sending on a descriptor in `F` does not show. -/
theorem of_appends {fd : Fd} (mem : fd ∈ F) (h : Appends (Event.ToFd fd) l l') : SameOff F l l' :=
  fun _ off => onFd_of_other h fun eq => off (eq ▸ mem)

theorem of_sends {env : Env} {P : Fd → Message → Prop} (h : Sends env P l l')
    (only : ∀ fd m, P fd m → fd ∈ F) : SameOff F l l' :=
  fun fd off => h.onFd_eq fun m allowed => off (only fd m allowed)

/-- What is received off `F` is the same. -/
theorem messagesTo_eq (h : SameOff F l l') {fd : Fd} (off : fd ∉ F) :
    messagesTo fd l' = messagesTo fd l := by
  have of_onFd (log : Log) : messagesTo fd log = messagesTo fd (onFd fd log) := by
    rw [messagesTo, messagesTo, onFd, List.flatMap_assoc]
    refine List.flatMap_congr fun e _ => ?_
    cases e with
    | write fd' data out => by_cases eq : fd' = fd <;> simp [Event.onFd, Event.messagesTo, eq]
    | sent fd' type body ok =>
        by_cases eq : fd' = fd
        · simp [Event.onFd, eq]
        · cases ok <;> simp [Event.onFd, Event.messagesTo, eq]
    | _ => rfl
  rw [of_onFd l', h fd off, ← of_onFd l]

theorem bytesTo_eq (h : SameOff F l l') {fd : Fd} (off : fd ∉ F) :
    bytesTo fd l' = bytesTo fd l := by
  have of_onFd (log : Log) : bytesTo fd log = bytesTo fd (onFd fd log) := by
    rw [bytesTo, bytesTo, onFd, List.flatMap_assoc]
    refine List.flatMap_congr fun e _ => ?_
    cases e with
    | write fd' data out =>
        by_cases eq : fd' = fd <;> simp [Event.onFd, Event.bytesTo, eq]
    | sent fd' type body ok => by_cases eq : fd' = fd <;> simp [Event.onFd, Event.bytesTo, eq]
    | _ => rfl
  rw [of_onFd l', h fd off, ← of_onFd l]

end SameOff

/-! ## Writing under both behaviours -/

section Writing

variable {env env' : Env} {F : Set Fd} (others : ∀ fd, fd ∉ F → env' fd = env fd)
  {l l' : Log} (same : SameOff F l l')
include others same

theorem writeFd_same (fd : Fd) (buf : Bytes) :
    SameOff F (writeFd env fd buf l).2 (writeFd env' fd buf l').2 ∧
      (fd ∉ F → (writeFd env' fd buf l').1 = (writeFd env fd buf l).1) := by
  by_cases mem : fd ∈ F
  · have touch (env : Env) (l : Log) : SameOff F l (writeFd env fd buf l).2 :=
      .of_appends mem (Appends.single rfl)
    exact ⟨(touch env l).symm.trans (same.trans (touch env' l')), fun off => absurd mem off⟩
  · have calls : writeCalls fd l' = writeCalls fd l := by
      rw [writeCalls_eq_onFd, same fd mem, ← writeCalls_eq_onFd]
    unfold writeFd
    rw [others fd mem, calls]
    exact ⟨same.snoc _, fun _ => rfl⟩

theorem sendFrame_same (fd : Fd) (type : MsgType) (body : Bytes) :
    SameOff F (sendFrame env fd type body l).2 (sendFrame env' fd type body l').2 ∧
      (fd ∉ F → (sendFrame env' fd type body l').1 = (sendFrame env fd type body l).1) := by
  by_cases mem : fd ∈ F
  · have touch (env : Env) (l : Log) : SameOff F l (sendFrame env fd type body l).2 :=
      .of_appends mem (sendFrame_appends env fd type body l)
    exact ⟨(touch env l).symm.trans (same.trans (touch env' l')), fun off => absurd mem off⟩
  · have header := writeFd_same others same fd
      (chatHeaderToWire (frameHeader type.code body.length))
    have rest := writeFd_same others header.1 fd body
    unfold sendFrame
    dsimp only
    rw [header.2 mem]
    split
    · exact ⟨header.1.snoc _, fun _ => rfl⟩
    · split
      · rw [rest.2 mem]
        split
        · exact ⟨rest.1.snoc _, fun _ => rfl⟩
        · exact ⟨rest.1.snoc _, fun _ => rfl⟩
      · exact ⟨header.1.snoc _, fun _ => rfl⟩

theorem sendAll_same (t : Table) (type : MsgType) (body : Bytes) (skip : Option Slot) :
    SameOff F (sendAll env t type body skip l) (sendAll env' t type body skip l') := by
  unfold sendAll
  generalize slots = is
  induction is generalizing l l' with
  | nil => exact same
  | cons i is ih =>
      rw [List.foldl_cons, List.foldl_cons]
      refine ih ?_
      split
      · exact same
      · split
        · exact same
        · exact (sendFrame_same others same _ _ _).1

theorem sendLines_same (fd : Fd) (lines : List (CStr chatMaxBody)) :
    SameOff F (sendLines env fd lines l) (sendLines env' fd lines l') := by
  by_cases mem : fd ∈ F
  · have touch (env : Env) (l : Log) : SameOff F l (sendLines env fd lines l) :=
      .of_sends (sendLines_sends env fd lines l) fun fd' m allowed => allowed.1 ▸ mem
    exact (touch env l).symm.trans (same.trans (touch env' l'))
  · induction lines generalizing l l' with
    | nil => exact same
    | cons line lines ih =>
        have first := sendFrame_same others same fd .history ((cstr line.bytes).take chatMaxBody)
        unfold sendLines
        dsimp only
        rw [first.2 mem]
        split
        · exact first.1
        · exact ih first.1

end Writing

/-! ## Handling a frame under both behaviours -/

/-- The states of the two runs. -/
structure Agree (F : Set Fd) (s s' : Sys) : Prop where
  srv : s'.srv = s.srv
  log : SameOff F s.log s'.log

/-- The frame `f` of the client in slot `c` meets no failed send that others
notice: with someone else joined, the `JOIN_ACK` of a newcomer in `F` gets
through, and so does a private message to a recipient in `F` if its sender is
not in `F`. -/
structure Harmless (env : Env) (F : Set Fd) (c : Slot) (f : Frame) (s : Sys) : Prop where
  ack : ∀ nick, JoinAccepted s.srv.clients c f nick → (s.srv.clients c).fd ∈ F →
    (∃ j, j ≠ c ∧ (s.srv.clients j).active = true ∧ (s.srv.clients j).fd ∉ F) →
    env.Takes (s.srv.clients c).fd .joinAck
      (joinAckText (s.srv.clients c).id (CStr.strncpy chatMaxNick nick).bytes) s.log
  copy : ∀ dest target msg, PrivateAccepted s.srv.clients c f dest target msg →
    (s.srv.clients dest).fd ∈ F → (s.srv.clients c).fd ∉ F →
    env.Takes (s.srv.clients dest).fd .privateMsg
      ((privateLine (s.srv.clients c).nick.bytes target msg).take chatMaxBody) s.log

section Handling

variable {env env' : Env} {F : Set Fd} (others : ∀ fd, fd ∉ F → env' fd = env fd)
  {s s' : Sys} (agree : Agree F s s')
include others agree

theorem sendFrame_agree (fd : Fd) (type : MsgType) (body : Bytes) :
    Agree F (s.withLog (sendFrame env fd type body s.log).2)
      (s'.withLog (sendFrame env' fd type body s'.log).2) :=
  ⟨agree.srv, (sendFrame_same others agree.log fd type body).1⟩

theorem sendError_agree (c : Slot) (e : String) :
    Agree F (sendError env c e s) (sendError env' c e s') := by
  have sent := sendFrame_agree others agree (s.srv.clients c).fd .error (ascii e)
  unfold sendError
  rw [agree.srv]
  exact sent

theorem handleList_agree (c : Slot) : Agree F (handleList env c s) (handleList env' c s') := by
  unfold handleList
  rw [agree.srv]
  exact sendFrame_agree others agree _ _ _

theorem handleBroadcast_agree (c : Slot) (body : Bytes) :
    Agree F (handleBroadcast env c body s) (handleBroadcast env' c body s') := by
  unfold handleBroadcast
  rw [agree.srv]
  split
  · exact agree
  · have line := agree.log.snoc (.line (broadcastLine (s.srv.clients c).nick.bytes body))
    refine ⟨?_, ?_⟩
    · simp only [histPush, Sys.srv_withLog, Sys.srv_note, agree.srv]
    · simp only [histPush, Sys.log_withLog, Sys.srv_note, Sys.log_note, agree.srv]
      exact sendAll_same others line _ _ _ _

theorem sendPrivate_agree {c dest : Slot} {out : Bytes}
    (succeed : ∀ fd ∈ F, env'.Delivers fd)
    (copy : (s.srv.clients dest).fd ∈ F → (s.srv.clients c).fd ∉ F →
      (sendFrame env (s.srv.clients dest).fd .privateMsg out s.log).1 = true) :
    SameOff F (sendPrivate env s.srv.clients c dest out s.log)
      (sendPrivate env' s.srv.clients c dest out s'.log) := by
  have first := sendFrame_same others agree.log (s.srv.clients dest).fd .privateMsg out
  by_cases both : (s.srv.clients dest).fd ∈ F ∧ (s.srv.clients c).fd ∈ F
  · -- nothing shows
    have touch (env : Env) (l : Log) : SameOff F l (sendPrivate env s.srv.clients c dest out l) :=
      .of_sends (sendPrivate_sends env s.srv.clients c dest out l) fun fd m allowed =>
        allowed.2.elim (fun eq => eq ▸ both.1) fun eq => eq ▸ both.2
    exact (touch env s.log).symm.trans (agree.log.trans (touch env' s'.log))
  · have verdict : (sendFrame env' (s.srv.clients dest).fd .privateMsg out s'.log).1 =
        (sendFrame env (s.srv.clients dest).fd .privateMsg out s.log).1 := by
      by_cases mem : (s.srv.clients dest).fd ∈ F
      · rw [sendFrame_ok (succeed _ mem), copy mem fun memC => both ⟨mem, memC⟩]
      · exact first.2 mem
    unfold sendPrivate
    dsimp only
    rw [verdict]
    split
    · exact first.1
    · split
      · exact (sendFrame_same others first.1 _ _ _).1
      · exact first.1

theorem acceptJoin_agree {c : Slot} {nick : Bytes} (succeed : ∀ fd ∈ F, env'.Delivers fd)
    (ack : (s.srv.clients c).fd ∈ F →
      (∃ j, j ≠ c ∧ (s.srv.clients j).active = true ∧ (s.srv.clients j).fd ∉ F) →
      (sendAck env c nick s).1 = true) :
    Agree F (acceptJoin env c nick s).2 (acceptJoin env' c nick s').2 := by
  obtain ⟨srv, log⟩ := s
  obtain ⟨srv', log'⟩ := s'
  obtain ⟨rfl, same⟩ := agree
  have fd : ((Sys.joinAs c nick ⟨srv', log⟩).srv.clients c).fd = (srv'.clients c).fd := by
    rw [joinAs_self]
    rfl
  have acked : SameOff F (sendAck env c nick ⟨srv', log⟩).2 (sendAck env' c nick ⟨srv', log'⟩).2 ∧
      ((srv'.clients c).fd ∉ F →
        (sendAck env' c nick ⟨srv', log'⟩).1 = (sendAck env c nick ⟨srv', log⟩).1) := by
    rw [← fd]
    exact sendFrame_same others same _ _ _
  have all : SameOff F (acceptJoinLog env c nick ⟨srv', log⟩)
      (acceptJoinLog env' c nick ⟨srv', log'⟩) :=
    sendAll_same others (sendLines_same others acked.1 _ _) _ _ _ _
  have srvs : ((Sys.joinAs c nick ⟨srv', log'⟩).srv) = (Sys.joinAs c nick ⟨srv', log⟩).srv := rfl
  rw [acceptJoin_eq, acceptJoin_eq]
  by_cases mem : (srv'.clients c).fd ∈ F
  · have acked' : (sendAck env' c nick ⟨srv', log'⟩).1 = true :=
      sendFrame_ok (succeed _ (by rw [fd.symm] at mem; exact mem)) _ _ _
    rw [acked']
    cases verdict : (sendAck env c nick ⟨srv', log⟩).1 with
    | true => exact ⟨srvs, all⟩
    | false =>
        -- the newcomer goes unannounced, but nobody outside `F` is there to notice
        refine ⟨srvs, ?_⟩
        have nobody : ∀ fd m, AcceptJoinSends srv'.clients c nick fd m → fd ∈ F := by
          intro fd m target
          rcases target with ⟨rfl, -⟩ | ⟨-, j, ne, active, rfl⟩
          · exact mem
          · by_contra off
            have contra := ack mem ⟨j, ne, active, off⟩
            rw [verdict] at contra
            cases contra
        have unseen : SameOff F log' (acceptJoinLog env' c nick ⟨srv', log'⟩) :=
          .of_sends (AcceptJoinCase.admitted acked').sends nobody
        have unseen' : SameOff F log (sendAck env c nick ⟨srv', log⟩).2 :=
          .of_sends (AcceptJoinCase.ackLost verdict).sends nobody
        exact unseen'.symm.trans (same.trans unseen)
  · rw [acked.2 mem]
    split
    · exact ⟨srvs, acked.1⟩
    · exact ⟨srvs, all⟩

omit others in
theorem Agree.note (e : Event) : Agree F (s.note e) (s'.note e) :=
  ⟨agree.srv, agree.log.snoc e⟩

omit others in
theorem Agree.setClient (i : Slot) (c : Client) : Agree F (s.setClient i c) (s'.setClient i c) := by
  refine ⟨?_, agree.log⟩
  unfold Sys.setClient
  rw [agree.srv]

omit others in
theorem closeSlot_agree (c : Slot) : Agree F (closeSlot c s) (closeSlot c s') := by
  unfold closeSlot
  rw [agree.srv]
  dsimp only
  split
  · exact (agree.note _).setClient _ _
  · exact agree.setClient _ _

omit others in
theorem recvInto_agree (i : Slot) (data : Bytes) :
    Agree F (recvInto i data s) (recvInto i data s') := by
  unfold recvInto
  rw [agree.srv]
  exact (agree.note _).setClient _ _

theorem removeClientIndex_agree (i : Slot) :
    Agree F (removeClientIndex env i s) (removeClientIndex env' i s') := by
  unfold removeClientIndex
  rw [agree.srv]
  refine closeSlot_agree ?_ i
  split
  · exact ⟨agree.srv, sendAll_same others agree.log _ _ _ _⟩
  · exact agree

theorem turnAway_agree (fd : Fd) : Agree F (turnAway env fd s) (turnAway env' fd s') := by
  have header := writeFd_same others agree.log fd (chatHeaderToWire
    (frameHeader MsgType.error.code (ascii "Server full").length))
  have body := writeFd_same others header.1 fd (ascii "Server full")
  exact ⟨agree.srv, body.1.snoc _⟩

theorem acceptClient_agree (fd : Fd) :
    Agree F (acceptClient env fd s) (acceptClient env' fd s') := by
  obtain ⟨srv, log⟩ := s
  obtain ⟨srv', log'⟩ := s'
  obtain ⟨rfl, same⟩ := agree
  have noted : SameOff F (log ++ [.accept fd]) (log' ++ [.accept fd]) := same.snoc _
  unfold acceptClient addClient
  dsimp only [Sys.note]
  cases slots.find? fun i => !(srv'.clients i).used with
  | none =>
      have full : Agree F ⟨srv', log ++ [.accept fd]⟩ ⟨srv', log' ++ [.accept fd]⟩ := ⟨rfl, noted⟩
      exact turnAway_agree others full fd
  | some i => exact ⟨rfl, noted⟩

theorem handleFrame_agree {c : Slot} {f : Frame} (succeed : ∀ fd ∈ F, env'.Delivers fd)
    (harmless : Harmless env F c f s) :
    Agree F (handleFrame env c f (s.note (.frame c f)))
      (handleFrame env' c f (s'.note (.frame c f))) := by
  have noted := agree.note (.frame c f)
  unfold handleFrame
  cases type : MsgType.ofCode f.type with
  | none => exact noted
  | some t =>
      have code := MsgType.ofCode_eq_some type
      cases t with
      | join =>
          dsimp only
          rw [noted.srv, Sys.srv_note]
          cases joined : (s.srv.clients c).joined with
          | true => exact sendError_agree others noted c _
          | false =>
              unfold handleJoin
              rw [noted.srv, Sys.srv_note]
              cases check : checkJoin s.srv.clients c f.body with
              | error e => exact sendError_agree others noted c e
              | ok nick =>
                  refine acceptJoin_agree others noted succeed fun mem someone => ?_
                  exact sendAck_of_takes (harmless.ack nick ⟨code, joined, check⟩ mem someone)
      | broadcast => exact handleBroadcast_agree others noted c f.body
      | privateMsg =>
          dsimp only
          unfold handlePrivate
          rw [noted.srv, Sys.srv_note]
          cases joined : (s.srv.clients c).joined with
          | false => exact noted
          | true =>
              dsimp only [Bool.not_true]
              cases check : checkPrivate s.srv.clients f.body with
              | error e => exact sendError_agree others noted c e
              | ok accepted =>
                  obtain ⟨dest, target, msg⟩ := accepted
                  refine ⟨noted.srv, sendPrivate_agree others noted succeed fun mem off => ?_⟩
                  exact sendFrame_iff_takes.mpr
                    ((harmless.copy dest target msg ⟨code, joined, check⟩ mem off).snoc rfl)
      | list => exact handleList_agree others noted c
      | _ => exact noted

theorem processFrame_agree {c : Slot} {f : Frame} (need : Nat)
    (succeed : ∀ fd ∈ F, env'.Delivers fd) (harmless : Harmless env F c f s) :
    Agree F (processFrame env c f need s) (processFrame env' c f need s') := by
  have handled := handleFrame_agree others agree succeed harmless
  unfold processFrame
  dsimp only
  rw [handled.srv]
  exact handled.setClient _ _

end Handling

/-! ## Runs under both behaviours -/

/-- `Harmless`, for any action. -/
def HarmlessStep (F : Set Fd) (env : Env) (s : Sys) : Action → Prop
  | .frame c => ∀ f need, scanFrame (s.srv.clients c).inbuf.bytes = .frame f need →
      Harmless env F c f s
  | _ => True

section Runs

variable {env env' : Env} {F : Set Fd} (others : ∀ fd, fd ∉ F → env' fd = env fd)
  (succeed : ∀ fd ∈ F, env'.Delivers fd) {s s' : Sys}
include others succeed

theorem act_agree (agree : Agree F s s') {a : Action} (harmless : HarmlessStep F env s a) :
    Agree F (act env s a) (act env' s' a) := by
  cases a with
  | accept fd => exact acceptClient_agree others agree fd
  | recv i data => exact recvInto_agree agree i data
  | invalid i => exact closeSlot_agree agree i
  | remove i => exact removeClientIndex_agree others agree i
  | frame c =>
      simp only [act, agree.srv]
      cases scan : scanFrame (s.srv.clients c).inbuf.bytes with
      | more => exact agree
      | bad => exact agree
      | frame f need => exact processFrame_agree others agree need succeed (harmless f need scan)

omit others succeed in
/-- The same actions are possible in both runs. -/
theorem Agree.enabled (agree : Agree F s s') (inv : Inv s) (inv' : Inv s') {a : Action}
    (enabled : Enabled s a) : Enabled s' a := by
  cases a with
  | accept fd =>
      refine ⟨enabled.1, fun opened => enabled.2 ?_⟩
      rw [inv'.opened, agree.srv] at opened
      exact (inv.opened fd).mpr opened
  | recv i data =>
      simp only [Enabled] at enabled ⊢
      rwa [agree.srv]
  | frame i =>
      simp only [Enabled] at enabled ⊢
      rwa [agree.srv]
  | invalid i =>
      simp only [Enabled] at enabled ⊢
      rwa [agree.srv]
  | remove i =>
      simp only [Enabled] at enabled ⊢
      rwa [agree.srv]

theorem Run.agree {s₁ : Sys} {as : List Action} (inv : Inv s) (inv' : Inv s')
    (agree : Agree F s s') (run : Run env s as s₁)
    (harmless : EachStep env (HarmlessStep F env) s as) :
    ∃ s₂, Run env' s' as s₂ ∧ Agree F s₁ s₂ := by
  induction run generalizing s' with
  | nil s => exact ⟨s', .nil s', agree⟩
  | @cons s s₁ a as enabled _ ih =>
      have enabled' := agree.enabled inv inv' enabled
      obtain ⟨s₂, rest, agree₂⟩ := ih (inv.act env enabled) (inv'.act env' enabled')
        (act_agree others succeed agree harmless.1) harmless.2
      exact ⟨s₂, .cons enabled' rest, agree₂⟩

end Runs

/-! ## No signal -/

/-- No `write` finds its peer gone. -/
def Env.PeersPresent (env : Env) : Prop := ∀ fd n, .epipe ∉ env fd n

/-- The event is no `SIGPIPE`. -/
def Event.NoSignal (e : Event) : Prop := ∀ fd data, e ≠ .write fd data .epipe

theorem Survives.of_appends {l l' : Log} (h : Survives l) (appends : Appends Event.NoSignal l l') :
    Survives l' := by
  obtain ⟨added, rfl, quiet⟩ := appends
  intro fd data mem
  rcases List.mem_append.mp mem with old | new
  · exact h fd data old
  · exact quiet _ new fd data rfl

theorem writeFull_ne_epipe {rets : List WriteRet} (present : .epipe ∉ rets) (buf : Bytes) :
    (writeFull rets buf).1 ≠ .epipe := by
  induction rets generalizing buf with
  | nil => cases buf <;> nofun
  | cons r rets ih =>
      have rest := ih fun mem => present (List.mem_cons_of_mem r mem)
      cases buf with
      | nil => nofun
      | cons x buf =>
          cases r with
          | short k => exact rest _
          | eintr => exact rest _
          | error => nofun
          | epipe => exact absurd List.mem_cons_self present

section Present

variable {env : Env} (present : env.PeersPresent)
include present

theorem writeFd_noSignal (fd : Fd) (buf : Bytes) (log : Log) :
    Appends Event.NoSignal log (writeFd env fd buf log).2 := by
  refine Appends.single fun fd' data eq => ?_
  exact writeFull_ne_epipe (present _ _) buf (Event.write.inj eq).2.2

theorem sendFrame_noSignal (fd : Fd) (type : MsgType) (body : Bytes) (log : Log) :
    Appends Event.NoSignal log (sendFrame env fd type body log).2 := by
  have sent (ok : Bool) (log : Log) :
      Appends Event.NoSignal log (log ++ [.sent fd type body ok]) :=
    Appends.single fun _ _ => nofun
  have header := writeFd_noSignal present fd
    (chatHeaderToWire (frameHeader type.code body.length)) log
  have rest := writeFd_noSignal present fd body
  unfold sendFrame
  dsimp only
  split
  · exact header.trans (sent _ _)
  · split
    · split
      · exact (header.trans (rest _)).trans (sent _ _)
      · exact (header.trans (rest _)).trans (sent _ _)
    · exact header.trans (sent _ _)

theorem Sends.noSignal {P : Fd → Message → Prop} {l l' : Log} (h : Sends env P l l') :
    Appends Event.NoSignal l l' := by
  induction h with
  | refl => exact .refl _
  | send _ _ ih => exact ih.trans (sendFrame_noSignal present _ _ _ _)

theorem act_noSignal (s : Sys) (a : Action) : Appends Event.NoSignal s.log (act env s a).log := by
  have note (e : Event) (other : e.NoSignal) (log : Log) :
      Appends Event.NoSignal log (log ++ [e]) := Appends.single other
  have close (s : Sys) (i : Slot) : Appends Event.NoSignal s.log (closeSlot i s).log := by
    rw [log_closeSlot]
    split
    · exact note (.close _) (fun _ _ eq => by cases eq) _
    · exact .refl _
  cases a with
  | accept fd =>
      have accepted := note (.accept fd) (fun _ _ eq => by cases eq) s.log
      rcases acceptClient_cases env fd s with ⟨i, added, eq⟩ | ⟨-, eq⟩
      · obtain ⟨-, -, -, log, -⟩ := addClient_some added
        rw [act, eq, log]
        exact accepted
      · rw [act, eq]
        exact accepted.trans (((writeFd_noSignal present _ _ _).trans
          (writeFd_noSignal present _ _ _)).trans (note (.close fd) (fun _ _ eq => by cases eq) _))
  | recv i data => exact note (.recv _ _) (fun _ _ eq => by cases eq) _
  | invalid i => exact close s i
  | remove i =>
      rw [act, removeClientIndex]
      split
      · exact ((sendAll_sends _ _ _ _ _ _).noSignal present).trans (close _ i)
      · exact close s i
  | frame c =>
      unfold act
      dsimp only
      split
      · rename_i f need _
        obtain ⟨s', handled, eq⟩ := processFrame_case env c f need s
        rw [eq, Sys.log_setClient]
        exact (note (.frame c f) (fun _ _ eq => by cases eq) _).trans
          (handled.appends_of (fun sends => sends.noSignal present) fun _ _ _ eq => by cases eq)
      · exact .refl _

theorem Run.survives {s s' : Sys} {as : List Action} (run : Run env s as s')
    (start : Survives s.log) : Survives s'.log :=
  run.preserves (P := fun s => Survives s.log) start
    fun {s a} alive _ => alive.of_appends (act_noSignal present s a)

end Present

/-- **A failed write only skips its client.** Let the writes to the connections
in `F` fail in any way but with `SIGPIPE`. The process survives, and all other
connections carry exactly what they carry when the writes to `F` succeed, as
long as the failed sends are harmless. -/
theorem faults_skip_only (env env' : Env) (F : Set Fd) (s s₁ : Sys) (as : List Action)
    (reach : Reachable env s) (run : Run env s as s₁) (present : env.PeersPresent)
    (others : ∀ fd, fd ∉ F → env' fd = env fd) (succeed : ∀ fd ∈ F, env'.Delivers fd)
    (harmless : EachStep env (HarmlessStep F env) s as) :
    Survives s₁.log ∧ ∃ s₂, Run env' s as s₂ ∧ s₂.srv = s₁.srv ∧
      ∀ fd, fd ∉ F → messagesTo fd s₂.log = messagesTo fd s₁.log ∧
        bytesTo fd s₂.log = bytesTo fd s₁.log := by
  have inv := reach.inv
  obtain ⟨s₂, run', agree⟩ := run.agree others succeed inv inv ⟨rfl, .refl _⟩ harmless
  obtain ⟨before, first⟩ := reach
  refine ⟨run.survives present (first.survives present nofun), s₂, run', agree.srv,
    fun fd off => ⟨agree.log.messagesTo_eq off, agree.log.bytesTo_eq off⟩⟩

/-- Ann, Bob and Cid have joined, and Ann has said something. -/
def threeJoined : List Action := arrival 0 4 "ann" ++ arrival 1 5 "bob" ++ arrival 2 6 "cid"

def annSays : List Action :=
  [.recv 0 (Message.frame ⟨.broadcast, ascii "hi"⟩).encode, .frame 0]

/-- From the fifth write on, Bob's connection answers with `ret`. -/
def bobFails (ret : WriteRet) : Env := fun fd n => if fd = 5 ∧ 4 ≤ n then [ret] else []

/-- A reset connection is skipped: Cid gets what Ann said. -/
theorem faults_skip_only_reset :
    let env := bobFails .error
    let s := threeJoined.foldl (act env) .init
    let s₁ := annSays.foldl (act env) s
    Survives s₁.log ∧ ∃ s₂, Run .smooth s annSays s₂ ∧ s₂.srv = s₁.srv ∧
      ∀ fd, fd ∉ ({5} : Set Fd) → messagesTo fd s₂.log = messagesTo fd s₁.log ∧
        bytesTo fd s₂.log = bytesTo fd s₁.log := by
  intro env s s₁
  have reach : Reachable env s := ⟨_, .of_enabled (by decide +kernel)⟩
  have run : Run env s annSays s₁ := .of_enabled (by decide +kernel)
  have present : env.PeersPresent := by
    intro fd n mem
    by_cases gone : fd = 5 ∧ 4 ≤ n
    · rw [show env fd n = [.error] from if_pos gone] at mem
      cases List.mem_singleton.mp mem
    · rw [show env fd n = [] from if_neg gone] at mem
      cases mem
  have others : ∀ fd, fd ∉ ({5} : Set Fd) → Env.smooth fd = env fd := by
    intro fd off
    funext n
    exact (if_neg fun gone => off gone.1).symm
  have said : scanFrame ((act env s (annSays.head (by decide))).srv.clients 0).inbuf.bytes =
      .frame (Message.frame ⟨.broadcast, ascii "hi"⟩) 18 := by decide +kernel
  have harmless : EachStep env (HarmlessStep {5} env) s annSays := by
    refine ⟨trivial, fun f need scan => ?_, trivial⟩
    cases scan.symm.trans said
    exact ⟨fun _ accepted => absurd accepted.type (by decide),
      fun _ _ _ accepted => absurd accepted.type (by decide)⟩
  exact faults_skip_only env .smooth {5} s s₁ annSays reach run present others
    (fun fd _ => Env.smooth_delivers fd) harmless

/-- Bob is gone when Ann speaks: the server gets `SIGPIPE` before it has sent the
line to Cid. -/
theorem broadcast_to_gone_peer :
    let env := bobFails .epipe
    let s := (threeJoined ++ annSays).foldl (act env) .init
    Reachable env s ∧ ¬ Survives s.log ∧
      ∀ m ∈ messagesTo 6 (s.log.takeWhile (· ≠ .write 5 [] .epipe)), m.type ≠ .broadcast := by
  intro env s
  refine ⟨⟨_, .of_enabled (by decide +kernel)⟩, fun survives => ?_, by decide +kernel⟩
  exact survives 5 [] (by decide +kernel)

end Osisp.Chat
