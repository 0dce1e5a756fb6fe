import Osisp.Chat.Invariant

/-!
# Who can be reached by a frame

A frame of a peer that has not joined reaches nobody but that peer, and a
private message reaches nobody but its sender and its addressee, neither at once
nor later through the history.
-/

namespace Osisp.Chat

open Lib

/-- The frame leaves no trace outside slot `c`: nothing is written to another
descriptor, and the history, the id counter and the other slots stay. -/
structure Confined (c : Slot) (s s' : Sys) : Prop where
  written : ∀ fd, fd ≠ (s.srv.clients c).fd → onFd fd s'.log = onFd fd s.log
  history : s'.srv.history = s.srv.history
  nextId : s'.srv.nextId = s.srv.nextId
  others : ∀ i, i ≠ c → s'.srv.clients i = s.srv.clients i

/-- Slot `i` holds the joined client that a private message with this body is
for: the target is what stands before the first NUL. -/
def IsTarget (t : Table) (body : Bytes) (i : Slot) : Prop :=
  (t i).joined = true ∧ (t i).nick.bytes = cstr body

/-- The effect of a private message from slot `c`: only the sender and the target
are written to, and neither the history nor the roster changes. -/
structure DeliveredPrivately (c : Slot) (body : Bytes) (s s' : Sys) : Prop where
  written : ∀ fd, fd ≠ (s.srv.clients c).fd →
    onFd fd s'.log = onFd fd s.log ∨ ∃ i, (s.srv.clients i).fd = fd ∧
      IsTarget s.srv.clients body i ∧ ∀ j, IsTarget s.srv.clients body j → j = i
  history : s'.srv.history = s.srv.history
  lines : linesOf s'.log = linesOf s.log
  roster : ∀ i, (s'.srv.clients i).joined = (s.srv.clients i).joined ∧
    (s'.srv.clients i).nick = (s.srv.clients i).nick

/-- The trace of a handler's own bookkeeping says nothing on a descriptor. -/
theorem onFd_snoc_frame (fd : Fd) (log : Log) (c : Slot) (f : Frame) :
    onFd fd (log ++ [.frame c f]) = onFd fd log := by
  rw [onFd_append]
  exact List.append_nil _

theorem linesOf_snoc_frame (log : Log) (c : Slot) (f : Frame) :
    linesOf (log ++ [.frame c f]) = linesOf log := by
  rw [linesOf_append]
  exact List.append_nil _

section Frame

variable {env : Env} {c : Slot} {f : Frame} {need : Nat} {s : Sys}

/-- A frame of a peer that has not joined, other than an accepted `JOIN`. -/
theorem confined_of_not_joined (notJoined : (s.srv.clients c).joined = false)
    (notAccepted : ∀ nick, ¬ JoinAccepted s.srv.clients c f nick) :
    Confined c s (processFrame env c f need s) := by
  have log : ∀ fd, fd ≠ (s.srv.clients c).fd →
      onFd fd (processFrame env c f need s).log = onFd fd s.log ∧
        (processFrame env c f need s).srv.history = s.srv.history ∧
        (processFrame env c f need s).srv.nextId = s.srv.nextId := by
    intro fd ne
    obtain ⟨s', handled, eq⟩ := processFrame_case env c f need s
    rw [eq]
    cases handled with
    | quiet sends =>
        refine ⟨?_, rfl, rfl⟩
        rw [Sys.log_setClient, Sys.log_withLog, sends.onFd_eq fun m allowed => ne allowed.1]
        exact onFd_snoc_frame fd s.log c f
    | join accepted => exact absurd accepted (notAccepted _)
    | broadcast _ joined =>
        rw [Sys.srv_note, notJoined] at joined
        cases joined
    | privateMsg accepted =>
        have joined := accepted.joined
        rw [Sys.srv_note, notJoined] at joined
        cases joined
  have some_fd : (s.srv.clients c).fd + 1 ≠ (s.srv.clients c).fd := by
    intro eq
    exact absurd eq (Int.ne_of_gt (Int.lt_succ _))
  exact ⟨fun fd ne => (log fd ne).1, (log _ some_fd).2.1, (log _ some_fd).2.2,
    fun i ne => processFrame_of_ne env c f need s ne⟩

/-- A private message of a joined client. -/
theorem delivered_privately (inv : Inv s)
    (type : f.type = MsgType.privateMsg.code) :
    DeliveredPrivately c f.body s (processFrame env c f need s) := by
  obtain ⟨s', handled, eq⟩ := processFrame_case env c f need s
  have roster : ∀ i, (s'.srv.clients i).joined = (s.srv.clients i).joined ∧
      (s'.srv.clients i).nick = (s.srv.clients i).nick := by
    rcases handled.identity with same | ⟨nick, accepted, -⟩
    · exact same
    · have clash := accepted.type
      rw [type] at clash
      cases clash
  have roster' : ∀ i, ((processFrame env c f need s).srv.clients i).joined =
      (s.srv.clients i).joined ∧ ((processFrame env c f need s).srv.clients i).nick =
      (s.srv.clients i).nick := by
    intro i
    rw [eq]
    by_cases ic : i = c
    · rw [ic, Sys.clients_setClient_self]
      exact roster c
    · rw [Sys.clients_setClient_of_ne _ _ ic]
      exact roster i
  cases handled with
  | quiet sends =>
      refine ⟨fun fd ne => Or.inl ?_, by rw [eq]; rfl, ?_, roster'⟩
      · rw [eq, Sys.log_setClient, Sys.log_withLog, sends.onFd_eq fun m allowed => ne allowed.1]
        exact onFd_snoc_frame fd s.log c f
      · rw [eq, Sys.log_setClient, Sys.log_withLog, linesOf_of_sending sends.appends_sending]
        exact linesOf_snoc_frame s.log c f
  | join accepted =>
      have clash := accepted.type
      rw [type] at clash
      cases clash
  | broadcast clash _ =>
      rw [type] at clash
      cases clash
  | @privateMsg dest target msg accepted =>
      obtain ⟨target_eq, -, -, -, -, active, named⟩ := checkPrivate_ok accepted.check
      have isTarget : IsTarget s.srv.clients f.body dest :=
        ⟨inv.active_iff.mp active, named.trans target_eq⟩
      have sends := sendPrivate_sends env s.srv.clients c dest
        ((privateLine (s.srv.clients c).nick.bytes target msg).take chatMaxBody)
        (s.note (.frame c f)).log
      refine ⟨fun fd ne => ?_, by rw [eq]; rfl, ?_, roster'⟩
      · by_cases toDest : fd = (s.srv.clients dest).fd
        · exact Or.inr ⟨dest, toDest.symm, isTarget, fun j target =>
            inv.nicks j dest target.1 isTarget.1 (target.2.trans isTarget.2.symm)⟩
        · refine Or.inl ?_
          rw [eq, Sys.log_setClient, Sys.log_withLog]
          exact (sends.onFd_eq fun m allowed => allowed.2.elim toDest ne).trans
            (onFd_snoc_frame fd s.log c f)
      · rw [eq, Sys.log_setClient, Sys.log_withLog]
        exact (linesOf_of_sending sends.appends_sending).trans (linesOf_snoc_frame s.log c f)

end Frame

/-- **Isolation.** In every reachable state, a frame of a client that has not
joined is confined to that client unless it is an accepted `JOIN`, and a private
message is delivered to nobody but its sender and its one addressee. -/
theorem frame_isolation (env : Env) (s : Sys) (reach : Reachable env s) (c : Slot) (f : Frame)
    (need : Nat) (scan : scanFrame (s.srv.clients c).inbuf.bytes = .frame f need) :
    ((s.srv.clients c).joined = false → (∀ nick, ¬ JoinAccepted s.srv.clients c f nick) →
      Confined c s (act env s (.frame c))) ∧
    ((s.srv.clients c).joined = true → f.type = MsgType.privateMsg.code →
      DeliveredPrivately c f.body s (act env s (.frame c))) := by
  have inv := reach.inv
  rw [act_frame scan]
  exact ⟨fun notJoined notAccepted => confined_of_not_joined notJoined notAccepted,
    fun _ type => delivered_privately inv type⟩

/-- Three clients have joined, of which Ann writes to Bob, and a fourth peer asks for the
list without joining. -/
theorem frame_isolation_list :
    let s := (arrival 0 4 "ann" ++ arrival 1 5 "bob" ++ arrival 2 6 "eve" ++
      [Action.accept 7, .recv 0 (Message.frame ⟨.privateMsg, ascii "bob\x00hi"⟩).encode,
        .recv 3 (Message.frame ⟨.list, []⟩).encode]).foldl (act .smooth) .init
    DeliveredPrivately 0 (ascii "bob\x00hi") s (act .smooth s (.frame 0)) ∧
      Confined 3 s (act .smooth s (.frame 3)) := by
  intro s
  have reach : Reachable .smooth s := ⟨_, .of_enabled (by decide +kernel)⟩
  have whisper : scanFrame (s.srv.clients 0).inbuf.bytes =
      .frame (Message.frame ⟨.privateMsg, ascii "bob\x00hi"⟩) 22 := by decide +kernel
  have list : scanFrame (s.srv.clients 3).inbuf.bytes = .frame ⟨MsgType.list.code, []⟩ 16 := by
    decide +kernel
  exact ⟨(frame_isolation .smooth s reach 0 _ 22 whisper).2 (by decide +kernel) rfl,
    (frame_isolation .smooth s reach 3 _ 16 list).1 (by decide +kernel)
      fun nick accepted => absurd accepted.type (by decide)⟩

end Osisp.Chat
