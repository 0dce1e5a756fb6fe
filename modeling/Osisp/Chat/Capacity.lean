import Osisp.Chat.Hangup

/-!
# Room for every `recv`

A receive buffer holds one maximal frame and no more, so `recv` could be asked for no
bytes at all, and its 0 would be taken for the end of the stream. This does not happen:
each parse loop takes every complete frame out of the buffer before the next `recv`, and
an incomplete frame is shorter than the buffer (`recv_has_room`).
-/

namespace Osisp.Chat

open Lib

/-- A buffer that `recv` can be called with: there is room, and so nothing is received only
if there is nothing to receive. -/
structure Receptive (b : Buf recvCap) : Prop where
  room : 0 < b.room
  ended : ∀ data : Bytes, data.take b.room = [] → data = []

theorem Receptive.of_more {b : Buf recvCap} (waiting : scanFrame b.bytes = .more) :
    Receptive b := by
  have room : 0 < b.room := Nat.sub_pos_of_lt (length_lt_recvCap_of_more waiting)
  constructor
  · exact room
  · intro data nothing
    exact (List.take_eq_nil_iff.mp nothing).resolve_left (Nat.ne_of_gt room)

/-! ## The server -/

/-- A pass through the body of the dispatch loop, with the state it begins in. -/
structure Visit where
  input : LoopInput
  slot : Slot
  revents : Revents
  before : Sys

namespace Visit

/-- `recv` is called. -/
def receives (v : Visit) : Bool := !v.revents.failed && v.revents.pollin

/-- The buffer that it is called with. -/
def inbuf (v : Visit) : Buf recvCap := (v.before.srv.clients v.slot).inbuf

/-- The state behind `process_message`, if it is called. -/
def processed (env : Env) (v : Visit) : Sys :=
  processMessage env v.slot (recvInto v.slot (v.input.readable v.slot) v.before)

/-- The client is removed for a full buffer. -/
structure RemovedFull (env : Env) (v : Visit) : Prop where
  receives : v.receives = true
  received : (v.input.readable v.slot).take v.inbuf.room ≠ []
  used : ((v.processed env).srv.clients v.slot).used = true
  full : recvCap ≤ ((v.processed env).srv.clients v.slot).inbuf.bytes.length

end Visit

/-- The passes of one dispatch loop. -/
def dispatchVisits (env : Env) (inp : LoopInput) (fds : List Pollfd) :
    List Slot → Nat → Sys → List Visit
  | [], _, _ => []
  | i :: is, fi, s =>
      if !(s.srv.clients i).used then dispatchVisits env inp fds is fi s
      else
        match fds[fi]? with
        | none => []
        | some p =>
            ⟨inp, i, p.revents, s⟩ ::
              dispatchVisits env inp fds is (fi + 1) (handleSlot env inp i p.revents s)

/-- Those of a whole run of the event loop. -/
def runVisits (env : Env) (listenFd : Fd) : List PollResult → Sys → List Visit
  | [], _ => []
  | .eintr :: rs, s => runVisits env listenFd rs s
  | .error :: _, _ => []
  | .ready inp :: rs, s =>
      dispatchVisits env inp (poll inp.revents (fdsOf listenFd s.srv.clients)) slots 1
          (acceptPhase env inp s) ++
        runVisits env listenFd rs (iteration env listenFd inp s).1

section Server

variable {env : Env}

/-- They are the slots that the loop handles. -/
theorem dispatchVisits_handled (env : Env) (inp : LoopInput) (fds : List Pollfd)
    (is : List Slot) (fi : Nat) (s : Sys) :
    (dispatchVisits env inp fds is fi s).map (fun v => (v.slot, v.revents)) =
      (dispatchLoop env inp fds is fi s).2 := by
  induction is generalizing fi s with
  | nil => rfl
  | cons i is ih =>
      unfold dispatchVisits dispatchLoop
      split
      · exact ih fi s
      · cases fds[fi]? with
        | none => rfl
        | some p => exact congrArg (List.cons _) (ih _ _)

/-- A pass begins with a used slot and buffers that wait for more. -/
structure Visit.Sound (v : Visit) : Prop where
  used : (v.before.srv.clients v.slot).used = true
  waiting : Waiting v.before

theorem dispatchVisits_sound (inp : LoopInput) (fds : List Pollfd) (is : List Slot) (fi : Nat)
    {s : Sys} (waiting : Waiting s) : ∀ v ∈ dispatchVisits env inp fds is fi s, v.Sound := by
  induction is generalizing fi s with
  | nil =>
      intro v mem
      cases mem
  | cons i is ih =>
      intro v mem
      unfold dispatchVisits at mem
      split at mem
      · exact ih fi waiting v mem
      · rename_i used
        have used : (s.srv.clients i).used = true := by simpa using used
        split at mem
        · cases mem
        · rcases List.mem_cons.mp mem with rfl | later
          · exact ⟨used, waiting⟩
          · exact ih (fi + 1) (waiting.handleSlot env inp _ used) v later

/-- So does every pass of a run. -/
theorem runVisits_sound (listenFd : Fd) (rs : List PollResult) {s : Sys} (waiting : Waiting s) :
    ∀ v ∈ runVisits env listenFd rs s, v.Sound := by
  induction rs generalizing s with
  | nil =>
      intro v mem
      cases mem
  | cons r rs ih =>
      intro v mem
      cases r with
      | eintr => exact ih waiting v mem
      | error => cases mem
      | ready inp =>
          have accepted := waiting.acceptPhase env inp
          rcases List.mem_append.mp mem with this | later
          · exact dispatchVisits_sound inp _ _ _ accepted v this
          · exact ih (accepted.dispatchLoop env inp _ _ _) v later

theorem Visit.Sound.receptive {v : Visit} (sound : v.Sound) : Receptive v.inbuf :=
  .of_more (sound.waiting v.slot sound.used)

/-- What `process_message` leaves in the buffer is less than a frame. -/
theorem Visit.Sound.not_removedFull {v : Visit} (sound : v.Sound) : ¬ v.RemovedFull env := by
  intro removed
  rcases round_readFirst env sound.used (v.input.readable v.slot) with ⟨-, short⟩ | ⟨gone, -⟩
  · exact absurd removed.full (not_le.mpr short)
  · have still := removed.used
    rw [Visit.processed, gone] at still
    cases still

end Server

/-! ## The client -/

/-- `pull_server_after_send` with the states in which it calls `recv`. -/
def pullTrace (answers : Nat → PullAnswer) :
    Nat → Nat → Nat → ClientSys → ClientSys × List ClientSys
  | 0, _, _, c => (c, [])
  | fuel + 1, sp, stall, c =>
      match answers sp with
      | .quiet =>
          if !incompleteFrame c.rx.bytes then (c, [])
          else if stall + 1 > 40 then (c, [])
          else pullTrace answers fuel (sp + 1) (stall + 1) c
      | .ready (.data chunk) =>
          if chunk.take c.rx.room = [] then (c, [c])
          else
            let (c', calls) :=
              pullTrace answers fuel (sp + 1) 0 (processServer { c with rx := c.rx.recv chunk })
            (c', c :: calls)
      | .ready _ => (c, [c])

theorem pullTrace_eq (answers : Nat → PullAnswer) (fuel sp stall : Nat) (c : ClientSys) :
    (pullTrace answers fuel sp stall c).1 = pullLoop answers fuel sp stall c := by
  induction fuel generalizing sp stall c with
  | zero => rfl
  | succ fuel ih =>
      unfold pullTrace pullLoop
      cases answers sp with
      | quiet =>
          dsimp only
          split
          · rfl
          · split
            · rfl
            · exact ih _ _ _
      | ready ret =>
          cases ret with
          | data chunk =>
              dsimp only
              split
              · rfl
              · exact ih _ _ _
          | closed => rfl
          | error => rfl

/-- The states in which the client calls `recv`. -/
inductive Receiving : ClientSys → Prop
  /-- In `handshake_blocking`. -/
  | handshake {c : ClientSys} {gotJoin : Bool} :
    ClientReachable c → c.phase = .handshake gotJoin → Receiving c
  /-- In the main loop, where `poll` reports data and no error. -/
  | main {c : ClientSys} (rev : Revents) :
    ClientReachable c → c.phase = .connected → rev.failed = false → rev.pollin = true →
    Receiving c
  /-- In `pull_server_after_send`. -/
  | pull {c c' : ClientSys} (answers : Nat → PullAnswer) :
    ClientReachable c → c.phase = .connected → c' ∈ (pullTrace answers 128 0 0 c).2 →
    Receiving c'

section Client

variable {c : ClientSys}

theorem scanFrame_processServer (c : ClientSys) : scanFrame (processServer c).rx.bytes = .more := by
  rw [processServer, (serverLoop_hears c (Nat.lt_succ_self _)).2.1]
  exact scanFrame_leftOver c.rx.bytes

/-- Where the inner loop of `handshake_blocking` ends and the outer one goes on, the buffer
waits for more. -/
theorem handshakeLoop_waits {fuel : Nat} {gotJoin gotJoin' : Bool}
    (enough : c.rx.bytes.length < fuel)
    (again : (handshakeLoop fuel gotJoin c).phase = .handshake gotJoin') :
    scanFrame (handshakeLoop fuel gotJoin c).rx.bytes = .more := by
  induction fuel generalizing gotJoin c with
  | zero => exact absurd enough (Nat.not_lt_zero _)
  | succ fuel ih =>
      unfold handshakeLoop at again ⊢
      cases scan : scanFrame c.rx.bytes with
      | bad =>
          rw [scan] at again
          cases again
      | more =>
          rw [scan] at again
          dsimp only at again ⊢
          split
          · rename_i done
            rw [if_pos done] at again
            cases again
          · exact scan
      | frame f need =>
          rw [scan] at again
          dsimp only at again ⊢
          have shorter : (c.rx.bytes.drop need).length < fuel := by
            have := chatCodec.length_drop_lt (b := c.rx.bytes) scan
            omega
          split at again
          · cases again
          · exact ih shorter again
          · split at again
            · cases again
            · rename_i got
              rw [if_neg got]
              exact ih shorter again
          · cases again

/-- The main loop does not go back to the handshake. -/
theorem mainReceive_phase (rev : Revents) (readable : Option Bytes)
    (connected : c.phase = .connected) (gotJoin : Bool) :
    (mainReceive rev readable c).1.phase ≠ .handshake gotJoin := by
  intro again
  unfold mainReceive at again
  split at again
  · cases again
  · split at again
    · cases readable with
      | none =>
          simp only [ClientSys.receive, connected] at again
          cases again
      | some data =>
          dsimp only at again
          split at again
          · simp only [ClientSys.receive, connected] at again
            cases again
          · rw [(receive_take connected data).1] at again
            cases again
    · rw [connected] at again
      cases again

/-- In the handshake the buffer waits for more as well. -/
theorem ClientReachable.waiting_handshake (h : ClientReachable c) {gotJoin : Bool}
    (here : c.phase = .handshake gotJoin) : scanFrame c.rx.bytes = .more := by
  cases h with
  | init => rfl
  | @handshake c gotJoin' ret _ phase =>
      cases ret with
      | data chunk =>
          have step : c.receive (.data chunk) = handshakeLoop
              ((c.rx.recv chunk).bytes.length + 1) gotJoin' { c with rx := c.rx.recv chunk } := by
            simp only [ClientSys.receive, phase]
          rw [step] at here ⊢
          exact handshakeLoop_waits (Nat.lt_succ_self _) here
      | closed =>
          simp only [ClientSys.receive, phase] at here
          cases here
      | error =>
          simp only [ClientSys.receive, phase] at here
          cases here
  | main rev readable _ connected =>
      exact absurd here (mainReceive_phase rev readable connected gotJoin)
  | @pull c answers reach connected =>
      obtain ⟨chunks, valid, eq⟩ := pullServerAfterSend_receives answers c connected
      rw [eq, (receiveAll_hears connected (reach.waiting connected) valid).1] at here
      cases here

/-- Each `recv` of `pull_server_after_send` is behind a `process_server`. -/
theorem pullTrace_waits (answers : Nat → PullAnswer) (fuel sp stall : Nat)
    (waiting : scanFrame c.rx.bytes = .more) :
    ∀ c' ∈ (pullTrace answers fuel sp stall c).2, scanFrame c'.rx.bytes = .more := by
  induction fuel generalizing sp stall c with
  | zero =>
      intro c' mem
      cases mem
  | succ fuel ih =>
      intro c' mem
      unfold pullTrace at mem
      split at mem
      · split at mem
        · cases mem
        · split at mem
          · cases mem
          · exact ih _ _ waiting c' mem
      · split at mem
        · rw [List.mem_singleton.mp mem]
          exact waiting
        · rcases List.mem_cons.mp mem with rfl | later
          · exact waiting
          · exact ih _ _ (scanFrame_processServer _) c' later
      · rw [List.mem_singleton.mp mem]
        exact waiting

theorem Receiving.waiting (h : Receiving c) : scanFrame c.rx.bytes = .more := by
  cases h with
  | handshake reach phase => exact reach.waiting_handshake phase
  | main rev reach connected _ _ => exact reach.waiting connected
  | pull answers reach connected mem =>
      exact pullTrace_waits answers 128 0 0 (reach.waiting connected) c mem

/-- A buffer that waits for more is incomplete unless it is empty. -/
theorem incompleteFrame_iff {b : Bytes} (waiting : scanFrame b = .more) :
    incompleteFrame b = true ↔ b ≠ [] := by
  unfold incompleteFrame
  by_cases empty : b.length = 0
  · rw [if_pos empty, List.length_eq_zero_iff.mp empty]
    simp
  · rw [if_neg empty]
    have nonempty : b ≠ [] := fun eq => empty (congrArg List.length eq)
    apply iff_of_true _ nonempty
    by_cases short : b.length < chatHeaderSize
    · exact if_pos short
    · rw [if_neg short]
      rw [scanFrame, if_neg short] at waiting
      dsimp only at waiting ⊢
      split at waiting
      · cases waiting
      · rename_i valid
        rw [if_neg valid]
        split at waiting
        · rename_i partially
          exact decide_eq_true partially
        · cases waiting

end Client

/-- **Room for every `recv`.** In every run of the server, whatever is received and however
it is cut, `recv` is called with room in the buffer, and no client is removed for a full
one. In every run of the client there is room at each of its three calls of `recv`, and
behind `process_server` there is an incomplete frame exactly if there is anything. -/
theorem recv_has_room (env : Env) (listenFd : Fd) :
    (∀ rs, ∀ v ∈ runVisits env listenFd rs .init,
      (v.receives = true → Receptive v.inbuf) ∧ ¬ v.RemovedFull env) ∧
    (∀ c, Receiving c → Receptive c.rx) ∧
    ∀ c, incompleteFrame (processServer c).rx.bytes = true ↔ (processServer c).rx.bytes ≠ [] := by
  refine ⟨?_, ?_, ?_⟩
  · intro rs v mem
    have sound := runVisits_sound listenFd rs (fun _ used => by cases used) v mem
    exact ⟨fun _ => sound.receptive, sound.not_removedFull⟩
  · intro c receiving
    exact .of_more receiving.waiting
  · intro c
    exact incompleteFrame_iff (scanFrame_processServer c)

/-- The `JOIN` of a connection that was accepted before, and a client behind its handshake. -/
theorem recv_has_room_join :
    (∃ v ∈ runVisits .smooth 3 [.ready connectInput, .ready (joinInput false)] .init,
      v.receives = true ∧ Receptive v.inbuf) ∧
    Receptive greetedClient.rx := by
  have room := recv_has_room .smooth 3
  have visits : (runVisits .smooth 3 [.ready connectInput, .ready (joinInput false)] .init).any
      Visit.receives = true := by
    decide +kernel
  obtain ⟨v, mem, receives⟩ := List.any_eq_true.mp visits
  constructor
  · exact ⟨v, mem, receives, (room.1 _ v mem).1 receives⟩
  · exact room.2.1 greetedClient (.main ⟨true, false, false, false⟩ greetedClient_reachable.1
      greetedClient_reachable.2 rfl rfl)

/-- A maximal frame leaves no room until it is taken out. -/
example : ((Buf.empty : Buf recvCap).recv
    (Frame.encode ⟨MsgType.broadcast.code, List.replicate chatMaxBody 65⟩)).room = 0 := by
  decide +kernel

end Osisp.Chat
