import Osisp.Chat.Capacity
import Osisp.Chat.UserLine

/-!
# The client as a whole (`main` of `client.c`)

`ClientSys` is the receiving half of the client and `UserSys` the sending half. `main`
runs both: the handshake, then a loop that polls the socket and standard input, reads
from each at most once in an iteration, and reads answers behind every line that was
sent. What it does between two system calls is one of the actions of `ClientAction`;
`clientMain_runs` shows that `main`, whatever the kernel answers, is a run of them.
-/

namespace Osisp.Chat

open Lib

/-- Both halves of the client. -/
structure ClientProc where
  rcv : ClientSys
  user : UserSys

namespace ClientProc

variable (sock : Fd)

/-- `close (sock)` and the end of `main`. -/
def leave (p : ClientProc) : ClientProc where
  rcv := { p.rcv with phase := .stopped }
  user := { p.user with log := p.user.log ++ [.close sock], done := true }

/-- The receiving half goes on as `c`; where it gives up, `main` ends. -/
def setRcv (c : ClientSys) (p : ClientProc) : ClientProc :=
  if c.phase = .stopped then leave sock ⟨c, p.user⟩ else ⟨c, p.user⟩

/-- `main` up to the first `recv`. -/
def start (env : Env) (nick : CStr chatMaxNick) : ClientProc :=
  let u := userJoin env sock nick
  if u.done then ⟨{ ClientSys.init with phase := .stopped }, u⟩ else ⟨.init, u⟩

/-- What `recv` returns: all that can be read and has room; `none` stands for an error. -/
def recvRet (readable : Option Bytes) (room : Nat) : RecvRet :=
  match readable with
  | none => .error
  | some data => if data.take room = [] then .closed else .data (data.take room)

/-- `handshake_blocking` under the given answers of `recv`. -/
def handshake : List (Option Bytes) → ClientProc → ClientProc
  | [], p => p
  | r :: rs, p =>
      match p.rcv.phase with
      | .handshake _ =>
          handshake rs (p.setRcv sock (p.rcv.receive (recvRet r p.rcv.rx.room)))
      | _ => p

end ClientProc

/-- What `read` returns for standard input; no bytes are its end. -/
inductive ReadRet
  | eintr
  | error
  | data (chunk : Bytes)

/-- The answers of the kernel during one iteration of the client's loop. -/
structure ClientInput where
  /-- What `poll` stores for the socket and for standard input. -/
  sock : Revents
  stdin : Revents
  /-- What `recv` finds, if it is called. -/
  recv : Option Bytes
  read : ReadRet
  /-- What `pull_server_after_send` finds behind the `k`-th byte of `tmp`. -/
  pull : Nat → Nat → PullAnswer

/-- What `poll` returns to the client. -/
inductive ClientPoll
  | eintr
  | error
  | ready (inp : ClientInput)

section Main

variable (env : Env) (sock : Fd)

/-- One byte of `tmp`. -/
def readChar (pull : Nat → PullAnswer) (x : UInt8) (p : ClientProc) : ClientProc :=
  if x = 10 then
    let (result, out, log) := handleUserLine env sock p.user.line.bytes p.user.log
    match result with
    | .quit => ClientProc.leave sock ⟨p.rcv, ⟨p.user.line, p.user.out ++ out, log, false⟩⟩
    | .sent => ⟨pullServerAfterSend pull p.rcv, ⟨.empty, p.user.out ++ out, log, false⟩⟩
    | .nothing => ⟨p.rcv, ⟨.empty, p.user.out ++ out, log, false⟩⟩
  else ⟨p.rcv, { p.user with line := pushChar p.user.line x }⟩

/-- The loop over `tmp` from byte `k` on. -/
def readChars (pull : Nat → Nat → PullAnswer) : Bytes → Nat → ClientProc → ClientProc
  | [], _, p => p
  | x :: xs, k, p =>
      let p := readChar env sock (pull k) x p
      if p.user.done then p else readChars pull xs (k + 1) p

def stdinPhase (inp : ClientInput) (p : ClientProc) : ClientProc :=
  if inp.stdin.listener then
    match inp.read with
    | .eintr => p
    | .error => p.leave sock
    | .data chunk =>
        if chunk.take 256 = [] then p.leave sock
        else readChars env sock inp.pull (chunk.take 256) 0 p
  else p

/-- One iteration in which `poll` succeeds. -/
def clientIteration (inp : ClientInput) (p : ClientProc) : ClientProc :=
  let p := p.setRcv sock (mainReceive inp.sock inp.recv p.rcv).1
  if p.user.done then p else stdinPhase env sock inp p

/-- The `for (;;)` of the client's `main`. -/
def clientLoop : List ClientPoll → ClientProc → ClientProc
  | [], p => p
  | r :: rs, p =>
      if p.user.done then p
      else
        match r with
        | .eintr => clientLoop rs p
        | .error => p.leave sock
        | .ready inp => clientLoop rs (clientIteration env sock inp p)

/-- `main` of the client behind `connect_tcp`. -/
def clientMain (nick : CStr chatMaxNick) (recvs : List (Option Bytes)) (polls : List ClientPoll) :
    ClientProc :=
  let p := (ClientProc.start sock env nick).handshake sock recvs
  if p.rcv.phase = .connected then clientLoop env sock polls p else p

/-! ## Its actions -/

/-- What the client does at one system call. -/
inductive ClientAction
  | receive (ret : RecvRet)
  /-- `poll` reports an error or a hang-up of the socket. -/
  | hangup
  | typed (x : UInt8)
  /-- Standard input ends, or a call fails. -/
  | leave

/-- When the client can do it. `recv` returns at least one byte, and no more than there
is room for. -/
def ClientEnabled (p : ClientProc) : ClientAction → Prop
  | .receive (.data chunk) =>
      p.rcv.phase ≠ .stopped ∧ 1 ≤ chunk.length ∧ chunk.length ≤ p.rcv.rx.room
  | .receive _ => p.rcv.phase ≠ .stopped
  | .hangup => p.rcv.phase = .connected
  | .typed _ => p.rcv.phase = .connected
  | .leave => p.rcv.phase = .connected

instance decidableClientEnabled (p : ClientProc) (a : ClientAction) :
    Decidable (ClientEnabled p a) := by
  induction a using ClientAction.casesOn with
  | receive ret => induction ret using RecvRet.casesOn <;> unfold ClientEnabled <;> infer_instance
  | hangup | typed | leave => unfold ClientEnabled; infer_instance

def clientAct (p : ClientProc) : ClientAction → ClientProc
  | .receive ret => p.setRcv sock (p.rcv.receive ret)
  | .hangup => p.setRcv sock (p.rcv.quit "Server closed connection.\n")
  | .typed x =>
      let u := typeByte env sock p.user x
      if u.done then ⟨{ p.rcv with phase := .stopped }, u⟩ else ⟨p.rcv, u⟩
  | .leave => p.leave sock

/-- `as` leads from `p` to `p'`. -/
abbrev ClientRun : ClientProc → List ClientAction → ClientProc → Prop :=
  Lib.Run ClientEnabled (clientAct env sock)

/-- `p` leads to `p'` by some run. -/
def ClientLeads (p p' : ClientProc) : Prop := ∃ as, ClientRun env sock p as p'

end Main

section Leads

variable {env : Env} {sock : Fd} {p p' p'' : ClientProc}

theorem ClientLeads.refl (env : Env) (sock : Fd) (p : ClientProc) : ClientLeads env sock p p :=
  ⟨[], .nil p⟩

theorem ClientLeads.trans (first : ClientLeads env sock p p')
    (second : ClientLeads env sock p' p'') : ClientLeads env sock p p'' := by
  obtain ⟨as, run⟩ := first
  obtain ⟨bs, run'⟩ := second
  exact ⟨as ++ bs, run.append run'⟩

theorem ClientLeads.act (a : ClientAction) (enabled : ClientEnabled p a) :
    ClientLeads env sock p (clientAct env sock p a) := ⟨[a], .one enabled⟩

end Leads

/-- The program has ended exactly when its receiving half has. -/
def ClientProc.Joint (p : ClientProc) : Prop := p.user.done = true ↔ p.rcv.phase = .stopped

section Joint

variable {env : Env} {sock : Fd} {p : ClientProc}

theorem ClientProc.leave_joint (sock : Fd) (p : ClientProc) : (p.leave sock).Joint :=
  ⟨fun _ => rfl, fun _ => rfl⟩

theorem ClientProc.setRcv_joint (c : ClientSys) (running : p.user.done = false) :
    (p.setRcv sock c).Joint := by
  unfold ClientProc.setRcv
  split
  · exact leave_joint sock _
  · rename_i going
    exact iff_of_false (ne_true_of_eq_false running) going

theorem ClientProc.start_joint (env : Env) (sock : Fd) (nick : CStr chatMaxNick) :
    (ClientProc.start sock env nick).Joint := by
  unfold ClientProc.start
  dsimp only
  split
  · rename_i done
    exact ⟨fun _ => rfl, fun _ => done⟩
  · rename_i running
    exact iff_of_false running (fun h => by cases h)

/-- Nothing is done by a client that has ended. -/
theorem ClientProc.Joint.running (joint : p.Joint) {a : ClientAction}
    (enabled : ClientEnabled p a) : p.user.done = false := by
  rw [Bool.eq_false_iff]
  intro done
  have stopped := joint.mp done
  cases a with
  | receive ret =>
      cases ret with
      | data chunk => exact enabled.1 stopped
      | closed => exact enabled stopped
      | error => exact enabled stopped
  | hangup | typed | leave =>
      rw [ClientEnabled, stopped] at enabled
      cases enabled

theorem clientAct_typed (x : UInt8) : clientAct env sock p (.typed x) =
    if (typeByte env sock p.user x).done then
      ⟨{ p.rcv with phase := .stopped }, typeByte env sock p.user x⟩
    else ⟨p.rcv, typeByte env sock p.user x⟩ := rfl

theorem ClientProc.Joint.act (joint : p.Joint) {a : ClientAction} (enabled : ClientEnabled p a) :
    (clientAct env sock p a).Joint := by
  have running := joint.running enabled
  cases a with
  | receive ret => exact setRcv_joint _ running
  | hangup => exact setRcv_joint _ running
  | leave => exact leave_joint sock p
  | typed x =>
      rw [clientAct_typed]
      split
      · rename_i done
        exact ⟨fun _ => rfl, fun _ => done⟩
      · rename_i going
        refine iff_of_false going ?_
        rw [show p.rcv.phase = .connected from enabled]
        exact fun h => by cases h

end Joint

/-! ## A running client waits for more -/

/-- There is no complete frame in the buffer of a running client. -/
def ClientSys.Waits (c : ClientSys) : Prop := c.phase ≠ .stopped → scanFrame c.rx.bytes = .more

theorem ClientSys.Waits.of_stopped {c : ClientSys} (stopped : c.phase = .stopped) : c.Waits :=
  fun going => absurd stopped going

theorem handshakeLoop_leaves {c : ClientSys} {fuel : Nat} {gotJoin : Bool}
    (enough : c.rx.bytes.length < fuel) : (handshakeLoop fuel gotJoin c).Waits := by
  intro going
  cases phase : (handshakeLoop fuel gotJoin c).phase with
  | stopped => exact absurd phase going
  | handshake again => exact handshakeLoop_waits enough phase
  | connected =>
      rw [handshakeLoop_connected rfl phase]
      rfl

theorem ClientSys.Waits.receive {c : ClientSys} (h : c.Waits) (ret : RecvRet) :
    (c.receive ret).Waits := by
  unfold ClientSys.receive
  cases c.phase with
  | stopped => cases ret <;> exact h
  | connected =>
      cases ret with
      | data chunk => exact fun _ => scanFrame_processServer _
      | closed | error => exact .of_stopped rfl
  | handshake gotJoin =>
      cases ret with
      | data chunk => exact handshakeLoop_leaves (Nat.lt_succ_self _)
      | closed | error => exact .of_stopped rfl

theorem ClientProc.rcv_setRcv (sock : Fd) (c : ClientSys) (p : ClientProc) :
    (p.setRcv sock c).rcv = c := by
  unfold setRcv
  split
  · rename_i stopped
    cases c
    cases stopped
    rfl
  · rfl

theorem ClientSys.Waits.act {env : Env} {sock : Fd} {p : ClientProc} (h : p.rcv.Waits)
    (a : ClientAction) : (clientAct env sock p a).rcv.Waits := by
  cases a with
  | receive ret =>
      change (p.setRcv sock _).rcv.Waits
      rw [ClientProc.rcv_setRcv]
      exact h.receive ret
  | hangup =>
      change (p.setRcv sock _).rcv.Waits
      rw [ClientProc.rcv_setRcv]
      exact .of_stopped rfl
  | typed x =>
      rw [clientAct_typed]
      split
      · exact .of_stopped rfl
      · exact h
  | leave => exact .of_stopped rfl

/-! ## `main` is a run of them -/

section MainRuns

variable {env : Env} {sock : Fd} {p : ClientProc}

/-- A `recv` in front of which the client has room. -/
theorem receive_leads (readable : Option Bytes) (going : p.rcv.phase ≠ .stopped) :
    ClientLeads env sock p
      (p.setRcv sock (p.rcv.receive (ClientProc.recvRet readable p.rcv.rx.room))) := by
  refine .act (.receive (ClientProc.recvRet readable p.rcv.rx.room)) ?_
  unfold ClientProc.recvRet
  split
  · exact going
  · split
    · exact going
    · rename_i data nonempty
      exact ⟨going, List.length_pos_iff.mpr nonempty, List.length_take_le _ _⟩

theorem handshake_leads (rs : List (Option Bytes)) (p : ClientProc) :
    ClientLeads env sock p (p.handshake sock rs) := by
  induction rs generalizing p with
  | nil => exact .refl env sock p
  | cons r rs ih =>
      unfold ClientProc.handshake
      split
      · rename_i phase
        refine (receive_leads r ?_).trans (ih _)
        rw [phase]
        exact fun h => by cases h
      · exact .refl env sock p

/-- Receiving chunk by chunk in the main loop. -/
theorem receiveAll_leads {c : ClientSys} (u : UserSys) {chunks : List Bytes}
    (connected : c.phase = .connected) (valid : c.ValidCuts chunks) :
    ClientLeads env sock ⟨c, u⟩ ⟨c.receiveAll chunks, u⟩ ∧
      (c.receiveAll chunks).phase = .connected := by
  induction chunks generalizing c with
  | nil => exact ⟨.refl env sock _, connected⟩
  | cons chunk chunks ih =>
      have going : c.phase ≠ .stopped := by
        rw [connected]
        exact fun h => by cases h
      obtain ⟨long, fits, valid⟩ := valid going
      have after := (receive_hears connected fits).1
      have first : ClientLeads env sock ⟨c, u⟩
          (ClientProc.setRcv sock (c.receive (.data chunk)) ⟨c, u⟩) :=
        .act (.receive (.data chunk)) ⟨going, long, fits⟩
      rw [ClientProc.setRcv, if_neg (by rw [after]; exact fun h => by cases h)] at first
      obtain ⟨rest, phase⟩ := ih after valid
      exact ⟨first.trans rest, phase⟩

theorem setRcv_self (going : p.rcv.phase ≠ .stopped) : p.setRcv sock p.rcv = p := if_neg going

/-- The socket in an iteration. -/
theorem mainReceive_leads (rev : Revents) (readable : Option Bytes)
    (connected : p.rcv.phase = .connected) :
    ClientLeads env sock p (p.setRcv sock (mainReceive rev readable p.rcv).1) := by
  have going : p.rcv.phase ≠ .stopped := by
    rw [connected]
    exact fun h => by cases h
  unfold mainReceive
  split
  · exact .act .hangup connected
  · split
    · have step : ClientLeads env sock p _ := receive_leads readable going
      unfold ClientProc.recvRet at step
      cases readable with
      | none => exact step
      | some data =>
          dsimp only at step ⊢
          split
          · rename_i empty
            rwa [if_pos empty] at step
          · rename_i nonempty
            rwa [if_neg nonempty] at step
    · rw [setRcv_self going]
      exact .refl env sock p

/-- A typed byte, by what it does to the sending half. -/
theorem typed_leads (x : UInt8) {u : UserSys} (connected : p.rcv.phase = .connected)
    (eq : typeByte env sock p.user x = u) :
    ClientLeads env sock p
      (if u.done then ⟨{ p.rcv with phase := .stopped }, u⟩ else ⟨p.rcv, u⟩) := by
  have step : ClientLeads env sock p (clientAct env sock p (.typed x)) := .act _ connected
  rwa [clientAct_typed, eq] at step

/-- The sending half of a byte of `tmp`. -/
theorem user_readChar (pull : Nat → PullAnswer) (x : UInt8) (running : p.user.done = false) :
    (readChar env sock pull x p).user = typeByte env sock p.user x := by
  have going := ne_true_of_eq_false running
  unfold readChar typeByte
  rw [if_neg going]
  split
  · obtain ⟨result, out, log⟩ := handleUserLine env sock p.user.line.bytes p.user.log
    cases result with
    | quit => rfl
    | sent => rfl
    | nothing => rfl
  · rfl

/-- A byte of `tmp` is typed, and answers are read if it sends a line. -/
theorem readChar_leads (pull : Nat → PullAnswer) (x : UInt8)
    (connected : p.rcv.phase = .connected) (running : p.user.done = false) :
    ClientLeads env sock p (readChar env sock pull x p) ∧
      ((readChar env sock pull x p).user.done = false →
        (readChar env sock pull x p).rcv.phase = .connected) := by
  have typed : typeByte env sock p.user x = (readChar env sock pull x p).user :=
    (user_readChar pull x running).symm
  have first := typed_leads x connected typed
  unfold readChar at first ⊢
  by_cases newline : x = 10
  · rw [if_pos newline] at first ⊢
    generalize handleUserLine env sock p.user.line.bytes p.user.log = answer at first ⊢
    obtain ⟨result, out, log⟩ := answer
    cases result with
    | quit => exact ⟨first, fun h => by cases h⟩
    | sent =>
        obtain ⟨chunks, valid, pulled⟩ := pullServerAfterSend_receives pull p.rcv connected
        dsimp only at first ⊢
        rw [if_neg Bool.false_ne_true] at first
        rw [pulled]
        obtain ⟨reads, phase⟩ := receiveAll_leads _ connected valid
        exact ⟨first.trans reads, fun _ => phase⟩
    | nothing => exact ⟨first, fun _ => connected⟩
  · rw [if_neg newline] at first ⊢
    dsimp only at first
    rw [if_neg (ne_true_of_eq_false running)] at first
    exact ⟨first, fun _ => connected⟩

theorem readChars_leads (pull : Nat → Nat → PullAnswer) (xs : Bytes) (k : Nat) {p : ClientProc}
    (connected : p.rcv.phase = .connected) (running : p.user.done = false) :
    ClientLeads env sock p (readChars env sock pull xs k p) ∧
      ((readChars env sock pull xs k p).user.done = false →
        (readChars env sock pull xs k p).rcv.phase = .connected) := by
  induction xs generalizing k p with
  | nil => exact ⟨.refl env sock p, fun _ => connected⟩
  | cons x xs ih =>
      obtain ⟨first, still⟩ := readChar_leads (pull k) x connected running
      unfold readChars
      dsimp only
      split
      · exact ⟨first, still⟩
      · rename_i going
        have running' := Bool.eq_false_iff.mpr going
        obtain ⟨rest, phase⟩ := ih (k + 1) (still running') running'
        exact ⟨first.trans rest, phase⟩

theorem stdinPhase_leads (inp : ClientInput) {p : ClientProc}
    (connected : p.rcv.phase = .connected) (running : p.user.done = false) :
    ClientLeads env sock p (stdinPhase env sock inp p) ∧
      ((stdinPhase env sock inp p).user.done = false →
        (stdinPhase env sock inp p).rcv.phase = .connected) := by
  have leaves : ClientLeads env sock p (p.leave sock) := .act .leave connected
  unfold stdinPhase
  split
  · split
    · exact ⟨.refl env sock p, fun _ => connected⟩
    · exact ⟨leaves, fun h => by cases h⟩
    · split
      · exact ⟨leaves, fun h => by cases h⟩
      · exact readChars_leads _ _ 0 connected running
  · exact ⟨.refl env sock p, fun _ => connected⟩

/-- In the main loop the client goes on receiving or ends. -/
theorem mainReceive_connected (sock : Fd) (rev : Revents) (readable : Option Bytes)
    (connected : p.rcv.phase = .connected) :
    (p.setRcv sock (mainReceive rev readable p.rcv).1).user.done = false →
      (p.setRcv sock (mainReceive rev readable p.rcv).1).rcv.phase = .connected := by
  intro running
  unfold ClientProc.setRcv at running ⊢
  split
  · rename_i stopped
    rw [if_pos stopped] at running
    cases running
  · rename_i going
    cases phase : (mainReceive rev readable p.rcv).1.phase with
    | handshake gotJoin => exact absurd phase (mainReceive_phase rev readable connected gotJoin)
    | connected => rfl
    | stopped => exact absurd phase going

theorem clientIteration_leads (inp : ClientInput) {p : ClientProc}
    (connected : p.rcv.phase = .connected) :
    ClientLeads env sock p (clientIteration env sock inp p) ∧
      ((clientIteration env sock inp p).user.done = false →
        (clientIteration env sock inp p).rcv.phase = .connected) := by
  have first : ClientLeads env sock p _ := mainReceive_leads inp.sock inp.recv connected
  have still := mainReceive_connected sock inp.sock inp.recv connected
  unfold clientIteration
  dsimp only
  split
  · exact ⟨first, still⟩
  · rename_i going
    have running := Bool.eq_false_iff.mpr going
    obtain ⟨rest, phase⟩ := stdinPhase_leads inp (still running) running
    exact ⟨first.trans rest, phase⟩

theorem clientLoop_leads (rs : List ClientPoll) {p : ClientProc}
    (connected : p.user.done = false → p.rcv.phase = .connected) :
    ClientLeads env sock p (clientLoop env sock rs p) := by
  induction rs generalizing p with
  | nil => exact .refl env sock p
  | cons r rs ih =>
      unfold clientLoop
      split
      · exact .refl env sock p
      · rename_i going
        have here := connected (Bool.eq_false_iff.mpr going)
        cases r with
        | eintr => exact ih connected
        | error => exact .act .leave here
        | ready inp =>
            obtain ⟨first, still⟩ := clientIteration_leads inp here
            exact first.trans (ih still)

/-- **The client is a run of its actions**, from the `JOIN` on. -/
theorem clientMain_runs (env : Env) (sock : Fd) (nick : CStr chatMaxNick)
    (recvs : List (Option Bytes)) (polls : List ClientPoll) :
    ClientLeads env sock (.start sock env nick) (clientMain env sock nick recvs polls) := by
  have first : ClientLeads env sock (.start sock env nick) _ := handshake_leads recvs _
  unfold clientMain
  dsimp only
  split
  · rename_i connected
    exact first.trans (clientLoop_leads polls fun _ => connected)
  · exact first

end MainRuns

end Osisp.Chat
