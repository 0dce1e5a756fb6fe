import Osisp.Lib.System
import Osisp.Chat.Reassembly

/-!
# Runs of the server

The event loop does five kinds of thing to the server: it accepts a connection,
appends received bytes to a buffer, processes the complete frame at the head of a
buffer, closes a slot whose buffer starts with an invalid header, and removes a
client. `Run` lets these happen in any order, at the granularity of one frame;
`mainLoop_run` shows that the event loop, whatever the kernel answers, performs
such a run. A property of all runs is therefore a property of the server.
-/

namespace Osisp.Chat

open Lib

inductive Action
  | accept (fd : Fd)
  | recv (i : Slot) (data : Bytes)
  | frame (i : Slot)
  | invalid (i : Slot)
  | remove (i : Slot)
  deriving DecidableEq

/-- The slot of the client that an action is of. -/
def Action.slot : Action → Option Slot
  | .accept _ => none
  | .recv i _ | .frame i | .invalid i | .remove i => some i

/-- When the event loop can perform the action. A new descriptor is one that is
not open. -/
def Enabled (s : Sys) : Action → Prop
  | .accept fd => 0 ≤ fd ∧ fd ∉ openFds s.log
  | .recv i _ => (s.srv.clients i).used = true
  | .frame i => (s.srv.clients i).used = true ∧
      ∃ f need, scanFrame (s.srv.clients i).inbuf.bytes = .frame f need
  | .invalid i => (s.srv.clients i).used = true ∧
      scanFrame (s.srv.clients i).inbuf.bytes = .bad
  | .remove i => (s.srv.clients i).used = true

instance decidableEnabled (s : Sys) (a : Action) : Decidable (Enabled s a) :=
  match a with
  | .accept fd => inferInstanceAs (Decidable (0 ≤ fd ∧ fd ∉ openFds s.log))
  | .recv i _ => inferInstanceAs (Decidable ((s.srv.clients i).used = true))
  | .frame i =>
      match scan : scanFrame (s.srv.clients i).inbuf.bytes with
      | .frame f need => decidable_of_iff ((s.srv.clients i).used = true)
          ⟨fun used => ⟨used, f, need, scan⟩, fun h => h.1⟩
      | .more => isFalse fun ⟨_, _, _, h⟩ => by rw [scan] at h; cases h
      | .bad => isFalse fun ⟨_, _, _, h⟩ => by rw [scan] at h; cases h
  | .invalid i => inferInstanceAs (Decidable ((s.srv.clients i).used = true ∧
      scanFrame (s.srv.clients i).inbuf.bytes = .bad))
  | .remove i => inferInstanceAs (Decidable ((s.srv.clients i).used = true))

def act (env : Env) (s : Sys) : Action → Sys
  | .accept fd => acceptClient env fd s
  | .recv i data => recvInto i data s
  | .frame i =>
      match scanFrame (s.srv.clients i).inbuf.bytes with
      | .frame f need => processFrame env i f need s
      | _ => s
  | .invalid i => closeSlot i s
  | .remove i => removeClientIndex env i s

/-- A client connects on `fd`, is put in slot `i` and joins as `nick`. -/
def arrival (i : Slot) (fd : Fd) (nick : String) : List Action :=
  [.accept fd, .recv i (Message.frame ⟨.join, ascii nick⟩).encode, .frame i]

/-- `as` leads from `s` to `s'`. -/
abbrev Run (env : Env) : Sys → List Action → Sys → Prop := Lib.Run Enabled (act env)

/-- The states of the server, at every point between two actions. -/
def Reachable (env : Env) (s : Sys) : Prop := ∃ as, Run env Sys.init as s

abbrev Throughout (env : Env) (P : Sys → Prop) : Sys → List Action → Prop :=
  Lib.Throughout (act env) P

abbrev EachStep (env : Env) (P : Sys → Action → Prop) : Sys → List Action → Prop :=
  Lib.EachStep (act env) P

section Runs

variable {env : Env} {s s' s'' : Sys} {as bs : List Action}

theorem Reachable.run (reach : Reachable env s) (run : Run env s as s') : Reachable env s' := by
  obtain ⟨before, first⟩ := reach
  exact ⟨before ++ as, first.append run⟩

theorem act_frame {i : Slot} {f : Frame} {need : Nat}
    (scan : scanFrame (s.srv.clients i).inbuf.bytes = .frame f need) :
    act env s (.frame i) = processFrame env i f need s := by
  simp only [act, scan]

end Runs

/-! ## The event loop performs runs -/

/-- `s` leads to `s'` by some run. -/
def Leads (env : Env) (s s' : Sys) : Prop := ∃ as, Run env s as s'

theorem Leads.refl (env : Env) (s : Sys) : Leads env s s := ⟨[], .nil s⟩

theorem Leads.trans {env : Env} {s s' s'' : Sys} (first : Leads env s s')
    (second : Leads env s' s'') : Leads env s s'' := by
  obtain ⟨as, run⟩ := first
  obtain ⟨bs, run'⟩ := second
  exact ⟨as ++ bs, run.append run'⟩

theorem Leads.act {env : Env} {s : Sys} (a : Action) (enabled : Enabled s a) :
    Leads env s (act env s a) := ⟨[a], .one enabled⟩

theorem processMessage_leads (env : Env) (c : Slot) (s : Sys)
    (used : (s.srv.clients c).used = true) : Leads env s (processMessage env c s) := by
  unfold processMessage
  generalize (s.srv.clients c).inbuf.bytes.length + 1 = fuel
  induction fuel generalizing s with
  | zero => exact .refl env s
  | succ fuel ih =>
      unfold processLoop
      split
      · exact .refl env s
      · rename_i scan
        exact .act (.invalid c) ⟨used, scan⟩
      · rename_i f need scan
        have stillUsed := (processFrame_sameConn env c f need s).2.1
        have step : Leads env s (processFrame env c f need s) :=
          @act_frame env s c f need scan ▸ .act (.frame c) ⟨used, f, need, scan⟩
        exact step.trans (ih _ (stillUsed.trans used))

theorem recvInto_nil (i : Slot) (s : Sys) :
    recvInto i [] s = s.note (.recv (s.srv.clients i).fd []) := by
  have same : (s.srv.clients i).inbuf.recv [] = (s.srv.clients i).inbuf :=
    Buf.ext (by rw [Buf.bytes_recv_of_le (Nat.zero_le _), List.append_nil])
  have client : (s.srv.clients i).setInbuf ((s.srv.clients i).inbuf.recv []) =
      s.srv.clients i := by rw [same]; rfl
  simp only [recvInto, client, Sys.setClient, Sys.note, Function.update_eq_self, List.take_nil]

theorem handleSlot_leads (env : Env) (inp : LoopInput) (i : Slot) (rev : Revents) (s : Sys)
    (used : (s.srv.clients i).used = true) : Leads env s (handleSlot env inp i rev s) := by
  -- a failed `recv` and an end of stream both lead to removal
  have gone : Leads env s (removeClientIndex env i (s.note (.recv (s.srv.clients i).fd []))) := by
    rw [← recvInto_nil]
    refine (Leads.act (.recv i []) used).trans (.act (.remove i) ?_)
    simp only [act, recvInto_nil]
    exact used
  unfold handleSlot
  split
  · exact .act (.remove i) used
  · split
    · split
      · exact gone
      · rename_i data _
        split
        · exact gone
        · have filled : Leads env s (recvInto i data s) := .act (.recv i data) used
          have received : ((recvInto i data s).srv.clients i).used = true := by
            rw [recvInto, Sys.clients_setClient_self]
            exact used
          have processed := filled.trans (processMessage_leads env i _ received)
          dsimp only
          split
          · exact processed
          · rename_i stillUsed
            split
            · refine processed.trans (.act (.remove i) ?_)
              simpa [Enabled] using stillUsed
            · exact processed
    · exact .refl env s

theorem dispatchLoop_leads (env : Env) (inp : LoopInput) (fds : List Pollfd) (is : List Slot)
    (fi : Nat) (s : Sys) : Leads env s (dispatchLoop env inp fds is fi s).1 := by
  induction is generalizing fi s with
  | nil => exact .refl env s
  | cons i is ih =>
      unfold dispatchLoop
      split
      · exact ih fi s
      · rename_i used
        split
        · exact .refl env s
        · rename_i p _
          exact (handleSlot_leads env inp i p.revents s (by simpa using used)).trans (ih (fi + 1) _)

/-- The assumption about the kernel: a new connection gets a descriptor that is
not open. -/
def LoopInput.FreshFd (inp : LoopInput) (s : Sys) : Prop :=
  (inp.revents 0).listener = true → 0 ≤ inp.accept → inp.accept ∉ openFds s.log

theorem acceptPhase_leads (env : Env) (inp : LoopInput) (s : Sys) (fresh : inp.FreshFd s) :
    Leads env s (acceptPhase env inp s) := by
  unfold acceptPhase
  split
  · rename_i reported
    split
    · exact .refl env s
    · rename_i nonneg
      have nonneg : 0 ≤ inp.accept := not_lt.mp nonneg
      exact .act (.accept inp.accept) ⟨nonneg, fresh reported nonneg⟩
  · exact .refl env s

theorem iteration_leads (env : Env) (listenFd : Fd) (inp : LoopInput) (s : Sys)
    (fresh : inp.FreshFd s) : Leads env s (iteration env listenFd inp s).1 :=
  (acceptPhase_leads env inp s fresh).trans (dispatchLoop_leads _ _ _ _ _ _)

/-- Along the loop every accepted descriptor is fresh. -/
def FreshFds (env : Env) (listenFd : Fd) : List PollResult → Sys → Prop
  | .ready inp :: rs, s => inp.FreshFd s ∧ FreshFds env listenFd rs (iteration env listenFd inp s).1
  | .eintr :: rs, s => FreshFds env listenFd rs s
  | _, _ => True

/-- **The event loop is a run**, up to the moment `poll` fails for good. -/
theorem mainLoop_run (env : Env) (listenFd : Fd) (rs : List PollResult) (s : Sys)
    (fresh : FreshFds env listenFd rs s) :
    ∃ s', Leads env s s' ∧
      (mainLoop env listenFd rs s = s' ∨ mainLoop env listenFd rs s = shutdown s') := by
  induction rs generalizing s with
  | nil => exact ⟨s, .refl env s, Or.inl rfl⟩
  | cons r rs ih =>
      cases r with
      | eintr => exact ih s fresh
      | error => exact ⟨s, .refl env s, Or.inr rfl⟩
      | ready inp =>
          obtain ⟨s', leads, result⟩ := ih _ fresh.2
          exact ⟨s', (iteration_leads env listenFd inp s fresh.1).trans leads, result⟩

end Osisp.Chat
