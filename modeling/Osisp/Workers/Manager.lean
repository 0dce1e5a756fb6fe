import Mathlib
import Osisp.Lib.System

/-!
# The manager and its workers (`Lab_5/main.c`, `worker.c`)

A thread is known by the order of its creation. A slot of `workers` holds the
handle of the last thread created for it; `pthread_create` leaves an undefined
handle behind when it fails. The manager is a sequence of calls, the workers fail
and exit in between, in any order. A join of a handle that was joined before, or of
an undefined one, has no meaning: the program is then `undefined`.
-/

namespace Osisp.Workers

open Lib

def numWorkers : Nat := 4

/-- The passes of the monitoring loop. -/
def maxIterations : Nat := 10

/-- Where the manager is. -/
inductive Pc
  /-- About to create the first thread of slot `i`. -/
  | start (i : Nat)
  | sleeping (iteration : Nat)
  /-- About to call `pthread_tryjoin_np` for slot `i`. -/
  | trying (iteration i : Nat)
  /-- The thread of slot `i` was busy; about to read `is_active`. -/
  | checking (iteration i : Nat)
  /-- In `pthread_join` for slot `i`. -/
  | joining (iteration i : Nat)
  /-- About to create a new thread for slot `i`. -/
  | restarting (iteration i : Nat)
  /-- About to clear `keep_running`. -/
  | stopping
  /-- In the `pthread_join` of the shutdown for slot `i`. -/
  | shutdown (i : Nat)
  | done
  /-- `main` returned `EXIT_FAILURE`. -/
  | failed
  /-- After a call that has no meaning. -/
  | undefined
  deriving DecidableEq, Repr

/-- Where `worker_routine` is. -/
inductive Stage
  | running
  /-- `is_active` is cleared; about to call `pthread_exit`. -/
  | failing
  | finished
  deriving DecidableEq, Repr

/-- A thread and the slot it was created for. -/
structure Worker where
  slot : Nat
  stage : Stage
  deriving DecidableEq, Repr

/-- `worker_info_t`. -/
structure Slot where
  thread : Option Nat
  isActive : Bool
  deriving DecidableEq, Repr

/-- `joined` records the handles that joins returned for. -/
structure Sys where
  pc : Pc
  keepRunning : Bool
  workers : Nat → Slot
  threads : List Worker
  joined : List Nat

def init : Sys := ⟨.start 0, true, fun _ => ⟨none, false⟩, [], []⟩

inductive Action
  /-- The manager makes its next call; `ok` is the outcome of a `pthread_create`. -/
  | manager (ok : Bool)
  /-- The thread fails: it clears the flag of its slot. -/
  | fails (t : Nat)
  /-- The thread ends. -/
  | exits (t : Nat)
  deriving DecidableEq, Repr

/-- After slot `i` in a pass. -/
def nextSlot (iteration i : Nat) : Pc :=
  if i + 1 < numWorkers then .trying iteration (i + 1)
  else if iteration + 1 < maxIterations then .sleeping (iteration + 1)
  else .stopping

namespace Sys

/-- The thread a call on slot `i` concerns; none, if the call has no meaning. -/
def handle (s : Sys) (i : Nat) : Option Nat := (s.workers i).thread.filter (· ∉ s.joined)

def setSlot (s : Sys) (i : Nat) (slot : Slot) : Sys :=
  { s with workers := Function.update s.workers i slot }

def setStage (s : Sys) (t : Nat) (stage : Stage) : Sys :=
  { s with threads := s.threads.modify t fun w => { w with stage } }

/-- `is_active = true` and `pthread_create` for slot `i`. -/
def createFor (s : Sys) (i : Nat) (ok : Bool) : Sys :=
  if ok then
    { s.setSlot i ⟨some s.threads.length, true⟩ with threads := s.threads ++ [⟨i, .running⟩] }
  else s.setSlot i ⟨none, true⟩

/-- The thread has ended. -/
def Finished (s : Sys) (t : Nat) : Prop := ∃ w ∈ s.threads[t]?, w.stage = .finished

instance (s : Sys) (t : Nat) : Decidable (s.Finished t) :=
  inferInstanceAs (Decidable (∃ w ∈ s.threads[t]?, w.stage = .finished))

/-- `pthread_join` for slot `i` returns, and the manager goes on at `next`. -/
def joinThen (s : Sys) (i : Nat) (next : Pc) : Sys :=
  match s.handle i with
  | none => { s with pc := .undefined }
  | some t => { s with pc := next, joined := s.joined ++ [t] }

/-- The next call of the manager can be made and does not block. -/
def Ready (s : Sys) : Prop :=
  match s.pc with
  | .joining _ i | .shutdown i => ∀ t ∈ s.handle i, s.Finished t
  | .done | .failed | .undefined => False
  | _ => True

instance (s : Sys) : Decidable s.Ready := by
  rcases s with ⟨pc, keepRunning, workers, threads, joined⟩
  cases pc <;> unfold Ready <;> infer_instance

/-- The next call of the manager. -/
def manage (s : Sys) (ok : Bool) : Sys :=
  match s.pc with
  | .start i =>
      if ok then
        { s.createFor i ok with pc := if i + 1 < numWorkers then .start (i + 1) else .sleeping 0 }
      else { s.createFor i ok with pc := .failed }
  | .sleeping iteration => { s with pc := .trying iteration 0 }
  | .trying iteration i =>
      match s.handle i with
      | none => { s with pc := .undefined }
      | some t =>
          if s.Finished t then s.joinThen i (.restarting iteration i)
          else { s with pc := .checking iteration i }
  | .checking iteration i =>
      if (s.workers i).isActive then { s with pc := nextSlot iteration i }
      else { s with pc := .joining iteration i }
  | .joining iteration i => s.joinThen i (.restarting iteration i)
  -- The outcome is not looked at.
  | .restarting iteration i => { s.createFor i ok with pc := nextSlot iteration i }
  | .stopping => { s with pc := .shutdown 0, keepRunning := false }
  | .shutdown i => s.joinThen i (if i + 1 < numWorkers then .shutdown (i + 1) else .done)
  | .done | .failed | .undefined => s

end Sys

def Enabled (s : Sys) : Action → Prop
  | .manager _ => s.Ready
  | .fails t => ∃ w ∈ s.threads[t]?, w.stage = .running
  | .exits t =>
      ∃ w ∈ s.threads[t]?, w.stage = .failing ∨ w.stage = .running ∧ s.keepRunning = false

def act (s : Sys) : Action → Sys
  | .manager ok => s.manage ok
  | .fails t =>
      match s.threads[t]? with
      | none => s
      | some w => (s.setStage t .failing).setSlot w.slot { s.workers w.slot with isActive := false }
  | .exits t => s.setStage t .finished

instance decidableEnabled (s : Sys) (a : Action) : Decidable (Enabled s a) := by
  cases a <;> unfold Enabled <;> infer_instance

abbrev Run : Sys → List Action → Sys → Prop := Lib.Run Enabled act

abbrev EachStep : (Sys → Action → Prop) → Sys → List Action → Prop := Lib.EachStep act

end Osisp.Workers
