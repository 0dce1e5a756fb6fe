import Osisp.Lib.System

/-!
# The process that survives its signals (`recovery.c`)

At any time one process of the chain counts; a signal makes it fork, the child
goes on where the parent was, and the parent exits. What a process has written to
`LOG_FILE` and not yet flushed is copied by `fork`, and `exit` flushes it, at some
time after the child went on. A program point is the statement of
`start_main_loop` or `log_status` that runs next.
-/

namespace Osisp.Recovery

open Lib

/-- `INT_MAX`; `counter++` has no meaning beyond it. -/
def intMax : Nat := 2 ^ 31 - 1

/-- A line of `process_state.txt`. -/
structure Line where
  time : Int
  pid : Nat
  counter : Nat
  deriving DecidableEq, Repr

/-- The statement that runs next. `log_status` works with the arguments of its call,
whichever process it runs in by then. -/
inductive Point
  /-- `counter++`. -/
  | count
  /-- The `printf` of the current value. -/
  | print
  /-- The call of `log_status`. -/
  | call
  | fopen (pid counter : Nat)
  | fprintf (pid counter : Nat)
  | fclose
  | sleep
  deriving DecidableEq, Repr

/-- The process that counts. -/
structure Proc where
  pid : Nat
  counter : Nat
  point : Point
  /-- What the open stream holds unflushed; `none` when no stream is open. -/
  stream : Option (List Line)
  deriving DecidableEq, Repr

namespace Proc

/-- What `exit` flushes. -/
def unflushed (p : Proc) : List Line := p.stream.getD []

/-- One statement of `start_main_loop` or `log_status`, and what it flushes to the
file. `opens` tells whether `fopen` succeeds, `now` is the time. -/
def step (opens : Bool) (now : Int) (p : Proc) : Proc × List Line :=
  match p.point with
  | .count => ({ p with counter := p.counter + 1, point := .print }, [])
  | .print => ({ p with point := .call }, [])
  | .call => ({ p with point := .fopen p.pid p.counter }, [])
  | .fopen pid counter =>
      if opens then ({ p with point := .fprintf pid counter, stream := some [] }, [])
      else ({ p with point := .sleep }, [])
  | .fprintf pid counter =>
      ({ p with
        point := .fclose
        stream := p.stream.map (· ++ [⟨now, pid, counter⟩]) }, [])
  | .fclose => ({ p with point := .sleep, stream := none }, p.unflushed)
  | .sleep => ({ p with point := .count }, [])

end Proc

/-- The chain: the process that counts, unless `fork` failed; what each parent that
is on its way out has yet to flush; and the file. -/
structure Chain where
  live : Option Proc
  exiting : List (List Line)
  file : List Line
  deriving DecidableEq, Repr

def init (pid : Nat) : Chain := ⟨some ⟨pid, 0, .count, none⟩, [], []⟩

inductive Action
  /-- The live process runs a statement. -/
  | step (opens : Bool) (now : Int)
  /-- A signal; its handler forks `child`. -/
  | signal (child : Nat)
  /-- A signal; its handler cannot fork and exits. -/
  | signalFails
  /-- The exiting process at this place flushes its streams and is gone. -/
  | exits (place : Nat)
  deriving DecidableEq, Repr

def Enabled (s : Chain) : Action → Prop
  | .step _ _ => ∃ p ∈ s.live, p.point = .count → p.counter < intMax
  | .signal _ | .signalFails => s.live ≠ none
  | .exits place => place < s.exiting.length

def act (s : Chain) : Action → Chain
  | .step opens now =>
      match s.live with
      | none => s
      | some p => { s with
          live := some (p.step opens now).1
          file := s.file ++ (p.step opens now).2 }
  -- `handle_recovery`: the parent exits, the child has a copy of everything.
  | .signal child =>
      match s.live with
      | none => s
      | some p => { s with
          live := some { p with pid := child }
          exiting := s.exiting ++ [p.unflushed] }
  | .signalFails =>
      match s.live with
      | none => s
      | some p => { s with live := none, exiting := s.exiting ++ [p.unflushed] }
  | .exits place => { s with
      exiting := s.exiting.eraseIdx place
      file := s.file ++ s.exiting.getD place [] }

instance (s : Chain) (a : Action) : Decidable (Enabled s a) := by
  cases a <;> unfold Enabled <;> infer_instance

abbrev Run : Chain → List Action → Chain → Prop := Lib.Run Enabled act

abbrev EachStep : (Chain → Action → Prop) → Chain → List Action → Prop := Lib.EachStep act

end Osisp.Recovery
