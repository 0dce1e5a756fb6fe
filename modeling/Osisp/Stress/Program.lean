import Osisp.Stress.Joined
import Osisp.Stress.Schedule

/-!
# The stress test as a whole

`main` calls `run_load_step` with more and more threads, waits in between, and prints
the figures at the end. The signals and the threads of the step it is in, or was in
last, take turns with it.
-/

namespace Osisp.Stress

open Lib

/-- What `print_stats` prints of the integers in `g_stats`; the last line is left out
when there are no threads. -/
structure Printed where
  totalThreads : Nat
  activeThreads : Int
  totalIterations : UInt64
  completed : Option Nat
  deriving DecidableEq

def printStats {ρ : Type} (global : GlobalStats ρ) : Printed where
  totalThreads := global.threads.length
  activeThreads := global.activeThreads
  totalIterations := global.totalIterations
  completed :=
    if 0 < global.threads.length then
      some (global.threads.countP fun stats => !stats.isActive)
    else none

/-- Where `main` is, after the arguments. -/
inductive Phase
  /-- About to test `g_running && current_threads <= params.max_threads`. -/
  | ramp
  /-- In `run_load_step`. -/
  | loading
  /-- About to test `g_running && delay_remaining > 0`. -/
  | delaying (remaining : Int)
  | printing
  | ended
  /-- A counter has overflowed. -/
  | undefined
  deriving DecidableEq

/-- `frame` is the step that `main` is in or was in last, with the variables that all
of them share; a thread that it left behind goes on with its entry there. The threads
of earlier steps and the calls that have returned are recorded. -/
structure Test (ρ : Type) where
  phase : Phase
  currentThreads : CInt
  step : CInt
  frame : Sys ρ
  past : List Worker
  loads : List Load
  printed : Option Printed
  deriving DecidableEq

variable {ρ : Type}

/-- All the threads that were started. -/
def Test.started (s : Test ρ) : List Worker := s.past ++ s.frame.workers

def boot (params : StressParams) : Test ρ where
  phase := .ramp
  currentThreads := params.initialThreads
  step := ⟨1, fits_one⟩
  frame := enter true false ⟨0, 0, []⟩
  past := []
  loads := []
  printed := none

/-- When the next step can be made and does not block. -/
def CanAct (s : Test ρ) (a : Action ρ) : Prop :=
  match a with
  | .main _ =>
      match s.phase with
      | .loading =>
          match s.frame.main with
          | .returned _ => True
          | _ => Enabled s.frame a
      | .ended | .undefined => False
      | _ => True
  | .worker _ _ => s.phase ≠ .ended ∧ s.phase ≠ .undefined ∧ Enabled s.frame a
  | .stop | .toggle => True

section Step

variable [Zero ρ] (params : StressParams)

/-- The next step of `main`. -/
def testMain (s : Test ρ) (ok : Bool) : Test ρ :=
  match s.phase with
  | .ramp =>
      if s.frame.running ∧ s.currentThreads.1 ≤ params.maxThreads.1 then
        { s with
          phase := .loading
          frame := enter s.frame.running s.frame.pause s.frame.global
          past := s.started }
      else { s with phase := .printing }
  | .loading =>
      match s.frame.main with
      | .returned result =>
          if result < 0 then { s with phase := .printing }
          else
            { s with
              phase := .delaying params.delayMs.1
              loads := s.loads ++ [⟨s.currentThreads, params.iterations⟩] }
      | _ => { s with frame := mainStep s.currentThreads.1 params.iterations s.frame ok }
  | .delaying remaining =>
      if s.frame.running ∧ 0 < remaining then
        let sleepTime := if 100 < remaining then 100 else remaining
        { s with phase := .delaying (remaining - sleepTime) }
      else
        match advance params s.currentThreads s.step with
        | some (current, step) =>
            { s with phase := .ramp, currentThreads := current, step := step }
        | none => { s with phase := .undefined }
  | .printing => { s with phase := .ended, printed := some (printStats s.frame.global) }
  | .ended | .undefined => s

def testAct (s : Test ρ) (a : Action ρ) : Test ρ :=
  match a with
  | .main ok => testMain params s ok
  | _ => { s with frame := act s.currentThreads.1 params.iterations s.frame a }

/-- A run of the stress test with these parameters. -/
abbrev TestRun : Test ρ → List (Action ρ) → Test ρ → Prop := Lib.Run CanAct (testAct params)

abbrev EachTestStep : (Test ρ → Action ρ → Prop) → Test ρ → List (Action ρ) → Prop :=
  Lib.EachStep (testAct params)

end Step

instance (s : Test ρ) (a : Action ρ) : Decidable (CanAct s a) := by
  rcases s with ⟨phase, current, step, frame, past, loads, printed⟩
  induction a using Action.casesOn with
  | main ok =>
      rcases frame with ⟨running, pause, main, stats, workers, global, figures⟩
      induction phase using Phase.casesOn <;> induction main using MainPc.casesOn <;>
        unfold CanAct <;> infer_instance
  | worker i value =>
      unfold CanAct
      infer_instance
  | stop | toggle => exact isTrue trivial

end Osisp.Stress
