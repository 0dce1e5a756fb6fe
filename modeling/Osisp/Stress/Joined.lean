import Mathlib
import Osisp.Stress.LoadStep

/-!
# What the step waits for

The loop that joins the threads gives up when `g_running` is 0, and threads may
still run then: they see the flag later, and store their results into an array
that is being added up or that is gone (`stopped_early`). As long as a loop that
gives up leaves no thread behind, all of them have ended and every figure that is
added up is final (`figures_final`).
-/

namespace Osisp.Stress

open Lib

variable {ρ : Type}

/-- Every thread that was started has ended. -/
def AllFinished (s : Sys ρ) : Prop := ∀ w ∈ s.workers, w.pc = .finished

instance (s : Sys ρ) : Decidable (AllFinished s) :=
  inferInstanceAs (Decidable (∀ w ∈ s.workers, w.pc = .finished))

/-- The entries that were read are as they were. -/
def Final (s : Sys ρ) : Prop := ∀ figure ∈ s.figures, s.stats[figure.1]? = some figure.2

/-- When the join loop finds `g_running` cleared, no thread is left behind. -/
def NoneLeft (s : Sys ρ) : Action ρ → Prop
  | .main _ =>
      match s.main with
      | .joinTest _ => s.running = false → AllFinished s
      | _ => True
  | _ => True

instance (s : Sys ρ) (a : Action ρ) : Decidable (NoneLeft s a) := by
  induction a using Action.casesOn with
  | main ok =>
      rcases s with ⟨running, pause, main, stats, workers, global, figures⟩
      induction main using MainPc.casesOn <;> unfold NoneLeft <;> infer_instance
  | worker | stop | toggle => exact isTrue trivial

/-! ## The invariant -/

/-- The first `i` threads have ended. -/
def FinishedBelow (s : Sys ρ) (i : Nat) : Prop :=
  ∀ j < i, ∀ w, s.workers[j]? = some w → w.pc = .finished

/-- What the place of the main thread says about the threads. -/
def Joined (numThreads : Int) (s : Sys ρ) : Prop :=
  match s.main with
  | .enter | .filling _ => s.workers = [] ∧ s.figures = []
  | .creating i => s.workers.length = i ∧ (i : Int) ≤ max 0 numThreads ∧ s.figures = []
  | .joinTest i => s.figures = [] ∧ FinishedBelow s i ∧
      (s.running = true → (s.workers.length : Int) = max 0 numThreads)
  | .joining i => s.figures = [] ∧ FinishedBelow s i ∧
      (s.workers.length : Int) = max 0 numThreads
  | .adding _ | .collecting _ | .returned _ => AllFinished s ∧ Final s

variable {numThreads : Int} {s : Sys ρ} {i : Nat}

theorem Joined.final (joined : Joined numThreads s) : Final s := by
  have none : s.figures = [] → Final s := by
    intro empty figure mem
    rw [empty] at mem
    exact absurd mem List.not_mem_nil
  unfold Joined at joined
  cases place : s.main with
  | enter | filling _ =>
      rw [place] at joined
      exact none joined.2
  | creating _ =>
      rw [place] at joined
      exact none joined.2.2
  | joinTest _ | joining _ =>
      rw [place] at joined
      exact none joined.1
  | adding _ | collecting _ | returned _ =>
      rw [place] at joined
      exact joined.2

theorem FinishedBelow.all (below : FinishedBelow s i) (enough : s.workers.length ≤ i) :
    AllFinished s := by
  intro w mem
  obtain ⟨j, inside, eq⟩ := List.getElem_of_mem mem
  exact below j (by omega) w (by rw [List.getElem?_eq_getElem inside, eq])

theorem Final.reads (final : Final s) (i : Nat) : Final (s.reads i) := by
  intro figure mem
  rcases List.mem_append.mp mem with before | now
  · exact final figure before
  · obtain ⟨stats, eq, rfl⟩ := Option.map_eq_some_iff.mp (Option.mem_toList.mp now)
    exact eq

/-! ## Steps -/

section Step

variable [Zero ρ] {iterations : UInt64}

/-- The main thread joins, or is told that nobody is left. -/
theorem joined_mainStep (joined : Joined numThreads s) {ok : Bool}
    (noneLeft : NoneLeft s (.main ok)) (enabled : Enabled s (.main ok)) :
    Joined numThreads (mainStep numThreads iterations s ok) := by
  unfold Joined at joined
  cases place : s.main with
  | enter =>
      rw [place] at joined
      simp only [mainStep, place]
      split
      · refine ⟨fun w mem => ?_, fun figure mem => ?_⟩
        · rw [joined.1] at mem
          exact absurd mem List.not_mem_nil
        · rw [joined.2] at mem
          exact absurd mem List.not_mem_nil
      · exact joined
  | filling i =>
      rw [place] at joined
      simp only [mainStep, place]
      split
      · exact joined
      · exact ⟨by rw [joined.1]; rfl, by omega, joined.2⟩
  | creating i =>
      rw [place] at joined
      obtain ⟨count, bound, empty⟩ := joined
      have below : FinishedBelow s 0 := fun j inside => absurd inside (Nat.not_lt_zero j)
      simp only [mainStep, place]
      split
      · next more =>
          split
          · refine ⟨by rw [List.length_append, count]; rfl, by omega, empty⟩
          · exact ⟨empty, below, fun running => by cases running⟩
      · next all => exact ⟨empty, below, fun _ => by rw [count]; omega⟩
  | joinTest i =>
      rw [place] at joined
      obtain ⟨empty, below, started⟩ := joined
      simp only [NoneLeft, place] at noneLeft
      simp only [mainStep, place]
      split
      · next more => exact ⟨empty, below, started more.2⟩
      · next leaves =>
          refine ⟨?_, fun figure mem => ?_⟩
          · cases running : s.running with
            | false => exact noneLeft running
            | true =>
                have last : ¬ (i : Int) < numThreads := fun more => leaves ⟨more, running⟩
                have := started running
                exact below.all (by omega)
          · rw [show s.figures = [] from empty] at mem
            exact absurd mem List.not_mem_nil
  | joining i =>
      rw [place] at joined
      obtain ⟨empty, below, started⟩ := joined
      simp only [Enabled, place] at enabled
      obtain ⟨own, here, ended⟩ := enabled
      simp only [mainStep, place]
      refine ⟨empty, fun j inside w eq => ?_, fun _ => started⟩
      rcases Nat.lt_succ_iff_lt_or_eq.mp inside with before | rfl
      · exact below j before w eq
      · obtain rfl := Option.some.inj (here.symm.trans eq)
        exact ended
  | adding i =>
      rw [place] at joined
      simp only [mainStep, place]
      split
      · exact ⟨joined.1, joined.2.reads i⟩
      · exact joined
  | collecting i =>
      rw [place] at joined
      simp only [mainStep, place]
      split
      · exact ⟨joined.1, joined.2.reads i⟩
      · exact joined
  | returned result =>
      simp only [Enabled, place] at enabled

end Step

/-- Threads that have ended make no step, so what is read stays as it is. -/
theorem joined_workerStep (joined : Joined numThreads s) {value : ρ}
    (enabled : Enabled s (.worker i value)) : Joined numThreads (workerStep s i value) := by
  obtain ⟨w, here, running⟩ := enabled
  have mem : w ∈ s.workers := List.mem_of_getElem? here
  have below : ∀ n, FinishedBelow s n → FinishedBelow (workerStep s i value) n := by
    intro n ended j inside v eq
    by_cases own : j = i
    · subst own
      exact absurd (ended j inside w here) running
    · rw [workerStep_other own] at eq
      exact ended j inside v eq
  unfold Joined at joined ⊢
  rw [workerStep_main, workerStep_figures, workerStep_running, length_workerStep]
  cases place : s.main with
  | enter | filling _ =>
      rw [place] at joined
      rw [joined.1] at mem
      exact absurd mem List.not_mem_nil
  | creating _ =>
      rw [place] at joined
      exact joined
  | joinTest n | joining n =>
      rw [place] at joined
      exact ⟨joined.1, below n joined.2.1, joined.2.2⟩
  | adding _ | collecting _ | returned _ =>
      rw [place] at joined
      exact absurd (joined.1 w mem) running

theorem joined_act [Zero ρ] {iterations : UInt64} {a : Action ρ} (joined : Joined numThreads s)
    (noneLeft : NoneLeft s a) (enabled : Enabled s a) :
    Joined numThreads (act numThreads iterations s a) := by
  cases a with
  | main ok => exact joined_mainStep joined noneLeft enabled
  | worker i value => exact joined_workerStep joined enabled
  | stop =>
      unfold Joined at joined ⊢
      cases place : s.main with
      | joinTest n =>
          rw [place] at joined
          simp only [act, place]
          exact ⟨joined.1, joined.2.1, nofun⟩
      | enter | filling | creating | joining | adding | collecting | returned =>
          rw [place] at joined
          simp only [act, place]
          exact joined
  | toggle => exact joined

/-! ## Runs -/

/-- **Main.** In a run in which the join loop never gives up on a thread that still
runs, every thread has ended when `run_load_step` returns, and what it added up
and copied is what the entries hold from then on. -/
theorem figures_final [Zero ρ] (numThreads : Int) (iterations : UInt64) (running pause : Bool)
    (global : GlobalStats ρ) (as : List (Action ρ)) (s : Sys ρ)
    (run : Run numThreads iterations (enter running pause global) as s)
    (noneLeft : EachStep numThreads iterations NoneLeft (enter running pause global) as) :
    (∀ result, s.main = .returned result → AllFinished s) ∧ Final s := by
  have joined : Joined numThreads s := Lib.Run.preserves_each run
    (P := Joined numThreads) ⟨rfl, rfl⟩ noneLeft joined_act
  refine ⟨fun result returned => ?_, joined.final⟩
  unfold Joined at joined
  rw [returned] at joined
  exact joined.1

/-- `run_load_step` up to its join loop, for one thread. -/
def startOne : List (Action Int) := List.replicate 5 (.main true)

/-- A thread that sees the flag cleared and stores what it has. -/
def storeOne : List (Action Int) := List.replicate 4 (.worker 0 7)

/-- `SIGINT` comes while the main thread waits in `pthread_join`. -/
def joinedRun : List (Action Int) :=
  startOne ++ [.main true, .stop] ++ storeOne ++ List.replicate 6 (.main true)

/-- `SIGINT` comes just before the join loop. -/
def earlyRun : List (Action Int) := startOne ++ [.stop] ++ List.replicate 5 (.main true)

/-- One thread, one iteration. -/
def enterOne : Sys Int := enter true false ⟨0, 0, []⟩

theorem figures_final_joined :
    (joinedRun.foldl (act 1 1) enterOne).main = .returned 0 ∧
      AllFinished (joinedRun.foldl (act 1 1) enterOne) := by
  have returned : (joinedRun.foldl (act 1 1) enterOne).main = .returned 0 := by decide +kernel
  exact ⟨returned, (figures_final 1 1 true false ⟨0, 0, []⟩ joinedRun _
    (.of_enabled (by decide +kernel)) (by decide +kernel)).1 0 returned⟩

/-- The step returns while its thread runs, and the thread then changes an entry
that was added up. -/
theorem stopped_early :
    ∃ s s', Run 1 1 enterOne earlyRun s ∧ s.main = .returned 0 ∧ ¬ AllFinished s ∧
      Run 1 1 s storeOne s' ∧ ¬ Final s' := by
  refine ⟨earlyRun.foldl (act 1 1) enterOne,
    storeOne.foldl (act 1 1) (earlyRun.foldl (act 1 1) enterOne), .of_enabled (by decide +kernel),
    by decide +kernel, by decide +kernel, .of_enabled (by decide +kernel), ?_⟩
  unfold Final
  decide +kernel

end Osisp.Stress
