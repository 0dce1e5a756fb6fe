import Osisp.Stress.Figures
import Osisp.Stress.Program

/-!
# The statistics

What `print_stats` prints is what the threads have done as long as every step is
orderly (`printed_exact`).
-/

namespace Osisp.Stress

open Lib

variable {ρ : Type}

/-- What is printed is what the threads that were started have done. -/
structure Exact (started : List Worker) (printed : Printed) : Prop where
  threads : printed.totalThreads = started.length
  iterations : printed.totalIterations.toNat = (started.map fun w => w.executed.length).sum
  completed : ∀ n ∈ printed.completed, n = started.countP fun w => w.pc = .finished

/-- The step in `run_load_step` is orderly. -/
def Smooth (params : StressParams) (s : Test ρ) (a : Action ρ) : Prop :=
  s.phase = .loading → Orderly s.currentThreads.1 params.iterations s.frame a

instance (params : StressParams) (s : Test ρ) (a : Action ρ) : Decidable (Smooth params s a) :=
  inferInstanceAs (Decidable (s.phase = .loading → _))

/-- The threads have ended, and the figures are theirs. -/
structure Tells (global : GlobalStats ρ) (started : List Worker) : Prop where
  ended : ∀ w ∈ started, w.pc = .finished
  count : global.threads.length = started.length
  sum : global.totalIterations.toNat = (started.map fun w => w.executed.length).sum
  marked : ∀ stats ∈ global.threads, stats.isActive = false

/-- What the place of `main` says about the figures. -/
def Accounted (params : StressParams) (s : Test ρ) : Prop :=
  match s.phase with
  | .ramp | .delaying _ | .printing => s.printed = none ∧ Tells s.frame.global s.started
  | .loading => s.printed = none ∧ ∃ before, Tells before s.past ∧
      Frame s.currentThreads.1 params.iterations before s.frame
  | .ended => ∀ printed ∈ s.printed, Exact s.started printed
  | .undefined => s.printed = none

variable {params : StressParams} {s : Test ρ}

/-- What a step that returns has added to the figures. -/
theorem Frame.tells {numThreads : Int} {iterations : UInt64} {before : GlobalStats ρ}
    {frame : Sys ρ} {past : List Worker} {result : Int}
    (h : Frame numThreads iterations before frame) (tells : Tells before past)
    (returned : frame.main = .returned result) : Tells frame.global (past ++ frame.workers) := by
  obtain ⟨joined, -, ⟨worked, marked⟩, tallied⟩ := h
  obtain ⟨ended, count, sum, inactive⟩ := tells
  unfold Joined at joined
  unfold Tallied at tallied
  rw [returned] at joined tallied
  obtain ⟨finished, -⟩ := joined
  dsimp only at tallied
  split at tallied
  · obtain ⟨none, total, copied⟩ := tallied
    rw [none, List.append_nil]
    exact ⟨ended, copied ▸ count, total ▸ sum, copied ▸ inactive⟩
  · obtain ⟨⟨entries, threads⟩, total, copied⟩ := tallied
    refine ⟨fun w mem => ?_, ?_, ?_, fun stats mem => ?_⟩
    · rcases List.mem_append.mp mem with old | new
      · exact ended w old
      · exact finished w new
    · rw [copied, List.length_append, List.length_append, count, entries, threads]
    · have each : frame.workers.map (fun w => w.executed.length) =
          List.replicate numThreads.toNat iterations.toNat := by
        rw [← threads]
        exact List.map_eq_replicate_iff.mpr fun w mem => (worked w mem).all (finished w mem)
      rw [total, sum, List.map_append, List.sum_append, each, List.sum_replicate_nat]
    · rw [copied] at mem
      rcases List.mem_append.mp mem with old | new
      · exact inactive stats old
      · obtain ⟨i, inside, eq⟩ := List.getElem_of_mem new
        have here : frame.stats[i]? = some stats := by rw [List.getElem?_eq_getElem inside, eq]
        have running : i < frame.workers.length := by omega
        exact marked i _ stats (List.getElem?_eq_getElem running) here
          (finished _ (List.getElem_mem running))

theorem Tells.exact {global : GlobalStats ρ} {started : List Worker}
    (tells : Tells global started) : Exact started (printStats global) where
  threads := tells.count
  iterations := tells.sum
  completed n mem := by
    simp only [printStats] at mem
    split at mem
    · obtain rfl := Option.some.inj mem
      have inactive : global.threads.countP (fun stats => !stats.isActive) =
          global.threads.length := List.countP_eq_length.mpr fun stats mem => by
        rw [tells.marked stats mem]
        rfl
      rw [inactive, tells.count]
      exact (List.countP_eq_length.mpr fun w mem => decide_eq_true (tells.ended w mem)).symm
    · cases mem

section Step

variable [Zero ρ]

theorem accounted_testMain {ok : Bool} (accounted : Accounted params s)
    (smooth : Smooth params s (.main ok)) (can : CanAct s (.main ok)) :
    Accounted params (testMain params s ok) := by
  unfold Accounted at accounted
  unfold CanAct at can
  cases place : s.phase with
  | ramp =>
      rw [place] at accounted
      obtain ⟨none, tells⟩ := accounted
      simp only [testMain, place]
      split
      · exact ⟨none, s.frame.global, tells, frame_enter _ _ _⟩
      · exact ⟨none, tells⟩
  | loading =>
      rw [place] at accounted can
      obtain ⟨none, before, tells, frame⟩ := accounted
      have orderly := smooth place
      simp only [testMain, place]
      split
      · next returned =>
          split
          · exact ⟨none, frame.tells tells returned⟩
          · exact ⟨none, frame.tells tells returned⟩
      · next inside =>
          have enabled : Enabled s.frame (.main ok) := by
            dsimp only at can
            split at can
            · next returned => exact absurd returned (inside _)
            · exact can
          exact ⟨none, before, tells, frame_act frame orderly enabled⟩
  | delaying remaining =>
      rw [place] at accounted
      simp only [testMain, place]
      split
      · exact accounted
      · split
        · exact accounted
        · exact accounted.1
  | printing =>
      rw [place] at accounted
      simp only [testMain, place]
      intro printed mem
      obtain rfl := Option.some.inj mem
      exact accounted.2.exact
  | ended | undefined =>
      rw [place] at can
      exact can.elim

theorem accounted_testAct {a : Action ρ} (accounted : Accounted params s)
    (smooth : Smooth params s a) (can : CanAct s a) : Accounted params (testAct params s a) := by
  cases a with
  | main ok => exact accounted_testMain accounted smooth can
  | worker i value =>
      obtain ⟨going, defined, enabled⟩ := can
      obtain ⟨w, here, running⟩ := enabled
      have mem : w ∈ s.started := List.mem_append_right _ (List.mem_of_getElem? here)
      unfold Accounted at accounted ⊢
      simp only [testAct]
      cases place : s.phase with
      | ramp | delaying | printing =>
          rw [place] at accounted
          exact absurd (accounted.2.ended w mem) running
      | loading =>
          rw [place] at accounted
          obtain ⟨none, before, tells, frame⟩ := accounted
          exact ⟨none, before, tells, frame_act frame (smooth place) ⟨w, here, running⟩⟩
      | ended => exact absurd place going
      | undefined => exact absurd place defined
  | stop | toggle =>
      unfold Accounted at accounted ⊢
      simp only [testAct]
      cases place : s.phase with
      | loading =>
          rw [place] at accounted
          obtain ⟨none, before, tells, frame⟩ := accounted
          exact ⟨none, before, tells, frame_act frame (smooth place) trivial⟩
      | ramp | delaying | printing | ended | undefined =>
          rw [place] at accounted
          exact accounted

end Step

/-- **Main.** In a run in which `run_load_step` goes on orderly, what is printed at the
end is what the threads have done. -/
theorem printed_exact [Zero ρ] (params : StressParams) (as : List (Action ρ)) (s : Test ρ)
    (run : TestRun params (boot params) as s)
    (smooth : EachTestStep params (Smooth params) (boot params) as) :
    ∀ printed ∈ s.printed, Exact s.started printed := by
  have start : Accounted params (boot params : Test ρ) := by
    exact ⟨rfl, nofun, rfl, rfl, nofun⟩
  have accounted : Accounted params s := run.preserves_each start smooth accounted_testAct
  intro printed mem
  unfold Accounted at accounted
  cases place : s.phase with
  | ended =>
      rw [place] at accounted
      exact accounted printed mem
  | ramp | delaying | printing | loading =>
      rw [place] at accounted
      rw [accounted.1] at mem
      cases mem
  | undefined =>
      rw [place] at accounted
      rw [accounted] at mem
      cases mem

/-- One step with one thread of one iteration. -/
def single : StressParams :=
  { StressParams.default with
    initialThreads := ⟨1, fits_one⟩
    maxThreads := ⟨1, fits_one⟩
    delayMs := ⟨0, by decide⟩
    iterationsPerThread := ⟨1, fits_one⟩ }

/-- `SIGINT` comes when the thread has been joined. -/
def singleRun : List (Action Int) :=
  List.replicate 7 (.main true) ++ List.replicate 6 (.worker 0 5) ++ [.main true, .stop] ++
    List.replicate 9 (.main true)

theorem printed_exact_single :
    ((singleRun.foldl (testAct single) (boot single)).printed = some ⟨1, 0, 1, some 1⟩) ∧
      ∀ printed ∈ (singleRun.foldl (testAct single) (boot single)).printed,
        Exact (singleRun.foldl (testAct single) (boot single)).started printed :=
  ⟨by decide +kernel, printed_exact single singleRun _ (.of_enabled (by decide +kernel))
    (by decide +kernel)⟩

/-- The thread cannot be created. -/
def failedRun : List (Action Int) :=
  List.replicate 4 (.main true) ++ [.main false] ++ List.replicate 9 (.main true)

/-- A thread that was never started is counted, with its iterations. -/
theorem planned_not_done :
    ¬ ∀ (params : StressParams) (as : List (Action Int)) (s : Test Int),
      TestRun params (boot params) as s → ∀ printed ∈ s.printed, Exact s.started printed := by
  intro exact_
  have run : TestRun single (boot single) failedRun
      (failedRun.foldl (testAct single) (boot single)) := .of_enabled (by decide +kernel)
  have printed : (failedRun.foldl (testAct single) (boot single)).printed =
      some ⟨1, 0, 1, some 0⟩ := by decide +kernel
  have none := (exact_ single failedRun _ run _ printed).threads
  have started : (failedRun.foldl (testAct single) (boot single)).started = [] := by
    decide +kernel
  rw [started] at none
  cases none

end Osisp.Stress
