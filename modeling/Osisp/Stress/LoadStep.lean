import Osisp.Lib.System

/-!
# One step of the stress test (`LabWork_5/stress_test.c`)

`run_load_step` fills in an array of `thread_stats_t` on its stack, starts a thread
for each entry, joins them and adds the entries up; the threads run one of the load
functions, which differ in what they compute only. The main thread, the workers and
the signals take turns, one test, call or store at a time. The values of type
`double` are those of a type `ρ` that is left open: nothing is computed with them.
-/

namespace Osisp.Stress

open Lib

def maxThreads : Nat := 1024

/-- `thread_stats_t`. -/
structure ThreadStats (ρ : Type) where
  threadId : Nat
  iterations : UInt64
  result : ρ
  elapsedTime : ρ
  isActive : Bool
  deriving DecidableEq

/-! ## The load functions -/

/-- Where a load function is. -/
inductive LoadPc
  /-- About to test `i < stats->iterations && g_running`. -/
  | test
  /-- About to look at `g_pause`. -/
  | body
  /-- About to store `result`. -/
  | storeResult
  | storeTime
  | storeActive
  /-- The thread has ended. -/
  | finished
  deriving DecidableEq

/-- A thread: its loop index, where it is, and the indices it worked for. -/
structure Worker where
  index : UInt64
  pc : LoadPc
  executed : List UInt64
  deriving DecidableEq

def Worker.start : Worker := ⟨0, .test, []⟩

/-- What a thread does next, with the value it stores if it stores one. -/
def Worker.step {ρ : Type} (running pause : Bool) (value : ρ) (w : Worker)
    (stats : ThreadStats ρ) : Worker × ThreadStats ρ :=
  match w.pc with
  | .test =>
      if w.index < stats.iterations ∧ running then ({ w with pc := .body }, stats)
      else ({ w with pc := .storeResult }, stats)
  | .body =>
      -- `i--; continue;` and then the `i++` of the loop.
      if pause then ({ w with pc := .test, index := w.index - 1 + 1 }, stats)
      else
        ({ w with pc := .test, index := w.index + 1, executed := w.executed ++ [w.index] }, stats)
  | .storeResult => ({ w with pc := .storeTime }, { stats with result := value })
  | .storeTime => ({ w with pc := .storeActive }, { stats with elapsedTime := value })
  | .storeActive => ({ w with pc := .finished }, { stats with isActive := false })
  | .finished => (w, stats)

/-! ## The step -/

/-- Where `run_load_step` is. -/
inductive MainPc
  | enter
  /-- About to fill in `stats[i]`. -/
  | filling (i : Nat)
  /-- About to create thread `i`. -/
  | creating (i : Nat)
  /-- About to test `i < num_threads && g_running`. -/
  | joinTest (i : Nat)
  /-- In `pthread_join (threads[i], NULL)`. -/
  | joining (i : Nat)
  /-- In the loop that adds up `total_iterations`. -/
  | adding (i : Nat)
  /-- In the loop that adds up the times and copies the entries. -/
  | collecting (i : Nat)
  | returned (result : Int)
  deriving DecidableEq

/-- `global_stats_t`; `total_threads` is the number of entries in use. -/
structure GlobalStats (ρ : Type) where
  activeThreads : Int
  totalIterations : UInt64
  threads : List (ThreadStats ρ)
  deriving DecidableEq

/-- The threads are known by the index of their entry. `figures` records the
entries as they were when one of the last two loops read them. -/
structure Sys (ρ : Type) where
  running : Bool
  pause : Bool
  main : MainPc
  stats : List (ThreadStats ρ)
  workers : List Worker
  global : GlobalStats ρ
  figures : List (Nat × ThreadStats ρ)
  deriving DecidableEq

/-- `run_load_step` is entered. -/
def enter {ρ : Type} (running pause : Bool) (global : GlobalStats ρ) : Sys ρ :=
  ⟨running, pause, .enter, [], [], global, []⟩

inductive Action (ρ : Type)
  /-- The main thread goes on; `ok` is the outcome of a `pthread_create`. -/
  | main (ok : Bool)
  /-- Thread `i` goes on, with the value it stores if it stores one. -/
  | worker (i : Nat) (value : ρ)
  /-- `SIGINT` or `SIGTERM`. -/
  | stop
  /-- `SIGUSR1`. -/
  | toggle
  deriving DecidableEq

variable {ρ : Type}

/-- When the next step can be made and does not block. -/
def Enabled (s : Sys ρ) : Action ρ → Prop
  | .main _ =>
      match s.main with
      | .joining i => ∃ w ∈ s.workers[i]?, w.pc = .finished
      | .returned _ => False
      | _ => True
  | .worker i _ => ∃ w ∈ s.workers[i]?, w.pc ≠ .finished
  | .stop | .toggle => True

/-- One of the last two loops reads `stats[i]`. -/
def Sys.reads (s : Sys ρ) (i : Nat) : Sys ρ :=
  { s with figures := s.figures ++ (s.stats[i]?.map fun stats => (i, stats)).toList }

section Step

variable [Zero ρ] (numThreads : Int) (iterations : UInt64)

/-- The next step of the main thread. -/
def mainStep (s : Sys ρ) (ok : Bool) : Sys ρ :=
  match s.main with
  | .enter =>
      if numThreads > maxThreads then { s with main := .returned (-1) }
      else { s with main := .filling 0 }
  | .filling i =>
      if i < numThreads then
        { s with main := .filling (i + 1), stats := s.stats ++ [⟨i, iterations, 0, 0, true⟩] }
      else { s with main := .creating 0, global := { s.global with activeThreads := numThreads } }
  | .creating i =>
      if i < numThreads then
        if ok then { s with main := .creating (i + 1), workers := s.workers ++ [.start] }
        else { s with main := .joinTest 0, running := false }
      else { s with main := .joinTest 0 }
  | .joinTest i =>
      if i < numThreads ∧ s.running then { s with main := .joining i }
      else { s with main := .adding 0, global := { s.global with activeThreads := 0 } }
  | .joining i => { s with main := .joinTest (i + 1) }
  | .adding i =>
      if i < numThreads then
        { s.reads i with
          main := .adding (i + 1)
          global := { s.global with
            totalIterations := s.global.totalIterations +
              (s.stats[i]?.map ThreadStats.iterations).getD 0 } }
      else { s with main := .collecting 0 }
  | .collecting i =>
      if i < numThreads then
        { s.reads i with
          main := .collecting (i + 1)
          global := { s.global with
            threads :=
              if s.global.threads.length < maxThreads then s.global.threads ++ s.stats[i]?.toList
              else s.global.threads } }
      else { s with main := .returned 0 }
  | .returned _ => s

/-- The next step of thread `i`. -/
def workerStep (s : Sys ρ) (i : Nat) (value : ρ) : Sys ρ :=
  match s.workers[i]?, s.stats[i]? with
  | some w, some stats =>
      let next := w.step s.running s.pause value stats
      { s with workers := s.workers.set i next.1, stats := s.stats.set i next.2 }
  | _, _ => s

def act (s : Sys ρ) : Action ρ → Sys ρ
  | .main ok => mainStep numThreads iterations s ok
  | .worker i value => workerStep s i value
  | .stop => { s with running := false }
  | .toggle => { s with pause := !s.pause }

instance (s : Sys ρ) (a : Action ρ) : Decidable (Enabled s a) := by
  cases a with
  | main ok =>
      rcases s with ⟨running, pause, main, stats, workers, global, figures⟩
      cases main <;> unfold Enabled <;> infer_instance
  | worker i value => exact inferInstanceAs (Decidable (∃ w ∈ s.workers[i]?, w.pc ≠ .finished))
  | stop | toggle => exact isTrue trivial

/-- A run of `run_load_step (num_threads, iterations, …)`. -/
abbrev Run : Sys ρ → List (Action ρ) → Sys ρ → Prop := Lib.Run Enabled (act numThreads iterations)

abbrev EachStep : (Sys ρ → Action ρ → Prop) → Sys ρ → List (Action ρ) → Prop :=
  Lib.EachStep (act numThreads iterations)

end Step

/-! ## What the next step changes -/

section MainStep

variable [Zero ρ] {numThreads : Int} {iterations : UInt64} {s : Sys ρ} {ok : Bool}

/-- Entries are added by the loop that fills them in. -/
theorem mainStep_stats :
    (mainStep numThreads iterations s ok).stats = s.stats ∨
      ∃ i, s.main = .filling i ∧
        (mainStep numThreads iterations s ok).stats =
          s.stats ++ [⟨i, iterations, 0, 0, true⟩] := by
  cases place : s.main with
  | filling i =>
      simp only [mainStep, place]
      split
      · exact .inr ⟨i, rfl, rfl⟩
      · exact .inl rfl
  | creating i =>
      simp only [mainStep, place]
      split
      · split <;> exact .inl rfl
      · exact .inl rfl
  | enter | joinTest | adding | collecting =>
      simp only [mainStep, place]
      split <;> exact .inl rfl
  | joining | returned => simp only [mainStep, place, true_or]

/-- Threads are added by the loop that creates them. -/
theorem mainStep_workers :
    (mainStep numThreads iterations s ok).workers = s.workers ∨
      ∃ i, s.main = .creating i ∧
        (mainStep numThreads iterations s ok).workers = s.workers ++ [.start] := by
  cases place : s.main with
  | creating i =>
      simp only [mainStep, place]
      split
      · split
        · exact .inr ⟨i, rfl, rfl⟩
        · exact .inl rfl
      · exact .inl rfl
  | enter | filling | joinTest | adding | collecting =>
      simp only [mainStep, place]
      split <;> exact .inl rfl
  | joining | returned => simp only [mainStep, place, true_or]

/-- `g_running` is cleared when a thread cannot be created. -/
theorem mainStep_running (created : ok = true) :
    (mainStep numThreads iterations s ok).running = s.running := by
  cases place : s.main with
  | creating i =>
      simp only [mainStep, place, created]
      split <;> rfl
  | enter | filling | joinTest | adding | collecting =>
      simp only [mainStep, place]
      split <;> rfl
  | joining | returned => simp only [mainStep, place]

end MainStep

section WorkerStep

variable {s : Sys ρ} {i : Nat} {value : ρ}

theorem workerStep_eq {w : Worker} {stats : ThreadStats ρ} (here : s.workers[i]? = some w)
    (own : s.stats[i]? = some stats) :
    workerStep s i value =
      { s with
        workers := s.workers.set i (w.step s.running s.pause value stats).1
        stats := s.stats.set i (w.step s.running s.pause value stats).2 } := by
  simp only [workerStep, here, own]

theorem workerStep_none (none : s.workers[i]? = none ∨ s.stats[i]? = none) :
    workerStep s i value = s := by
  unfold workerStep
  split
  · next here own =>
      rcases none with eq | eq
      · cases here.symm.trans eq
      · cases own.symm.trans eq
  · rfl

@[simp] theorem workerStep_main : (workerStep s i value).main = s.main := by
  unfold workerStep
  split <;> rfl

@[simp] theorem workerStep_running : (workerStep s i value).running = s.running := by
  unfold workerStep
  split <;> rfl

@[simp] theorem workerStep_figures : (workerStep s i value).figures = s.figures := by
  unfold workerStep
  split <;> rfl

@[simp] theorem length_workerStep : (workerStep s i value).workers.length = s.workers.length := by
  unfold workerStep
  split
  · exact List.length_set
  · rfl

theorem workerStep_other {j : Nat} (other : j ≠ i) :
    (workerStep s i value).workers[j]? = s.workers[j]? := by
  unfold workerStep
  split
  · exact List.getElem?_set_ne (Ne.symm other)
  · rfl

end WorkerStep

end Osisp.Stress
