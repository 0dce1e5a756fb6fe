import Mathlib
import Osisp.Workers.Joins

/-!
# The manager comes to its end

Each pass over the slots costs the manager a bounded number of calls, and a thread that
is created costs two more steps; so whatever the workers do and in whatever order, a run
has at most `left .init` steps (`shuts_down`). It cannot stop before `main` has returned,
and then every thread has ended and was joined.
-/

namespace Osisp.Workers

open Lib

/-! ## What is left to do -/

/-- The steps of a thread that are left. -/
def Stage.left : Stage → Nat
  | .running => 2
  | .failing => 1
  | .finished => 0

/-- The calls of the passes behind pass `n`, and of the shutdown: `pthread_create` counts
for three, as it brings a thread. -/
def leftBehind (n : Nat) : Nat := (1 + 6 * numWorkers) * (maxIterations - 1 - n) + 1 + numWorkers

/-- The steps of the manager that are left. -/
def Pc.left : Pc → Nat
  | .start i => 3 * (numWorkers - i) + (1 + 6 * numWorkers) + leftBehind 0
  | .sleeping n => 1 + 6 * numWorkers + leftBehind n
  | .trying n i => 6 * (numWorkers - i) + leftBehind n
  | .checking n i => 6 * (numWorkers - i) - 1 + leftBehind n
  | .joining n i => 6 * (numWorkers - i) - 2 + leftBehind n
  | .restarting n i => 6 * (numWorkers - i) - 3 + leftBehind n
  | .stopping => 1 + numWorkers
  | .shutdown i => numWorkers - i
  | .done | .failed | .undefined => 0

/-- The threads that can still be created. -/
def Pc.creates : Pc → Nat
  | .start i => numWorkers - i + numWorkers * maxIterations
  | .sleeping n => numWorkers * (maxIterations - n)
  | .trying n i | .checking n i | .joining n i | .restarting n i =>
      numWorkers - i + numWorkers * (maxIterations - 1 - n)
  | _ => 0

def leftOf (threads : List Worker) : Nat := (threads.map (·.stage.left)).sum

/-- The steps of a run that are left. -/
def Sys.left (s : Sys) : Nat := s.pc.left + leftOf s.threads

/-- The passes and slots that the manager can be at. -/
def Pc.Within : Pc → Prop
  | .start i | .shutdown i => i < numWorkers
  | .sleeping n => n < maxIterations
  | .trying n i | .checking n i | .joining n i | .restarting n i =>
      n < maxIterations ∧ i < numWorkers
  | .stopping | .done | .failed | .undefined => True

/-- No more threads are created than there are slots and passes. -/
structure Bounded (s : Sys) : Prop where
  within : s.pc.Within
  created : s.threads.length + s.pc.creates ≤ numWorkers + numWorkers * maxIterations

theorem bounded_init : Bounded init where
  within := numWorkers_pos
  created := by decide

/-! ## One step -/

/-- Behind the first `pthread_create` of slot `i`. -/
def started (i : Nat) : Pc := if i + 1 < numWorkers then .start (i + 1) else .sleeping 0

section Next

variable {n i : Nat} (pass : n < maxIterations) (slot : i < numWorkers)
include pass slot

/-- Behind a slot three calls and more are spent. -/
theorem nextSlot_left : (nextSlot n i).left + 3 ≤ (Pc.restarting n i).left ∧
    (nextSlot n i).creates + 1 ≤ (Pc.restarting n i).creates ∧ (nextSlot n i).Within := by
  simp only [numWorkers, maxIterations] at pass slot
  unfold nextSlot
  split
  · rename_i more
    simp only [Pc.left, Pc.creates, Pc.Within, leftBehind, numWorkers, maxIterations] at more ⊢
    omega
  · rename_i last
    split
    · rename_i again
      simp only [Pc.left, Pc.creates, Pc.Within, leftBehind, numWorkers, maxIterations]
        at last again ⊢
      omega
    · rename_i end_
      refine ⟨?_, ?_, trivial⟩ <;>
        simp only [Pc.left, Pc.creates, leftBehind, numWorkers, maxIterations] at last end_ ⊢ <;>
        omega

omit pass in
/-- So are they when a slot gets its first thread. -/
theorem started_left : (started i).left + 3 ≤ (Pc.start i).left ∧
    (started i).creates + 1 ≤ (Pc.start i).creates ∧ (started i).Within := by
  simp only [numWorkers] at slot
  unfold started
  split
  · rename_i more
    simp only [Pc.left, Pc.creates, Pc.Within, leftBehind, numWorkers, maxIterations] at more ⊢
    omega
  · rename_i last
    simp only [Pc.left, Pc.creates, Pc.Within, leftBehind, numWorkers, maxIterations] at last ⊢
    omega

end Next

theorem leftOf_append (ws : List Worker) (w : Worker) :
    leftOf (ws ++ [w]) = leftOf ws + w.stage.left := by
  rw [leftOf, List.map_append, List.sum_append, leftOf]
  rfl

/-- A thread that moves has less to do. -/
theorem leftOf_modify {ws : List Worker} {t : Nat} {w : Worker} (here : ws[t]? = some w)
    (stage : Stage) :
    leftOf (ws.modify t fun w => { w with stage }) + w.stage.left = leftOf ws + stage.left := by
  induction ws generalizing t with
  | nil => cases here
  | cons v ws ih =>
      cases t with
      | zero =>
          cases here
          simp only [leftOf, List.modify_zero_cons, List.map_cons, List.sum_cons]
          omega
      | succ t =>
          have rest := ih (t := t) here
          simp only [leftOf, List.modify_succ_cons, List.map_cons, List.sum_cons] at rest ⊢
          omega

section Step

variable {s : Sys} {i t : Nat} {next : Pc}

/-- The manager goes on without creating a thread. -/
theorem Bounded.goto (h : Bounded s) {s' : Sys} (pc : s'.pc = next)
    (threads : s'.threads = s.threads) (within : next.Within)
    (creates : next.creates ≤ s.pc.creates) (less : next.left < s.pc.left) :
    Bounded s' ∧ s'.left < s.left := by
  have created := h.created
  refine ⟨⟨?_, ?_⟩, ?_⟩
  · rwa [pc]
  · rw [pc, threads]
    omega
  · rw [Sys.left, pc, threads, Sys.left]
    omega

/-- A join, or one that has no meaning. -/
theorem Bounded.joinThen (h : Bounded s) (i : Nat) (within : next.Within)
    (creates : next.creates ≤ s.pc.creates) (less : next.left < s.pc.left) :
    Bounded (s.joinThen i next) ∧ (s.joinThen i next).left < s.left := by
  unfold Sys.joinThen
  split
  · exact h.goto rfl rfl trivial (Nat.zero_le _) (Nat.zero_lt_of_lt less)
  · exact h.goto rfl rfl within creates less

/-- A call of `pthread_create`. -/
theorem Bounded.createFor (h : Bounded s) (i : Nat) (ok : Bool) (within : next.Within)
    (creates : next.creates + 1 ≤ s.pc.creates) (less : next.left + 3 ≤ s.pc.left) :
    Bounded { s.createFor i ok with pc := next } ∧
      Sys.left { s.createFor i ok with pc := next } < s.left := by
  cases ok with
  | false =>
      have fewer : next.creates ≤ s.pc.creates := Nat.le_of_succ_le creates
      have shorter : next.left < s.pc.left := by omega
      exact h.goto rfl rfl within fewer shorter
  | true =>
      have created := h.created
      refine ⟨⟨within, ?_⟩, ?_⟩
      · change (s.threads ++ [_]).length + next.creates ≤ _
        rw [List.length_append, List.length_singleton]
        omega
      · change next.left + leftOf (s.threads ++ [_]) < s.pc.left + leftOf s.threads
        rw [leftOf_append]
        simp only [Stage.left]
        omega

/-- A call of the manager. -/
theorem Bounded.manage (h : Bounded s) (ok : Bool) (ready : s.Ready) :
    Bounded (s.manage ok) ∧ (s.manage ok).left < s.left := by
  have within := h.within
  cases pc : s.pc with
  | start i =>
      rw [pc] at within
      obtain ⟨left, creates, next⟩ := started_left within
      simp only [Sys.manage, pc]
      split
      · exact h.createFor i ok next (by rwa [pc]) (by rwa [pc])
      · refine h.createFor i ok trivial ?_ ?_ <;> rw [pc]
        · exact Nat.le_trans (Nat.succ_le_succ (Nat.zero_le _)) creates
        · exact Nat.le_trans (Nat.le_add_left _ _) left
  | sleeping n =>
      rw [pc] at within
      simp only [Sys.manage, pc]
      refine h.goto rfl rfl ⟨within, numWorkers_pos⟩ ?_ ?_
      · rw [pc]
        simp only [Pc.Within, Pc.creates, numWorkers, maxIterations] at within ⊢
        omega
      · rw [pc]
        simp only [Pc.left]
        omega
  | trying n i =>
      rw [pc] at within
      have slot : i < numWorkers := within.2
      simp only [Sys.manage, pc]
      split
      · refine h.goto rfl rfl trivial (Nat.zero_le _) ?_
        rw [pc]
        simp only [Pc.left]
        omega
      · split
        · refine h.joinThen i within (by rw [pc]; exact le_rfl) ?_
          rw [pc]
          simp only [Pc.left]
          omega
        · refine h.goto rfl rfl within (by rw [pc]; exact le_rfl) ?_
          rw [pc]
          simp only [Pc.left]
          omega
  | checking n i =>
      rw [pc] at within
      obtain ⟨pass, slot⟩ := within
      obtain ⟨left, creates, within⟩ := nextSlot_left pass slot
      simp only [Sys.manage, pc]
      split
      · refine h.goto rfl rfl within ?_ ?_
        · rw [pc]
          exact Nat.le_of_succ_le creates
        · rw [pc]
          simp only [Pc.left] at left ⊢
          omega
      · refine h.goto rfl rfl ⟨pass, slot⟩ (by rw [pc]; exact le_rfl) ?_
        rw [pc]
        simp only [Pc.left]
        omega
  | joining n i =>
      rw [pc] at within
      have slot : i < numWorkers := within.2
      simp only [Sys.manage, pc]
      refine h.joinThen i within (by rw [pc]; exact le_rfl) ?_
      rw [pc]
      simp only [Pc.left]
      omega
  | restarting n i =>
      rw [pc] at within
      obtain ⟨left, creates, next⟩ := nextSlot_left within.1 within.2
      simp only [Sys.manage, pc]
      exact h.createFor i ok next (by rwa [pc]) (by rwa [pc])
  | stopping =>
      simp only [Sys.manage, pc]
      exact h.goto rfl rfl numWorkers_pos (by rw [pc]; exact le_rfl)
        (by rw [pc]; simp only [Pc.left]; omega)
  | shutdown i =>
      rw [pc] at within
      have slot : i < numWorkers := within
      simp only [Sys.manage, pc]
      split
      · rename_i more
        exact h.joinThen i more (by rw [pc]; exact le_rfl) (by rw [pc]; simp only [Pc.left]; omega)
      · exact h.joinThen i trivial (by rw [pc]; exact le_rfl)
          (by rw [pc]; simp only [Pc.left]; omega)
  | done | failed | undefined =>
      rw [Sys.Ready, pc] at ready
      exact ready.elim

/-- A thread moves. -/
theorem Bounded.setStage (h : Bounded s) {s' : Sys} {w : Worker} {stage : Stage}
    (pc : s'.pc = s.pc) (threads : s'.threads = (s.setStage t stage).threads)
    (here : s.threads[t]? = some w) (less : stage.left < w.stage.left) :
    Bounded s' ∧ s'.left < s.left := by
  have moved := leftOf_modify here stage
  refine ⟨⟨?_, ?_⟩, ?_⟩
  · rw [pc]
    exact h.within
  · rw [pc, threads]
    change (s.threads.modify t _).length + _ ≤ _
    rw [List.length_modify]
    exact h.created
  · rw [Sys.left, Sys.left, pc, threads]
    change s.pc.left + leftOf (s.threads.modify t _) < _
    omega

/-- **Every step** leaves less to do. -/
theorem Bounded.act (h : Bounded s) {a : Action} (enabled : Enabled s a) :
    Bounded (act s a) ∧ (act s a).left < s.left := by
  cases a with
  | manager ok => exact h.manage ok enabled
  | fails t =>
      obtain ⟨w, here, running⟩ := enabled
      have found : s.threads[t]? = some w := here
      have eq : Workers.act s (.fails t) = (s.setStage t .failing).setSlot w.slot
          { s.workers w.slot with isActive := false } := by
        simp only [Workers.act, found]
      rw [eq]
      exact h.setStage rfl rfl found (by rw [running]; decide)
  | exits t =>
      obtain ⟨w, here, stage⟩ := enabled
      refine h.setStage rfl rfl (show s.threads[t]? = some w from here) ?_
      rcases stage with failing | ⟨running, -⟩
      · rw [failing]
        decide
      · rw [running]
        decide

end Step

/-- **No run goes on for ever.** Whatever `pthread_create` returns, and whenever workers fail,
a run has at most 267 steps and creates at most 44 threads. If no `pthread_create` fails but
maybe the first, a run that cannot go on is at the end of `main`, and each of its threads
has ended and was joined. -/
theorem shuts_down (as : List Action) (s : Sys) (run : Run init as s) :
    as.length ≤ 267 ∧ s.threads.length ≤ 44 ∧
      (EachStep Created init as → (∀ a, ¬ Enabled s a) →
        (s.pc = .done ∨ s.pc = .failed) ∧ ∀ t < s.threads.length, t ∈ s.joined ∧ s.Finished t) := by
  have short := Lib.Run.length_le Sys.left run bounded_init fun h enabled => h.act enabled
  have bounded : Bounded s := run.preserves bounded_init fun h enabled => (h.act enabled).1
  have first : init.left = 267 := by decide
  have created := bounded.created
  simp only [numWorkers, maxIterations] at created
  refine ⟨by omega, by omega, fun creates stuck => ?_⟩
  have inv : Inv s := Lib.Run.preserves_each run inv_init creates inv_act
  have ended : s.pc = .done ∨ s.pc = .failed := by
    by_contra going
    rw [not_or] at going
    obtain ⟨a, enabled⟩ := inv.not_stuck going
    exact stuck a enabled
  refine ⟨ended, fun t inside => ?_⟩
  have joined := inv.sound.all ended t inside
  exact ⟨joined, inv.finished t joined⟩

/-- The run with one failure and one restart. -/
theorem shuts_down_restart :
    restartRun.length ≤ 267 ∧ ∀ t < (restartRun.foldl act init).threads.length,
      (restartRun.foldl act init).Finished t := by
  obtain ⟨short, -, ended⟩ :=
    shuts_down restartRun _ (.of_enabled (by decide +kernel))
  have all : ∀ w ∈ (restartRun.foldl act init).threads, w.stage = .finished := by decide +kernel
  have done : (restartRun.foldl act init).pc = .done := by decide +kernel
  have stuck : ∀ a, ¬ Enabled (restartRun.foldl act init) a := by
    intro a enabled
    cases a with
    | manager ok =>
        simp only [Enabled, Sys.Ready, done] at enabled
    | fails t =>
        obtain ⟨w, here, running⟩ := enabled
        cases (all w (List.mem_of_getElem? here)).symm.trans running
    | exits t =>
        obtain ⟨w, here, moves⟩ := enabled
        rw [all w (List.mem_of_getElem? here)] at moves
        rcases moves with failing | ⟨running, -⟩
        · cases failing
        · cases running
  exact ⟨short, fun t inside => ((ended (by decide +kernel) stuck).2 t inside).2⟩

end Osisp.Workers
