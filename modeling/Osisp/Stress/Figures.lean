import Osisp.Stress.Joined

/-!
# What the step adds up

`run_load_step` adds the iterations that each thread was to make, not those it made,
and copies the entries while the table has room. The two are the same as long as no
thread is cut short, all of them are created and joined, the table has room and the
sum stays below 2^64 (`frame_act`).
-/

namespace Osisp.Stress

open Lib

variable {ρ : Type}

/-! ## One thread -/

/-- A thread that is not cut short: it has worked for the indices below `index`. -/
structure Worked (iterations : UInt64) (w : Worker) : Prop where
  executed : w.executed.length = w.index.toNat
  within : w.index ≤ iterations
  body : w.pc = .body → w.index < iterations
  left : w.pc ≠ .test → w.pc ≠ .body → w.index = iterations

/-- The entry of a thread that has ended is marked. -/
def Marked (w : Worker) (stats : ThreadStats ρ) : Prop :=
  w.pc = .finished → stats.isActive = false

variable {iterations : UInt64} {w : Worker} {running pause : Bool} {value : ρ}
  {stats : ThreadStats ρ}

theorem worked_start : Worked iterations .start where
  executed := rfl
  within := UInt64.zero_le
  body := nofun
  left other := absurd rfl other

theorem iterations_step :
    (w.step running pause value stats).2.iterations = stats.iterations := by
  unfold Worker.step
  cases w.pc with
  | test | body =>
      dsimp only
      split <;> rfl
  | storeResult | storeTime | storeActive | finished => rfl

theorem worked_step (worked : Worked stats.iterations w)
    (goesOn : w.pc = .test → w.index < stats.iterations → running) :
    Worked stats.iterations (w.step running pause value stats).1 := by
  obtain ⟨executed, within, body, left⟩ := worked
  unfold Worker.step
  cases place : w.pc with
  | test =>
      simp only
      split
      · next inside => exact ⟨executed, within, fun _ => inside.1, fun _ other => absurd rfl other⟩
      · next outside =>
          refine ⟨executed, within, nofun, fun _ _ => ?_⟩
          rcases UInt64.lt_or_eq_of_le within with more | done
          · exact absurd ⟨more, goesOn place more⟩ outside
          · exact done
  | body =>
      have inside := body place
      simp only
      split
      · rw [UInt64.sub_add_cancel]
        exact ⟨executed, within, nofun, fun other => absurd rfl other⟩
      · have next : (w.index + 1).toNat = w.index.toNat + 1 := by
          have less := UInt64.lt_iff_toNat_lt.mp inside
          have upper := stats.iterations.toNat_lt
          rw [UInt64.toNat_add, UInt64.toNat_one, Nat.mod_eq_of_lt (by omega)]
        refine ⟨?_, ?_, nofun, fun other => absurd rfl other⟩
        · rw [List.length_append, executed, next]
          rfl
        · apply UInt64.le_iff_toNat_le.mpr
          rw [next]
          exact UInt64.lt_iff_toNat_lt.mp inside
  | storeResult | storeTime | storeActive =>
      refine ⟨executed, within, nofun, fun _ _ => left ?_ ?_⟩
      · rw [place]
        nofun
      · rw [place]
        nofun
  | finished => exact ⟨executed, within, body, left⟩

theorem marked_step (marked : Marked w stats) :
    Marked (w.step running pause value stats).1 (w.step running pause value stats).2 := by
  unfold Worker.step
  intro ended
  cases place : w.pc with
  | test | body =>
      simp only [place] at ended
      split at ended <;> cases ended
  | storeResult | storeTime =>
      simp only [place] at ended
      cases ended
  | storeActive => rfl
  | finished => exact marked place

/-- All of its iterations are done when such a thread has ended. -/
theorem Worked.all (worked : Worked iterations w) (ended : w.pc = .finished) :
    w.executed.length = iterations.toNat := by
  rw [worked.executed, worked.left (by rw [ended]; nofun) (by rw [ended]; nofun)]

/-! ## All threads of a step -/

/-- Each entry has the number of iterations that the step was called with. -/
def Entries (iterations : UInt64) (s : Sys ρ) : Prop :=
  ∀ stats ∈ s.stats, stats.iterations = iterations

/-- The threads of a step, each of them with its entry. -/
structure Threads (iterations : UInt64) (s : Sys ρ) : Prop where
  worked : ∀ w ∈ s.workers, Worked iterations w
  marked : ∀ (i : Nat) w stats, s.workers[i]? = some w → s.stats[i]? = some stats → Marked w stats

/-- What has been added up where the main thread is, starting from `before`. -/
def Tallied (numThreads : Int) (iterations : UInt64) (before : GlobalStats ρ) (s : Sys ρ) : Prop :=
  let kept := s.global.totalIterations = before.totalIterations ∧ s.global.threads = before.threads
  let full := s.stats.length = numThreads.toNat ∧ s.workers.length = numThreads.toNat
  match s.main with
  | .enter => s.stats = [] ∧ s.workers = [] ∧ kept
  | .filling i => s.stats.length = i ∧ i ≤ numThreads.toNat ∧ s.workers = [] ∧ kept
  | .creating i => s.stats.length = numThreads.toNat ∧ s.workers.length = i ∧
      i ≤ numThreads.toNat ∧ kept
  | .joinTest _ | .joining _ => full ∧ kept
  | .adding i => full ∧ i ≤ numThreads.toNat ∧
      s.global.totalIterations.toNat = before.totalIterations.toNat + i * iterations.toNat ∧
      s.global.threads = before.threads
  | .collecting i => full ∧ i ≤ numThreads.toNat ∧
      s.global.totalIterations.toNat =
        before.totalIterations.toNat + numThreads.toNat * iterations.toNat ∧
      s.global.threads = before.threads ++ s.stats.take i
  | .returned result =>
      if result < 0 then s.workers = [] ∧ kept
      else full ∧
        s.global.totalIterations.toNat =
          before.totalIterations.toNat + numThreads.toNat * iterations.toNat ∧
        s.global.threads = before.threads ++ s.stats

/-- Each thread is created, makes all its iterations, and has ended before the step
stops waiting; the sum fits in 64 bits, and the table has a place for each entry. -/
def Orderly (numThreads : Int) (iterations : UInt64) (s : Sys ρ) : Action ρ → Prop
  | .main ok =>
      match s.main with
      | .creating i => i < numThreads → ok
      | .joinTest _ => s.running = false → AllFinished s
      | .adding i =>
          i < numThreads → s.global.totalIterations.toNat + iterations.toNat < 2 ^ 64
      | .collecting i => i < numThreads → s.global.threads.length < maxThreads
      | _ => True
  | .worker i _ =>
      ∀ w ∈ s.workers[i]?, w.pc = .test → w.index < iterations → s.running
  | .stop | .toggle => True

instance (numThreads : Int) (iterations : UInt64) (s : Sys ρ) (a : Action ρ) :
    Decidable (Orderly numThreads iterations s a) := by
  induction a using Action.casesOn with
  | main ok =>
      rcases s with ⟨running, pause, main, stats, workers, global, figures⟩
      induction main using MainPc.casesOn <;> unfold Orderly <;> infer_instance
  | worker i value =>
      unfold Orderly
      infer_instance
  | stop | toggle => exact isTrue trivial

variable {numThreads : Int} {before : GlobalStats ρ} {s : Sys ρ} {i : Nat}

theorem Orderly.noneLeft {a : Action ρ} (orderly : Orderly numThreads iterations s a) :
    NoneLeft s a := by
  cases a with
  | main ok =>
      unfold Orderly at orderly
      unfold NoneLeft
      cases place : s.main with
      | joinTest i =>
          rw [place] at orderly
          exact orderly
      | _ => trivial
  | worker | stop | toggle => trivial

/-! ## The main thread -/

theorem getElem?_concat {α : Type} {l : List α} {x y : α} (here : (l ++ [x])[i]? = some y) :
    l[i]? = some y ∨ y = x := by
  rcases Nat.lt_or_ge i l.length with inside | beyond
  · left
    rwa [List.getElem?_append_left inside] at here
  · right
    rw [List.getElem?_append_right beyond] at here
    exact List.mem_singleton.mp (List.mem_of_getElem? here)

section Step

variable [Zero ρ]

theorem entries_mainStep {ok : Bool} (entries : Entries iterations s) :
    Entries iterations (mainStep numThreads iterations s ok) := by
  intro stats mem
  rcases mainStep_stats (s := s) with same | ⟨i, -, filled⟩
  · rw [same] at mem
    exact entries stats mem
  · rw [filled] at mem
    rcases List.mem_append.mp mem with old | new
    · exact entries stats old
    · rw [List.mem_singleton.mp new]

theorem threads_mainStep {ok : Bool} (tallied : Tallied numThreads iterations before s)
    (threads : Threads iterations s) :
    Threads iterations (mainStep numThreads iterations s ok) := by
  obtain ⟨worked, marked⟩ := threads
  rcases mainStep_workers (s := s) with same | ⟨i, place, created⟩
  · refine ⟨fun w mem => worked w (same ▸ mem), fun j w stats here own => ?_⟩
    rw [same] at here
    rcases mainStep_stats (s := s) with same' | ⟨i, place, -⟩
    · rw [same'] at own
      exact marked j w stats here own
    · unfold Tallied at tallied
      rw [place] at tallied
      rw [tallied.2.2.1] at here
      cases here
  · have same : (mainStep numThreads iterations s ok).stats = s.stats := by
      rcases mainStep_stats (s := s) with same | ⟨j, other, -⟩
      · exact same
      · cases place.symm.trans other
    refine ⟨fun w mem => ?_, fun j w stats here own => ?_⟩
    · rw [created] at mem
      rcases List.mem_append.mp mem with old | new
      · exact worked w old
      · rw [List.mem_singleton.mp new]
        exact worked_start
    · rw [created] at here
      rw [same] at own
      rcases getElem?_concat here with old | rfl
      · exact marked j w stats old own
      · exact nofun

theorem tallied_mainStep {ok : Bool} (entries : Entries iterations s)
    (tallied : Tallied numThreads iterations before s)
    (orderly : Orderly numThreads iterations s (.main ok)) (enabled : Enabled s (.main ok)) :
    Tallied numThreads iterations before (mainStep numThreads iterations s ok) := by
  unfold Tallied at tallied
  unfold Orderly at orderly
  cases place : s.main with
  | enter =>
      rw [place] at tallied
      obtain ⟨empty, none, kept⟩ := tallied
      simp only [mainStep, place]
      split
      · exact ⟨none, kept⟩
      · exact ⟨by rw [empty]; rfl, Nat.zero_le _, none, kept⟩
  | filling i =>
      rw [place] at tallied
      obtain ⟨filled, few, none, kept⟩ := tallied
      simp only [mainStep, place]
      split
      · next more => exact ⟨by rw [List.length_append, filled]; rfl, by omega, none, kept⟩
      · next last => exact ⟨filled.trans (by omega), by rw [none]; rfl, Nat.zero_le _, kept⟩
  | creating i =>
      rw [place] at tallied orderly
      obtain ⟨filled, created, few, kept⟩ := tallied
      simp only [mainStep, place]
      split
      · next more =>
          rw [if_pos (orderly more)]
          exact ⟨filled, by rw [List.length_append, created]; rfl, by omega, kept⟩
      · next last => exact ⟨⟨filled, created.trans (by omega)⟩, kept⟩
  | joinTest i =>
      rw [place] at tallied
      obtain ⟨full, kept⟩ := tallied
      simp only [mainStep, place]
      split
      · exact ⟨full, kept⟩
      · refine ⟨full, Nat.zero_le _, ?_, kept.2⟩
        rw [kept.1, Nat.zero_mul, Nat.add_zero]
  | joining i =>
      rw [place] at tallied
      simp only [mainStep, place]
      exact tallied
  | adding i =>
      rw [place] at tallied orderly
      obtain ⟨full, few, sum, copied⟩ := tallied
      simp only [mainStep, place]
      split
      · next more =>
          have inside : i < s.stats.length := by omega
          have planned : (s.stats[i]?.map ThreadStats.iterations).getD 0 = iterations := by
            rw [List.getElem?_eq_getElem inside]
            exact entries _ (List.getElem_mem inside)
          refine ⟨full, by omega, ?_, copied⟩
          rw [planned, UInt64.toNat_add, Nat.mod_eq_of_lt (orderly more), sum, Nat.succ_mul,
            Nat.add_assoc]
      · next last =>
          obtain rfl : i = numThreads.toNat := by omega
          refine ⟨full, Nat.zero_le _, sum, ?_⟩
          rw [copied]
          exact (List.append_nil _).symm
  | collecting i =>
      rw [place] at tallied orderly
      obtain ⟨full, few, sum, copied⟩ := tallied
      simp only [mainStep, place]
      split
      · next more =>
          have inside : i < s.stats.length := by omega
          refine ⟨full, by omega, sum, ?_⟩
          rw [if_pos (orderly more), copied, List.append_assoc, List.getElem?_eq_getElem inside]
          exact congrArg _ (List.take_append_getElem inside)
      · next last =>
          obtain rfl : i = numThreads.toNat := by omega
          refine ⟨full, sum, ?_⟩
          rw [copied, ← full.1, List.take_length]
  | returned result =>
      simp only [Enabled, place] at enabled

end Step

/-! ## The threads -/

/-- A step of a thread leaves what the main thread has done as it is. -/
theorem tallied_workerStep {value : ρ} (joined : Joined numThreads s)
    (tallied : Tallied numThreads iterations before s) (enabled : Enabled s (.worker i value)) :
    Tallied numThreads iterations before (workerStep s i value) := by
  obtain ⟨w, here, running⟩ := enabled
  have mem : w ∈ s.workers := List.mem_of_getElem? here
  cases own : s.stats[i]? with
  | none => rwa [workerStep_none (.inr own)]
  | some stats =>
      unfold Joined at joined
      unfold Tallied at tallied ⊢
      rw [workerStep_eq here own]
      cases place : s.main with
      | enter =>
          rw [place] at tallied
          rw [tallied.2.1] at mem
          exact absurd mem List.not_mem_nil
      | filling n =>
          rw [place] at tallied
          rw [tallied.2.2.1] at mem
          exact absurd mem List.not_mem_nil
      | creating n | joinTest n | joining n =>
          rw [place] at tallied
          simp only [List.length_set]
          exact tallied
      | adding n | collecting n | returned n =>
          rw [place] at joined
          exact absurd (joined.1 w mem) running

theorem entries_workerStep {value : ρ} (entries : Entries iterations s) :
    Entries iterations (workerStep s i value) := by
  cases here : s.workers[i]? with
  | none => rwa [workerStep_none (.inl here)]
  | some w =>
      cases own : s.stats[i]? with
      | none => rwa [workerStep_none (.inr own)]
      | some stats =>
          rw [workerStep_eq here own]
          intro stats' mem
          rcases List.mem_or_eq_of_mem_set mem with old | rfl
          · exact entries stats' old
          · exact iterations_step.trans (entries stats (List.mem_of_getElem? own))

theorem threads_workerStep {value : ρ} (entries : Entries iterations s)
    (threads : Threads iterations s)
    (goesOn : ∀ w ∈ s.workers[i]?, w.pc = .test → w.index < iterations → s.running) :
    Threads iterations (workerStep s i value) := by
  cases here : s.workers[i]? with
  | none => rwa [workerStep_none (.inl here)]
  | some w =>
      cases own : s.stats[i]? with
      | none => rwa [workerStep_none (.inr own)]
      | some stats =>
          obtain ⟨worked, marked⟩ := threads
          have planned := entries stats (List.mem_of_getElem? own)
          rw [workerStep_eq here own]
          refine ⟨fun w' mem => ?_, fun j w' stats' at_ at_' => ?_⟩
          · rcases List.mem_or_eq_of_mem_set mem with old | rfl
            · exact worked w' old
            · have before := worked w (List.mem_of_getElem? here)
              rw [← planned] at before goesOn ⊢
              exact worked_step before (goesOn w here)
          · rcases Nat.decEq i j with other | rfl
            · rw [List.getElem?_set_ne other] at at_ at_'
              exact marked j w' stats' at_ at_'
            · have inside := (List.getElem?_eq_some_iff.mp here).1
              have inside' := (List.getElem?_eq_some_iff.mp own).1
              rw [List.getElem?_set_self inside] at at_
              rw [List.getElem?_set_self inside'] at at_'
              obtain rfl := Option.some.inj at_
              obtain rfl := Option.some.inj at_'
              exact marked_step (marked i w stats here own)

/-! ## The whole step -/

theorem entries_act [Zero ρ] {a : Action ρ} (entries : Entries iterations s) :
    Entries iterations (act numThreads iterations s a) := by
  cases a with
  | main ok => exact entries_mainStep entries
  | worker i value => exact entries_workerStep entries
  | stop | toggle => exact entries

/-- What holds of a step that was entered with the figures `before`. -/
structure Frame (numThreads : Int) (iterations : UInt64) (before : GlobalStats ρ)
    (s : Sys ρ) : Prop where
  joined : Joined numThreads s
  entries : Entries iterations s
  threads : Threads iterations s
  tallied : Tallied numThreads iterations before s

theorem frame_enter (running pause : Bool) (before : GlobalStats ρ) :
    Frame numThreads iterations before (enter running pause before) where
  joined := ⟨rfl, rfl⟩
  entries := nofun
  threads := ⟨nofun, nofun⟩
  tallied := ⟨rfl, rfl, rfl, rfl⟩

theorem frame_act [Zero ρ] {a : Action ρ} (frame : Frame numThreads iterations before s)
    (orderly : Orderly numThreads iterations s a) (enabled : Enabled s a) :
    Frame numThreads iterations before (act numThreads iterations s a) := by
  obtain ⟨joined, entries, threads, tallied⟩ := frame
  have joined' : Joined numThreads (act numThreads iterations s a) :=
    joined_act joined orderly.noneLeft enabled
  have entries' : Entries iterations (act numThreads iterations s a) := entries_act entries
  cases a with
  | main ok =>
      exact ⟨joined', entries', threads_mainStep tallied threads,
        tallied_mainStep entries tallied orderly enabled⟩
  | worker i value =>
      exact ⟨joined', entries', threads_workerStep entries threads orderly,
        tallied_workerStep joined tallied enabled⟩
  | stop | toggle => exact ⟨joined', entries', ⟨threads.1, threads.2⟩, tallied⟩

end Osisp.Stress
