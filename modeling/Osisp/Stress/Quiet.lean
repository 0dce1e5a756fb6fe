import Osisp.Stress.Figures
import Osisp.Stress.Program

/-!
# Runs without signals

When no signal comes and every thread is created, the program goes through the steps
of the ramp, whatever the order in which its threads take their turns
(`quiet_follows`). So a ramp that fits bounds the steps of all these runs
(`quiet_bounded`).
-/

namespace Osisp.Stress

open Lib

variable {ρ : Type}

/-- No signal, and a thread that can be created. -/
def Quiet : Action ρ → Prop
  | .main ok => ok
  | .worker _ _ => True
  | .stop | .toggle => False

def Ramp.after (loads : List Load) (rest : Ramp) : Ramp := ⟨loads ++ rest.loads, rest.ending⟩

/-- The ramp has made these steps and goes on from here. -/
def Ahead (params : StressParams) (loads : List Load) (current step : CInt) : Prop :=
  ∀ fuel, ramp params (loads.length + fuel) = (rampLoop params fuel current step).after loads

/-- What `run_load_step` is going to return. -/
def Results (numThreads : Int) (s : Sys ρ) : Prop :=
  match s.main with
  | .enter => True
  | .returned result => result = loadResult numThreads
  | _ => numThreads ≤ maxThreads

/-- Where the program is in its ramp. -/
def Follows (params : StressParams) (s : Test ρ) : Prop :=
  match s.phase with
  | .ramp => Ahead params s.loads s.currentThreads s.step
  | .loading => Ahead params s.loads s.currentThreads s.step ∧
      s.currentThreads.1 ≤ params.maxThreads.1 ∧ Results s.currentThreads.1 s.frame
  | .delaying _ => ∃ before, s.loads = before ++ [⟨s.currentThreads, params.iterations⟩] ∧
      s.currentThreads.1 ≤ topThreads params ∧ Ahead params before s.currentThreads s.step
  | .printing | .ended => ∃ fuel, ramp params fuel = ⟨s.loads, .finished⟩
  | .undefined => ∃ fuel, ramp params fuel = ⟨s.loads, .overflow⟩

variable {params : StressParams} {s : Test ρ} {numThreads : Int} {iterations : UInt64}

/-! ## The ramp -/

theorem Ahead.next {loads : List Load} {current step current' step' : CInt}
    (ahead : Ahead params loads current step) (below : current.1 ≤ topThreads params)
    (next : advance params current step = some (current', step')) :
    Ahead params (loads ++ [⟨current, params.iterations⟩]) current' step' := by
  intro fuel
  have pass := ahead (fuel + 1)
  rw [rampLoop_below below, next] at pass
  rw [List.length_append, List.length_singleton, Nat.add_assoc, Nat.add_comm 1 fuel, pass]
  simp [Ramp.after]

theorem Ahead.finished {loads : List Load} {current step : CInt}
    (ahead : Ahead params loads current step) (above : topThreads params < current.1) :
    ramp params (loads.length + 1) = ⟨loads, .finished⟩ := by
  rw [ahead 1, rampLoop_above above, Ramp.after, List.append_nil]

/-- More fuel changes nothing once the ramp has ended. -/
theorem rampLoop_mono {fuel more : Nat} {current step : CInt}
    (ended : (rampLoop params fuel current step).ending ≠ .running) (le : fuel ≤ more) :
    rampLoop params more current step = rampLoop params fuel current step := by
  induction fuel generalizing more current step with
  | zero => exact absurd rfl ended
  | succ fuel ih =>
      obtain ⟨more, rfl⟩ : ∃ m, more = m + 1 := ⟨more - 1, by omega⟩
      rcases Int.lt_or_le (topThreads params) current.1 with above | below
      · rw [rampLoop_above above, rampLoop_above above]
      · rw [rampLoop_below below] at ended
        rw [rampLoop_below below, rampLoop_below below]
        cases next : advance params current step with
        | none => rfl
        | some pair =>
            obtain ⟨current', step'⟩ := pair
            rw [next] at ended
            have same : rampLoop params more current' step' = rampLoop params fuel current' step' :=
              ih ended (by omega)
            simp only [same]

/-- All that ends ends alike. -/
theorem ramp_unique {fuel fuel' : Nat} (ended : (ramp params fuel).ending ≠ .running)
    (ended' : (ramp params fuel').ending ≠ .running) : ramp params fuel = ramp params fuel' := by
  rcases Nat.le_total fuel fuel' with le | le
  · exact (rampLoop_mono ended le).symm
  · exact rampLoop_mono ended' le

/-- The steps made so far are fewer than the passes of a ramp that ends. -/
theorem Ahead.lt {loads : List Load} {current step : CInt} {fuel : Nat}
    (ahead : Ahead params loads current step) (ended : (ramp params fuel).ending ≠ .running) :
    loads.length < fuel := by
  by_contra more
  have pass : ramp params loads.length = ramp params fuel :=
    rampLoop_mono ended (Nat.le_of_not_lt more)
  have going := ahead 0
  rw [Nat.add_zero, pass] at going
  rw [going] at ended
  exact ended rfl

/-! ## The program -/

section Step

variable [Zero ρ]

theorem results_act {frame : Sys ρ} {a : Action ρ} (results : Results numThreads frame) :
    Results numThreads (act numThreads iterations frame a) := by
  cases a with
  | main ok =>
      unfold Results at results
      cases place : frame.main with
      | enter =>
          simp only [act, mainStep, place]
          split
          · next many => exact (if_pos many).symm
          · next few => exact Int.not_lt.mp few
      | filling i | joinTest i | adding i =>
          rw [place] at results
          simp only [act, mainStep, place]
          split <;> exact results
      | creating i =>
          rw [place] at results
          simp only [act, mainStep, place]
          split
          · split <;> exact results
          · exact results
      | joining i =>
          rw [place] at results
          simp only [act, mainStep, place]
          exact results
      | collecting i =>
          rw [place] at results
          simp only [act, mainStep, place]
          split
          · exact results
          · exact (if_neg (Int.not_lt.mpr results)).symm
      | returned result =>
          simp only [act, mainStep, place]
          unfold Results
          rw [place] at results ⊢
          exact results
  | worker i value =>
      unfold Results at results ⊢
      simp only [act, workerStep_main]
      exact results
  | stop | toggle => exact results

theorem running_act {frame : Sys ρ} {a : Action ρ} (running : frame.running) (quiet : Quiet a) :
    (act numThreads iterations frame a).running := by
  cases a with
  | main ok => exact (mainStep_running quiet).trans running
  | worker i value =>
      simp only [act, workerStep_running]
      exact running
  | stop | toggle => exact quiet.elim

/-- What holds along a quiet run. -/
structure Quietly (params : StressParams) (s : Test ρ) : Prop where
  running : s.frame.running
  entries : Entries params.iterations s.frame
  follows : Follows params s

theorem quietly_testMain {ok : Bool} (quietly : Quietly params s) (can : ok = true) :
    Quietly params (testMain params s ok) := by
  obtain ⟨running, entries, follows⟩ := quietly
  unfold Follows at follows
  cases place : s.phase with
  | ramp =>
      rw [place] at follows
      simp only [testMain, place]
      split
      · next goes => exact ⟨running, nofun, follows, goes.2, trivial⟩
      · next leaves =>
          have above : topThreads params < s.currentThreads.1 := by
            have more : ¬ s.currentThreads.1 ≤ params.maxThreads.1 := fun le => leaves ⟨running, le⟩
            rw [topThreads]
            omega
          exact ⟨running, entries, _, follows.finished above⟩
  | loading =>
      rw [place] at follows
      obtain ⟨ahead, le, results⟩ := follows
      simp only [testMain, place]
      split
      · next result returned =>
          unfold Results at results
          rw [returned] at results
          split
          · next negative =>
              have many := loadResult_neg.mp (results ▸ negative)
              have above : topThreads params < s.currentThreads.1 := by
                rw [topThreads]
                omega
              exact ⟨running, entries, _, ahead.finished above⟩
          · next nonnegative =>
              have few : ¬ (maxThreads : Int) < s.currentThreads.1 := fun many =>
                nonnegative (results ▸ loadResult_neg.mpr many)
              have below : s.currentThreads.1 ≤ topThreads params := by
                rw [topThreads]
                omega
              exact ⟨running, entries, s.loads, rfl, below, ahead⟩
      · exact ⟨running_act (a := .main ok) running can, entries_act (a := .main ok) entries,
          ahead, le, results_act (a := .main ok) results⟩
  | delaying remaining =>
      rw [place] at follows
      simp only [testMain, place]
      split
      · exact ⟨running, entries, follows⟩
      · obtain ⟨before, loads, below, ahead⟩ := follows
        split
        · next current' step' next =>
            refine ⟨running, entries, ?_⟩
            have following := ahead.next below next
            rw [← loads] at following
            exact following
        · next none =>
            refine ⟨running, entries, before.length + 1, ?_⟩
            rw [ahead 1, rampLoop_below below, none, loads]
            rfl
  | printing =>
      rw [place] at follows
      simp only [testMain, place]
      exact ⟨running, entries, follows⟩
  | ended | undefined =>
      simp only [testMain, place]
      refine ⟨running, entries, ?_⟩
      unfold Follows
      rw [place] at follows ⊢
      exact follows

theorem quietly_testAct {a : Action ρ} (quietly : Quietly params s) (quiet : Quiet a) :
    Quietly params (testAct params s a) := by
  cases a with
  | main ok => exact quietly_testMain quietly quiet
  | worker i value =>
      obtain ⟨running, entries, follows⟩ := quietly
      refine ⟨running_act running quiet, entries_act entries, ?_⟩
      unfold Follows at follows ⊢
      simp only [testAct]
      cases place : s.phase with
      | loading =>
          rw [place] at follows
          exact ⟨follows.1, follows.2.1, results_act follows.2.2⟩
      | ramp | delaying | printing | ended | undefined =>
          rw [place] at follows
          exact follows
  | stop | toggle => exact quiet.elim

end Step

/-! ## Runs -/

/-- In a run without signals the program makes the steps of the ramp, and each entry
has the number of iterations that was asked for. -/
theorem quiet_follows [Zero ρ] (params : StressParams) (as : List (Action ρ)) (s : Test ρ)
    (run : TestRun params (boot params) as s) (quiet : ∀ a ∈ as, Quiet a) :
    Follows params s ∧ Entries params.iterations s.frame := by
  have start : Quietly params (boot params : Test ρ) := by
    refine ⟨rfl, nofun, fun fuel => ?_⟩
    have all : ([] : List Load).length + fuel = fuel := Nat.zero_add fuel
    exact congrArg (ramp params) all
  have quietly : Quietly params s := run.preserves_each start (Lib.EachStep.mem fun _ mem => mem)
    fun held mem _ => quietly_testAct held (quiet _ mem)
  exact ⟨quietly.follows, quietly.entries⟩

/-- If the ramp fits, no such run makes more than so many steps, or overflows. -/
theorem quiet_bounded [Zero ρ] (params : StressParams) (fits : RampFits params) :
    ∃ n, ∀ (as : List (Action ρ)) (s : Test ρ), TestRun params (boot params) as s →
      (∀ a ∈ as, Quiet a) → s.phase ≠ .undefined ∧ s.loads.length ≤ n := by
  obtain ⟨fuel, finished, -⟩ := (rampSound_iff params).mpr fits
  have ended : (ramp params fuel).ending ≠ .running := by
    rw [finished]
    nofun
  refine ⟨fuel + (ramp params fuel).loads.length, fun as s run quiet => ?_⟩
  have follows := (quiet_follows params as s run quiet).1
  unfold Follows at follows
  cases place : s.phase with
  | ramp =>
      rw [place] at follows
      have := follows.lt ended
      exact ⟨nofun, by omega⟩
  | loading =>
      rw [place] at follows
      have := follows.1.lt ended
      exact ⟨nofun, by omega⟩
  | delaying remaining =>
      rw [place] at follows
      obtain ⟨before, loads, -, ahead⟩ := follows
      have := ahead.lt ended
      rw [loads, List.length_append, List.length_singleton]
      exact ⟨nofun, by omega⟩
  | printing | ended =>
      rw [place] at follows
      obtain ⟨fuel', whole⟩ := follows
      have ended' : (ramp params fuel').ending ≠ .running := by
        rw [whole]
        nofun
      have same := ramp_unique ended' ended
      rw [whole] at same
      rw [← same]
      exact ⟨nofun, Nat.le_add_left _ _⟩
  | undefined =>
      rw [place] at follows
      obtain ⟨fuel', whole⟩ := follows
      have ended' : (ramp params fuel').ending ≠ .running := by
        rw [whole]
        nofun
      have same := ramp_unique ended' ended
      rw [← same, whole] at finished
      cases finished

end Osisp.Stress
