import Mathlib
import Osisp.Stress.Arguments
import Osisp.Stress.LoadStep

/-!
# The schedules of the two programs

With no signal, and with every thread created, what `stress_test` does is up to its
ramp loop, and what `monitor` does to a division. Both work on what `atoi` made of
the arguments, with no test of the range (`scheduled_iff`).
-/

namespace Osisp.Stress

open Lib

/-! ## The ramp of `stress_test` -/

/-- A call of `run_load_step` that starts threads. -/
structure Load where
  threads : CInt
  iterations : UInt64
  deriving DecidableEq

inductive Ending
  | running
  /-- One of the two counters went out of the range of `int`. -/
  | overflow
  | finished
  deriving DecidableEq

structure Ramp where
  loads : List Load
  ending : Ending
  deriving DecidableEq

/-- What `run_load_step` returns once all its threads have ended. -/
def loadResult (numThreads : Int) : Int := if numThreads > maxThreads then -1 else 0

/-- `current_threads += params.step_threads; step++;`. -/
def advance (params : StressParams) (current step : CInt) : Option (CInt × CInt) :=
  match checked (current.1 + params.stepThreads.1), checked (step.1 + 1) with
  | some current, some step => some (current, step)
  | _, _ => none

/-- `iterations_per_thread`, as `run_load_step` gets it. -/
def StressParams.iterations (params : StressParams) : UInt64 :=
  UInt64.ofInt params.iterationsPerThread.1

/-- The loop in `main`, for at most `fuel` passes. -/
def rampLoop (params : StressParams) : Nat → CInt → CInt → Ramp
  | 0, _, _ => ⟨[], .running⟩
  | fuel + 1, current, step =>
      if current.1 ≤ params.maxThreads.1 then
        if loadResult current.1 < 0 then ⟨[], .finished⟩
        else
          let load := ⟨current, params.iterations⟩
          match advance params current step with
          | none => ⟨[load], .overflow⟩
          | some (current, step) =>
              let rest := rampLoop params fuel current step
              ⟨load :: rest.loads, rest.ending⟩
      else ⟨[], .finished⟩

def ramp (params : StressParams) (fuel : Nat) : Ramp :=
  rampLoop params fuel params.initialThreads ⟨1, fits_one⟩

/-- The loop comes to its end, and each thread is given the iterations asked for. -/
def RampSound (params : StressParams) : Prop :=
  ∃ fuel, (ramp params fuel).ending = .finished ∧
    ∀ load ∈ (ramp params fuel).loads, 0 < load.threads.1 →
      (load.iterations.toNat : Int) = params.iterationsPerThread.1

/-- No step has more threads. -/
def topThreads (params : StressParams) : Int := min params.maxThreads.1 maxThreads

/-- How many steps follow the one with `current` threads. -/
def moreSteps (params : StressParams) (current : Int) : Int :=
  (topThreads params - current) / params.stepThreads.1

/-- The number of threads of the last step. -/
def lastThreads (params : StressParams) (current : Int) : Int :=
  current + moreSteps params current * params.stepThreads.1

/-- The increment is positive, and it can be added once more after the last step. -/
structure Ascends (params : StressParams) (current step : Int) : Prop where
  positive : 0 < params.stepThreads.1
  threads : lastThreads params current + params.stepThreads.1 ≤ 2147483647
  steps : step + moreSteps params current + 1 ≤ 2147483647

/-- There is no step, or the ramp ascends, and there is no thread or the number of
iterations is not negative. -/
def RampFits (params : StressParams) : Prop :=
  params.initialThreads.1 ≤ topThreads params →
    Ascends params params.initialThreads.1 1 ∧
      (0 < lastThreads params params.initialThreads.1 → 0 ≤ params.iterationsPerThread.1)

variable {params : StressParams} {current step : CInt} {fuel : Nat}

/-! ## One pass -/

theorem loadResult_neg {n : Int} : loadResult n < 0 ↔ (maxThreads : Int) < n := by
  unfold loadResult
  split <;> omega

/-- Above the top there are no more passes. -/
theorem rampLoop_above (above : topThreads params < current.1) :
    rampLoop params (fuel + 1) current step = ⟨[], .finished⟩ := by
  rw [rampLoop]
  split
  · next within =>
      rw [if_pos]
      apply loadResult_neg.mpr
      rw [topThreads] at above
      omega
  · rfl

theorem rampLoop_below (below : current.1 ≤ topThreads params) :
    rampLoop params (fuel + 1) current step =
      match advance params current step with
      | none => ⟨[⟨current, params.iterations⟩], .overflow⟩
      | some (current', step') =>
          ⟨⟨current, params.iterations⟩ ::
              (rampLoop params fuel current' step').loads,
            (rampLoop params fuel current' step').ending⟩ := by
  rw [topThreads] at below
  have few : ¬ loadResult current.1 < 0 := fun many => by
    have := loadResult_neg.mp many
    omega
  rw [rampLoop, if_pos (by omega), if_neg few]

theorem advance_eq_some {current' step' : CInt} :
    advance params current step = some (current', step') ↔
      current'.1 = current.1 + params.stepThreads.1 ∧ step'.1 = step.1 + 1 := by
  unfold advance
  constructor
  · intro next
    split at next
    · next threads number =>
        obtain ⟨rfl, rfl⟩ := Prod.mk.inj (Option.some.inj next)
        exact ⟨checked_eq_some.mp threads, checked_eq_some.mp number⟩
    · cases next
  · intro ⟨threads, number⟩
    rw [checked_eq_some.mpr threads, checked_eq_some.mpr number]

/-! ## The whole ramp -/

theorem more_of_above (below : current.1 ≤ topThreads params)
    (above : topThreads params < current.1 + params.stepThreads.1) :
    moreSteps params current.1 = 0 :=
  Int.ediv_eq_zero_of_lt (by omega) (by omega)

theorem more_succ (positive : 0 < params.stepThreads.1) :
    moreSteps params current.1 = moreSteps params (current.1 + params.stepThreads.1) + 1 := by
  have split : topThreads params - current.1 =
      topThreads params - (current.1 + params.stepThreads.1) + 1 * params.stepThreads.1 := by ring
  rw [moreSteps, split, Int.add_mul_ediv_right _ _ (Int.ne_of_gt positive)]
  rfl

theorem last_succ (positive : 0 < params.stepThreads.1) :
    lastThreads params current.1 = lastThreads params (current.1 + params.stepThreads.1) := by
  rw [lastThreads, more_succ positive, lastThreads]
  ring

/-- The numbers of threads in a ramp with so many steps. -/
def numbers (params : StressParams) (current : Int) (count : Nat) : List Int :=
  (List.range count).map fun k : Nat => current + (k : Int) * params.stepThreads.1

theorem numbers_succ (current : Int) (count : Nat) :
    numbers params current (count + 1) =
      current :: numbers params (current + params.stepThreads.1) count := by
  rw [numbers, List.range_succ_eq_map, List.map_cons, List.map_map, numbers]
  congr 1
  · simp
  · refine List.map_congr_left fun k _ => ?_
    rw [Function.comp_apply, Nat.cast_succ]
    ring

/-- A loop that has ended has ascended step by step. -/
theorem finished_ascends (ended : (rampLoop params fuel current step).ending = .finished)
    (below : current.1 ≤ topThreads params) :
    Ascends params current.1 step.1 ∧
      (rampLoop params fuel current step).loads.map (fun load => load.threads.1) =
        numbers params current.1 (moreSteps params current.1 + 1).toNat := by
  induction fuel generalizing current step with
  | zero => cases ended
  | succ fuel ih =>
      rw [rampLoop_below below] at ended ⊢
      cases next : advance params current step with
      | none =>
          rw [next] at ended
          cases ended
      | some pair =>
          obtain ⟨current', step'⟩ := pair
          rw [next] at ended
          obtain ⟨threads, number⟩ := advance_eq_some.mp next
          have room := current'.2.2
          have room' := step'.2.2
          rcases Int.lt_or_le (topThreads params) current'.1 with above | below'
          · have none : moreSteps params current.1 = 0 := more_of_above below (by omega)
            cases fuel with
            | zero => cases ended
            | succ fuel =>
                refine ⟨⟨by omega, ?_, by omega⟩, ?_⟩
                · rw [lastThreads, none]
                  omega
                · rw [none]
                  simp only [rampLoop_above above]
                  exact (numbers_succ current.1 0).symm
          · obtain ⟨⟨positive, room, room'⟩, loads⟩ := ih ended below'
            have count : moreSteps params current.1 = _ := more_succ positive
            have some_ : 0 ≤ moreSteps params current'.1 :=
              Int.ediv_nonneg (by omega) (by omega)
            rw [threads] at room room' loads some_
            refine ⟨⟨positive, ?_, by omega⟩, ?_⟩
            · rw [last_succ positive]
              exact room
            · have size : (moreSteps params current.1 + 1).toNat =
                  (moreSteps params (current.1 + params.stepThreads.1) + 1).toNat + 1 := by omega
              rw [size, numbers_succ, ← loads]
              rfl

/-- A ramp that ascends comes to its end. -/
theorem ascends_finished (ascends : Ascends params current.1 step.1)
    (below : current.1 ≤ topThreads params) :
    ∃ fuel, (rampLoop params fuel current step).ending = .finished := by
  obtain ⟨n, eq⟩ : ∃ n, (topThreads params - current.1).toNat = n := ⟨_, rfl⟩
  induction n using Nat.strong_induction_on generalizing current step with
  | _ n ih =>
      obtain ⟨positive, room, room'⟩ := ascends
      have some_ : 0 ≤ moreSteps params current.1 := Int.ediv_nonneg (by omega) (by omega)
      have wide : current.1 ≤ lastThreads params current.1 := by
        rw [lastThreads]
        have := Int.mul_nonneg some_ (Int.le_of_lt positive)
        omega
      have lower := current.2.1
      have lower' := step.2.1
      obtain ⟨current', threads⟩ : ∃ n : CInt, n.1 = current.1 + params.stepThreads.1 :=
        ⟨⟨_, by omega, by omega⟩, rfl⟩
      obtain ⟨step', number⟩ : ∃ n : CInt, n.1 = step.1 + 1 := ⟨⟨_, by omega, by omega⟩, rfl⟩
      have next : advance params current step = some (current', step') :=
        advance_eq_some.mpr ⟨threads, number⟩
      rcases Int.lt_or_le (topThreads params) current'.1 with above | below'
      · refine ⟨2, ?_⟩
        rw [rampLoop_below below, next]
        exact congrArg Ramp.ending (rampLoop_above above)
      · rw [last_succ positive, ← threads] at room
        rw [more_succ positive, ← threads] at room'
        have ascends' : Ascends params current'.1 step'.1 := ⟨positive, room, by omega⟩
        obtain ⟨fuel, ended⟩ := ih _ (by omega) ascends' below' rfl
        refine ⟨fuel + 1, ?_⟩
        rw [rampLoop_below below, next]
        exact ended

theorem loads_iterations {load : Load} (mem : load ∈ (rampLoop params fuel current step).loads) :
    load.iterations = params.iterations := by
  induction fuel generalizing current step with
  | zero => cases mem
  | succ fuel ih =>
      rcases Int.lt_or_le (topThreads params) current.1 with above | below
      · rw [rampLoop_above above] at mem
        cases mem
      · rw [rampLoop_below below] at mem
        cases next : advance params current step with
        | none =>
            rw [next] at mem
            obtain rfl := List.mem_singleton.mp mem
            rfl
        | some pair =>
            rw [next] at mem
            rcases List.mem_cons.mp mem with rfl | mem
            · rfl
            · exact ih mem

/-- An `int` becomes a `uint64_t` with the same value unless it is negative. -/
theorem toNat_ofInt (n : CInt) : ((UInt64.ofInt n.1).toNat : Int) = n.1 ↔ 0 ≤ n.1 := by
  have upper := n.2.2
  have value : (UInt64.ofInt n.1).toNat = (n.1 % 2 ^ 64).toNat % 2 ^ 64 := rfl
  rw [value]
  omega

theorem rampSound_iff (params : StressParams) : RampSound params ↔ RampFits params := by
  constructor
  · intro ⟨fuel, ended, exact_⟩ below
    obtain ⟨ascends, loads⟩ := finished_ascends ended below
    refine ⟨ascends, fun threads => ?_⟩
    have some_ : 0 ≤ moreSteps params params.initialThreads.1 :=
      Int.ediv_nonneg (by omega) (Int.le_of_lt ascends.positive)
    have here : lastThreads params params.initialThreads.1 ∈
        (ramp params fuel).loads.map fun load => load.threads.1 := by
      rw [ramp, loads]
      refine List.mem_map.mpr ⟨(moreSteps params params.initialThreads.1).toNat,
        List.mem_range.mpr (by omega), ?_⟩
      rw [Int.toNat_of_nonneg some_]
      rfl
    obtain ⟨load, mem, same⟩ := List.mem_map.mp here
    have count := exact_ load mem (same ▸ threads)
    rw [loads_iterations mem] at count
    exact (toNat_ofInt _).mp count
  · intro fits
    rcases Int.lt_or_le (topThreads params) params.initialThreads.1 with above | below
    · have none : ramp params 1 = ⟨[], .finished⟩ := rampLoop_above above
      refine ⟨1, ?_⟩
      rw [none]
      exact ⟨rfl, fun load mem => absurd mem List.not_mem_nil⟩
    · obtain ⟨ascends, count⟩ := fits below
      have ends : ∃ fuel, (ramp params fuel).ending = .finished := ascends_finished ascends below
      obtain ⟨fuel, ended⟩ := ends
      refine ⟨fuel, ended, fun load mem threads => ?_⟩
      rw [loads_iterations mem]
      apply (toNat_ofInt _).mpr
      apply count
      have here := List.mem_map_of_mem (f := fun load : Load => load.threads.1) mem
      rw [ramp, (finished_ascends ended below).2] at here
      obtain ⟨k, inside, same⟩ := List.mem_map.mp here
      have le : (k : Int) ≤ moreSteps params params.initialThreads.1 := by
        have := List.mem_range.mp inside
        omega
      have grows := Int.mul_le_mul_of_nonneg_right le (Int.le_of_lt ascends.positive)
      rw [lastThreads]
      omega

/-! ## `monitor` -/

/-- The loop of `run_monitor`, from turn `i` on and with as many turns left, counting
the samples; `reads k` says whether `/proc/stat` can be read the `k`-th time. -/
def sampleLoop (reads : Nat → Bool) : Nat → Nat → Nat
  | _, 0 => 0
  | i, left + 1 => (if reads (i + 1) then 1 else 0) + sampleLoop reads (i + 1) left

/-- `run_monitor`; there is no result when the division has none. -/
def runMonitor (reads : Nat → Bool) (intervalSec durationSec : CInt) : Option Nat :=
  (cdiv durationSec intervalSec).map fun iterations =>
    if reads 0 then sampleLoop reads 0 iterations.1.toNat else 0

/-- The division is defined, and there are as many samples as it says, rounded down. -/
def MonitorSound (reads : Nat → Bool) (params : MonitorParams) : Prop :=
  params.snapshotOnly = false →
    ∃ samples, runMonitor reads params.intervalSec params.durationSec = some samples ∧
      (samples : Int) = params.durationSec.1.fdiv params.intervalSec.1

/-- The signs agree, the quotient is an `int`, and the file can be read each time. -/
structure Divides (reads : Nat → Bool) (interval duration : CInt) : Prop where
  nonzero : interval.1 ≠ 0
  room : ¬ (duration.1 = -2147483648 ∧ interval.1 = -1)
  signs : 0 ≤ duration.1 * interval.1
  readable : ∀ k : Nat, interval.1.natAbs ≤ duration.1.natAbs →
    k ≤ duration.1.natAbs / interval.1.natAbs → reads k

def MonitorFits (reads : Nat → Bool) (params : MonitorParams) : Prop :=
  params.snapshotOnly = false → Divides reads params.intervalSec params.durationSec

variable {reads : Nat → Bool} {interval duration : CInt}

theorem sampleLoop_le (reads : Nat → Bool) (i left : Nat) : sampleLoop reads i left ≤ left := by
  induction left generalizing i with
  | zero => exact Nat.le_refl 0
  | succ left ih =>
      have := ih (i + 1)
      rw [sampleLoop]
      split <;> omega

theorem sampleLoop_eq_iff (i left : Nat) :
    sampleLoop reads i left = left ↔ ∀ k, i < k → k ≤ i + left → reads k := by
  induction left generalizing i with
  | zero => exact iff_of_true rfl fun k more few => by omega
  | succ left ih =>
      have le := sampleLoop_le reads (i + 1) left
      rw [sampleLoop]
      constructor
      · intro all k more few
        split at all
        · next first =>
            rcases Nat.eq_or_lt_of_le more with rfl | later
            · exact first
            · exact (ih (i + 1)).mp (by omega) k later (by omega)
        · omega
      · intro all
        rw [if_pos (all (i + 1) (Nat.lt_succ_self i) (by omega)),
          (ih (i + 1)).mpr fun k more few => all k (by omega) (by omega)]
        omega

/-- With equal signs both ways of rounding are that of the absolute values. -/
theorem tdiv_of_signs (nonzero : interval.1 ≠ 0) (signs : 0 ≤ duration.1 * interval.1) :
    duration.1.tdiv interval.1 = (duration.1.natAbs / interval.1.natAbs : Nat) ∧
      duration.1.fdiv interval.1 = (duration.1.natAbs / interval.1.natAbs : Nat) := by
  rcases Int.lt_or_gt_of_ne nonzero with negative | positive
  · have nonpos : duration.1 ≤ 0 := by
      by_contra more
      have := Int.mul_neg_of_pos_of_neg (Int.not_le.mp more) negative
      omega
    rw [← Int.neg_tdiv_neg, ← Int.neg_fdiv_neg]
    obtain ⟨m, eq⟩ := Int.eq_ofNat_of_zero_le (Int.neg_nonneg_of_nonpos nonpos)
    obtain ⟨n, eq'⟩ := Int.eq_ofNat_of_zero_le (Int.neg_nonneg_of_nonpos (Int.le_of_lt negative))
    rw [eq, eq', ← Int.natAbs_neg duration.1, ← Int.natAbs_neg interval.1, eq, eq']
    exact ⟨rfl, (Int.ofNat_fdiv m n).symm⟩
  · have nonneg : 0 ≤ duration.1 := by
      by_contra less
      have := Int.mul_neg_of_neg_of_pos (Int.not_le.mp less) positive
      omega
    obtain ⟨m, eq⟩ := Int.eq_ofNat_of_zero_le nonneg
    obtain ⟨n, eq'⟩ := Int.eq_ofNat_of_zero_le (Int.le_of_lt positive)
    rw [eq, eq']
    exact ⟨rfl, (Int.ofNat_fdiv m n).symm⟩

theorem signs_of_fdiv (nonneg : 0 ≤ duration.1.fdiv interval.1) (nonzero : interval.1 ≠ 0) :
    0 ≤ duration.1 * interval.1 := by
  rcases Int.lt_or_gt_of_ne nonzero with negative | positive
  · rcases Int.lt_or_le 0 duration.1 with more | nonpos
    · rw [← Int.neg_fdiv_neg] at nonneg
      have := Int.fdiv_neg_of_neg_of_pos (Int.neg_neg_of_pos more) (Int.neg_pos_of_neg negative)
      omega
    · exact Int.mul_nonneg_of_nonpos_of_nonpos nonpos (Int.le_of_lt negative)
  · rcases Int.lt_or_le duration.1 0 with less | nonneg'
    · have := Int.fdiv_neg_of_neg_of_pos less positive
      omega
    · exact Int.mul_nonneg nonneg' (Int.le_of_lt positive)

/-- All quotients but one are an `int`. -/
theorem Divides.quotient (divides : Divides reads interval duration) :
    ∃ q, cdiv duration interval = some q ∧
      q.1 = (duration.1.natAbs / interval.1.natAbs : Nat) := by
  obtain ⟨nonzero, room, signs, -⟩ := divides
  have value := (tdiv_of_signs nonzero signs).1
  have lower := duration.2.1
  have upper := duration.2.2
  have small : duration.1.natAbs / interval.1.natAbs ≤ 2147483647 := by
    rcases Nat.lt_or_ge 1 interval.1.natAbs with more | one
    · calc
        duration.1.natAbs / interval.1.natAbs ≤ duration.1.natAbs / 2 :=
          Nat.div_le_div_left more (by omega)
        _ ≤ 2147483647 := by omega
    · have unit : interval.1.natAbs = 1 := by omega
      rw [unit, Nat.div_one]
      rcases Int.natAbs_eq interval.1 with positive | negative
      · rw [unit] at positive
        rw [positive] at signs
        omega
      · rw [unit] at negative
        rw [negative] at signs room
        omega
  have fits : Fits (duration.1.tdiv interval.1) := by
    rw [value]
    generalize duration.1.natAbs / interval.1.natAbs = n at small
    constructor <;> omega
  refine ⟨⟨_, fits⟩, ?_, value⟩
  rw [cdiv, if_neg nonzero, checked_of_fits fits]

theorem monitorSound_iff (reads : Nat → Bool) (params : MonitorParams) :
    MonitorSound reads params ↔ MonitorFits reads params := by
  constructor
  · intro sound runs
    obtain ⟨samples, value, exact_⟩ := sound runs
    obtain ⟨q, quotient, rfl⟩ := Option.map_eq_some_iff.mp value
    have nonzero : params.intervalSec.1 ≠ 0 := by
      intro zero
      rw [cdiv, if_pos zero] at quotient
      cases quotient
    have signs := signs_of_fdiv (exact_ ▸ Int.natCast_nonneg _) nonzero
    obtain ⟨rounded, floor⟩ := tdiv_of_signs nonzero signs
    rw [cdiv, if_neg nonzero] at quotient
    have same := checked_eq_some.mp quotient
    refine ⟨nonzero, fun ⟨least, minus⟩ => ?_, signs, fun k enough few => ?_⟩
    · rw [least, minus] at same
      have upper := q.2.2
      have big : (-2147483648 : Int).tdiv (-1) = 2147483648 := rfl
      omega
    · have some_ : 0 < params.durationSec.1.natAbs / params.intervalSec.1.natAbs :=
        Nat.div_pos enough (Int.natAbs_pos.mpr nonzero)
      rw [floor] at exact_
      rw [rounded] at same
      split at exact_
      · next first =>
          rcases Nat.eq_zero_or_pos k with rfl | later
          · exact first
          · rw [same, Int.toNat_natCast] at exact_
            have all := (sampleLoop_eq_iff 0 _).mp (Int.natCast_inj.mp exact_)
            exact all k later (by omega)
      · omega
  · intro fits runs
    obtain ⟨q, quotient, same⟩ := (fits runs).quotient
    obtain ⟨nonzero, -, signs, readable⟩ := fits runs
    refine ⟨_, by rw [runMonitor, quotient, Option.map_some], ?_⟩
    rw [(tdiv_of_signs nonzero signs).2, same, Int.toNat_natCast]
    rcases Nat.lt_or_ge params.durationSec.1.natAbs params.intervalSec.1.natAbs with less | enough
    · rw [Nat.div_eq_of_lt less]
      simp [sampleLoop]
    · rw [if_pos (readable 0 enough (Nat.zero_le _)),
        (sampleLoop_eq_iff 0 _).mpr fun k _ few => readable k enough (by omega)]

/-! ## The arguments -/

/-- Whatever the arguments are, both schedules are as they should be. -/
def Scheduled (stressArgs monArgs : List Bytes) (reads : Nat → Bool) : Prop :=
  (∀ params, parseArgs stressArgs = some params → RampSound params) ∧
    ∀ params, monitorArgs monArgs = some params → MonitorSound reads params

/-- **Main.** The schedules are sound if and only if the values that the arguments set
fit. -/
theorem scheduled_iff (stressArgs monArgs : List Bytes) (reads : Nat → Bool) :
    Scheduled stressArgs monArgs reads ↔
      (∀ params, parseArgs stressArgs = some params → RampFits params) ∧
        ∀ params, monitorArgs monArgs = some params → MonitorFits reads params := by
  constructor
  · intro ⟨stress, monitor⟩
    exact ⟨fun params parsed => (rampSound_iff params).mp (stress params parsed),
      fun params parsed => (monitorSound_iff reads params).mp (monitor params parsed)⟩
  · intro ⟨stress, monitor⟩
    exact ⟨fun params parsed => (rampSound_iff params).mpr (stress params parsed),
      fun params parsed => (monitorSound_iff reads params).mpr (monitor params parsed)⟩

/-- `monitor -i 0` divides by zero. -/
theorem scheduled_zero_interval :
    ¬ ∀ stressArgs monArgs reads, Scheduled stressArgs monArgs reads := by
  intro scheduled
  have parsed : monitorArgs [ascii "-i", ascii "0"] =
      some ⟨⟨0, by decide⟩, ⟨60, by decide⟩, false⟩ := by decide
  obtain ⟨samples, value, -⟩ :=
    (scheduled [] [ascii "-i", ascii "0"] fun _ => true).2 _ parsed rfl
  cases value

end Osisp.Stress
