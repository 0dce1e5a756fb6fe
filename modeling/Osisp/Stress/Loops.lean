import Osisp.Stress.LoadStep
import Osisp.Stress.Arguments

/-!
# The loops of the load functions (`LabWork_5/stress_test.c`)

The three load functions go round the same loop, which gives a paused turn back by an
`i--` ahead of the `i++` of the `for`. They differ in the work they do for an index and
in what they keep from one index to the next.
-/

namespace Osisp.Stress

/-- What a turn of a loop finds in `g_running` and, if it gets there, in `g_pause`. -/
structure Flags where
  running : Bool
  pause : Bool
  deriving DecidableEq

/-- The loop index, what the loop keeps, and the indices it has worked for. -/
structure LoadState (α : Type) where
  i : UInt64
  value : α
  executed : List UInt64

section Loop

variable {α : Type} (work : Nat → UInt64 → α → α) (iterations : UInt64)

/-- One turn of the loop, which has no result when the loop is left. The work is told how
many times it has been done before. -/
def turn (flags : Flags) (s : LoadState α) : Option (LoadState α) :=
  if s.i < iterations ∧ flags.running then
    -- `usleep (10000); i--; continue;`
    if flags.pause then some { s with i := s.i - 1 + 1 }
    else some ⟨s.i + 1, work s.executed.length s.i s.value, s.executed ++ [s.i]⟩
  else none

/-- The loop as far as the flags are known, and whether it has been left. -/
def loadLoop : List Flags → LoadState α → LoadState α × Bool
  | [], s => (s, false)
  | flags :: later, s =>
      match turn work iterations flags s with
      | some s => loadLoop later s
      | none => (s, true)

end Loop

/-- What a load function has done: the indices it has worked for and what it has made of
them, whether it has returned, and its entry. -/
structure LoadRun (α : Type) where
  executed : List UInt64
  value : α
  returned : Bool
  stats : ThreadStats Float

/-- A load function. `start` and `finish` are the two results of `get_time_sec`. -/
def loadFunction {α : Type} (initial : α) (work : Nat → UInt64 → α → α) (result : α → Float)
    (start finish : Float) (stats : ThreadStats Float) (flags : List Flags) : LoadRun α :=
  let (s, returned) := loadLoop work stats.iterations flags ⟨0, initial, []⟩
  { executed := s.executed
    value := s.value
    returned := returned
    stats :=
      if returned then
        { stats with result := result s.value, elapsedTime := finish - start, isActive := false }
      else stats }

/-! ## The three functions -/

def wave (i : UInt64) : Float :=
  Float.sin (i.toFloat * 0.001) * Float.cos (i.toFloat * 0.002)

def resetIfLarge (result : Float) : Float :=
  if result > 1e15 || result < -1e15 then 0.0 else result

def cpuWork (i : UInt64) (result : Float) : Float :=
  let result := result + wave i
  resetIfLarge (result + Float.sqrt (Float.abs result + 1.0))

/-- `(char)(i & 0xFF)`. -/
def chunkByte (i : UInt64) : Int8 :=
  (i &&& 0xFF).toUInt8.toInt8

/-- `sum += chunk[j]` widens a `char` with its sign. -/
def memoryWork (allocated : Bool) (i sum : UInt64) : UInt64 :=
  if allocated then
    (List.replicate 1024 (chunkByte i)).foldl (fun sum c => sum + c.toInt64.toUInt64) sum
  else sum

/-- The chunk is written to and freed, and never read. -/
def mixedWork (i : UInt64) (result : Float) : Float :=
  resetIfLarge (result + wave i)

def cpuLoad : Float → Float → ThreadStats Float → List Flags → LoadRun Float :=
  loadFunction 0.0 (fun _ => cpuWork) id

/-- `mallocs n` is whether the call of `malloc` after `n` others succeeds. -/
def memoryLoad (mallocs : Nat → Bool) :
    Float → Float → ThreadStats Float → List Flags → LoadRun UInt64 :=
  loadFunction 0 (fun n => memoryWork (mallocs n)) UInt64.toFloat

def mixedLoad : Float → Float → ThreadStats Float → List Flags → LoadRun Float :=
  loadFunction 0.0 (fun _ => mixedWork) id

/-- The type of `result` and `sum`. -/
abbrev LoadType.Value : LoadType → Type
  | .cpu => Float
  | .memory => UInt64
  | .mixed => Float

def getLoadFunction (mallocs : Nat → Bool) :
    (type : LoadType) → Float → Float → ThreadStats Float → List Flags → LoadRun type.Value
  | .cpu => cpuLoad
  | .memory => memoryLoad mallocs
  | .mixed => mixedLoad

/-- What the variable starts with. -/
def LoadType.initial : (type : LoadType) → type.Value
  | .cpu => (0.0 : Float)
  | .memory => (0 : UInt64)
  | .mixed => (0.0 : Float)

/-- The body proper of the loop. -/
def LoadType.work (mallocs : Nat → Bool) :
    (type : LoadType) → Nat → UInt64 → type.Value → type.Value
  | .cpu => fun _ => cpuWork
  | .memory => fun n => memoryWork (mallocs n)
  | .mixed => fun _ => mixedWork

/-- What is stored in `stats->result`. -/
def LoadType.result : (type : LoadType) → type.Value → Float
  | .cpu => id
  | .memory => UInt64.toFloat
  | .mixed => id

/-! ## Every index once, in order -/

/-- The indices `0, 1, ..., n - 1`. -/
def indices (n : Nat) : List UInt64 :=
  (List.range n).map UInt64.ofNat

@[simp] theorem length_indices (n : Nat) : (indices n).length = n := by
  rw [indices, List.length_map, List.length_range]

theorem indices_succ (n : Nat) : indices (n + 1) = indices n ++ [UInt64.ofNat n] := by
  rw [indices, indices, List.range_succ, List.map_append]
  rfl

theorem indices_prefix {m n : Nat} (h : m ≤ n) : indices m <+: indices n := by
  obtain ⟨k, rfl⟩ := Nat.exists_eq_add_of_le h
  exact ⟨_, by rw [indices, indices, List.range_add, List.map_append]⟩

/-- The work for the indices `0, 1, ..., n - 1`, in this order. -/
def workedFor {α : Type} (work : Nat → UInt64 → α → α) (initial : α) (n : Nat) : α :=
  (List.range n).foldl (fun value n => work n (UInt64.ofNat n) value) initial

/-- The index is the number of those behind it, which have been worked for one by one. -/
structure LoadState.InStep {α : Type} (work : Nat → UInt64 → α → α) (initial : α)
    (iterations : UInt64) (s : LoadState α) : Prop where
  bound : s.i ≤ iterations
  executed : s.executed = indices s.i.toNat
  value : s.value = workedFor work initial s.i.toNat

section Turns

variable {α : Type} {work : Nat → UInt64 → α → α} {initial : α} {iterations : UInt64}

variable (work initial iterations) in
theorem LoadState.InStep.start : InStep work initial iterations ⟨0, initial, []⟩ where
  bound := UInt64.zero_le
  executed := rfl
  value := rfl

variable (work iterations) in
/-- What a turn does: it leaves the loop, waits, or works for the index it is at. -/
theorem turn_cases (flags : Flags) (s : LoadState α) :
    (turn work iterations flags s = none ∧ (s.i < iterations → flags.running = false)) ∨
    (turn work iterations flags s = some s ∧ s.i < iterations ∧ flags.running = true ∧
      flags.pause = true) ∨
    (turn work iterations flags s =
        some ⟨s.i + 1, work s.executed.length s.i s.value, s.executed ++ [s.i]⟩ ∧
      s.i < iterations ∧ flags.running = true ∧ flags.pause = false) := by
  unfold turn
  by_cases guard : s.i < iterations ∧ flags.running = true
  · rw [if_pos guard]
    cases pause : flags.pause with
    | true =>
        -- The `i--` may go from `0` to `2^64 - 1`; the `i++` comes back from there.
        rw [if_pos rfl, UInt64.sub_add_cancel]
        exact Or.inr (Or.inl ⟨rfl, guard.1, guard.2, rfl⟩)
    | false => exact Or.inr (Or.inr ⟨rfl, guard.1, guard.2, rfl⟩)
  · rw [if_neg guard]
    exact Or.inl ⟨rfl, fun below => Bool.eq_false_iff.mpr fun running => guard ⟨below, running⟩⟩

theorem toNat_succ_of_lt {i n : UInt64} (h : i < n) : (i + 1).toNat = i.toNat + 1 := by
  have below := UInt64.lt_iff_toNat_lt.mp h
  have := n.toNat_lt
  rw [UInt64.toNat_add]
  exact Nat.mod_eq_of_lt (by simpa using by omega)

theorem LoadState.InStep.turn {flags : Flags} {s s' : LoadState α}
    (h : InStep work initial iterations s) (step : turn work iterations flags s = some s') :
    InStep work initial iterations s' := by
  rcases turn_cases work iterations flags s with
    ⟨eq, -⟩ | ⟨eq, -⟩ | ⟨eq, below, -⟩
  · rw [eq] at step
    cases step
  · rw [eq] at step
    cases step
    exact h
  · rw [eq] at step
    cases step
    have next := toNat_succ_of_lt below
    constructor
    · rw [UInt64.le_iff_toNat_le, next]
      exact UInt64.lt_iff_toNat_lt.mp below
    · dsimp only
      rw [next, indices_succ, h.executed, UInt64.ofNat_toNat]
    · dsimp only
      rw [next, workedFor, List.range_succ, List.foldl_append, ← workedFor, ← h.value,
        h.executed, length_indices]
      simp only [List.foldl_cons, List.foldl_nil, UInt64.ofNat_toNat]

theorem LoadState.InStep.loadLoop {s : LoadState α} (h : InStep work initial iterations s)
    (flags : List Flags) :
    InStep work initial iterations (loadLoop work iterations flags s).1 := by
  induction flags generalizing s with
  | nil => exact h
  | cons first later ih =>
      unfold Stress.loadLoop
      cases step : Stress.turn work iterations first s with
      | none => exact h
      | some s' => exact ih (h.turn step)

/-- Unless it is stopped, the loop is left at the end only, and until then its index grows
with every turn that does not wait. -/
theorem LoadState.InStep.running {flags : List Flags} {s : LoadState α}
    (h : InStep work initial iterations s) (running : ∀ f ∈ flags, f.running = true) :
    ((Stress.loadLoop work iterations flags s).2 = true →
      (Stress.loadLoop work iterations flags s).1.i = iterations) ∧
    ((Stress.loadLoop work iterations flags s).2 = false →
      (Stress.loadLoop work iterations flags s).1.i.toNat =
        s.i.toNat + flags.countP fun f => !f.pause) := by
  induction flags generalizing s with
  | nil =>
      constructor
      · intro left
        cases left
      · intro _
        rfl
  | cons first later ih =>
      have firstRuns := running first List.mem_cons_self
      have laterRun := fun f mem => running f (List.mem_cons_of_mem first mem)
      unfold Stress.loadLoop
      rcases turn_cases work iterations first s with
        ⟨eq, stopped⟩ | ⟨eq, below, -, pause⟩ | ⟨eq, below, -, pause⟩
      · rw [eq]
        constructor
        · intro _
          have notBelow : ¬ s.i < iterations := fun below => by
            rw [stopped below] at firstRuns
            cases firstRuns
          exact UInt64.le_antisymm h.bound (UInt64.not_lt.mp notBelow)
        · intro left
          cases left
      · rw [eq, List.countP_cons, pause]
        exact ih h laterRun
      · have next := ih (h.turn eq) laterRun
        rw [eq, List.countP_cons, pause]
        dsimp only at next ⊢
        constructor
        · exact next.1
        · intro going
          rw [next.2 going, toNat_succ_of_lt below]
          simp only [Bool.not_false, if_true]
          omega

end Turns

/-- What a load function does for the indices up to `iterations`, whatever it finds in the
two flags. -/
structure InOrder {α : Type} (initial : α) (work : Nat → UInt64 → α → α) (result : α → Float)
    (iterations : UInt64) (load : List Flags → LoadRun α) : Prop where
  /-- Stopped or not, it has worked for the first indices, once each. -/
  begins : ∀ flags, (load flags).executed <+: indices iterations.toNat
  /-- Its variable holds what the body makes of these indices, one after the other. -/
  value : ∀ flags, (load flags).value = workedFor work initial (load flags).executed.length
  /-- That is what it stores when it returns. -/
  stores : ∀ flags, (load flags).returned = true →
    (load flags).stats.result = result (load flags).value
  /-- If it is not stopped, it returns after it has worked for all of them. -/
  complete : ∀ flags : List Flags, (∀ f ∈ flags, f.running = true) →
    (load flags).returned = true → (load flags).executed = indices iterations.toNat
  /-- If it is not stopped and every pause ends, it returns at some time. -/
  returns : ∀ flags : Nat → Flags, (∀ n, (flags n).running = true) →
    (∀ n, ∃ m ≥ n, (flags m).pause = false) →
    ∃ n, ∀ m ≥ n, (load ((List.range m).map flags)).returned = true

/-- Turns that do not wait come up as often as one likes. -/
theorem exists_countP_ge {flags : Nat → Flags} (ends : ∀ n, ∃ m ≥ n, (flags m).pause = false)
    (k : Nat) : ∃ n, ∀ m ≥ n, k ≤ ((List.range m).map flags).countP fun f => !f.pause := by
  induction k with
  | zero => exact ⟨0, fun _ _ => Nat.zero_le _⟩
  | succ k ih =>
      obtain ⟨n, enough⟩ := ih
      obtain ⟨m, le, unpaused⟩ := ends n
      have atM : k + 1 ≤ ((List.range (m + 1)).map flags).countP fun f => !f.pause := by
        rw [List.range_succ, List.map_append, List.countP_append]
        have := enough m le
        simpa [unpaused] using this
      apply Exists.intro (m + 1)
      intro l later
      obtain ⟨d, rfl⟩ := Nat.exists_eq_add_of_le later
      rw [List.range_add, List.map_append, List.countP_append]
      omega

theorem loadFunction_inOrder {α : Type} (initial : α) (work : Nat → UInt64 → α → α)
    (result : α → Float) (start finish : Float) (stats : ThreadStats Float) :
    InOrder initial work result stats.iterations
      (loadFunction initial work result start finish stats) where
  begins flags := by
    have inStep := (LoadState.InStep.start work initial stats.iterations).loadLoop flags
    show (loadLoop work stats.iterations flags ⟨0, initial, []⟩).1.executed <+: _
    rw [inStep.executed]
    exact indices_prefix (UInt64.le_iff_toNat_le.mp inStep.bound)
  value flags := by
    have inStep := (LoadState.InStep.start work initial stats.iterations).loadLoop flags
    show (loadLoop work stats.iterations flags ⟨0, initial, []⟩).1.value = workedFor work initial
      (loadLoop work stats.iterations flags ⟨0, initial, []⟩).1.executed.length
    rw [inStep.value, inStep.executed, length_indices]
  stores flags returned := by
    have left : (loadLoop work stats.iterations flags ⟨0, initial, []⟩).2 = true := returned
    unfold loadFunction
    dsimp only
    rw [if_pos left]
  complete flags running returned := by
    have inStep := (LoadState.InStep.start work initial stats.iterations).loadLoop flags
    have atEnd :=
      ((LoadState.InStep.start work initial stats.iterations).running running).1 returned
    show (loadLoop work stats.iterations flags ⟨0, initial, []⟩).1.executed = _
    rw [inStep.executed, atEnd]
  returns flags running ends := by
    obtain ⟨n, enough⟩ := exists_countP_ge ends (stats.iterations.toNat + 1)
    apply Exists.intro n
    intro m le
    have start := LoadState.InStep.start work initial stats.iterations
    have allRun : ∀ f ∈ (List.range m).map flags, f.running = true := by
      intro f mem
      obtain ⟨k, -, rfl⟩ := List.mem_map.mp mem
      exact running k
    show (loadLoop work stats.iterations ((List.range m).map flags) ⟨0, initial, []⟩).2 = true
    apply eq_true_of_ne_false
    intro going
    -- Otherwise the index has grown past its bound.
    have grown := (start.running allRun).2 going
    have bound := UInt64.le_iff_toNat_le.mp (start.loadLoop ((List.range m).map flags)).bound
    have := enough m le
    rw [grown] at bound
    omega

/-- Each of the load functions does its work for the indices `0, 1, ..., iterations - 1` in
their order, however often it is paused. -/
theorem load_functions_in_order (type : LoadType) (mallocs : Nat → Bool) (start finish : Float)
    (stats : ThreadStats Float) :
    InOrder type.initial (type.work mallocs) type.result stats.iterations
      (getLoadFunction mallocs type start finish stats) := by
  cases type with
  | cpu => exact loadFunction_inOrder ..
  | memory => exact loadFunction_inOrder ..
  | mixed => exact loadFunction_inOrder ..

/-- A thread of a load step makes a turn in two steps, whatever the flag that the step does
not look at. -/
theorem Worker.step_turn {α ρ : Type} (work : Nat → UInt64 → α → α) (flags : Flags)
    (running pause : Bool) (a b : ρ) (stats : ThreadStats ρ) (s : LoadState α) :
    match turn work stats.iterations flags s with
    | none =>
        Worker.step flags.running pause a ⟨s.i, .test, s.executed⟩ stats =
          (⟨s.i, .storeResult, s.executed⟩, stats)
    | some s' =>
        Worker.step flags.running pause a ⟨s.i, .test, s.executed⟩ stats =
          (⟨s.i, .body, s.executed⟩, stats) ∧
        Worker.step running flags.pause b ⟨s.i, .body, s.executed⟩ stats =
          (⟨s'.i, .test, s'.executed⟩, stats) := by
  by_cases guard : s.i < stats.iterations ∧ flags.running = true
  · rw [turn, if_pos guard]
    cases paused : flags.pause with
    | true => exact ⟨if_pos guard, rfl⟩
    | false => exact ⟨if_pos guard, rfl⟩
  · rw [turn, if_neg guard]
    exact if_neg guard

/-- A pause at index `0` and one later on. -/
example :
    (cpuLoad 0 1 ⟨0, 2, 0, 0, true⟩
      [⟨true, true⟩, ⟨true, false⟩, ⟨true, true⟩, ⟨true, false⟩, ⟨true, false⟩]).executed =
      [0, 1] := by
  rfl

end Osisp.Stress
