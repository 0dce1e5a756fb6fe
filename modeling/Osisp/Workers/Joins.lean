import Mathlib
import Osisp.Workers.Manager

/-!
# Every thread is joined once

A slot is open when its handle is that of a thread nobody joined. Which slots are
open is told by the manager's program counter (`Open`), and an unjoined thread is
always the handle of an open slot. A `pthread_create` that fails in a restart
breaks this: the slot is taken for open, and its handle is undefined
(`failed_restart`).
-/

namespace Osisp.Workers

open Lib

/-! ## What is claimed of the calls -/

/-- The slot of the join or try-join the manager is about to make. -/
def Pc.joins : Pc → Option Nat
  | .trying _ i | .joining _ i | .shutdown i => some i
  | _ => none

/-- A join or try-join is one of a thread that was created and not joined. -/
def ValidCall (s : Sys) : Action → Prop
  | .manager _ => ∀ i ∈ s.pc.joins, s.handle i ≠ none
  | _ => True

/-- Joins are made once each; when `main` has returned, every thread was joined;
and the threads of a slot that have not ended are one at most. -/
structure Sound (s : Sys) : Prop where
  once : s.joined.Nodup
  all : s.pc = .done ∨ s.pc = .failed → ∀ t < s.threads.length, t ∈ s.joined
  live : ∀ (t t' : Nat) (w w' : Worker), s.threads[t]? = some w → s.threads[t']? = some w' →
    w.slot = w'.slot → w.stage ≠ .finished → w'.stage ≠ .finished → t = t'

/-- Each `pthread_create` succeeds, the very first apart. -/
def Created (s : Sys) : Action → Prop
  | .manager ok =>
      match s.pc with
      | .start i => ok = true ∨ i = 0
      | .restarting _ _ => ok = true
      | _ => True
  | _ => True

instance (s : Sys) (a : Action) : Decidable (Created s a) := by
  induction a using Action.casesOn with
  | manager ok =>
      rcases s with ⟨pc, keepRunning, workers, threads, joined⟩
      induction pc using Pc.casesOn <;> unfold Created <;> infer_instance
  | fails | exits => exact isTrue trivial

/-! ## Open slots -/

/-- The slots whose handle can be joined. -/
def Open : Pc → Nat → Prop
  | .start k, j => j < k
  | .sleeping _, j | .trying _ _, j | .checking _ _, j | .joining _ _, j | .stopping, j =>
      j < numWorkers
  | .restarting _ i, j => j < numWorkers ∧ j ≠ i
  | .shutdown i, j => i ≤ j ∧ j < numWorkers
  | .done, _ | .failed, _ | .undefined, _ => False

/-- The slot the manager works on is one of `workers`. -/
def Pc.InRange : Pc → Prop
  | .start i | .trying _ i | .checking _ i | .joining _ i | .restarting _ i | .shutdown i =>
      i < numWorkers
  | .sleeping _ | .stopping | .done | .failed => True
  | .undefined => False

structure Inv (s : Sys) : Prop where
  held : ∀ j, Open s.pc j → ∃ t w, (s.workers j).thread = some t ∧ t ∉ s.joined ∧
    s.threads[t]? = some w ∧ w.slot = j
  owned : ∀ t w, s.threads[t]? = some w → t ∉ s.joined →
    Open s.pc w.slot ∧ (s.workers w.slot).thread = some t
  finished : ∀ t ∈ s.joined, s.Finished t
  once : s.joined.Nodup
  range : s.pc.InRange

variable {s s' : Sys} {a : Action} {as : List Action} {i t : Nat} {next : Pc}

theorem numWorkers_pos : 0 < numWorkers := by decide

theorem inv_init : Inv init where
  held _ isOpen := absurd isOpen (Nat.not_lt_zero _)
  owned := nofun
  finished := nofun
  once := List.nodup_nil
  range := numWorkers_pos

theorem handle_eq_some :
    s.handle i = some t ↔ (s.workers i).thread = some t ∧ t ∉ s.joined := by
  simp [Sys.handle, Option.filter_eq_some_iff]

/-- An open slot has a handle to join. -/
theorem Inv.handle (inv : Inv s) (isOpen : Open s.pc i) : ∃ t, s.handle i = some t := by
  obtain ⟨t, w, thread, unjoined, -⟩ := inv.held i isOpen
  exact ⟨t, handle_eq_some.mpr ⟨thread, unjoined⟩⟩

theorem Inv.sound (inv : Inv s) : Sound s where
  once := inv.once
  all ended t inside := by
    by_contra unjoined
    have isOpen := (inv.owned t _ (List.getElem?_eq_getElem inside) unjoined).1
    rcases ended with done | failed
    · rw [done] at isOpen
      exact isOpen
    · rw [failed] at isOpen
      exact isOpen
  live t t' w w' here here' same notEnded notEnded' := by
    have unjoined : ∀ t w, s.threads[t]? = some w → w.stage ≠ .finished → t ∉ s.joined := by
      intro t w here notEnded mem
      obtain ⟨w', here', finished⟩ := inv.finished t mem
      obtain rfl := Option.some.inj (here.symm.trans here')
      exact notEnded finished
    have own := (inv.owned t w here (unjoined t w here notEnded)).2
    have own' := (inv.owned t' w' here' (unjoined t' w' here' notEnded')).2
    rw [same] at own
    exact Option.some.inj (own.symm.trans own')

/-! ## What the calls do -/

/-- The manager moves on, and the same slots are open. -/
theorem Inv.goto (inv : Inv s) (next : Pc) (keepRunning : Bool)
    (same : ∀ j, Open next j ↔ Open s.pc j) (range : next.InRange) :
    Inv { s with pc := next, keepRunning } where
  held j isOpen := inv.held j ((same j).mp isOpen)
  owned t w here unjoined := by
    obtain ⟨isOpen, thread⟩ := inv.owned t w here unjoined
    exact ⟨(same _).mpr isOpen, thread⟩
  finished := inv.finished
  once := inv.once
  range := range

/-- A join closes its slot. -/
theorem Inv.joinThen (inv : Inv s) (isOpen : Open s.pc i) (handle : s.handle i = some t)
    (finished : s.Finished t)
    (closes : ∀ j, Open next j ↔ Open s.pc j ∧ j ≠ i) (range : next.InRange) :
    Inv (s.joinThen i next) := by
  obtain ⟨thread, unjoined⟩ := handle_eq_some.mp handle
  have eq : s.joinThen i next = { s with pc := next, joined := s.joined ++ [t] } := by
    rw [Sys.joinThen, handle]
  rw [eq]
  refine ⟨fun j isOpen' => ?_, fun t' w here left => ?_, fun t' mem => ?_, ?_, range⟩
  · obtain ⟨before, other⟩ := (closes j).mp isOpen'
    obtain ⟨t', w, thread', unjoined', here, slot⟩ := inv.held j before
    refine ⟨t', w, thread', fun mem => ?_, here, slot⟩
    rcases List.mem_append.mp mem with old | last
    · exact unjoined' old
    · -- The thread joined now was created for slot `i`.
      obtain ⟨u, v, threadI, -, hereI, slotI⟩ := inv.held i isOpen
      rw [thread] at threadI
      rw [List.mem_singleton.mp last, Option.some.inj threadI, hereI] at here
      rw [← Option.some.inj here, slotI] at slot
      exact other slot.symm
  · have unjoined' : t' ∉ s.joined := fun mem => left (List.mem_append_left _ mem)
    obtain ⟨isOpen, thread'⟩ := inv.owned t' w here unjoined'
    refine ⟨(closes _).mpr ⟨isOpen, fun same => left ?_⟩, thread'⟩
    rw [same, thread] at thread'
    obtain rfl := Option.some.inj thread'
    exact List.mem_append_right _ (List.mem_singleton.mpr rfl)
  · rcases List.mem_append.mp mem with old | last
    · exact inv.finished t' old
    · rw [List.mem_singleton.mp last]
      exact finished
  · refine List.nodup_append.mpr ⟨inv.once, List.nodup_singleton t, fun u old v last same => ?_⟩
    rw [List.mem_singleton.mp last] at same
    exact unjoined (same ▸ old)

/-- A thread that has been joined was created. -/
theorem Inv.joined_lt (inv : Inv s) (mem : t ∈ s.joined) : t < s.threads.length := by
  obtain ⟨w, here, -⟩ := inv.finished t mem
  exact (List.getElem?_eq_some_iff.mp here).1

/-- A new thread opens its slot. -/
theorem Inv.createFor (inv : Inv s) (closed : ¬ Open s.pc i)
    (opens : ∀ j, Open next j ↔ Open s.pc j ∨ j = i) (range : next.InRange) :
    Inv { s.createFor i true with pc := next } := by
  have fresh : s.threads.length ∉ s.joined :=
    fun mem => absurd (inv.joined_lt mem) (Nat.lt_irrefl _)
  have old : ∀ (t : Nat) w, s.threads[t]? = some w →
      (s.threads ++ [⟨i, .running⟩])[t]? = some w := by
    intro t w here
    rw [List.getElem?_append_left (List.getElem?_eq_some_iff.mp here).1]
    exact here
  have new : (s.threads ++ [⟨i, .running⟩])[s.threads.length]? = some (⟨i, .running⟩ : Worker) :=
    List.getElem?_concat_length
  have eq : s.createFor i true = { s with
      workers := Function.update s.workers i ⟨some s.threads.length, true⟩
      threads := s.threads ++ [⟨i, .running⟩] } := rfl
  rw [eq]
  refine ⟨fun j isOpen => ?_, fun t w here unjoined => ?_, fun t mem => ?_, inv.once, range⟩
  · by_cases own : j = i
    · subst own
      exact ⟨_, _, by simp, fresh, new, rfl⟩
    · obtain ⟨t, w, thread, unjoined, here, slot⟩ :=
        inv.held j (((opens j).mp isOpen).resolve_right own)
      exact ⟨t, w, by simp [own, thread], unjoined, old t w here, slot⟩
  · rcases Nat.lt_or_ge t s.threads.length with before | after
    · have here' : s.threads[t]? = some w := by
        rwa [List.getElem?_append_left before] at here
      obtain ⟨isOpen, thread⟩ := inv.owned t w here' unjoined
      have other : w.slot ≠ i := by
        intro same
        exact closed (same ▸ isOpen)
      exact ⟨(opens _).mpr (.inl isOpen), by simp [other, thread]⟩
    · have inside := (List.getElem?_eq_some_iff.mp here).1
      rw [List.length_append, List.length_singleton] at inside
      obtain rfl : t = s.threads.length := by omega
      rw [new] at here
      obtain rfl := Option.some.inj here
      exact ⟨(opens i).mpr (.inr rfl), by simp⟩
  · obtain ⟨w, here, ended⟩ := inv.finished t mem
    exact ⟨w, old t w here, ended⟩

/-- What the workers do leaves the handles and slots alone. -/
theorem Inv.frame (inv : Inv s) (pc : s'.pc = s.pc) (joined : s'.joined = s.joined)
    (thread : ∀ j, (s'.workers j).thread = (s.workers j).thread)
    (slots : ∀ t : Nat, s'.threads[t]?.map Worker.slot = s.threads[t]?.map Worker.slot)
    (finished : ∀ t ∈ s.joined, s.Finished t → s'.Finished t) : Inv s' := by
  refine ⟨fun j isOpen => ?_, fun t w here unjoined => ?_, fun t mem => ?_, ?_, ?_⟩
  · rw [pc] at isOpen
    obtain ⟨t, w, own, unjoined, here, slot⟩ := inv.held j isOpen
    have same := slots t
    rw [here] at same
    obtain ⟨w', here', slot'⟩ := Option.map_eq_some_iff.mp same
    exact ⟨t, w', (thread j).trans own, joined ▸ unjoined, here', slot'.trans slot⟩
  · have same := slots t
    rw [here] at same
    obtain ⟨w', here', slot'⟩ := Option.map_eq_some_iff.mp same.symm
    obtain ⟨isOpen, own⟩ := inv.owned t w' here' (joined ▸ unjoined)
    rw [pc, thread, ← slot']
    exact ⟨isOpen, own⟩
  · rw [joined] at mem
    exact finished t mem (inv.finished t mem)
  · rw [joined]
    exact inv.once
  · rw [pc]
    exact inv.range

theorem getElem?_setStage {stage : Stage} (u : Nat) :
    (s.setStage t stage).threads[u]? =
      s.threads[u]?.map fun w => if t = u then { w with stage } else w := by
  simp [Sys.setStage, List.getElem?_modify]

theorem slot_setStage {stage : Stage} (u : Nat) :
    (s.setStage t stage).threads[u]?.map Worker.slot = s.threads[u]?.map Worker.slot := by
  rw [getElem?_setStage, Option.map_map]
  refine congrArg (Option.map · _) (funext fun w => ?_)
  by_cases same : t = u <;> simp [same]

/-- The stage of other threads does not change. -/
theorem finished_setStage {stage : Stage} {u : Nat} (ended : s.Finished u)
    (kept : t = u → stage = .finished) : (s.setStage t stage).Finished u := by
  obtain ⟨w, here, finished⟩ := ended
  refine ⟨if t = u then { w with stage } else w, ?_, ?_⟩
  · rw [getElem?_setStage, here]
    rfl
  · by_cases same : t = u
    · simp [same, kept same]
    · simp [same, finished]

/-! ## Runs -/

theorem inRange_nextSlot {iteration : Nat} : (nextSlot iteration i).InRange := by
  unfold nextSlot
  split
  · next more => exact more
  · split <;> trivial

/-- Between the slots of a pass, and between passes, every slot is open. -/
theorem open_nextSlot {iteration j : Nat} : Open (nextSlot iteration i) j ↔ j < numWorkers := by
  unfold nextSlot
  split
  · rfl
  · split <;> rfl

theorem validCall_of_open (inv : Inv s) {ok : Bool} (isOpen : ∀ i ∈ s.pc.joins, Open s.pc i) :
    ValidCall s (.manager ok) := by
  intro i joins
  obtain ⟨t, handle⟩ := inv.handle (isOpen i joins)
  simp [handle]

/-- The joins and try-joins are made on open slots. -/
theorem Inv.valid (inv : Inv s) (a : Action) : ValidCall s a := by
  cases a with
  | fails | exits => trivial
  | manager ok =>
      have range := inv.range
      refine validCall_of_open inv fun i joins => ?_
      cases pc : s.pc with
      | trying n j | joining n j =>
          rw [pc] at joins range
          cases joins
          exact range
      | shutdown j =>
          rw [pc] at joins range
          cases joins
          exact ⟨Nat.le_refl _, range⟩
      | start | sleeping | checking | restarting | stopping | done | failed | undefined =>
          rw [pc] at joins
          cases joins

/-- No slot is open after `main` gave up, and no thread was started. -/
theorem Inv.give_up (inv : Inv s) (pc : s.pc = .start 0) :
    Inv { s.createFor 0 false with pc := .failed } where
  held _ := False.elim
  owned t w here unjoined := by
    have isOpen := (inv.owned t w here unjoined).1
    rw [pc] at isOpen
    exact absurd isOpen (Nat.not_lt_zero _)
  finished := inv.finished
  once := inv.once
  range := trivial

/-- The start-up creates one thread a slot. -/
theorem Inv.manage_start (inv : Inv s) {ok : Bool} (pc : s.pc = .start i)
    (created : ok = true ∨ i = 0) : Inv (s.manage ok) := by
  have range := inv.range
  rw [pc] at range
  cases ok with
  | true =>
      simp only [Sys.manage, pc, if_true]
      have more : ∀ j, j < i + 1 ↔ j < i ∨ j = i := fun j => Nat.lt_succ_iff_lt_or_eq
      by_cases last : i + 1 < numWorkers
      · rw [if_pos last]
        exact inv.createFor (by simp [pc, Open]) (fun j => by rw [pc]; exact more j) last
      · have whole : numWorkers = i + 1 := by
          have : i < numWorkers := range
          omega
        rw [if_neg last]
        refine inv.createFor (by simp [pc, Open]) (fun j => ?_) trivial
        rw [pc]
        change j < numWorkers ↔ _
        rw [whole]
        exact more j
  | false =>
      obtain rfl : i = 0 := by simpa using created
      simp only [Sys.manage, pc]
      exact inv.give_up pc

/-- A restart opens the slot that the join closed. -/
theorem Inv.manage_restarting (inv : Inv s) {n : Nat} (pc : s.pc = .restarting n i) :
    Inv (s.manage true) := by
  have range := inv.range
  rw [pc] at range
  simp only [Sys.manage, pc]
  refine inv.createFor (by simp [pc, Open]) (fun j => ?_) inRange_nextSlot
  rw [open_nextSlot, pc, Open]
  constructor
  · intro inside
    by_cases own : j = i
    · exact .inr own
    · exact .inl ⟨inside, own⟩
  · intro either
    rcases either with ⟨inside, -⟩ | rfl
    · exact inside
    · exact range

/-- The shutdown closes one slot after the other. -/
theorem Inv.manage_shutdown (inv : Inv s) {ok : Bool} (pc : s.pc = .shutdown i)
    (ready : s.Ready) : Inv (s.manage ok) := by
  have range := inv.range
  rw [pc] at range
  have isOpen : Open s.pc i := by
    rw [pc]
    exact ⟨Nat.le_refl _, range⟩
  obtain ⟨t, handle⟩ := inv.handle isOpen
  simp only [Sys.Ready, pc] at ready
  simp only [Sys.manage, pc]
  by_cases last : i + 1 < numWorkers
  · rw [if_pos last]
    refine inv.joinThen isOpen handle (ready t handle) (fun j => ?_) last
    rw [pc]
    change i + 1 ≤ j ∧ j < numWorkers ↔ (i ≤ j ∧ j < numWorkers) ∧ j ≠ i
    omega
  · rw [if_neg last]
    refine inv.joinThen isOpen handle (ready t handle) (fun j => ?_) trivial
    rw [pc]
    refine ⟨False.elim, fun inside => ?_⟩
    have bounds : (i ≤ j ∧ j < numWorkers) ∧ j ≠ i := inside
    omega

/-- Each call of the manager keeps the invariant. -/
theorem inv_manage (inv : Inv s) {ok : Bool} (created : Created s (.manager ok))
    (ready : s.Ready) : Inv (s.manage ok) := by
  have range := inv.range
  cases pc : s.pc with
  | start i =>
      simp only [Created, pc] at created
      exact inv.manage_start pc created
  | sleeping n =>
      simp only [Sys.manage, pc]
      exact inv.goto (.trying n 0) s.keepRunning (fun j => by rw [pc]; rfl) numWorkers_pos
  | trying n i =>
      rw [pc] at range
      have isOpen : Open s.pc i := by
        rw [pc]
        exact range
      obtain ⟨t, handle⟩ := inv.handle isOpen
      simp only [Sys.manage, pc, handle]
      by_cases ended : s.Finished t
      · rw [if_pos ended]
        exact inv.joinThen isOpen handle ended (fun j => by rw [pc]; rfl) range
      · rw [if_neg ended]
        exact inv.goto (.checking n i) s.keepRunning (fun j => by rw [pc]; rfl) range
  | checking n i =>
      rw [pc] at range
      simp only [Sys.manage, pc]
      split
      · exact inv.goto (nextSlot n i) s.keepRunning (fun j => by rw [pc]; exact open_nextSlot)
          inRange_nextSlot
      · exact inv.goto (.joining n i) s.keepRunning (fun j => by rw [pc]; rfl) range
  | joining n i =>
      rw [pc] at range
      have isOpen : Open s.pc i := by
        rw [pc]
        exact range
      obtain ⟨t, handle⟩ := inv.handle isOpen
      simp only [Sys.Ready, pc] at ready
      simp only [Sys.manage, pc]
      exact inv.joinThen isOpen handle (ready t handle) (fun j => by rw [pc]; rfl) range
  | restarting n i =>
      simp only [Created, pc] at created
      subst created
      exact inv.manage_restarting pc
  | stopping =>
      simp only [Sys.manage, pc]
      refine inv.goto (.shutdown 0) false (fun j => ?_) numWorkers_pos
      rw [pc]
      exact and_iff_right (Nat.zero_le j)
  | shutdown i => exact inv.manage_shutdown pc ready
  | done | failed | undefined =>
      simp only [Sys.Ready, pc] at ready

/-- The workers may fail and exit at any time. -/
theorem inv_act (inv : Inv s) (created : Created s a) (enabled : Enabled s a) :
    Inv (act s a) := by
  cases a with
  | manager ok => exact inv_manage inv created enabled
  | fails t =>
      obtain ⟨w, here, running⟩ := enabled
      have eq : act s (.fails t) = (s.setStage t .failing).setSlot w.slot
          { s.workers w.slot with isActive := false } := by
        have found : s.threads[t]? = some w := here
        simp only [act, found]
      rw [eq]
      refine inv.frame rfl rfl (fun j => ?_) slot_setStage fun u mem ended => ?_
      · by_cases own : j = w.slot <;> simp [Sys.setSlot, Sys.setStage, own]
      · refine finished_setStage (s := s) ended fun same => ?_
        subst same
        obtain ⟨w', here', finished⟩ := ended
        obtain rfl := Option.some.inj (here.symm.trans here')
        rw [running] at finished
        cases finished
  | exits t =>
      exact inv.frame rfl rfl (fun _ => rfl) slot_setStage
        fun u _ ended => finished_setStage ended fun _ => rfl

/-- The manager waits for no thread that cannot move. -/
theorem Inv.not_stuck (inv : Inv s) (running : s.pc ≠ .done ∧ s.pc ≠ .failed) :
    ∃ a, Enabled s a := by
  have waits : ∀ i, Open s.pc i → (∀ t ∈ s.handle i, s.Finished t) ∨ ∃ a, Enabled s a := by
    intro i isOpen
    obtain ⟨t, w, thread, unjoined, here, -⟩ := inv.held i isOpen
    have handle : s.handle i = some t := handle_eq_some.mpr ⟨thread, unjoined⟩
    cases stage : w.stage with
    | running => exact .inr ⟨.fails t, w, here, stage⟩
    | failing => exact .inr ⟨.exits t, w, here, .inl stage⟩
    | finished =>
        refine .inl fun u mem => ?_
        obtain rfl := Option.some.inj (handle.symm.trans mem)
        exact ⟨w, here, stage⟩
  have range := inv.range
  cases pc : s.pc with
  | joining n i =>
      rw [pc] at range waits
      rcases waits i range with ended | moves
      · refine ⟨.manager true, ?_⟩
        simp only [Enabled, Sys.Ready, pc]
        exact ended
      · exact moves
  | shutdown i =>
      rw [pc] at range waits
      rcases waits i ⟨Nat.le_refl _, range⟩ with ended | moves
      · refine ⟨.manager true, ?_⟩
        simp only [Enabled, Sys.Ready, pc]
        exact ended
      · exact moves
  | done => exact absurd pc running.1
  | failed => exact absurd pc running.2
  | undefined =>
      rw [pc] at range
      exact range.elim
  | start | sleeping | trying | checking | restarting | stopping =>
      refine ⟨.manager true, ?_⟩
      simp only [Enabled, Sys.Ready, pc]

/-- **Main.** In every run in which each `pthread_create` succeeds, or only the very
first fails, the manager joins and try-joins only threads that were created and
not joined; every thread is joined once when `main` has returned, and until then
somebody can move; and no slot has two live threads. -/
theorem joined_once (as : List Action) (s : Sys) (run : Run init as s)
    (created : EachStep Created init as) :
    EachStep ValidCall init as ∧ Sound s ∧ (s.pc ≠ .done ∧ s.pc ≠ .failed → ∃ a, Enabled s a) := by
  have inv : Inv s := Lib.Run.preserves_each run inv_init created inv_act
  refine ⟨?_, inv.sound, inv.not_stuck⟩
  exact Lib.Run.each_of_preserves run inv_init created inv_act fun inv _ => inv.valid _

/-- All workers are started. -/
def startAll : List Action := List.replicate numWorkers (.manager true)

/-- A pass in which no worker is found dead. -/
def calmPass : List Action := List.replicate (1 + 2 * numWorkers) (.manager true)

/-- A pass that finds the first worker dead; `ok` is the outcome of the restart. -/
def restartPass (ok : Bool) : List Action :=
  [.manager true, .manager true, .manager ok] ++
    List.replicate (2 * (numWorkers - 1)) (.manager true)

/-- The whole program, with one failure and one restart. -/
def restartRun : List Action :=
  startAll ++ [.fails 0, .exits 0] ++ restartPass true ++
    (List.replicate (maxIterations - 1) calmPass).flatten ++
    [.manager true, .exits 1, .exits 2, .exits 3, .exits 4] ++
    List.replicate numWorkers (.manager true)

theorem joined_once_restart :
    (restartRun.foldl act init).pc = .done ∧ Sound (restartRun.foldl act init) :=
  ⟨by decide +kernel,
    (joined_once restartRun _ (.of_enabled (by decide +kernel)) (by decide +kernel)).2.1⟩

/-- Worker 0 fails, its restart fails, and the next pass comes to its slot. -/
def failedRestartRun : List Action :=
  startAll ++ [.fails 0, .exits 0] ++ restartPass false ++ [.manager true]

/-- The try-join of the next pass is one of a handle that was never created. -/
theorem failed_restart :
    ∃ s, Run init failedRestartRun s ∧ s.pc = .trying 1 0 ∧ s.handle 0 = none ∧
      Enabled s (.manager true) ∧ ¬ ValidCall s (.manager true) := by
  have pc : (failedRestartRun.foldl act init).pc = .trying 1 0 := by decide +kernel
  have handle : (failedRestartRun.foldl act init).handle 0 = none := by decide +kernel
  refine ⟨_, .of_enabled (by decide +kernel), pc, handle, by decide +kernel, fun valid => ?_⟩
  exact valid 0 (by rw [pc]; rfl) handle

end Osisp.Workers
