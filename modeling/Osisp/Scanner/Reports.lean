import Mathlib
import Osisp.Scanner.Batch

/-!
# Which open ports are reported

There is one `select` for the batch, and it returns with the first connection that
is decided. Open ports that answer later are closed unexamined (`late_port_missed`).
`scanBatch_correct_iff` is the exact condition under which the reported ports are
those whose connections are made in time.
-/

namespace Osisp.Scanner

open Lib

variable {τ : Type}

/-! ## What the loop fills in -/

/-- The entries of `batch` after the attempts `seen`. -/
def slots (port : Int) (seen : List (Attempt τ)) : List (Option PortTarget) :=
  seen.mapIdx fun i a => a.target port i

/-- The variables after the attempts `seen`. -/
structure After (port : Int) (seen : List (Attempt τ)) (v : Vars) : Prop where
  batch : v.batch = slots port seen ++ List.replicate (maxBatch - seen.length) none
  writeFds : v.writeFds = seen.filterMap Attempt.openFd
  maxFd : ∀ fd ∈ v.writeFds, (fd : Int) < v.maxFd + 1
  size : v.currentBatchSize = filled (slots port seen)

variable {port : Int} {seen attempts : List (Attempt τ)} {v : Vars} {a : Attempt τ}

theorem length_slots : (slots port seen).length = seen.length := List.length_mapIdx

theorem slots_append : slots port (seen ++ [a]) = slots port seen ++ [a.target port seen.length] :=
  List.mapIdx_concat

theorem filled_append {α : Type} (slots : List (Option α)) (a : Option α) :
    filled (slots ++ [a]) = filled slots + filled [a] := List.countP_append

theorem after_init : After port ([] : List (Attempt τ)) .init where
  batch := rfl
  writeFds := rfl
  maxFd := fun _ mem => absurd mem List.not_mem_nil
  size := rfl

/-- Filling in the next entry. -/
theorem set_next (room : seen.length < maxBatch) (t : Option PortTarget) :
    (slots port seen ++ List.replicate (maxBatch - seen.length) none).set seen.length t =
      slots port seen ++ [t] ++ List.replicate (maxBatch - (seen.length + 1)) none := by
  have rest : maxBatch - seen.length = maxBatch - (seen.length + 1) + 1 := by omega
  rw [List.set_append_right _ _ (Nat.le_of_eq length_slots), length_slots, Nat.sub_self, rest,
    List.replicate_succ, List.set_cons_zero, List.append_assoc]
  rfl

theorem after_connectOne (after : After port seen v) (room : seen.length < maxBatch) :
    After port (seen ++ [a]) (connectOne port seen.length v a) := by
  cases a with
  | noSocket =>
      refine ⟨?_, ?_, after.maxFd, ?_⟩
      · have rest : maxBatch - seen.length = maxBatch - (seen.length + 1) + 1 := by omega
        rw [slots_append, List.length_append, List.length_singleton, List.append_assoc,
          connectOne, after.batch, rest, List.replicate_succ]
        rfl
      · rw [List.filterMap_append, connectOne, after.writeFds]
        exact (List.append_nil _).symm
      · rw [slots_append, filled_append, connectOne, after.size]
        rfl
  | refused fd =>
      refine ⟨?_, ?_, after.maxFd, ?_⟩
      · rw [slots_append, List.length_append, List.length_singleton]
        simp only [connectOne]
        rw [after.batch, set_next room]
        rfl
      · rw [List.filterMap_append, connectOne, after.writeFds]
        exact (List.append_nil _).symm
      · rw [slots_append, filled_append, connectOne, after.size]
        rfl
  | pending fd decided =>
      refine ⟨?_, ?_, ?_, ?_⟩
      · rw [slots_append, List.length_append, List.length_singleton]
        simp only [connectOne]
        rw [after.batch, set_next room]
        rfl
      · rw [List.filterMap_append, connectOne, after.writeFds]
        rfl
      · intro fd' mem
        have upper : v.maxFd ≤ (connectOne port seen.length v (.pending fd decided)).maxFd ∧
            (fd : Int) ≤ (connectOne port seen.length v (.pending fd decided)).maxFd := by
          simp only [connectOne]
          split <;> omega
        rcases List.mem_append.mp mem with before | last
        · have := after.maxFd fd' before
          omega
        · rw [List.mem_singleton] at last
          omega
      · rw [slots_append, filled_append, connectOne, after.size]
        rfl

/-- After the loop, for any attempts that fit. -/
theorem after_connectLoop (after : After port seen v)
    (room : seen.length + attempts.length ≤ maxBatch) :
    After port (seen ++ attempts) (connectLoop port seen.length attempts v) := by
  induction attempts generalizing seen v with
  | nil =>
      rw [List.append_nil]
      exact after
  | cons a rest ih =>
      rw [List.length_cons] at room
      have step := after_connectOne (a := a) after (by omega)
      have next : (seen ++ [a]).length = seen.length + 1 := by simp
      have whole := ih step (by omega)
      rw [next, List.append_assoc] at whole
      exact whole

/-! ## What is reported -/

variable {b : Batch τ}

theorem after_batch (b : Batch τ) :
    After b.port b.attempts (connectLoop b.port 0 b.attempts .init) :=
  @after_connectLoop _ b.port [] b.attempts _ after_init (by simpa using b.size)

/-- The entries the loops over `current_batch_size` see. -/
theorem take_batch (after : After b.port b.attempts v) :
    v.batch.take v.currentBatchSize =
      (slots b.port b.attempts).take (filled (slots b.port b.attempts)) := by
  have le : filled (slots b.port b.attempts) ≤ (slots b.port b.attempts).length :=
    List.countP_le_length
  rw [after.batch, after.size, List.take_append_of_le_length le]

section Report

variable [LinearOrder τ] [Zero τ] [One τ]

/-- All descriptors are below `max_fd + 1`. -/
theorem marked_eq (after : After b.port b.attempts v) :
    marked b v = select (timeoutSec τ) (fun fd => (b.decided fd).map Prod.fst)
      (b.attempts.filterMap Attempt.openFd) := by
  have all : v.writeFds.filter (fun fd : Nat => (fd : Int) < v.maxFd + 1) = v.writeFds := by
    refine List.filter_eq_self.mpr fun fd mem => ?_
    exact decide_eq_true (after.maxFd fd mem)
  rw [marked, all, after.writeFds]

/-- An entry that was never filled in is read. -/
theorem scanBatch_eq_none (left : ¬ FrontFilled (slots b.port b.attempts)) :
    scanBatch b = none := by
  have after := after_batch b
  have none :
      closeLoop ((slots b.port b.attempts).take (filled (slots b.port b.attempts))) = none :=
    (readLoop_take_filled _).2 left
  simp only [scanBatch, take_batch after, none, Option.map_none]
  exact Option.bind_eq_none_iff.mpr fun _ _ => rfl

theorem scanBatch_eq_some (front : FrontFilled (slots b.port b.attempts)) :
    ∃ scan, scanBatch b = some scan ∧ ∀ p, p ∈ scan.reported ↔
      ∃ t, some t ∈ slots b.port b.attempts ∧ t.isActive ∧
        t.socketFd ∈ marked b (connectLoop b.port 0 b.attempts .init) ∧
        noError b t.socketFd ∧ t.port = p := by
  have after := after_batch b
  have closed := (readLoop_take_filled
    fun t : PortTarget => if t.isActive then [t.socketFd] else []).1 front
  simp only [scanBatch, take_batch after, closeLoop, closed, Option.map_some]
  by_cases timeout : marked b (connectLoop b.port 0 b.attempts .init) = []
  · rw [if_pos timeout, timeout]
    refine ⟨_, rfl, fun p => ?_⟩
    simp
  · rw [if_neg timeout, reportLoop, (readLoop_take_filled _).1 front]
    refine ⟨_, rfl, fun p => ?_⟩
    simp only [List.mem_flatMap, List.mem_filterMap, id, exists_eq_right]
    refine exists_congr fun t => and_congr_right fun _ => ?_
    split
    · next reported => simp [reported, eq_comm]
    · next not =>
        constructor
        · exact fun mem => absurd mem List.not_mem_nil
        · exact fun h => absurd ⟨h.1, h.2.1, h.2.2.1⟩ not

end Report

/-! ## Descriptors and attempts -/

theorem mem_openFds {fd : Nat} {l : List (Attempt τ)} :
    fd ∈ l.filterMap Attempt.openFd ↔ ∃ decided, Attempt.pending fd decided ∈ l := by
  rw [List.mem_filterMap]
  constructor
  · intro h
    rcases h with ⟨a, mem, eq⟩
    cases a with
    | noSocket | refused => cases eq
    | pending fd' decided =>
        cases eq
        exact ⟨decided, mem⟩
  · intro h
    rcases h with ⟨decided, mem⟩
    exact ⟨_, mem, rfl⟩

theorem decided_of_not_mem {fd : Nat} {l : List (Attempt τ)}
    (other : fd ∉ l.filterMap Attempt.openFd) : l.findSome? (·.decidedFor fd) = none := by
  refine List.findSome?_eq_none_iff.mpr fun a mem => ?_
  cases a with
  | noSocket | refused => rfl
  | pending fd' decided =>
      refine if_neg ?_
      rintro rfl
      exact other (mem_openFds.mpr ⟨_, mem⟩)

/-- A descriptor is decided as its own attempt says. -/
theorem decided_eq {fd : Nat} {decided : Option (τ × Bool)}
    (mem : Attempt.pending fd decided ∈ b.attempts) : b.decided fd = decided := by
  have distinct := b.distinct
  unfold Batch.decided
  generalize b.attempts = attempts at mem distinct ⊢
  induction attempts with
  | nil => exact absurd mem List.not_mem_nil
  | cons a rest ih =>
      cases a with
      | noSocket | refused =>
          have later : Attempt.pending fd decided ∈ rest := by simpa using mem
          exact ih later distinct
      | pending fd' decided' =>
          have apart : fd' ∉ rest.filterMap Attempt.openFd := (List.nodup_cons.mp distinct).1
          rw [List.findSome?_cons, Attempt.decidedFor]
          rcases List.mem_cons.mp mem with first | later
          · obtain ⟨rfl, rfl⟩ := Attempt.pending.inj first
            rw [if_pos rfl, decided_of_not_mem apart]
            cases decided <;> rfl
          · have other : ¬ fd' = fd := by
              rintro rfl
              exact apart (mem_openFds.mpr ⟨_, later⟩)
            rw [if_neg other]
            exact ih later (List.nodup_cons.mp distinct).2

/-- An active entry belongs to a pending attempt. -/
theorem active_slot {t : PortTarget} :
    some t ∈ slots b.port b.attempts ∧ t.isActive ↔
      ∃ (i : Nat) (fd : Nat) (decided : _), b.attempts[i]? = some (.pending fd decided) ∧
        t = ⟨b.port + i, fd, true⟩ := by
  constructor
  · intro h
    rcases h with ⟨mem, active⟩
    obtain ⟨i, inside, eq⟩ := List.mem_mapIdx.mp mem
    refine ⟨i, t.socketFd, ?_⟩
    rw [List.getElem?_eq_getElem inside]
    cases a : b.attempts[i] with
    | noSocket =>
        rw [a] at eq
        cases eq
    | refused fd =>
        rw [a] at eq
        cases eq
        cases active
    | pending fd decided =>
        rw [a] at eq
        cases eq
        exact ⟨decided, rfl, rfl⟩
  · intro h
    rcases h with ⟨i, fd, decided, eq, rfl⟩
    obtain ⟨inside, a⟩ := List.getElem?_eq_some_iff.mp eq
    refine ⟨List.mem_mapIdx.mpr ⟨i, inside, ?_⟩, rfl⟩
    rw [a]
    rfl

/-! ## When the report is right -/

/-- No `socket` call fails before one that does not. -/
def SocketsFirst (b : Batch τ) : Prop :=
  b.attempts.Pairwise fun a a' => a = .noSocket → a' = .noSocket

theorem frontFilled_slots : FrontFilled (slots b.port b.attempts) ↔ SocketsFirst b := by
  have missing : ∀ i (a : Attempt τ), (a.target b.port i).isSome ↔ a ≠ .noSocket := by
    intro i a
    cases a <;> simp [Attempt.target]
  simp only [FrontFilled, SocketsFirst, slots, List.pairwise_iff_getElem, List.length_mapIdx,
    List.getElem_mapIdx, missing]
  refine forall_congr' fun i => forall_congr' fun j => forall_congr' fun _ =>
    forall_congr' fun _ => forall_congr' fun _ => ?_
  exact not_imp_not

section Report

variable [LinearOrder τ] [Zero τ] [One τ]

/-- The connection of the `i`th port is made within `TIMEOUT_SEC` of the call of `select`. -/
def InTime (b : Batch τ) (i : Nat) : Prop :=
  ∃ fd t, b.attempts[i]? = some (.pending fd (some (t, true))) ∧ t ≤ timeoutSec τ

/-- The open ports of the batch are the reported ones. -/
def Correct (b : Batch τ) : Prop :=
  ∃ scan, scanBatch b = some scan ∧
    ∀ i < b.attempts.length, (b.port + i ∈ scan.reported ↔ InTime b i)

/-- Every connection that is made in time is made when the first connection of the
batch is decided, or when `select` is called. -/
def MadeFirst (b : Batch τ) : Prop :=
  ∀ fd t, Attempt.pending fd (some (t, true)) ∈ b.attempts → t ≤ timeoutSec τ →
    ∀ fd' t' ok, Attempt.pending fd' (some (t', ok)) ∈ b.attempts → t ≤ max 0 t'

variable [ZeroLEOneClass τ]

/-- What the batch reports, in terms of its attempts. -/
theorem reported_iff (first : SocketsFirst b) :
    ∃ scan, scanBatch b = some scan ∧ ∀ i : Nat, b.port + i ∈ scan.reported ↔
      ∃ fd t, b.attempts[i]? = some (.pending fd (some (t, true))) ∧ t ≤ timeoutSec τ ∧
        ∀ fd' t' ok, Attempt.pending fd' (some (t', ok)) ∈ b.attempts → t ≤ max 0 t' := by
  obtain ⟨scan, eq, reported⟩ := scanBatch_eq_some (frontFilled_slots.mpr first)
  refine ⟨scan, eq, fun i => (reported _).trans ?_⟩
  rw [marked_eq (after_batch b)]
  have start : (0 : τ) ≤ timeoutSec τ := zero_le_one
  constructor
  · intro h
    rcases h with ⟨t, mem, active, marked, noErr, port⟩
    obtain ⟨j, fd, decided, found, rfl⟩ := active_slot.mp ⟨mem, active⟩
    obtain rfl : j = i := by
      have same : b.port + (j : Int) = b.port + i := port
      omega
    obtain ⟨-, t, ready, inTime, before⟩ := (mem_select start).mp marked
    have own := decided_eq (List.mem_of_getElem? found)
    rw [own] at ready
    rw [noError, own] at noErr
    obtain ⟨⟨t', ok⟩, rfl, rfl⟩ := Option.map_eq_some_iff.mp ready
    obtain rfl : ok = true := by simpa using noErr
    refine ⟨fd, t', found, inTime, fun fd' u ok pending => ?_⟩
    refine before fd' (mem_openFds.mpr ⟨_, pending⟩) u ?_
    rw [decided_eq pending]
    rfl
  · intro h
    rcases h with ⟨fd, t, found, inTime, before⟩
    have pending := List.mem_of_getElem? found
    obtain ⟨mem, active⟩ := active_slot.mpr ⟨i, fd, _, found, rfl⟩
    refine ⟨_, mem, active, ?_, by rw [noError, decided_eq pending]; rfl, rfl⟩
    refine (mem_select start).mpr ⟨mem_openFds.mpr ⟨_, pending⟩, t,
      by rw [decided_eq pending]; rfl, inTime, fun fd' other u ready => ?_⟩
    obtain ⟨decided, pending'⟩ := mem_openFds.mp other
    rw [decided_eq pending'] at ready
    obtain ⟨⟨u', ok⟩, rfl, rfl⟩ := Option.map_eq_some_iff.mp ready
    exact before fd' u' ok pending'

/-- **Main.** The ports reported open are those whose connections are made in
time if and only if no `socket` call failed before one that did not, and every
connection made in time was made by the first decision of the batch. -/
theorem scanBatch_correct_iff (b : Batch τ) : Correct b ↔ SocketsFirst b ∧ MadeFirst b := by
  constructor
  · intro correct
    rcases correct with ⟨scan, eq, reports⟩
    have first : SocketsFirst b := by
      by_contra left
      rw [scanBatch_eq_none fun front => left (frontFilled_slots.mp front)] at eq
      cases eq
    refine ⟨first, fun fd t mem inTime => ?_⟩
    obtain ⟨scan', eq', reported⟩ := reported_iff first
    obtain rfl : scan = scan' := Option.some.inj (eq.symm.trans eq')
    obtain ⟨i, inside, found⟩ := List.getElem_of_mem mem
    have here : b.attempts[i]? = some (.pending fd (some (t, true))) := by
      rw [List.getElem?_eq_getElem inside, found]
    obtain ⟨fd', t', here', -, before⟩ :=
      (reported i).mp ((reports i inside).mpr ⟨fd, t, here, inTime⟩)
    obtain ⟨rfl, time⟩ := Attempt.pending.inj (Option.some.inj (here.symm.trans here'))
    obtain ⟨rfl, -⟩ := Prod.mk.inj (Option.some.inj time)
    exact before
  · intro h
    rcases h with ⟨first, made⟩
    obtain ⟨scan, eq, reported⟩ := reported_iff first
    refine ⟨scan, eq, fun i _ => (reported i).trans ?_⟩
    constructor
    · intro h
      rcases h with ⟨fd, t, found, inTime, -⟩
      exact ⟨fd, t, found, inTime⟩
    · intro h
      rcases h with ⟨fd, t, found, inTime⟩
      exact ⟨fd, t, found, inTime, made fd t (List.mem_of_getElem? found) inTime⟩

end Report

/-! ## A closed port that answers first -/

/-- Port 80 refuses after the given time, port 81 accepts after 0.2 s. -/
def closedAndOpen (refusal : ℚ) : Batch ℚ where
  port := 80
  attempts := [.pending 3 (some (refusal, false)), .pending 4 (some (2 / 10, true))]
  size := by simp [maxBatch]
  distinct := by simp [Attempt.openFd]

theorem scanBatch_correct_late_refusal : Correct (closedAndOpen (3 / 10)) := by
  refine (scanBatch_correct_iff (closedAndOpen (3 / 10))).mpr
    ⟨by simp [SocketsFirst, closedAndOpen], ?_⟩
  intro fd t mem _ fd' t' ok mem'
  have found : t = 2 / 10 := by simp_all [closedAndOpen]
  have le : 2 / 10 ≤ t' := by
    rcases List.mem_pair.mp mem' with h | h <;> cases h <;> decide +kernel
  exact found ▸ le.trans (le_max_right 0 t')

/-- Port 81 is open and accepts within the second, and nothing is reported. -/
theorem late_port_missed :
    InTime (closedAndOpen (1 / 10)) 1 ∧
      scanBatch (closedAndOpen (1 / 10)) = some ⟨[], [3, 4]⟩ ∧
      ¬ Correct (closedAndOpen (1 / 10)) := by
  have inTime : InTime (closedAndOpen (1 / 10)) 1 := ⟨4, 2 / 10, rfl, by decide +kernel⟩
  have nothing : scanBatch (closedAndOpen (1 / 10)) = some ⟨[], [3, 4]⟩ := by decide +kernel
  refine ⟨inTime, nothing, fun correct => ?_⟩
  obtain ⟨scan, eq, reports⟩ := correct
  have reported := (reports 1 (by decide)).mpr inTime
  rw [← Option.some.inj (nothing.symm.trans eq)] at reported
  exact List.not_mem_nil reported

end Osisp.Scanner
