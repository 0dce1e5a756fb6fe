import Mathlib
import Osisp.Scanner.Reports

/-!
# The sockets of a batch

Entries are stored at the offset of their port and counted in `current_batch_size`,
so a `socket` call that fails before one that does not leaves a hole that the later
loops read, and sockets behind it that they miss. Without such a hole every socket
is closed once and examined when it is marked.
-/

namespace Osisp.Scanner

open Lib

variable {τ : Type}

/-- The descriptor that `socket` returned. -/
def Attempt.fd : Attempt τ → Option Nat
  | noSocket => none
  | refused fd => some fd
  | pending fd _ => some fd

section Examined

variable [LinearOrder τ] [Zero τ] [One τ]

/-- The descriptors for which `getsockopt` is called. -/
def examined (b : Batch τ) : Option (List Nat) :=
  let v := connectLoop b.port 0 b.attempts .init
  let marked := marked b v
  if marked = [] then some []
  else readLoop (fun t => if t.isActive ∧ t.socketFd ∈ marked then [t.socketFd] else [])
    (v.batch.take v.currentBatchSize)

/-- No entry is read that was not filled in, every descriptor is closed as often as
`socket` returned it, and those that `select` marks are examined. -/
def Handled (b : Batch τ) : Prop :=
  ∃ scan fds, scanBatch b = some scan ∧ examined b = some fds ∧
    scan.closed.Perm (b.attempts.filterMap Attempt.fd) ∧
    ∀ fd ∈ b.attempts.filterMap Attempt.openFd,
      fd ∈ marked b (connectLoop b.port 0 b.attempts .init) → fd ∈ fds

end Examined

/-! ## What is closed -/

theorem closed_connectOne (port : Int) (i : Nat) (v : Vars) (a : Attempt τ) :
    (connectOne port i v a).closed = v.closed ++ [a].filterMap Attempt.refusedFd := by
  cases a with
  | noSocket | pending => exact (List.append_nil _).symm
  | refused fd => rfl

/-- The loop that connects closes the sockets that are refused. -/
theorem closed_connectLoop (port : Int) (i : Nat) (attempts : List (Attempt τ)) (v : Vars) :
    (connectLoop port i attempts v).closed = v.closed ++ attempts.filterMap Attempt.refusedFd := by
  induction attempts generalizing i v with
  | nil => exact (List.append_nil _).symm
  | cons a rest ih =>
      have parts : (a :: rest).filterMap Attempt.refusedFd =
          [a].filterMap Attempt.refusedFd ++ rest.filterMap Attempt.refusedFd :=
        List.filterMap_append (l := [a])
      rw [connectLoop, ih, closed_connectOne, parts, List.append_assoc]

/-- The active entries are the pending connections. -/
theorem active_slots (port : Int) (attempts : List (Attempt τ)) :
    ((slots port attempts).filterMap id).flatMap
        (fun t => if t.isActive then [t.socketFd] else []) =
      attempts.filterMap Attempt.openFd := by
  induction attempts using List.reverseRecOn with
  | nil => rfl
  | append_singleton seen a ih =>
      rw [slots_append, List.filterMap_append, List.flatMap_append, ih, List.filterMap_append]
      cases a with
      | noSocket | refused | pending => rfl

/-- Refused at once or pending: together these are all sockets. -/
theorem perm_fds (attempts : List (Attempt τ)) :
    (attempts.filterMap Attempt.refusedFd ++ attempts.filterMap Attempt.openFd).Perm
      (attempts.filterMap Attempt.fd) := by
  induction attempts with
  | nil => exact List.Perm.refl _
  | cons a rest ih =>
      cases a with
      | noSocket => exact ih
      | refused fd => exact ih.cons fd
      | pending fd decided => exact List.perm_middle.trans (ih.cons fd)

section Handled

variable [LinearOrder τ] [Zero τ] [One τ] {b : Batch τ}

theorem closed_scanBatch (front : FrontFilled (slots b.port b.attempts)) {scan : Scan}
    (eq : scanBatch b = some scan) :
    scan.closed = b.attempts.filterMap Attempt.refusedFd ++
      b.attempts.filterMap Attempt.openFd := by
  have after := after_batch b
  have last : closeLoop ((slots b.port b.attempts).take (filled (slots b.port b.attempts))) =
      some (b.attempts.filterMap Attempt.openFd) := by
    rw [closeLoop, (readLoop_take_filled _).1 front, active_slots]
  simp only [scanBatch, take_batch after, last, Option.map_some, closed_connectLoop] at eq
  obtain ⟨reported, -, scan_eq⟩ := Option.bind_eq_some_iff.mp eq
  rw [← Option.some.inj scan_eq]
  rfl

/-- A marked descriptor is examined. -/
theorem mem_examined (front : FrontFilled (slots b.port b.attempts)) :
    ∃ fds, examined b = some fds ∧ ∀ fd ∈ b.attempts.filterMap Attempt.openFd,
      fd ∈ marked b (connectLoop b.port 0 b.attempts .init) → fd ∈ fds := by
  have after := after_batch b
  simp only [examined, take_batch after]
  by_cases timeout : marked b (connectLoop b.port 0 b.attempts .init) = []
  · rw [if_pos timeout, timeout]
    exact ⟨[], rfl, fun fd _ mem => mem⟩
  · rw [if_neg timeout, (readLoop_take_filled _).1 front]
    refine ⟨_, rfl, fun fd mem marked => ?_⟩
    rw [← active_slots b.port] at mem
    obtain ⟨t, slot, active⟩ := List.mem_flatMap.mp mem
    have isActive : t.isActive := by
      by_contra closed
      rw [if_neg closed] at active
      exact List.not_mem_nil active
    rw [if_pos isActive] at active
    obtain rfl := List.mem_singleton.mp active
    refine List.mem_flatMap.mpr ⟨t, slot, ?_⟩
    rw [if_pos ⟨isActive, marked⟩]
    exact List.mem_singleton_self _

/-- **Main.** The sockets of a batch are handled if and only if no `socket` call
failed before one that did not. -/
theorem handled_iff (b : Batch τ) : Handled b ↔ SocketsFirst b := by
  rw [← frontFilled_slots]
  constructor
  · rintro ⟨scan, fds, eq, -, -, -⟩
    by_contra left
    rw [scanBatch_eq_none left] at eq
    cases eq
  · intro front
    obtain ⟨scan, eq, -⟩ := scanBatch_eq_some front
    obtain ⟨fds, examined, all⟩ := mem_examined front
    refine ⟨scan, fds, eq, examined, ?_, all⟩
    rw [closed_scanBatch front eq]
    exact perm_fds b.attempts

end Handled

/-- The first `socket` fails, and the second one's connection is pending. -/
def holeFirst : Batch ℚ where
  port := 80
  attempts := [.noSocket, .pending 3 none]
  size := by decide
  distinct := by decide

/-- The loops read the entry of the first port, and the socket stays open. -/
theorem holeFirst_not_handled : ¬ Handled holeFirst := by
  rintro ⟨scan, fds, eq, -⟩
  have none : scanBatch holeFirst = none := by decide +kernel
  rw [none] at eq
  cases eq

end Osisp.Scanner
