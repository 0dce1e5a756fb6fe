import Mathlib

/-!
# One direction of a connection

What one end writes to a reliable byte stream the other end receives in order, in
pieces and later. A `Wire` keeps all that was written and how much of it has been
received; what is received is the beginning of what was written, by construction.
-/

namespace Lib

structure Wire (α : Type) where
  sent : List α
  taken : Nat
  le : taken ≤ sent.length
  deriving DecidableEq

namespace Wire

variable {α : Type}

def empty : Wire α := ⟨[], 0, le_rfl⟩

def received (w : Wire α) : List α := w.sent.take w.taken

/-- What is on its way. -/
def pending (w : Wire α) : List α := w.sent.drop w.taken

def put (w : Wire α) (xs : List α) : Wire α :=
  ⟨w.sent ++ xs, w.taken, by
    have le := w.le
    rw [List.length_append]
    omega⟩

/-- Receive the next `n` items, or all that are on their way. -/
def get (w : Wire α) (n : Nat) : Wire α :=
  ⟨w.sent, min (w.taken + n) w.sent.length, min_le_right _ _⟩

variable (w : Wire α) (xs : List α) (n : Nat)

@[simp] theorem sent_empty : (empty : Wire α).sent = [] := rfl

@[simp] theorem received_empty : (empty : Wire α).received = [] := rfl

@[simp] theorem sent_put : (w.put xs).sent = w.sent ++ xs := rfl

@[simp] theorem sent_get : (w.get n).sent = w.sent := rfl

@[simp] theorem received_put : (w.put xs).received = w.received :=
  List.take_append_of_le_length w.le

@[simp] theorem pending_put : (w.put xs).pending = w.pending ++ xs :=
  List.drop_append_of_le_length w.le

@[simp] theorem received_get : (w.get n).received = w.received ++ w.pending.take n := by
  simp only [received, pending, get]
  rw [← List.take_add, ← List.take_take, List.take_length]

@[simp] theorem pending_get : (w.get n).pending = w.pending.drop n := by
  simp only [pending, get, List.drop_drop]
  by_cases within : w.taken + n ≤ w.sent.length
  · rw [min_eq_left within]
  · have beyond : w.sent.length ≤ w.taken + n := Nat.le_of_not_le within
    rw [min_eq_right beyond, List.drop_length, List.drop_eq_nil_of_le beyond]

theorem received_append_pending : w.received ++ w.pending = w.sent := List.take_append_drop _ _

/-- What is received is the beginning of what was written. -/
theorem received_begins : w.received <+: w.sent := List.take_prefix _ _

end Wire

end Lib
