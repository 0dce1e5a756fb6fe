import Mathlib

/-!
# Arrays with entries that were never filled in

An entry of such an array is `none` until it is assigned. A loop over the array
has no result once it reads an entry that is still `none`; a loop over the first
`n` entries, with `n` the number of assignments, reads none of these if and only
if the array was filled from the front.
-/

namespace Lib

variable {α β : Type}

/-- A loop that collects `f a` over the entries, and needs each of them. -/
def readLoop (f : α → List β) : List (Option α) → Option (List β)
  | [] => some []
  | none :: _ => none
  | some a :: rest => (readLoop f rest).map (f a ++ ·)

/-- The number of assigned entries. -/
def filled (slots : List (Option α)) : Nat := slots.countP Option.isSome

/-- No entry was left out before an assigned one. -/
def FrontFilled (slots : List (Option α)) : Prop :=
  slots.Pairwise fun a b => b.isSome → a.isSome

variable {slots : List (Option α)}

theorem filled_eq_zero : filled slots = 0 ↔ ∀ a ∈ slots, a = none := by
  simp [filled, List.countP_eq_zero]

theorem frontFilled_some_cons {a : α} : FrontFilled (some a :: slots) ↔ FrontFilled slots := by
  simp [FrontFilled]

theorem frontFilled_none_cons : FrontFilled (none :: slots) ↔ filled slots = 0 := by
  rw [filled_eq_zero]
  constructor
  · intro front a mem
    have first := List.rel_of_pairwise_cons front mem
    simpa using first
  · intro empty
    refine List.Pairwise.cons (fun a mem => by simp [empty a mem]) ?_
    refine List.Pairwise.imp_of_mem ?_ (List.pairwise_of_forall (fun _ _ => trivial))
    intro a b _ mem _
    simp [empty b mem]

/-- **A loop over as many entries as were assigned** reads exactly these, or an
entry that was not. -/
theorem readLoop_take_filled (f : α → List β) :
    (FrontFilled slots →
      readLoop f (slots.take (filled slots)) = some ((slots.filterMap id).flatMap f)) ∧
    (¬ FrontFilled slots → readLoop f (slots.take (filled slots)) = none) := by
  induction slots with
  | nil => exact ⟨fun _ => rfl, fun left => absurd List.Pairwise.nil left⟩
  | cons a slots ih =>
      cases a with
      | some a =>
          have count : filled (some a :: slots) = filled slots + 1 := by simp [filled]
          rw [count, List.take_succ_cons, frontFilled_some_cons]
          refine ⟨fun front => ?_, fun left => ?_⟩
          · rw [readLoop, ih.1 front]
            rfl
          · rw [readLoop, ih.2 left]
            rfl
      | none =>
          have count : filled (none :: slots) = filled slots := by simp [filled]
          rw [count, frontFilled_none_cons]
          refine ⟨fun empty => ?_, fun some => ?_⟩
          · rw [empty, List.take_zero]
            have nothing : slots.filterMap id = [] :=
              List.filterMap_eq_nil_iff.mpr (filled_eq_zero.mp empty)
            rw [List.filterMap_cons, id, nothing]
            rfl
          · obtain ⟨n, eq⟩ := Nat.exists_eq_succ_of_ne_zero some
            rw [eq, List.take_succ_cons, readLoop]

end Lib
