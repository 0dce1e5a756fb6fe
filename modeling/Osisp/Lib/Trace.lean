import Mathlib

/-!
# Traces and what an operation adds to them

An operation of a system appends events to its trace. `Appends P l l'` records
that everything appended satisfies `P`; an observation that `P`-events do not
contribute to is then unchanged.
-/

namespace Lib

variable {ε β : Type}

/-- `l'` continues `l` by events that all satisfy `P`. -/
def Appends (P : ε → Prop) (l l' : List ε) : Prop :=
  ∃ added, l' = l ++ added ∧ ∀ e ∈ added, P e

namespace Appends

variable {P Q : ε → Prop} {l l' l'' : List ε}

theorem refl (l : List ε) : Appends P l l := ⟨[], by simp⟩

theorem single {e : ε} (h : P e) : Appends P l (l ++ [e]) := ⟨[e], rfl, by simpa using h⟩

theorem trans (first : Appends P l l') (second : Appends P l' l'') : Appends P l l'' := by
  obtain ⟨a, rfl, ha⟩ := first
  obtain ⟨b, rfl, hb⟩ := second
  refine ⟨a ++ b, List.append_assoc _ _ _, fun e mem => ?_⟩
  rcases List.mem_append.mp mem with left | right
  · exact ha e left
  · exact hb e right

theorem mono (h : Appends P l l') (imp : ∀ e, P e → Q e) : Appends Q l l' := by
  obtain ⟨a, rfl, ha⟩ := h
  exact ⟨a, rfl, fun e mem => imp e (ha e mem)⟩

/-- An observation to which the added events contribute nothing. -/
theorem flatMap_eq (h : Appends P l l') {obs : ε → List β} (silent : ∀ e, P e → obs e = []) :
    l'.flatMap obs = l.flatMap obs := by
  obtain ⟨a, rfl, ha⟩ := h
  have nothing : a.flatMap obs = [] :=
    List.flatMap_eq_nil_iff.mpr fun e mem => silent e (ha e mem)
  rw [List.flatMap_append, nothing, List.append_nil]

end Appends

end Lib
