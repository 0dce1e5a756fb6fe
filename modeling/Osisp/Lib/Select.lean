import Mathlib

/-!
# Waiting for descriptors

`select` as one call over a set of descriptors, each of which becomes ready at
some time after the call, or before it, or never. The call returns at the first
of these times, and marks what is ready at that moment.
-/

namespace Lib

variable {ι τ : Type} [LinearOrder τ]

/-- The times by `timeout` at which a descriptor becomes ready. -/
def readyTimes (timeout : τ) (ready : ι → Option τ) (fds : List ι) : List τ :=
  (fds.filterMap ready).filter (· ≤ timeout)

/-- When the first of the descriptors becomes ready, if one does by `timeout`. -/
def firstReady (timeout : τ) (ready : ι → Option τ) (fds : List ι) : Option τ :=
  (readyTimes timeout ready fds).argmin id

/-- The descriptors `select` marks; times are counted from the call. -/
def select [Zero τ] (timeout : τ) (ready : ι → Option τ) (fds : List ι) : List ι :=
  match firstReady timeout ready fds with
  | none => []
  | some first => fds.filter fun i => (ready i).any (· ≤ max 0 first)

variable {timeout : τ} {ready : ι → Option τ} {fds : List ι} {i : ι} {t : τ}

theorem mem_readyTimes :
    t ∈ readyTimes timeout ready fds ↔ (∃ i ∈ fds, ready i = some t) ∧ t ≤ timeout := by
  simp [readyTimes]

/-- **What `select` marks**: the descriptors that are ready in time, and no later
than any of the others, or than the call. -/
theorem mem_select [Zero τ] (start : 0 ≤ timeout) :
    i ∈ select timeout ready fds ↔ i ∈ fds ∧ ∃ t, ready i = some t ∧ t ≤ timeout ∧
      ∀ j ∈ fds, ∀ t', ready j = some t' → t ≤ max 0 t' := by
  cases first : firstReady timeout ready fds with
  | none =>
      have none : readyTimes timeout ready fds = [] := List.argmin_eq_none.mp first
      simp only [select, first, List.not_mem_nil, false_iff]
      intro marked
      obtain ⟨inFds, t, eq, inTime, -⟩ := marked
      have mem : t ∈ readyTimes timeout ready fds := mem_readyTimes.mpr ⟨⟨i, inFds, eq⟩, inTime⟩
      rw [none] at mem
      exact List.not_mem_nil mem
  | some m =>
      obtain ⟨⟨k, inFds, decides⟩, inTime⟩ := mem_readyTimes.mp (List.argmin_mem first)
      have least : ∀ t ∈ readyTimes timeout ready fds, m ≤ t :=
        fun t mem => List.le_of_mem_argmin mem first
      simp only [select, first, List.mem_filter, Option.any_eq_true, decide_eq_true_eq]
      refine and_congr_right fun own => ⟨fun marked => ?_, fun marked => ?_⟩
      · obtain ⟨t, eq, le⟩ := marked
        refine ⟨t, eq, le.trans (max_le start inTime), fun j mem t' eq' => ?_⟩
        rcases le_total t' timeout with soon | late
        · exact le.trans (max_le_max_left 0 (least t' (mem_readyTimes.mpr ⟨⟨j, mem, eq'⟩, soon⟩)))
        · exact (le.trans (max_le start inTime)).trans (late.trans (le_max_right 0 t'))
      · obtain ⟨t, eq, -, before⟩ := marked
        exact ⟨t, eq, before k inFds m decides⟩

end Lib
