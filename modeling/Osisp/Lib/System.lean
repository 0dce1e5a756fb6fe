import Mathlib

/-!
# Systems that act

A system has states and actions; `enabled s a` says when `a` can be taken in `s`
and `act s a` what it does. `Run` is a finite sequence of enabled actions, so a
property of all runs is one of every interleaving. `Run.preserves` is the
induction principle: an invariant is established by its effect on one action.
-/

namespace Lib

variable {σ α : Type} (enabled : σ → α → Prop) (act : σ → α → σ)

/-- `as` leads from `s` to `s'`. -/
inductive Run : σ → List α → σ → Prop
  | nil (s : σ) : Run s [] s
  | cons {s s' : σ} {a : α} {as : List α} :
      enabled s a → Run (act s a) as s' → Run s (a :: as) s'

/-- `P` holds at each point of the run of `as` from `s`. -/
def Throughout (P : σ → Prop) : σ → List α → Prop
  | s, [] => P s
  | s, a :: as => P s ∧ Throughout P (act s a) as

/-- `P` holds of each action of the run of `as` from `s`, at the state it is
taken in. -/
def EachStep (P : σ → α → Prop) : σ → List α → Prop
  | _, [] => True
  | s, a :: as => P s a ∧ EachStep P (act s a) as

instance decidableThroughout (P : σ → Prop) [DecidablePred P] :
    ∀ (as : List α) (s : σ), Decidable (Throughout act P s as)
  | [], s => inferInstanceAs (Decidable (P s))
  | a :: as, s => @instDecidableAnd _ _ _ (decidableThroughout P as (act s a))

instance decidableEachStep (P : σ → α → Prop) [∀ s a, Decidable (P s a)] :
    ∀ (as : List α) (s : σ), Decidable (EachStep act P s as)
  | [], _ => isTrue trivial
  | a :: as, s => @instDecidableAnd _ _ _ (decidableEachStep P as (act s a))

variable {enabled act} {s s' s'' : σ} {as bs : List α}

namespace Run

/-- Actions enabled one after the other make a run. -/
theorem of_enabled (h : EachStep act enabled s as) : Run enabled act s as (as.foldl act s) := by
  induction as generalizing s with
  | nil => exact .nil s
  | cons a as ih => exact .cons h.1 (ih h.2)

theorem append (first : Run enabled act s as s') (second : Run enabled act s' bs s'') :
    Run enabled act s (as ++ bs) s'' := by
  induction first with
  | nil => exact second
  | cons enabled _ ih => exact .cons enabled (ih second)

theorem one {a : α} (h : enabled s a) : Run enabled act s [a] (act s a) := .cons h (.nil _)

/-- What holds of `s` and survives every action that meets `C` holds after every
run whose actions do. -/
theorem preserves_each {P : σ → Prop} {C : σ → α → Prop} (run : Run enabled act s as s')
    (start : P s) (each : EachStep act C s as)
    (step : ∀ {s a}, P s → C s a → enabled s a → P (act s a)) : P s' := by
  induction run with
  | nil => exact start
  | cons enabled _ ih => exact ih (step start each.1 enabled) each.2

/-- What an invariant says of the next action holds of every action. -/
theorem each_of_preserves {P : σ → Prop} {C Q : σ → α → Prop} (run : Run enabled act s as s')
    (start : P s) (each : EachStep act C s as)
    (step : ∀ {s a}, P s → C s a → enabled s a → P (act s a))
    (next : ∀ {s a}, P s → enabled s a → Q s a) : EachStep act Q s as := by
  induction run with
  | nil => trivial
  | cons enabled _ ih => exact ⟨next start enabled, ih (step start each.1 enabled) each.2⟩

/-- An invariant: what holds of `s` and survives every action holds along every
run. -/
theorem preserves {P : σ → Prop} (run : Run enabled act s as s') (start : P s)
    (step : ∀ {s a}, P s → enabled s a → P (act s a)) : P s' := by
  induction run with
  | nil => exact start
  | cons enabled _ ih => exact ih (step start enabled)

/-- Where every action makes the state smaller, a run is no longer than the state it begins
in is large. -/
theorem length_le {I : σ → Prop} (size : σ → Nat) (run : Run enabled act s as s') (start : I s)
    (step : ∀ {s a}, I s → enabled s a → I (act s a) ∧ size (act s a) < size s) :
    as.length + size s' ≤ size s := by
  induction run with
  | nil => rw [List.length_nil, Nat.zero_add]
  | cons enabled _ ih =>
      obtain ⟨next, less⟩ := step start enabled
      have rest := ih next
      rw [List.length_cons]
      omega

/-- Where there is an action of the kind `C` that makes the state smaller until it is as
wanted, some run of such actions ends there. -/
theorem exists_settled {I Settled : σ → Prop} {C : α → Prop} (size : σ → Nat)
    (step : ∀ s, I s → ¬ Settled s →
      ∃ a, C a ∧ enabled s a ∧ I (act s a) ∧ size (act s a) < size s)
    {s : σ} (start : I s) :
    ∃ as s', Run enabled act s as s' ∧ (∀ a ∈ as, C a) ∧ I s' ∧ Settled s' := by
  induction bound : size s using Nat.strong_induction_on generalizing s with
  | _ n ih =>
      by_cases settled : Settled s
      · exact ⟨[], s, .nil s, List.forall_mem_nil _, start, settled⟩
      · obtain ⟨a, kind, able, next, less⟩ := step s start settled
        rw [bound] at less
        obtain ⟨as, s', run, all, inv, goal⟩ := ih _ less next rfl
        exact ⟨a :: as, s', .cons able run, List.forall_mem_cons.mpr ⟨kind, all⟩, inv, goal⟩

end Run

/-- The actions of a run are those of its list. -/
theorem EachStep.mem (h : ∀ a ∈ as, a ∈ bs) : EachStep act (fun _ a => a ∈ bs) s as := by
  induction as generalizing s with
  | nil => trivial
  | cons a as ih =>
      exact ⟨h a (List.mem_cons_self ..), ih fun b mem => h b (List.mem_cons_of_mem _ mem)⟩

theorem Throughout.head {P : σ → Prop} (h : Throughout act P s as) : P s := by
  cases as with
  | nil => exact h
  | cons a as => exact h.1

end Lib
