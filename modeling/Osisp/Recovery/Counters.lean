import Mathlib
import Osisp.Recovery.Process

/-!
# The counters in the log

What is in the file, together with what is on its way there, is 1, 2, 3, …: each
statement of the loop keeps that, and so does a fork, unless the process has an
unflushed line. Then both parent and child flush it (`fork_logs_twice`). Between
`fprintf` and `fclose` is the only place for that.
-/

namespace Osisp.Recovery

open Lib

/-! ## Counting from one -/

/-- The values 1, 2, 3, … in order. -/
def Consecutive (values : List Nat) : Prop := values = List.range' 1 values.length

instance (values : List Nat) : Decidable (Consecutive values) :=
  inferInstanceAs (Decidable (_ = _))

theorem Consecutive.snoc {values : List Nat} (h : Consecutive values) :
    Consecutive (values ++ [values.length + 1]) := by
  rw [Consecutive, List.length_append, List.length_singleton, List.range'_concat, ← h]
  simp [Nat.add_comm]

/-- No value occurs twice. -/
theorem Consecutive.nodup {values : List Nat} (h : Consecutive values) : values.Nodup := by
  rw [h]
  exact List.nodup_range'

/-! ## What is on its way to the file -/

/-- The lines that processes have yet to flush. -/
def Chain.unwritten (s : Chain) : List Line :=
  s.exiting.flatten ++ s.live.elim [] Proc.unflushed

/-- The file, once every process has flushed. -/
def Chain.logged (s : Chain) : List Line := s.file ++ s.unwritten

/-- Where the live process is when `n` lines are logged. -/
def Proc.At (n : Nat) (p : Proc) : Prop :=
  match p.point with
  | .count | .sleep => p.counter = n ∧ p.stream = none
  | .print | .call => p.counter = n + 1 ∧ p.stream = none
  | .fopen _ counter => p.counter = n + 1 ∧ counter = n + 1 ∧ p.stream = none
  | .fprintf _ counter => p.counter = n + 1 ∧ counter = n + 1 ∧ p.stream = some []
  | .fclose => p.counter = n ∧ ∃ line, p.stream = some [line]

/-- What is logged counts from one, and at most one line is on its way. -/
structure Logged (s : Chain) : Prop where
  values : Consecutive (s.logged.map Line.counter)
  one : s.unwritten.length ≤ 1
  live : ∀ p ∈ s.live, s.exiting.flatten = [] ∧ p.At s.logged.length

variable {s s' : Chain} {a : Action} {as : List Action} {p : Proc} {n : Nat}

/-- Only between `fprintf` and `fclose` is a line unflushed. -/
theorem Proc.At.unflushed (inv : p.At n) (point : p.point ≠ .fclose) : p.unflushed = [] := by
  unfold Proc.At at inv
  cases h : p.point with
  | count | print | call | sleep =>
      rw [h] at inv
      rw [Proc.unflushed, inv.2]
      rfl
  | fopen pid counter | fprintf pid counter =>
      rw [h] at inv
      rw [Proc.unflushed, inv.2.2]
      rfl
  | fclose => exact absurd h point

theorem Proc.At.unflushed_length (inv : p.At n) : p.unflushed.length ≤ 1 := by
  by_cases point : p.point = .fclose
  · unfold Proc.At at inv
    rw [point] at inv
    obtain ⟨-, line, stream⟩ := inv
    rw [Proc.unflushed, stream]
    exact Nat.le_refl 1
  · rw [inv.unflushed point]
    exact Nat.zero_le 1

/-- A call of `fopen` that runs next succeeds. -/
def Point.Opens (opens : Bool) : Point → Prop
  | .fopen _ _ => opens = true
  | _ => True

instance (opens : Bool) (point : Point) : Decidable (point.Opens opens) := by
  cases point <;> unfold Point.Opens <;> infer_instance

/-- A statement moves lines towards the file, or adds the next one. -/
theorem Proc.At.step (inv : p.At n) {opens : Bool} (now : Int)
    (opened : p.point.Opens opens) :
    ((p.step opens now).2 ++ (p.step opens now).1.unflushed = p.unflushed ∧
        (p.step opens now).1.At n) ∨
      ∃ line, p.unflushed = [] ∧ (p.step opens now).2 = [] ∧
        (p.step opens now).1.unflushed = [line] ∧ line.counter = n + 1 ∧
        (p.step opens now).1.At (n + 1) := by
  rcases p with ⟨pid, counter, point, stream⟩
  cases point with
  | count =>
      obtain ⟨rfl, rfl⟩ := inv
      exact .inl ⟨rfl, rfl, rfl⟩
  | print =>
      obtain ⟨rfl, rfl⟩ := inv
      exact .inl ⟨rfl, rfl, rfl⟩
  | call =>
      obtain ⟨rfl, rfl⟩ := inv
      exact .inl ⟨rfl, rfl, rfl, rfl⟩
  | fopen own value =>
      obtain ⟨rfl, rfl, rfl⟩ := inv
      obtain rfl : opens = true := opened
      exact .inl ⟨rfl, rfl, rfl, rfl⟩
  | fprintf own value =>
      obtain ⟨rfl, rfl, rfl⟩ := inv
      exact .inr ⟨_, rfl, rfl, rfl, rfl, rfl, _, rfl⟩
  | fclose =>
      obtain ⟨rfl, line, rfl⟩ := inv
      exact .inl ⟨rfl, rfl, rfl⟩
  | sleep =>
      obtain ⟨rfl, rfl⟩ := inv
      exact .inl ⟨rfl, rfl, rfl⟩

/-- With one line in all, it does not matter who flushes first. -/
theorem getD_append_eraseIdx {α : Type} {lists : List (List α)} (one : lists.flatten.length ≤ 1)
    (place : Nat) :
    lists.getD place [] ++ (lists.eraseIdx place).flatten = lists.flatten := by
  induction lists generalizing place with
  | nil => rfl
  | cons first rest ih =>
      rw [List.flatten_cons, List.length_append] at one
      cases place with
      | zero => rfl
      | succ place =>
          have later := ih (by omega) place
          rw [List.getD_cons_succ, List.eraseIdx_cons_succ, List.flatten_cons, List.flatten_cons,
            ← later]
          cases first with
          | nil => rfl
          | cons line lines =>
              rw [List.length_cons] at one
              have none : rest.flatten = [] := List.eq_nil_of_length_eq_zero (by omega)
              rw [none] at later
              rw [(List.append_eq_nil_iff.mp later).1, List.nil_append, List.nil_append]

/-! ## Runs -/

/-- The handler does not fork between `fprintf` and `fclose`, and the log can be opened. -/
def Unharmed (s : Chain) : Action → Prop
  | .signal _ => ∀ p ∈ s.live, p.point ≠ .fclose
  | .step opens _ => ∀ p ∈ s.live, p.point.Opens opens
  | _ => True

instance (s : Chain) (a : Action) : Decidable (Unharmed s a) := by
  induction a using Action.casesOn <;> unfold Unharmed <;> infer_instance

theorem Logged.step (logged : Logged s) {opens : Bool} {now : Int}
    (unharmed : Unharmed s (.step opens now)) : Logged (act s (.step opens now)) := by
  cases h : s.live with
  | none =>
      have same : act s (.step opens now) = s := by simp only [act, h]
      rw [same]
      exact logged
  | some p =>
      obtain ⟨none, inv⟩ := logged.live p h
      have before : s.logged = s.file ++ p.unflushed := by
        rw [Chain.logged, Chain.unwritten, none, h]
        rfl
      have eq : act s (.step opens now) = { s with
          live := some (p.step opens now).1, file := s.file ++ (p.step opens now).2 } := by
        simp only [act, h]
      have after : (act s (.step opens now)).logged =
          s.file ++ ((p.step opens now).2 ++ (p.step opens now).1.unflushed) := by
        rw [eq, ← List.append_assoc]
        simp [Chain.logged, Chain.unwritten, none]
      have unwritten : (act s (.step opens now)).unwritten = (p.step opens now).1.unflushed := by
        rw [eq]
        simp [Chain.unwritten, none]
      have next : Logged (act s (.step opens now)) ↔
          Consecutive ((act s (.step opens now)).logged.map Line.counter) ∧
            (p.step opens now).1.At (act s (.step opens now)).logged.length := by
        refine ⟨fun l => ⟨l.values, (l.live _ (by rw [eq]; rfl)).2⟩, fun l => ⟨l.1, ?_, ?_⟩⟩
        · rw [unwritten]
          exact l.2.unflushed_length
        · intro q mem
          obtain rfl : (p.step opens now).1 = q := by
            rw [eq] at mem
            exact Option.some.inj mem
          exact ⟨by rw [eq]; exact none, l.2⟩
      rw [next, after]
      rcases inv.step now (unharmed p h) with ⟨same, stays⟩ | ⟨line, held, out, added, value, moved⟩
      · rw [same, ← before]
        exact ⟨logged.values, stays⟩
      · rw [before, held, List.append_nil] at moved value
        have values := logged.values
        rw [before, held, List.append_nil] at values
        rw [out, added, List.nil_append, List.map_append, List.map_singleton, value,
          List.length_append, List.length_singleton]
        refine ⟨?_, moved⟩
        have snoc := values.snoc
        rwa [List.length_map] at snoc

/-- A fork with nothing unflushed changes nothing but the process that counts. -/
theorem Logged.signal (logged : Logged s) {child : Nat} (unharmed : Unharmed s (.signal child)) :
    Logged (act s (.signal child)) := by
  cases h : s.live with
  | none =>
      have same : act s (.signal child) = s := by simp only [act, h]
      rw [same]
      exact logged
  | some p =>
      obtain ⟨none, inv⟩ := logged.live p h
      have empty := inv.unflushed (unharmed p h)
      have after : act s (.signal child) = { s with
          live := some { p with pid := child }, exiting := s.exiting ++ [[]] } := by
        simp only [act, h, empty]
      have unwritten : (act s (.signal child)).unwritten = s.unwritten := by
        rw [after, Chain.unwritten, Chain.unwritten, h]
        simp [Proc.unflushed]
      have same : (act s (.signal child)).logged = s.logged := by
        rw [Chain.logged, unwritten, after, Chain.logged]
      refine ⟨by rw [same]; exact logged.values, by rw [unwritten]; exact logged.one, ?_⟩
      intro q mem
      rw [same]
      rw [after] at mem ⊢
      cases mem
      exact ⟨by simp [none], inv⟩

/-- Without a child, the process takes its line along. -/
theorem Logged.signalFails (logged : Logged s) : Logged (act s .signalFails) := by
  cases h : s.live with
  | none =>
      have same : act s .signalFails = s := by simp only [act, h]
      rw [same]
      exact logged
  | some p =>
      have after : act s .signalFails = { s with
          live := none, exiting := s.exiting ++ [p.unflushed] } := by
        simp only [act, h]
      have unwritten : (act s .signalFails).unwritten = s.unwritten := by
        rw [after, Chain.unwritten, Chain.unwritten, h]
        simp
      have same : (act s .signalFails).logged = s.logged := by
        rw [Chain.logged, unwritten, after, Chain.logged]
      refine ⟨by rw [same]; exact logged.values, by rw [unwritten]; exact logged.one, ?_⟩
      intro q mem
      rw [after] at mem
      cases mem

theorem Logged.exits (logged : Logged s) (place : Nat) : Logged (act s (.exits place)) := by
  have one : s.exiting.flatten.length ≤ 1 := by
    have := logged.one
    rw [Chain.unwritten, List.length_append] at this
    omega
  have parts := getD_append_eraseIdx one place
  have same : (act s (.exits place)).logged = s.logged := by
    simp only [Chain.logged, Chain.unwritten, act]
    rw [← parts]
    simp
  have fewer : (act s (.exits place)).exiting.flatten.length ≤ s.exiting.flatten.length := by
    rw [← parts, List.length_append]
    exact Nat.le_add_left _ _
  refine ⟨by rw [same]; exact logged.values, ?_, fun q mem => ?_⟩
  · have := logged.one
    rw [Chain.unwritten, List.length_append] at this ⊢
    exact (Nat.add_le_add_right fewer _).trans this
  · obtain ⟨none, inv⟩ := logged.live q mem
    rw [same]
    rw [none] at fewer
    exact ⟨List.eq_nil_of_length_eq_zero (Nat.le_zero.mp fewer), inv⟩

/-- After a fork with an unflushed line, the child flushes it and the parent does. -/
theorem fork_logs_twice {line : Line} (live : s.live = some p) (point : p.point = .fclose)
    (unflushed : p.unflushed = [line]) (child : Nat) (opens : Bool) (now : Int) :
    ([.signal child, .step opens now, .exits s.exiting.length].foldl act s).file =
      s.file ++ [line] ++ [line] := by
  have closes : ({ p with pid := child } : Proc).step opens now =
      ({ p with pid := child, point := .sleep, stream := none }, [line]) := by
    simp only [Proc.step, point]
    rw [Proc.unflushed] at *
    exact congrArg _ unflushed
  simp [act, live, closes, unflushed]

end Osisp.Recovery
