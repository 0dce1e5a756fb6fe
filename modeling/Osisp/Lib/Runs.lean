import Mathlib

/-!
# Maximal runs

The elements outside `p` separate a list into its runs of elements of `p`, some of
which may be empty. `mapRuns` puts something else in the place of every run. A run
is known only at its end, so a scan that decides while it moves uses `scanRuns`,
which is told whether it starts inside a run that is to be left as it is.
-/

namespace Lib

variable {α : Type} {p : α → Bool} {f g : List α → List α} {a b l w : List α} {c x : α}

/-- The runs of `p`, in order. -/
def runs (p : α → Bool) (l : List α) : List (List α) := l.splitOnP fun x => !p x

/-- `mapRuns` with what has been read of the current run. -/
def mapRunsFrom (p : α → Bool) (f : List α → List α) : List α → List α → List α
  | run, [] => f run
  | run, x :: l =>
      if p x then mapRunsFrom p f (run ++ [x]) l else f run ++ x :: mapRunsFrom p f [] l

/-- `f` is applied to every run of `p`; the elements between the runs stay. -/
def mapRuns (p : α → Bool) (f : List α → List α) (l : List α) : List α := mapRunsFrom p f [] l

/-! ## One run, and the first separator -/

theorem runs_of_all (all : ∀ x ∈ w, p x) : runs p w = [w] :=
  List.splitOnP_eq_singleton fun x mem => by rw [all x mem, Bool.not_true]

theorem runs_append_cons (sep : ¬ p c) : runs p (a ++ c :: b) = runs p a ++ runs p b :=
  List.splitOnP_append_cons a b (by simpa using sep)

theorem mapRunsFrom_all (run : List α) (all : ∀ x ∈ w, p x) :
    mapRunsFrom p f run (w ++ l) = mapRunsFrom p f (run ++ w) l := by
  induction w generalizing run with
  | nil => rw [List.nil_append, List.append_nil]
  | cons x w ih =>
      have rest := ih (run ++ [x]) fun y mem => all y (List.mem_cons_of_mem _ mem)
      rw [List.cons_append, mapRunsFrom, if_pos (all x List.mem_cons_self), rest,
        List.append_assoc, List.singleton_append]

theorem mapRunsFrom_append_cons (run : List α) (sep : ¬ p c) :
    mapRunsFrom p f run (a ++ c :: b) = mapRunsFrom p f run a ++ c :: mapRuns p f b := by
  induction a generalizing run with
  | nil =>
      rw [List.nil_append, mapRunsFrom.eq_2, if_neg sep, mapRunsFrom.eq_1]
      rfl
  | cons x a ih =>
      rw [List.cons_append, mapRunsFrom, mapRunsFrom]
      by_cases inside : p x
      · rw [if_pos inside, if_pos inside, ih]
      · rw [if_neg inside, if_neg inside, ih, List.append_assoc, List.cons_append]

/-! ## The first run -/

theorem takeWhile_of_head (stop : ∀ x ∈ l.head?, ¬ p x) : l.takeWhile p = [] := by
  cases l with
  | nil => rfl
  | cons x l => exact List.takeWhile_cons_of_neg (stop x rfl)

theorem dropWhile_of_head (stop : ∀ x ∈ l.head?, ¬ p x) : l.dropWhile p = l := by
  cases l with
  | nil => rfl
  | cons x l => exact List.dropWhile_cons_of_neg (stop x rfl)

/-- The first run is known by what follows it. -/
theorem takeWhile_run (all : ∀ x ∈ w, p x) (stop : ∀ x ∈ l.head?, ¬ p x) :
    (w ++ l).takeWhile p = w := by
  rw [List.takeWhile_append_of_pos all, takeWhile_of_head stop, List.append_nil]

theorem dropWhile_run (all : ∀ x ∈ w, p x) (stop : ∀ x ∈ l.head?, ¬ p x) :
    (w ++ l).dropWhile p = l := by
  rw [List.dropWhile_append_of_pos all, dropWhile_of_head stop]

/-! ## Runs one by one -/

theorem mapRuns_of_all (all : ∀ x ∈ w, p x) : mapRuns p f w = f w := by
  have one := mapRunsFrom_all (f := f) (l := []) [] all
  rwa [List.append_nil, List.nil_append] at one

theorem mapRuns_append_cons (sep : ¬ p c) :
    mapRuns p f (a ++ c :: b) = mapRuns p f a ++ c :: mapRuns p f b :=
  mapRunsFrom_append_cons [] sep

/-- A list is one run, or it has a first separator. -/
theorem runs_induction {P : List α → Prop} (one : ∀ w, (∀ x ∈ w, p x) → P w)
    (more : ∀ w c b, (∀ x ∈ w, p x) → ¬ p c → P b → P (w ++ c :: b)) (l : List α) : P l := by
  suffices from_run : ∀ w, (∀ x ∈ w, p x) → P (w ++ l) from
    from_run [] fun x mem => absurd mem List.not_mem_nil
  induction l with
  | nil =>
      intro w all
      rw [List.append_nil]
      exact one w all
  | cons x l ih =>
      intro w all
      by_cases inside : p x
      · have longer : ∀ y ∈ w ++ [x], p y := by
          intro y mem
          rcases List.mem_append.mp mem with before | here
          · exact all y before
          · rwa [List.mem_singleton.mp here]
        have next := ih (w ++ [x]) longer
        rwa [List.append_assoc, List.singleton_append] at next
      · exact more w x l all inside (ih [] fun y mem => absurd mem List.not_mem_nil)

theorem all_of_mem_runs (mem : w ∈ runs p l) : ∀ x ∈ w, p x := by
  induction l using runs_induction (p := p) with
  | one u all =>
      rw [runs_of_all all] at mem
      rwa [List.mem_singleton.mp mem]
  | more u c b all sep ih =>
      rw [runs_append_cons sep, runs_of_all all] at mem
      rcases List.mem_append.mp mem with here | behind
      · rwa [List.mem_singleton.mp here]
      · exact ih behind

/-- A run is the whole list, or it is shorter. -/
theorem length_of_mem_runs (mem : w ∈ runs p l) : w = l ∨ w.length < l.length := by
  induction l using runs_induction (p := p) with
  | one u all =>
      rw [runs_of_all all] at mem
      exact Or.inl (List.mem_singleton.mp mem)
  | more u c b all sep ih =>
      rw [runs_append_cons sep, runs_of_all all] at mem
      right
      rw [List.length_append, List.length_cons]
      rcases List.mem_append.mp mem with here | behind
      · rw [List.mem_singleton.mp here]
        omega
      · rcases ih behind with rfl | shorter <;> omega

/-- The last element is in a run. -/
def lastIn (p : α → Bool) (l : List α) : Bool := l.getLast?.any p

theorem lastIn_append_singleton (x : α) : lastIn p (l ++ [x]) = p x := by
  rw [lastIn, List.getLast?_concat]
  rfl

/-- What stands before a list that is not empty does not matter. -/
theorem lastIn_append (more : b ≠ []) : lastIn p (a ++ b) = lastIn p b := by
  rw [lastIn, lastIn, List.getLast?_append_of_ne_nil _ more]

theorem lastIn_of_all (more : w ≠ []) (all : ∀ x ∈ w, p x) : lastIn p w = true := by
  rw [lastIn, List.getLast?_eq_some_getLast more]
  exact all _ (List.getLast_mem more)

/-- It has a separator at its end, unless it is empty. -/
theorem lastIn_eq_false : lastIn p a = false ↔ a = [] ∨ ∃ l c, a = l ++ [c] ∧ ¬ p c := by
  rcases List.eq_nil_or_concat a with rfl | ⟨l, c, rfl⟩
  · exact iff_of_true rfl (Or.inl rfl)
  · rw [List.concat_eq_append, lastIn_append_singleton]
    constructor
    · exact fun sep => Or.inr ⟨l, c, rfl, by rw [sep]; exact Bool.false_ne_true⟩
    · rintro (empty | ⟨l', c', same, sep⟩)
      · exact absurd empty (by simp)
      · obtain ⟨-, rfl⟩ := List.append_singleton_inj.mp same
        exact Bool.eq_false_iff.mpr sep

/-- So has it at its front. -/
theorem takeWhile_eq_nil : b.takeWhile p = [] ↔ b = [] ∨ ∃ c l, b = c :: l ∧ ¬ p c := by
  cases b with
  | nil => exact iff_of_true rfl (Or.inl rfl)
  | cons c l =>
      by_cases run : p c
      · simp [run]
      · simp [run]

/-- A run is what stands between two separators, or ends of the list. -/
theorem mem_runs_iff :
    w ∈ runs p l ↔ ∃ a b, l = a ++ (w ++ b) ∧ (∀ x ∈ w, p x) ∧ lastIn p a = false ∧
      b.takeWhile p = [] := by
  constructor
  · intro mem
    have all := all_of_mem_runs mem
    induction l using runs_induction (p := p) with
    | one u every =>
        rw [runs_of_all every] at mem
        obtain rfl := List.mem_singleton.mp mem
        exact ⟨[], [], (List.append_nil _).symm, all, rfl, rfl⟩
    | more u c b every sep ih =>
        rw [runs_append_cons sep, runs_of_all every] at mem
        rcases List.mem_append.mp mem with here | behind
        · obtain rfl := List.mem_singleton.mp here
          exact ⟨[], c :: b, rfl, all, rfl, List.takeWhile_cons_of_neg sep⟩
        · obtain ⟨a', b', rfl, -, left, right⟩ := ih behind
          refine ⟨u ++ c :: a', b', by simp, all, ?_, right⟩
          cases a' with
          | nil => rw [lastIn_append_singleton, Bool.eq_false_iff.mpr sep]
          | cons x a' =>
              have more : x :: a' ≠ [] := List.cons_ne_nil x a'
              rw [List.append_cons, lastIn_append more, left]
  · rintro ⟨a, b, rfl, all, left, right⟩
    have behind : w ∈ runs p (w ++ b) := by
      rcases takeWhile_eq_nil.mp right with rfl | ⟨c, b', rfl, sep⟩
      · rw [List.append_nil, runs_of_all all]
        exact List.mem_singleton_self w
      · rw [runs_append_cons sep, runs_of_all all]
        exact List.mem_cons_self
    rcases lastIn_eq_false.mp left with rfl | ⟨a', c, rfl, sep⟩
    · exact behind
    · rw [List.append_assoc, List.singleton_append, runs_append_cons sep]
      exact List.mem_append_right _ behind

theorem mem_of_mem_runs (run : w ∈ runs p l) (mem : x ∈ w) : x ∈ l := by
  obtain ⟨a, b, rfl, -⟩ := mem_runs_iff.mp run
  exact List.mem_append_right a (List.mem_append_left b mem)

/-- The runs of lines that are put behind one another are those of each line. -/
theorem runs_terminated (sep : ¬ p c) (ls : List (List α)) :
    runs p (ls.flatMap (· ++ [c])) = ls.flatMap (runs p) ++ [[]] := by
  induction ls with
  | nil => rfl
  | cons l ls ih =>
      rw [List.flatMap_cons, List.append_assoc, List.singleton_append, runs_append_cons sep, ih,
        List.flatMap_cons, List.append_assoc]

theorem lastIn_rdropWhile (l : List α) : lastIn p (l.rdropWhile p) = false := by
  rw [lastIn_eq_false]
  rcases List.eq_nil_or_concat (l.rdropWhile p) with empty | ⟨front, c, parts⟩
  · exact Or.inl empty
  · rw [List.concat_eq_append] at parts
    refine Or.inr ⟨front, c, parts, ?_⟩
    have more : l.rdropWhile p ≠ [] := by
      rw [parts]
      simp
    have last := List.rdropWhile_last_not p l more
    simpa only [parts, List.getLast_append_singleton] using last

theorem takeWhile_dropWhile (l : List α) : (l.dropWhile p).takeWhile p = [] := by
  rw [takeWhile_eq_nil]
  cases rest : l.dropWhile p with
  | nil => exact Or.inl rfl
  | cons c b =>
      have stop := List.head?_dropWhile_not p l
      rw [rest] at stop
      exact Or.inr ⟨c, b, rfl, by simpa using stop⟩

/-- The run around some of its elements. -/
theorem exists_run (all : ∀ x ∈ w, p x) (a b : List α) :
    ∃ before front behind after, a = before ++ front ∧ b = behind ++ after ∧
      lastIn p before = false ∧ after.takeWhile p = [] ∧
      front ++ (w ++ behind) ∈ runs p (a ++ (w ++ b)) := by
  have left : a = a.rdropWhile p ++ a.rtakeWhile p := List.rdropWhile_append_rtakeWhile.symm
  have right := (List.takeWhile_append_dropWhile (p := p) (l := b)).symm
  refine ⟨_, _, _, _, left, right, lastIn_rdropWhile a, takeWhile_dropWhile b, ?_⟩
  refine mem_runs_iff.mpr ⟨a.rdropWhile p, b.dropWhile p, ?_, ?_, lastIn_rdropWhile a,
    takeWhile_dropWhile b⟩
  · have parts : a.rdropWhile p ++ (a.rtakeWhile p ++ (w ++ b.takeWhile p) ++ b.dropWhile p) =
        (a.rdropWhile p ++ a.rtakeWhile p) ++ (w ++ (b.takeWhile p ++ b.dropWhile p)) := by
      simp only [List.append_assoc]
    rw [parts, ← left, ← right]
  · intro x mem
    rcases List.mem_append.mp mem with front | mem
    · exact List.mem_rtakeWhile_imp front
    · rcases List.mem_append.mp mem with here | behind
      · exact all x here
      · exact List.mem_takeWhile_imp behind

/-! ## Runs of the result -/

/-- Only what `f` does to runs matters. -/
theorem mapRuns_congr (same : ∀ w, (∀ x ∈ w, p x) → f w = g w) (l : List α) :
    mapRuns p f l = mapRuns p g l := by
  induction l using runs_induction (p := p) with
  | one w all => rw [mapRuns_of_all all, mapRuns_of_all all, same w all]
  | more w c b all sep ih =>
      rw [mapRuns_append_cons sep, mapRuns_append_cons sep, mapRuns_of_all all,
        mapRuns_of_all all, same w all, ih]

/-- Runs that `f` does not change leave the list unchanged. -/
theorem mapRuns_eq_self (same : ∀ w ∈ runs p l, f w = w) : mapRuns p f l = l := by
  induction l using runs_induction (p := p) with
  | one w all =>
      rw [runs_of_all all] at same
      rw [mapRuns_of_all all, same w List.mem_cons_self]
  | more w c b all sep ih =>
      rw [runs_append_cons sep, runs_of_all all] at same
      have first := same w (List.mem_append_left _ List.mem_cons_self)
      have rest := ih fun u mem => same u (List.mem_append_right _ mem)
      rw [mapRuns_append_cons sep, mapRuns_of_all all, first, rest]

/-- What is put in the place of a run may have several runs of its own. -/
theorem runs_mapRuns (l : List α) :
    runs p (mapRuns p f l) = (runs p l).flatMap fun w => runs p (f w) := by
  induction l using runs_induction (p := p) with
  | one w all =>
      rw [mapRuns_of_all all, runs_of_all all, List.flatMap_singleton]
  | more w c b all sep ih =>
      rw [mapRuns_append_cons sep, runs_append_cons sep, runs_append_cons sep, ih,
        mapRuns_of_all all, runs_of_all all, List.flatMap_append, List.flatMap_singleton]

/-- An element of the result was between the runs, or has been put in the place of one. -/
theorem mem_mapRuns (mem : x ∈ mapRuns p f l) : x ∈ l ∨ ∃ w ∈ runs p l, x ∈ f w := by
  induction l using runs_induction (p := p) with
  | one w all =>
      rw [mapRuns_of_all all] at mem
      rw [runs_of_all all]
      exact Or.inr ⟨w, List.mem_singleton_self w, mem⟩
  | more w c b all sep ih =>
      rw [mapRuns_append_cons sep, mapRuns_of_all all] at mem
      rw [runs_append_cons sep, runs_of_all all]
      rcases List.mem_append.mp mem with first | mem
      · exact Or.inr ⟨w, List.mem_append_left _ (List.mem_singleton_self w), first⟩
      · rcases List.mem_cons.mp mem with rfl | rest
        · exact Or.inl (List.mem_append_right _ List.mem_cons_self)
        · rcases ih rest with between | ⟨u, run, inside⟩
          · exact Or.inl (List.mem_append_right _ (List.mem_cons_of_mem _ between))
          · exact Or.inr ⟨u, List.mem_append_right _ run, inside⟩

/-- They are all that a second pass sees of it. -/
theorem mapRuns_mapRuns (l : List α) :
    mapRuns p g (mapRuns p f l) = mapRuns p (fun w => mapRuns p g (f w)) l := by
  induction l using runs_induction (p := p) with
  | one w all => rw [mapRuns_of_all all, mapRuns_of_all all]
  | more w c b all sep ih =>
      rw [mapRuns_append_cons sep, mapRuns_append_cons sep, mapRuns_append_cons sep, ih,
        mapRuns_of_all all, mapRuns_of_all all]

/-- The list gets longer by as much as its runs do. -/
theorem length_mapRuns (l : List α) :
    (mapRuns p f l).length + ((runs p l).map List.length).sum =
      l.length + ((runs p l).map fun w => (f w).length).sum := by
  induction l using runs_induction (p := p) with
  | one w all =>
      rw [mapRuns_of_all all, runs_of_all all, List.map_singleton, List.map_singleton,
        List.sum_singleton, List.sum_singleton, Nat.add_comm]
  | more w c b all sep ih =>
      rw [mapRuns_append_cons sep, mapRuns_of_all all, runs_append_cons sep, runs_of_all all,
        List.singleton_append, List.map_cons, List.map_cons, List.sum_cons, List.sum_cons,
        List.length_append, List.length_append, List.length_cons, List.length_cons]
      omega

theorem length_mapRuns_le (grows : ∀ w ∈ runs p l, w.length ≤ (f w).length) :
    l.length ≤ (mapRuns p f l).length := by
  have lengths := length_mapRuns (p := p) (f := f) l
  have sums := List.sum_le_sum grows
  omega

theorem length_mapRuns_lt (grows : ∀ w ∈ runs p l, w.length ≤ (f w).length)
    (longer : ∃ w ∈ runs p l, w.length < (f w).length) :
    l.length < (mapRuns p f l).length := by
  have lengths := length_mapRuns (p := p) (f := f) l
  have sums := List.sum_lt_sum _ _ grows longer
  omega

/-! ## A scan that keeps some runs -/

/-- The rest of a list when the run it starts with is left as it is. -/
def keepRun (p : α → Bool) (f : List α → List α) (l : List α) : List α :=
  l.takeWhile p ++ mapRuns p f (l.dropWhile p)

/-- The rest of a list, `inside` such a run or not. -/
def scanRuns (p : α → Bool) (f : List α → List α) (inside : Bool) (l : List α) : List α :=
  if inside then keepRun p f l else mapRuns p f l

theorem mapRuns_cons_sep (nil : f [] = []) (sep : ¬ p c) :
    mapRuns p f (c :: b) = c :: mapRuns p f b := by
  rw [← List.nil_append (c :: b), mapRuns_append_cons sep]
  exact congrArg (· ++ _) nil

/-- The first run, and the rest. -/
theorem mapRuns_eq (nil : f [] = []) (l : List α) :
    mapRuns p f l = f (l.takeWhile p) ++ mapRuns p f (l.dropWhile p) := by
  induction l using runs_induction (p := p) with
  | one w all =>
      have rest : w.dropWhile p = [] := List.dropWhile_eq_nil_iff.mpr all
      have empty : mapRuns p f [] = [] := nil
      rw [mapRuns_of_all all, List.takeWhile_eq_self_iff.mpr all, rest, empty, List.append_nil]
  | more w c b all sep _ =>
      have stop : ∀ x ∈ (c :: b).head?, ¬ p x := by
        intro x head
        cases head
        exact sep
      rw [takeWhile_run all stop, dropWhile_run all stop, mapRuns_append_cons sep,
        mapRuns_of_all all, mapRuns_cons_sep nil sep]

/-- One element on: it is not the first of a run that `f` changes. -/
theorem scanRuns_cons (nil : f [] = []) {inside : Bool}
    (keep : inside = false → f ((x :: l).takeWhile p) = (x :: l).takeWhile p) :
    scanRuns p f inside (x :: l) = x :: scanRuns p f (p x) l := by
  by_cases run : p x
  · have kept : scanRuns p f inside (x :: l) = keepRun p f (x :: l) := by
      cases inside with
      | false =>
          rw [scanRuns, if_neg Bool.false_ne_true, mapRuns_eq nil, keep rfl]
          rfl
      | true => rw [scanRuns, if_pos rfl]
    rw [kept, keepRun, List.takeWhile_cons_of_pos run, List.dropWhile_cons_of_pos run, scanRuns,
      if_pos run]
    rfl
  · have next : scanRuns p f (p x) l = mapRuns p f l := by rw [scanRuns, if_neg run]
    rw [next, ← mapRuns_cons_sep nil run, scanRuns]
    split
    · rw [keepRun, List.takeWhile_cons_of_neg run, List.dropWhile_cons_of_neg run,
        List.nil_append]
    · rfl

/-- Between runs it does not matter whether the last one was kept. -/
theorem scanRuns_of_sep {inside : Bool} (sep : l.takeWhile p = []) :
    scanRuns p f inside l = mapRuns p f l := by
  rw [scanRuns]
  split
  · have all : l.dropWhile p = l := by
      have parts := List.takeWhile_append_dropWhile (p := p) (l := l)
      rwa [sep, List.nil_append] at parts
    rw [keepRun, sep, all, List.nil_append]
  · rfl

@[simp] theorem scanRuns_nil (nil : f [] = []) (inside : Bool) : scanRuns p f inside [] = [] := by
  have empty : mapRuns p f [] = [] := nil
  rw [scanRuns_of_sep rfl, empty]

/-- The whole list, as it is to be when the scan has come behind `front`. -/
def scannedFrom (p : α → Bool) (f : List α → List α) (front rest : List α) : List α :=
  front ++ scanRuns p f (lastIn p front) rest

theorem scannedFrom_nil (nil : f [] = []) (front : List α) : scannedFrom p f front [] = front := by
  rw [scannedFrom, scanRuns_nil nil, List.append_nil]

theorem scannedFrom_cons (nil : f [] = []) {front : List α}
    (keep : lastIn p front = false → f ((x :: l).takeWhile p) = (x :: l).takeWhile p) :
    scannedFrom p f front (x :: l) = scannedFrom p f (front ++ [x]) l := by
  rw [scannedFrom, scanRuns_cons nil keep, scannedFrom, lastIn_append_singleton,
    List.append_assoc, List.singleton_append]

end Lib
