import Mathlib
import Osisp.Lib.Runs
import Osisp.Censor.Text

/-!
# What a pass makes of the text

A pass is decided run by run, the loop moves from match to match. `passFrom` is the
whole pass as it is to end when the cursor has come so far: no turn changes it
(`turn_again`), and the last one has all of it before the cursor. So `censor_text` is
the left fold of the passes over the dictionary (`censorText_eq_foldl`).
-/

namespace Osisp.Censor

open Lib

/-- The replacement is put in the place of the word, and of nothing else. -/
def replaceRun (word replacement run : Bytes) : Bytes := if run = word then replacement else run

/-- Every maximal alphanumeric run equal to the word is replaced. -/
def pass (replacement text word : Bytes) : Bytes :=
  mapRuns isalnum (replaceRun word replacement) text

/-- A word of ASCII letters and digits. -/
def Word (word : Bytes) : Prop := word ≠ [] ∧ ∀ c ∈ word, isalnum c

instance (word : Bytes) : Decidable (Word word) :=
  @instDecidableAnd _ _ _ (List.decidableBAll _ word)

/-! ## One turn -/

/-- The scan of `front ++ rest` with the cursor between the two. -/
def Scan.between (front rest : Bytes) (allocs : Nat) : Scan :=
  ⟨front ++ rest, front.length, allocs⟩

/-- The byte before the cursor is in a run. -/
def inside (front : Bytes) : Bool := front.getLast?.any isalnum

variable {alloc : Nat → Bool} {word replacement front rest a b : Bytes} {n fuel : Nat}

/-- The byte before the cursor, as the code looks at it. -/
theorem lastIn_iff {p : UInt8 → Bool} :
    (a.length = 0 ∨ ¬ p (charAt (a ++ b) (a.length - 1))) ↔ lastIn p a = false := by
  rcases List.eq_nil_or_concat a with rfl | ⟨front, x, rfl⟩
  · exact iff_of_true (Or.inl rfl) rfl
  · have last : charAt (front ++ [x] ++ b) ((front ++ [x]).length - 1) = x := by
      rw [charAt, List.length_append, List.length_singleton, Nat.add_sub_cancel,
        List.append_assoc, List.getD_append_right _ _ _ _ (le_refl _), Nat.sub_self]
      rfl
    rw [List.concat_eq_append, last, lastIn_append_singleton, Bool.not_eq_true]
    simp

/-- The byte at the cursor. -/
theorem nextIn_iff {p : UInt8 → Bool} (noNul : ¬ p 0) :
    ¬ p (charAt (a ++ b) a.length) ↔ b.takeWhile p = [] := by
  have next : charAt (a ++ b) a.length = b.getD 0 0 := by
    rw [charAt, List.getD_append_right _ _ _ _ (le_refl _), Nat.sub_self]
  rw [next]
  cases b with
  | nil => exact iff_of_true noNul rfl
  | cons x b =>
      rw [List.getD_cons_zero, List.takeWhile_cons]
      by_cases run : p x <;> simp [run]

/-- `left_ok`. -/
theorem leftOk_iff :
    (a.length = 0 ∨ ¬ isalnum (charAt (a ++ b) (a.length - 1))) ↔ inside a = false :=
  lastIn_iff

/-- `right_ok`. -/
theorem rightOk_iff :
    (charAt (a ++ b) a.length = 0 ∨ ¬ isalnum (charAt (a ++ b) a.length)) ↔
      b.takeWhile isalnum = [] := by
  have noNul : ¬ isalnum 0 := by decide
  rw [← nextIn_iff noNul (a := a), or_iff_right_of_imp]
  intro nul
  rwa [nul]

/-- What a turn does with the text around the cursor. -/
inductive TurnFrom (alloc : Nat → Bool) (word replacement front rest : Bytes) (n : Nat) :
    Turn → Prop
  | leave (absent : ∀ i, ¬ word <+: rest.drop i) :
      TurnFrom alloc word replacement front rest n (.leave (.between front rest n))
  | reject (a b : Bytes) (found : rest = a ++ (word ++ b))
      (first : ∀ i < a.length, ¬ word <+: rest.drop i)
      (part : inside (front ++ a) = false → b.takeWhile isalnum ≠ []) :
      TurnFrom alloc word replacement front rest n
        (.again ⟨front ++ rest, (front ++ a).length + 1, n⟩)
  | replace (a b : Bytes) (found : rest = a ++ (word ++ b))
      (first : ∀ i < a.length, ¬ word <+: rest.drop i)
      (left : inside (front ++ a) = false) (right : b.takeWhile isalnum = [])
      (room : alloc n) :
      TurnFrom alloc word replacement front rest n
        (.again (.between (front ++ a ++ replacement) b (n + 1)))
  | null (full : alloc n = false) : TurnFrom alloc word replacement front rest n .null

theorem turnFrom (alloc : Nat → Bool) (word replacement front rest : Bytes) (n : Nat) :
    TurnFrom alloc word replacement front rest n
      (turn alloc word replacement (.between front rest n)) := by
  have here : ¬ (front ++ rest).length < front.length := by
    rw [List.length_append]
    omega
  rw [turn, Scan.between, if_neg here, List.drop_left]
  split
  · next absent => exact .leave (strstr_eq_none absent)
  · next k found =>
      obtain ⟨⟨a, b, split, rfl⟩, first⟩ := strstr_eq_some found
      have text : front ++ rest = (front ++ a) ++ (word ++ b) := by
        rw [split, List.append_assoc]
      have text' : front ++ rest = (front ++ a ++ word) ++ b := by
        rw [text, List.append_assoc (front ++ a)]
      have cursor : front.length + a.length = (front ++ a).length :=
        List.length_append.symm
      have behind : (front ++ a).length + word.length = (front ++ a ++ word).length :=
        List.length_append.symm
      have left := leftOk_iff (a := front ++ a) (b := word ++ b)
      have right := rightOk_iff (a := front ++ a ++ word) (b := b)
      rw [← text] at left
      rw [← text'] at right
      simp only [cursor, behind, left, right]
      split
      · next rejected =>
          refine .reject a b split first fun outside => ?_
          rcases rejected with inRun | more
          · exact absurd outside inRun
          · exact more
      · next accepted =>
          push Not at accepted
          split
          · next room =>
              have front' : (front ++ rest).take (front ++ a).length = front ++ a := by
                rw [text, List.take_left]
              have rest' : (front ++ rest).drop (front ++ a ++ word).length = b := by
                rw [text', List.drop_left]
              rw [front', rest', ← List.length_append]
              exact .replace a b split first accepted.1 accepted.2 room
          · next full => exact .null (Bool.eq_false_iff.mpr full)

/-! ## The pass that a turn continues -/

/-- The pass over the whole text, as it is to end with the cursor behind `front`. -/
def passFrom (word replacement front rest : Bytes) : Bytes :=
  front ++ scanRuns isalnum (replaceRun word replacement) (inside front) rest

theorem replaceRun_nil (nonempty : word ≠ []) : replaceRun word replacement [] = [] :=
  if_neg nonempty.symm

section Scanned

variable {p : UInt8 → Bool}

/-- The byte at the cursor does not begin a run that is the word. -/
theorem scannedFrom_other (nonempty : word ≠ []) {x : UInt8}
    (other : lastIn p front = false → (x :: rest).takeWhile p ≠ word) :
    scannedFrom p (replaceRun word replacement) front (x :: rest) =
      scannedFrom p (replaceRun word replacement) (front ++ [x]) rest :=
  scannedFrom_cons (replaceRun_nil nonempty) fun outside => if_neg (other outside)

/-- The cursor goes over a text in which the word does not begin. -/
theorem scannedFrom_append (nonempty : word ≠ [])
    (first : ∀ i < a.length, ¬ word <+: (a ++ rest).drop i) :
    scannedFrom p (replaceRun word replacement) front (a ++ rest) =
      scannedFrom p (replaceRun word replacement) (front ++ a) rest := by
  induction a generalizing front with
  | nil => rw [List.nil_append, List.append_nil]
  | cons x a ih =>
      have other : (x :: (a ++ rest)).takeWhile p ≠ word := by
        intro run
        apply first 0 (Nat.zero_lt_succ _)
        rw [← run]
        exact List.takeWhile_prefix _
      have later : ∀ i < a.length, ¬ word <+: (a ++ rest).drop i :=
        fun i lt => first (i + 1) (Nat.succ_lt_succ lt)
      rw [List.cons_append, scannedFrom_other nonempty fun _ => other, ih later,
        List.append_assoc, List.singleton_append]

/-- The word is the whole run at the cursor. -/
theorem scannedFrom_word (nonempty : word ≠ []) (all : ∀ c ∈ word, p c)
    (left : lastIn p front = false) (right : b.takeWhile p = []) :
    scannedFrom p (replaceRun word replacement) front (word ++ b) =
      scannedFrom p (replaceRun word replacement) (front ++ replacement) b := by
  have run : (word ++ b).takeWhile p = word := by
    rw [List.takeWhile_append_of_pos all, right, List.append_nil]
  have behind : (word ++ b).dropWhile p = b := by
    have parts := List.takeWhile_append_dropWhile (p := p) (l := word ++ b)
    rw [run] at parts
    exact List.append_cancel_left parts
  rw [scannedFrom, left, scanRuns, if_neg Bool.false_ne_true,
    mapRuns_eq (replaceRun_nil nonempty), run, behind, replaceRun, if_pos rfl, scannedFrom,
    scanRuns_of_sep right, List.append_assoc]

end Scanned

/-- What the code takes for a word ahead of the cursor is a run of `p`. -/
def Whole (p : UInt8 → Bool) (word front rest : Bytes) : Prop :=
  ∀ a b, rest = a ++ (word ++ b) → inside (front ++ a) = false → b.takeWhile isalnum = [] →
    lastIn p (front ++ a) = false ∧ b.takeWhile p = []

theorem whole_isalnum (word front rest : Bytes) : Whole isalnum word front rest :=
  fun _ _ _ left right => ⟨left, right⟩

/-- A word is made of elements of `p`, which are the letters and digits and maybe more. -/
structure MadeOf (p : UInt8 → Bool) (word : Bytes) : Prop where
  all : ∀ c ∈ word, p c
  alnum : ∀ c, isalnum c → p c

theorem madeOf_isalnum (plain : Word word) : MadeOf isalnum word := ⟨plain.2, fun _ h => h⟩

theorem MadeOf.takeWhile_isalnum {p : UInt8 → Bool} (made : MadeOf p word)
    (right : b.takeWhile p = []) : b.takeWhile isalnum = [] := by
  rcases takeWhile_eq_nil.mp right with rfl | ⟨c, l, rfl, sep⟩
  · rfl
  · exact List.takeWhile_cons_of_neg fun run => sep (made.alnum c run)

/-- With a word to look for the cursor moves on. If what the code takes for the word
are runs of `p`, they still are, and the pass over these runs stays the same. -/
theorem turn_again (nonempty : word ≠ []) {s : Scan}
    (again : turn alloc word replacement (.between front rest n) = .again s) :
    ∃ front' rest' n', s = .between front' rest' n' ∧ rest'.length < rest.length ∧
      ∀ p, MadeOf p word → Whole p word front rest → Whole p word front' rest' ∧
        scannedFrom p (replaceRun word replacement) front' rest' =
          scannedFrom p (replaceRun word replacement) front rest := by
  have h := turnFrom alloc word replacement front rest n
  rw [again] at h
  cases h with
  | reject a b found first part =>
      obtain ⟨x, word', rfl⟩ := List.exists_cons_of_ne_nil nonempty
      refine ⟨front ++ a ++ [x], word' ++ b, n, ?_, ?_, fun p made whole => ⟨?_, ?_⟩⟩
      · have cursor : (front ++ a ++ [x]).length = (front ++ a).length + 1 := List.length_append
        rw [Scan.between, cursor, found]
        simp
      · rw [found]
        simp
        omega
      · intro a' b' ahead left right
        have before : front ++ a ++ [x] ++ a' = front ++ (a ++ x :: a') := by simp
        rw [before] at left ⊢
        refine whole (a ++ x :: a') b' ?_ left right
        rw [found, List.cons_append, ahead]
        simp
      · have longer : lastIn p (front ++ a) = false →
            (x :: (word' ++ b)).takeWhile p ≠ x :: word' := by
          intro outside run
          rw [← List.cons_append, List.takeWhile_append_of_pos made.all] at run
          have right := made.takeWhile_isalnum (List.append_right_eq_self.mp run)
          refine part (lastIn_eq_false.mpr ?_) right
          rcases lastIn_eq_false.mp outside with empty | ⟨l, c, eq, sep⟩
          · exact Or.inl empty
          · exact Or.inr ⟨l, c, eq, fun run => sep (made.alnum c run)⟩
        subst found
        rw [scannedFrom_append nonempty first, List.cons_append,
          scannedFrom_other nonempty longer]
  | replace a b found first left right room =>
      refine ⟨front ++ a ++ replacement, b, n + 1, rfl, ?_, fun p made whole => ?_⟩
      · have long : 0 < word.length := List.length_pos_of_ne_nil nonempty
        rw [found, List.length_append, List.length_append]
        omega
      · obtain ⟨before, behind⟩ := whole a b found left right
        constructor
        · intro a' b' ahead left' right'
          -- the run ends at the word, so that the next one does not begin there
          cases a' with
          | nil =>
              obtain ⟨x, word', rfl⟩ := List.exists_cons_of_ne_nil nonempty
              rw [ahead, List.nil_append, List.cons_append,
                List.takeWhile_cons_of_pos (made.all x List.mem_cons_self)] at behind
              cases behind
          | cons x a' =>
              have more : x :: a' ≠ [] := List.cons_ne_nil x a'
              have own : lastIn isalnum (x :: a') = false := (lastIn_append more).symm.trans left'
              have old : inside (front ++ (a ++ (word ++ x :: a'))) = false := by
                have parts : front ++ (a ++ (word ++ x :: a')) =
                    front ++ a ++ word ++ x :: a' := by simp
                rw [parts]
                exact (lastIn_append more).trans own
              have split : rest = a ++ (word ++ x :: a') ++ (word ++ b') := by
                rw [found, ahead]
                simp
              obtain ⟨last, next⟩ := whole _ b' split old right'
              refine ⟨?_, next⟩
              have parts : front ++ (a ++ (word ++ x :: a')) =
                  front ++ a ++ word ++ x :: a' := by simp
              rw [parts, lastIn_append more] at last
              rw [lastIn_append more, last]
        · subst found
          rw [scannedFrom_append nonempty first,
            scannedFrom_word nonempty made.all before behind]

/-- A turn that leaves the loop has the whole pass in front of it. -/
theorem turn_leave (nonempty : word ≠ []) {s : Scan}
    (leave : turn alloc word replacement (.between front rest n) = .leave s)
    (p : UInt8 → Bool) :
    s.result = scannedFrom p (replaceRun word replacement) front rest := by
  have h := turnFrom alloc word replacement front rest n
  rw [leave] at h
  cases h with
  | leave absent =>
      have skip : scannedFrom p (replaceRun word replacement) front (rest ++ []) =
          scannedFrom p (replaceRun word replacement) (front ++ rest) [] :=
        scannedFrom_append nonempty fun i _ => by
          rw [List.append_nil]
          exact absent i
      rw [List.append_nil, scannedFrom_nil (replaceRun_nil nonempty)] at skip
      exact skip.symm

/-- `NULL` is returned for want of memory. -/
theorem turn_null (null : turn alloc word replacement (.between front rest n) = .null) :
    alloc n = false := by
  have h := turnFrom alloc word replacement front rest n
  rw [null] at h
  cases h with
  | null full => exact full

theorem turn_ne_wild : turn alloc word replacement (.between front rest n) ≠ .wild := by
  intro wild
  have h := turnFrom alloc word replacement front rest n
  rw [wild] at h
  cases h

/-! ## How a loop ends -/

/-- It ends with a value that satisfies `P`, or for want of memory. -/
def Ended {α : Type} (alloc : Nat → Bool) (P : α → Prop) (o : Outcome α) : Prop :=
  (∃ a, o = .value a ∧ P a) ∨ o = .null ∧ ∃ k, alloc k = false

theorem Ended.mono {α : Type} {P Q : α → Prop} {o : Outcome α} (h : Ended alloc P o)
    (imp : ∀ a, P a → Q a) : Ended alloc Q o := by
  rcases h with ⟨a, value, holds⟩ | null
  · exact Or.inl ⟨a, value, imp a holds⟩
  · exact Or.inr null

theorem Ended.ne_running {α : Type} {P : α → Prop} {o : Outcome α} (h : Ended alloc P o) :
    o ≠ .running := by
  rcases h with ⟨a, rfl, -⟩ | ⟨rfl, -⟩ <;> exact nofun

theorem Ended.ne_wild {α : Type} {P : α → Prop} {o : Outcome α} (h : Ended alloc P o) :
    o ≠ .wild := by
  rcases h with ⟨a, rfl, -⟩ | ⟨rfl, -⟩ <;> exact nofun

/-- More turns change nothing once it has ended. -/
theorem scanLoop_mono {s : Scan} {more : Nat}
    (ended : scanLoop alloc word replacement fuel s ≠ .running) (le : fuel ≤ more) :
    scanLoop alloc word replacement more s = scanLoop alloc word replacement fuel s := by
  induction fuel generalizing s more with
  | zero => exact absurd rfl ended
  | succ fuel ih =>
      obtain ⟨more, rfl⟩ := Nat.exists_eq_add_of_le' (Nat.lt_of_lt_of_le (Nat.succ_pos _) le)
      rw [scanLoop] at ended
      rw [scanLoop, scanLoop]
      cases step : turn alloc word replacement s with
      | again s' =>
          rw [step] at ended
          exact ih ended (Nat.le_of_succ_le_succ le)
      | leave s' => rfl
      | null => rfl
      | wild => rfl

theorem dictLoop_mono {words : List Bytes} {text : Bytes} {more : Nat}
    (ended : dictLoop alloc fuel replacement words text n ≠ .running) (le : fuel ≤ more) :
    dictLoop alloc more replacement words text n =
      dictLoop alloc fuel replacement words text n := by
  induction words generalizing text n with
  | nil => rfl
  | cons word words ih =>
      rw [dictLoop] at ended
      have first : scanLoop alloc word replacement fuel ⟨text, 0, n⟩ ≠ .running := by
        intro running
        rw [running] at ended
        exact ended rfl
      rw [dictLoop, dictLoop, scanLoop_mono first le]
      cases pass : scanLoop alloc word replacement fuel ⟨text, 0, n⟩ with
      | value s =>
          rw [pass] at ended
          exact ih ended
      | running => rfl
      | null => rfl
      | wild => rfl

theorem censorText_mono {dictionary : List Bytes} {text : Bytes} {more : Nat}
    (ended : censorText alloc fuel dictionary text replacement ≠ .running) (le : fuel ≤ more) :
    censorText alloc more dictionary text replacement =
      censorText alloc fuel dictionary text replacement := by
  rw [censorText] at ended
  rw [censorText, censorText]
  split
  · rfl
  · next words =>
      rw [if_neg words] at ended
      split
      · next room =>
          rw [if_pos room] at ended
          exact dictLoop_mono ended le
      · rfl

/-! ## A pass, and all of them -/

/-- The loop over the matches ends, and the cursor stays in the text. -/
theorem scanLoop_scanned (front : Bytes) (nonempty : word ≠ []) (enough : rest.length < fuel) :
    Ended alloc (fun s => ∀ p, MadeOf p word → Whole p word front rest →
        s.result = scannedFrom p (replaceRun word replacement) front rest)
      (scanLoop alloc word replacement fuel (.between front rest n)) := by
  induction fuel generalizing front rest n with
  | zero => exact absurd enough (Nat.not_lt_zero _)
  | succ fuel ih =>
      rw [scanLoop]
      cases step : turn alloc word replacement (.between front rest n) with
      | again s =>
          obtain ⟨front', rest', n', rfl, shorter, keeps⟩ := turn_again nonempty step
          have enough' : rest'.length < fuel := by omega
          refine (ih front' enough').mono fun s result p made whole => ?_
          obtain ⟨whole', same⟩ := keeps p made whole
          exact (result p made whole').trans same
      | leave s => exact Or.inl ⟨s, rfl, fun p _ _ => turn_leave nonempty step p⟩
      | null => exact Or.inr ⟨rfl, n, turn_null step⟩
      | wild => exact absurd step turn_ne_wild

theorem scanLoop_ends (front : Bytes) (nonempty : word ≠ []) (enough : rest.length < fuel) :
    Ended alloc (fun s => Word word → s.result = passFrom word replacement front rest)
      (scanLoop alloc word replacement fuel (.between front rest n)) :=
  (scanLoop_scanned front nonempty enough).mono fun _ result plain =>
    result isalnum (madeOf_isalnum plain) (whole_isalnum _ _ _)

/-- So does the loop over the dictionary. -/
theorem dictLoop_ends (alloc : Nat → Bool) (replacement : Bytes) {words : List Bytes}
    (nonempty : ∀ word ∈ words, word ≠ []) (text : Bytes) (n : Nat) : ∃ fuel,
      Ended alloc
        (fun out => (∀ word ∈ words, Word word) → out = words.foldl (pass replacement) text)
        (dictLoop alloc fuel replacement words text n) := by
  induction words generalizing text n with
  | nil => exact ⟨0, Or.inl ⟨text, rfl, fun _ => rfl⟩⟩
  | cons word words ih =>
      have h : Ended alloc (fun s => Word word → s.result = pass replacement text word)
          (scanLoop alloc word replacement (text.length + 1) ⟨text, 0, n⟩) :=
        scanLoop_ends [] (nonempty word List.mem_cons_self) (Nat.lt_succ_self _)
      have ended := h.ne_running
      rcases h with ⟨s, value, result⟩ | ⟨null, full⟩
      · obtain ⟨fuel, rest⟩ := ih (fun w mem => nonempty w (List.mem_cons_of_mem _ mem))
          s.result s.allocs
        refine ⟨max (text.length + 1) fuel, ?_⟩
        have first := scanLoop_mono ended (le_max_left (text.length + 1) fuel)
        rw [value] at first
        rw [dictLoop, first]
        rw [← dictLoop_mono rest.ne_running (le_max_right (text.length + 1) fuel)] at rest
        refine rest.mono fun out fold plain => ?_
        rw [fold fun w mem => plain w (List.mem_cons_of_mem _ mem),
          result (plain word List.mem_cons_self), List.foldl_cons]
      · refine ⟨text.length + 1, Or.inr ⟨?_, full⟩⟩
        rw [dictLoop, null]

theorem censorText_ends (alloc : Nat → Bool) (replacement : Bytes) {dictionary : List Bytes}
    (nonempty : ∀ word ∈ dictionary, word ≠ [])
    (text : Bytes) : ∃ enough, ∀ fuel ≥ enough,
      Ended alloc (fun out => (∀ word ∈ dictionary, Word word) →
          out = dictionary.foldl (pass replacement) text)
        (censorText alloc fuel dictionary text replacement) := by
  cases start : alloc 0 with
  | false =>
      refine ⟨0, fun fuel _ => Or.inr ⟨?_, 0, start⟩⟩
      rw [censorText, start]
      exact ite_self _
  | true =>
      obtain ⟨fuel, h⟩ := dictLoop_ends alloc replacement nonempty text 1
      refine ⟨fuel, fun more le => ?_⟩
      rw [← dictLoop_mono h.ne_running le] at h
      rw [censorText, if_pos start, if_pos start]
      split
      · next empty =>
          obtain rfl := List.length_eq_zero_iff.mp empty
          exact Or.inl ⟨text, rfl, fun _ => rfl⟩
      · exact h

/-- `censor_text` gives the left fold of the passes, or `NULL` for want of memory. -/
theorem censorText_eq_foldl (alloc : Nat → Bool) {dictionary : List Bytes}
    (plain : ∀ word ∈ dictionary, Word word) (text replacement : Bytes) :
    ∃ enough, ∀ fuel ≥ enough,
      Ended alloc (fun out => out = dictionary.foldl (pass replacement) text)
        (censorText alloc fuel dictionary text replacement) := by
  obtain ⟨enough, h⟩ := censorText_ends alloc replacement
    (fun word mem => (plain word mem).1) text
  exact ⟨enough, fun fuel le => (h fuel le).mono fun out fold => fold plain⟩

theorem censorText_eq_foldl_bad :
    ∃ enough, ∀ fuel ≥ enough,
      Ended (fun _ => true)
        (fun out => out = ascii "** word, bad2 badminton **")
        (censorText (fun _ => true) fuel [ascii "bad", ascii "a1"]
          (ascii "a1 word, bad2 badminton bad") (ascii "**")) :=
  censorText_eq_foldl (fun _ => true) (by decide) _ _

end Osisp.Censor
