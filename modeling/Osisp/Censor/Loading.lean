import Osisp.Censor.Passes

/-!
# Which dictionary files the censor can work with

A blank line gives an empty word, and so does what is left of a line that has
exactly filled the buffer. `strstr` finds the empty word wherever the cursor is, so
its loop never comes to an end, or runs out of the text (`safe_iff`).
-/

namespace Osisp.Censor

open Lib

/-- The loop ends, and the cursor does not leave the text, whichever allocations fail. -/
def Safe (dictionary : List Bytes) (text replacement : Bytes) : Prop :=
  ∀ alloc, (∃ fuel, censorText alloc fuel dictionary text replacement ≠ .running) ∧
    ∀ fuel, censorText alloc fuel dictionary text replacement ≠ .wild

/-- What successive calls of `fgets` make of a file. -/
def pieces : Nat → Bytes → List Bytes
  | 0, _ => []
  | room + 1, file =>
      match fgets maxWordLen file with
      | none => []
      | some line => line :: pieces room (file.drop line.length)

/-- It begins with the end of the line, or of the string. -/
def Blank (line : Bytes) : Prop := line.head? = some newline ∨ line.head? = some 0

instance (line : Bytes) : Decidable (Blank line) := inferInstanceAs (Decidable (_ ∨ _))

variable {alloc : Nat → Bool} {replacement text file line : Bytes} {n fuel room : Nat}

/-! ## The words of a file -/

theorem fgets_ne_nil (some : fgets maxWordLen file = some line) : line ≠ [] := by
  rw [fgets] at some
  split at some
  · cases some
  · next more =>
      obtain ⟨x, rest, rfl⟩ := List.exists_cons_of_ne_nil more
      cases some
      exact List.cons_ne_nil _ _

theorem pieces_ne_nil (mem : line ∈ pieces room file) : line ≠ [] := by
  induction room generalizing file with
  | zero => exact absurd mem List.not_mem_nil
  | succ room ih =>
      rw [pieces] at mem
      split at mem
      · exact absurd mem List.not_mem_nil
      · next first read =>
          rcases List.mem_cons.mp mem with rfl | later
          · exact fgets_ne_nil read
          · exact ih later

theorem chomp_eq_nil_iff (more : line ≠ []) : chomp line = [] ↔ Blank line := by
  obtain ⟨x, rest, rfl⟩ := List.exists_cons_of_ne_nil more
  rw [chomp, cstr, Blank, List.takeWhile_cons]
  by_cases nul : x = 0
  · simp [nul]
  · rw [if_pos (decide_eq_true nul), List.takeWhile_cons]
    by_cases eol : x = newline
    · simp [eol]
    · simp [eol, nul]

theorem loadLoop_eq {words : List Bytes} (loaded : loadLoop alloc room n file = some words) :
    words = (pieces room file).map chomp := by
  induction room generalizing n file words with
  | zero =>
      cases loaded
      rfl
  | succ room ih =>
      cases read : fgets maxWordLen file with
      | none =>
          simp only [loadLoop, read] at loaded
          cases loaded
          simp only [pieces, read, List.map_nil]
      | some line =>
          simp only [loadLoop, read] at loaded
          split at loaded
          · obtain ⟨later, rest, rfl⟩ := Option.map_eq_some_iff.mp loaded
            simp only [pieces, read, List.map_cons, ih rest]
          · cases loaded

theorem loadLoop_of_alloc (full : ∀ k, alloc k) :
    loadLoop alloc room n file = some ((pieces room file).map chomp) := by
  induction room generalizing n file with
  | zero => rfl
  | succ room ih =>
      cases read : fgets maxWordLen file with
      | none => simp only [loadLoop, pieces, read, List.map_nil]
      | some line =>
          simp only [loadLoop, pieces, read, if_pos (full n), ih, List.map_cons,
            Option.map_some]

/-! ## An empty word -/

/-- Neither finished nor in the text. -/
def Stuck {α : Type} (o : Outcome α) : Prop := o = .running ∨ o = .wild

/-- A cursor is between two parts of the text, or behind it. -/
theorem turn_cases (alloc : Nat → Bool) (word replacement : Bytes) (s : Scan) :
    turn alloc word replacement s = .wild ∨ ∃ front rest, s = .between front rest s.allocs := by
  by_cases behind : s.result.length < s.pos
  · exact Or.inl (if_pos behind)
  · refine Or.inr ⟨s.result.take s.pos, s.result.drop s.pos, ?_⟩
    rw [Scan.between, List.take_append_drop, List.length_take_of_le (Nat.le_of_not_lt behind)]

/-- `NULL` is returned for want of memory. -/
theorem scanLoop_ne_null (full : ∀ k, alloc k) {word : Bytes} {s : Scan} :
    scanLoop alloc word replacement fuel s ≠ .null := by
  induction fuel generalizing s with
  | zero =>
      intro null
      cases null
  | succ fuel ih =>
      rw [scanLoop]
      cases step : turn alloc word replacement s with
      | again s' => exact ih
      | leave s' =>
          intro null
          cases null
      | null =>
          rcases turn_cases alloc word replacement s with wild | ⟨front, rest, split⟩
          · rw [wild] at step
            cases step
          · rw [split] at step
            exact absurd (full _) (Bool.eq_false_iff.mp (turn_null step))
      | wild =>
          intro null
          cases null

/-- The empty word is found at once, wherever the cursor is. -/
theorem turn_nil_ne_leave {s s' : Scan} : turn alloc [] replacement s ≠ .leave s' := by
  intro leave
  rcases turn_cases alloc [] replacement s with wild | ⟨front, rest, split⟩
  · rw [wild] at leave
    cases leave
  · have h := turnFrom alloc [] replacement front rest s.allocs
    rw [← split, leave] at h
    cases h with
    | leave absent => exact absent 0 List.nil_prefix

theorem scanLoop_nil (full : ∀ k, alloc k) {s : Scan} :
    Stuck (scanLoop alloc [] replacement fuel s) := by
  induction fuel generalizing s with
  | zero => exact Or.inl rfl
  | succ fuel ih =>
      have notNull : scanLoop alloc [] replacement (fuel + 1) s ≠ .null := scanLoop_ne_null full
      rw [scanLoop] at notNull ⊢
      cases step : turn alloc [] replacement s with
      | again s' => exact ih
      | leave s' => exact absurd step turn_nil_ne_leave
      | null =>
          rw [step] at notNull
          exact absurd rfl notNull
      | wild => exact Or.inr rfl

/-- No word behind an empty one is ever looked for. -/
theorem dictLoop_stuck (full : ∀ k, alloc k) {words : List Bytes} (mem : [] ∈ words) :
    Stuck (dictLoop alloc fuel replacement words text n) := by
  induction words generalizing text n with
  | nil => exact absurd mem List.not_mem_nil
  | cons word words ih =>
      rw [dictLoop]
      cases pass : scanLoop alloc word replacement fuel ⟨text, 0, n⟩ with
      | value s =>
          rcases List.mem_cons.mp mem with rfl | later
          · have stuck : Stuck (scanLoop alloc [] replacement fuel ⟨text, 0, n⟩) :=
              scanLoop_nil full
            rw [pass] at stuck
            rcases stuck with running | wild
            · cases running
            · cases wild
          · exact ih later
      | running => exact Or.inl rfl
      | null => exact absurd pass (scanLoop_ne_null full)
      | wild => exact Or.inr rfl

theorem not_safe_of_nil {dictionary : List Bytes} (mem : [] ∈ dictionary) :
    ¬ Safe dictionary text replacement := by
  intro safe
  have full : ∀ k, (fun _ => true : Nat → Bool) k := fun _ => rfl
  obtain ⟨⟨fuel, ends⟩, inText⟩ := safe fun _ => true
  have words : dictionary.length ≠ 0 := (List.length_pos_of_mem mem).ne'
  have call : censorText (fun _ => true) fuel dictionary text replacement =
      dictLoop (fun _ => true) fuel replacement dictionary text 1 := by
    rw [censorText, if_neg words, if_pos rfl]
  have stuck : Stuck (dictLoop (fun _ => true) fuel replacement dictionary text 1) :=
    dictLoop_stuck full mem
  rcases stuck with running | wild
  · exact ends (call.trans running)
  · exact inText fuel (call.trans wild)

/-! ## Every other word -/

theorem safe_of_nonempty {dictionary : List Bytes} (nonempty : ∀ word ∈ dictionary, word ≠ [])
    (text replacement : Bytes) : Safe dictionary text replacement := by
  intro alloc
  obtain ⟨enough, h⟩ := censorText_ends alloc replacement nonempty text
  refine ⟨⟨enough, (h enough (le_refl _)).ne_running⟩, fun fuel wild => ?_⟩
  have ended : censorText alloc fuel dictionary text replacement ≠ .running := by
    rw [wild]
    exact nofun
  have same := censorText_mono ended (le_max_left fuel enough)
  exact (h _ (le_max_right fuel enough)).ne_wild (same.trans wild)

/-- The censor works with a file if and only if no word in it is empty. -/
theorem safe_iff (file line replacement : Bytes) :
    (∀ alloc dictionary, loadDict alloc (some file) = some dictionary →
        Safe dictionary (chomp line) replacement) ↔
      ∀ piece ∈ pieces maxDictWords file, ¬ Blank piece := by
  constructor
  · intro safe piece mem blank
    have empty : [] ∈ (pieces maxDictWords file).map chomp :=
      List.mem_map.mpr ⟨piece, mem, (chomp_eq_nil_iff (pieces_ne_nil mem)).mpr blank⟩
    exact not_safe_of_nil empty (safe (fun _ => true) _ (loadLoop_of_alloc fun _ => rfl))
  · intro clean alloc dictionary loaded
    refine safe_of_nonempty (fun word mem empty => ?_) _ _
    rw [loadLoop_eq loaded] at mem
    obtain ⟨piece, read, rfl⟩ := List.mem_map.mp mem
    exact clean piece read ((chomp_eq_nil_iff (pieces_ne_nil read)).mp empty)

/-- A file with a blank line at its end: the cursor leaves the text. -/
theorem blank_line_unsafe :
    ¬ ∀ file line replacement : Bytes, ∀ alloc dictionary,
      loadDict alloc (some file) = some dictionary →
        Safe dictionary (chomp line) replacement := by
  intro safe
  have loaded : loadDict (fun _ => true) (some (ascii "bad\n\n")) = some [ascii "bad", []] := by
    decide
  have inText := (safe (ascii "bad\n\n") (ascii "word\n") (ascii "[CENSORED]") _ _ loaded
    fun _ => true).2 10
  exact inText (by decide)

end Osisp.Censor
