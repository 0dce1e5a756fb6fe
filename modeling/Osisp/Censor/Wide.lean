import Mathlib
import Osisp.Censor.Passes

/-!
# Words of more than ASCII letters

The code asks `isalnum` of the bytes next to a match, and in the C locale that is
false of every byte of a Cyrillic letter. So a match inside a longer word counts as a
word of its own where the bytes next to it are not ASCII (`wholeOnly_iff`).
-/

namespace Osisp.Censor

open Lib

/-- An ASCII letter or digit, or a byte of a character beyond ASCII. -/
def wordByte (c : UInt8) : Bool := isalnum c || 128 ≤ c

/-- A word of such bytes. -/
def WideWord (word : Bytes) : Prop := word ≠ [] ∧ ∀ c ∈ word, wordByte c

instance (word : Bytes) : Decidable (WideWord word) :=
  @instDecidableAnd _ _ _ (List.decidableBAll _ word)

/-! ## What is replaced -/

/-- `censor_text` comes to the word `w` with the text `t`, after so many allocations. -/
inductive Begins (alloc : Nat → Bool) (replacement : Bytes) :
    List Bytes → Bytes → Nat → Bytes → Bytes → Nat → Prop
  | here (word : Bytes) (words : List Bytes) (text : Bytes) (n : Nat) :
      Begins alloc replacement (word :: words) text n word text n
  | later {word : Bytes} {words : List Bytes} {text : Bytes} {n fuel : Nat} {s : Scan}
      {w t : Bytes} {m : Nat} :
      scanLoop alloc word replacement fuel ⟨text, 0, n⟩ = .value s →
      Begins alloc replacement words s.result s.allocs w t m →
      Begins alloc replacement (word :: words) text n w t m

/-- The turns of the loop for a word. -/
abbrev Turns (alloc : Nat → Bool) (word replacement : Bytes) : Scan → Scan → Prop :=
  Relation.ReflTransGen fun s s' => turn alloc word replacement s = .again s'

/-- No word byte is next to the match `k` bytes from the cursor. -/
def Apart (word : Bytes) (s : Scan) (k : Nat) : Prop :=
  (s.pos + k = 0 ∨ ¬ wordByte (charAt s.result (s.pos + k - 1))) ∧
    ¬ wordByte (charAt s.result (s.pos + k + word.length))

/-- What the turn replaces, if it does, is not part of a longer run of word bytes. -/
def ReplacesApart (alloc : Nat → Bool) (word replacement : Bytes) (s : Scan) : Prop :=
  ∀ s' k, turn alloc word replacement s = .again s' → s'.allocs ≠ s.allocs →
    strstr word (s.result.drop s.pos) = some k → Apart word s k

/-- So it is in all turns of `censor_text`, whichever allocations succeed. -/
def WholeOnly (dictionary : List Bytes) (text replacement : Bytes) : Prop :=
  ∀ alloc, alloc 0 → ∀ word t n s, Begins alloc replacement dictionary text 1 word t n →
    Turns alloc word replacement ⟨t, 0, n⟩ s → ReplacesApart alloc word replacement s

/-- The word stands in the run where no ASCII letter or digit is next to it. -/
def Inside (word run : Bytes) : Prop :=
  ∃ a b, run = a ++ (word ++ b) ∧ inside a = false ∧ b.takeWhile isalnum = []

/-- For no word of the dictionary such a run is there, other than the word itself, when
its turn comes. -/
def Clean (replacement : Bytes) : List Bytes → List Bytes → Prop
  | [], _ => True
  | word :: words, us =>
      (∀ u ∈ us, u ≠ word → ¬ Inside word u) ∧
        Clean replacement words
          (us.flatMap fun u => if u = word then runs wordByte replacement else [u])

variable {alloc : Nat → Bool} {word replacement text front rest a b : Bytes} {n : Nat}
  {s : Scan}

theorem madeOf_wordByte (plain : WideWord word) : MadeOf wordByte word where
  all := plain.2
  alnum c run := by rw [wordByte, run, Bool.true_or]

/-- The match of a turn that replaces it. -/
theorem apart_iff (found : rest = a ++ (word ++ b))
    (first : ∀ i < a.length, ¬ word <+: rest.drop i) :
    (∀ k, strstr word ((Scan.between front rest n).result.drop (Scan.between front rest n).pos) =
        some k → Apart word (.between front rest n) k) ↔
      lastIn wordByte (front ++ a) = false ∧ b.takeWhile wordByte = [] := by
  have noNul : ¬ wordByte 0 := by decide
  have text : front ++ rest = (front ++ a) ++ (word ++ b) := by rw [found, List.append_assoc]
  have text' : front ++ rest = (front ++ a ++ word) ++ b := by
    rw [text, List.append_assoc (front ++ a)]
  have behind : (front ++ a).length + word.length = (front ++ a ++ word).length :=
    List.length_append.symm
  have at_ : strstr word rest = some a.length := by
    cases search : strstr word rest with
    | none =>
        refine absurd ?_ (strstr_eq_none search a.length)
        rw [found, List.drop_left]
        exact List.prefix_append word b
    | some k =>
        obtain ⟨⟨a', b', split, rfl⟩, first'⟩ := strstr_eq_some search
        rcases Nat.lt_trichotomy a'.length a.length with lt | eq | gt
        · refine absurd ?_ (first _ lt)
          rw [split, List.drop_left]
          exact List.prefix_append word b'
        · rw [eq]
        · refine absurd ?_ (first' _ gt)
          rw [found, List.drop_left]
          exact List.prefix_append word b
  have left := lastIn_iff (p := wordByte) (a := front ++ a) (b := word ++ b)
  have right := nextIn_iff noNul (a := front ++ a ++ word) (b := b)
  rw [← text, List.length_append] at left
  rw [← text', ← behind, List.length_append] at right
  simp only [Scan.between, List.drop_left, at_, Option.some.injEq, forall_eq', Apart]
  rw [left, right]

/-- Where matches are whole runs, a turn replaces a whole run. -/
theorem replacesApart_of_whole (whole : Whole wordByte word front rest) :
    ReplacesApart alloc word replacement (.between front rest n) := by
  intro s' k step replaced search
  have h := turnFrom alloc word replacement front rest n
  rw [step] at h
  cases h with
  | reject a b found first part => exact absurd rfl replaced
  | replace a b found first left right room =>
      exact (apart_iff found first).mpr (whole a b found left right) k search

/-! ## Texts whose matches are whole runs -/

theorem whole_turns (plain : WideWord word) (whole : Whole wordByte word front rest)
    (turns : Turns alloc word replacement (.between front rest n) s) :
    ∃ front' rest' n', s = .between front' rest' n' ∧ Whole wordByte word front' rest' := by
  induction turns with
  | refl => exact ⟨front, rest, n, rfl, whole⟩
  | tail _ step ih =>
      obtain ⟨front', rest', n', rfl, whole'⟩ := ih
      obtain ⟨front'', rest'', n'', rfl, -, keeps⟩ := turn_again plain.1 step
      exact ⟨front'', rest'', n'', rfl, (keeps wordByte (madeOf_wordByte plain) whole').1⟩

/-- A loop that ends has replaced the runs that are the word. -/
theorem result_of_whole (plain : WideWord word) (whole : Whole wordByte word [] text) {fuel : Nat}
    (value : scanLoop alloc word replacement fuel ⟨text, 0, n⟩ = .value s) :
    s.result = mapRuns wordByte (replaceRun word replacement) text := by
  have ended : scanLoop alloc word replacement fuel ⟨text, 0, n⟩ ≠ .running := by
    rw [value]
    exact nofun
  have more := scanLoop_mono ended (le_max_left fuel (text.length + 1))
  have enough : text.length < max fuel (text.length + 1) := by omega
  have scanned : Ended alloc _ (scanLoop alloc word replacement _ ⟨text, 0, n⟩) :=
    scanLoop_scanned [] plain.1 enough
  rw [more, value] at scanned
  rcases scanned with ⟨s', same, result⟩ | ⟨null, -⟩
  · obtain rfl := Outcome.value.inj same
    exact result wordByte (madeOf_wordByte plain) whole
  · cases null

/-- What a pass over the runs leaves of them. -/
theorem runs_replaced (word replacement text : Bytes) :
    runs wordByte (mapRuns wordByte (replaceRun word replacement) text) =
      (runs wordByte text).flatMap fun u =>
        if u = word then runs wordByte replacement else [u] := by
  rw [runs_mapRuns, List.flatMap_def, List.flatMap_def]
  refine congrArg List.flatten (List.map_congr_left fun u mem => ?_)
  rw [replaceRun]
  split
  · rfl
  · exact runs_of_all (all_of_mem_runs mem)

/-- An end of a run is an end for `isalnum`, too. -/
theorem inside_append (left : lastIn wordByte a = false) :
    inside (a ++ b) = inside b := by
  cases b with
  | nil =>
      rw [List.append_nil]
      rcases lastIn_eq_false.mp left with rfl | ⟨l, c, rfl, sep⟩
      · rfl
      · refine (lastIn_append_singleton c).trans (Bool.eq_false_iff.mpr fun run => sep ?_)
        rw [wordByte, run, Bool.true_or]
  | cons x b => exact lastIn_append (List.cons_ne_nil x b)

theorem takeWhile_append (right : b.takeWhile wordByte = []) :
    (a ++ b).takeWhile isalnum = [] ↔ a.takeWhile isalnum = [] := by
  cases a with
  | nil =>
      refine iff_of_true ?_ rfl
      rcases takeWhile_eq_nil.mp right with rfl | ⟨c, l, rfl, sep⟩
      · rfl
      · refine List.takeWhile_cons_of_neg fun run => sep ?_
        rw [wordByte, run, Bool.true_or]
  | cons x a =>
      rw [List.cons_append]
      by_cases run : isalnum x
      · rw [List.takeWhile_cons_of_pos run, List.takeWhile_cons_of_pos run]
        exact iff_of_false (List.cons_ne_nil _ _) (List.cons_ne_nil _ _)
      · rw [List.takeWhile_cons_of_neg run, List.takeWhile_cons_of_neg run]

/-- The matches of a text are whole runs if no longer run has the word inside. -/
theorem whole_iff (plain : WideWord word) :
    Whole wordByte word [] text ↔ ∀ u ∈ runs wordByte text, u ≠ word → ¬ Inside word u := by
  constructor
  · rintro whole u mem ne ⟨a, b, rfl, left, right⟩
    obtain ⟨before, behind, split, all, left', right'⟩ := mem_runs_iff.mp mem
    have parts : text = before ++ a ++ (word ++ (b ++ behind)) := by
      rw [split]
      simp
    obtain ⟨first, last⟩ := whole (before ++ a) (b ++ behind) parts
      ((inside_append left').trans left) ((takeWhile_append right').mpr right)
    have none : a = [] := by
      by_contra more
      rw [List.nil_append, lastIn_append more, lastIn_of_all more fun x mem =>
        all x (List.mem_append_left _ mem)] at first
      cases first
    have none' : b = [] := by
      cases b with
      | nil => rfl
      | cons x b =>
          have run := all x (by simp)
          rw [List.cons_append, List.takeWhile_cons_of_pos run] at last
          cases last
    rw [none, none'] at ne
    exact ne (by simp)
  · intro clean a b split left right
    rw [List.nil_append] at left ⊢
    obtain ⟨before, front, behind, after, rfl, rfl, first, last, mem⟩ :=
      exists_run plain.2 a b
    rw [← split] at mem
    have own : front ++ (word ++ behind) = word := by
      by_contra ne
      refine clean _ mem ne ⟨front, behind, rfl, ?_, (takeWhile_append last).mp right⟩
      rwa [inside_append first] at left
    have lengths := congrArg List.length own
    rw [List.length_append, List.length_append] at lengths
    obtain rfl : front = [] := List.eq_nil_of_length_eq_zero (by omega)
    obtain rfl : behind = [] := List.eq_nil_of_length_eq_zero (by omega)
    rw [List.append_nil, List.nil_append]
    exact ⟨first, last⟩

/-! ## Texts with a match that is not one -/

theorem takeWhile_ne_nil {u v : Bytes} (more : u ≠ []) (all : ∀ c ∈ u, wordByte c) :
    (u ++ v).takeWhile wordByte ≠ [] := by
  obtain ⟨x, u, rfl⟩ := List.exists_cons_of_ne_nil more
  rw [List.cons_append, List.takeWhile_cons_of_pos (all x List.mem_cons_self)]
  exact List.cons_ne_nil _ _

/-- The first match is this one, or it begins before it. -/
theorem first_match {a' b' : Bytes} (found : rest = a ++ (word ++ b))
    (found' : rest = a' ++ (word ++ b')) (first : ∀ i < a'.length, ¬ word <+: rest.drop i) :
    ∃ c, a = a' ++ c ∧ word ++ b' = c ++ (word ++ b) := by
  rcases List.append_eq_append_iff.mp (found'.symm.trans found) with
    ⟨c, parts, same⟩ | ⟨c, parts, same⟩
  · exact ⟨c, parts, same⟩
  · cases c with
    | nil => exact ⟨[], by rw [parts, List.append_nil, List.append_nil], same.symm⟩
    | cons x c =>
        refine absurd ?_ (first a.length ?_)
        · rw [found, List.drop_left]
          exact List.prefix_append word b
        · rw [parts, List.length_append, List.length_cons]
          omega

/-- A match behind one that is a whole run does not touch it. -/
theorem next_match {b' c : Bytes} (plain : WideWord word)
    (same : word ++ b' = c ++ (word ++ b)) (more : c ≠ []) (right : b'.takeWhile wordByte = []) :
    ∃ d, d ≠ [] ∧ c = word ++ d ∧ b' = d ++ (word ++ b) := by
  rcases List.append_eq_append_iff.mp same with ⟨d, parts, behind⟩ | ⟨d, parts, behind⟩
  · refine ⟨d, ?_, parts, behind⟩
    rintro rfl
    rw [behind, List.nil_append] at right
    exact absurd right (takeWhile_ne_nil plain.1 plain.2)
  · -- the match would begin inside the first one, and end behind it
    have shorter := congrArg List.length parts
    have long : 0 < c.length := List.length_pos_iff.mpr more
    rw [List.length_append] at shorter
    rcases List.append_eq_append_iff.mp behind with ⟨e, own, last⟩ | ⟨e, own, last⟩
    · have lengths := congrArg List.length own
      rw [List.length_append] at lengths
      omega
    · have some_ : e ≠ [] := by
        rintro rfl
        have lengths := congrArg List.length own
        rw [List.append_nil] at lengths
        omega
      have part : ∀ x ∈ e, wordByte x := fun x mem =>
        plain.2 x (own ▸ List.mem_append_right d mem)
      rw [last] at right
      exact absurd right (takeWhile_ne_nil some_ part)

/-- As long as such a match is ahead, the loop goes on, unless it replaces one. -/
theorem turn_ahead (replacement : Bytes) (n : Nat) (plain : WideWord word) (full : ∀ k, alloc k)
    (ahead : ¬ Whole wordByte word front rest) :
    ¬ ReplacesApart alloc word replacement (.between front rest n) ∨
      ∃ front' rest' n', turn alloc word replacement (.between front rest n) =
          .again (.between front' rest' n') ∧ rest'.length < rest.length ∧
        ¬ Whole wordByte word front' rest' := by
  simp only [Whole, not_forall] at ahead
  obtain ⟨a, b, found, left, right, bad⟩ := ahead
  have h := turnFrom alloc word replacement front rest n
  generalize step : turn alloc word replacement (.between front rest n) = ended at h
  cases h with
  | leave absent =>
      refine absurd ?_ (absent a.length)
      rw [found, List.drop_left]
      exact List.prefix_append word b
  | null empty => exact absurd (full n) (Bool.eq_false_iff.mp empty)
  | reject a' b' found' first part =>
      right
      obtain ⟨c, parts, same⟩ := first_match found found' first
      cases c with
      | nil =>
          rw [List.append_nil] at parts
          obtain rfl := List.append_cancel_left same
          exact absurd right (part (parts ▸ left))
      | cons x c =>
          have before : front ++ a' ++ [x] ++ c = front ++ a := by
            rw [parts]
            simp
          refine ⟨front ++ a' ++ [x], c ++ (word ++ b), n, ?_, ?_, fun whole => bad ?_⟩
          · have text : front ++ rest = front ++ a' ++ [x] ++ (c ++ (word ++ b)) := by
              rw [found, parts]
              simp
            have cursor : (front ++ a' ++ [x]).length = (front ++ a').length + 1 :=
              List.length_append
            rw [Scan.between, ← text, cursor]
          · rw [found, parts]
            simp
            omega
          · have kept := whole c b rfl (by rwa [before]) right
            rwa [before] at kept
  | replace a' b' found' first left' right' room =>
      by_cases good : lastIn wordByte (front ++ a') = false ∧ b'.takeWhile wordByte = []
      · right
        obtain ⟨c, parts, same⟩ := first_match found found' first
        have more : c ≠ [] := by
          rintro rfl
          obtain rfl := List.append_cancel_left same
          rw [List.append_nil] at parts
          exact bad (parts ▸ good)
        obtain ⟨d, some_, own, behind⟩ := next_match plain same more good.2
        have text : front ++ a = front ++ a' ++ word ++ d := by
          rw [parts, own]
          simp
        refine ⟨front ++ a' ++ replacement, b', n + 1, rfl, ?_, fun whole => bad ?_⟩
        · have long := List.length_pos_iff.mpr plain.1
          rw [found', List.length_append, List.length_append]
          omega
        · have same' : inside (front ++ a' ++ replacement ++ d) = inside (front ++ a) := by
            rw [text]
            exact (lastIn_append some_).trans (lastIn_append some_).symm
          have kept := whole d b behind (same'.trans left) right
          rw [text, lastIn_append some_]
          rwa [lastIn_append some_] at kept
      · left
        intro apart
        refine good ((apart_iff found' first).mp fun k search => apart _ k step ?_ search)
        exact Nat.succ_ne_self n

theorem turns_ahead (replacement : Bytes) (n : Nat) (plain : WideWord word)
    (full : ∀ k, alloc k) (ahead : ¬ Whole wordByte word front rest) :
    ∃ s, Turns alloc word replacement (.between front rest n) s ∧
      ¬ ReplacesApart alloc word replacement s := by
  obtain ⟨size, eq⟩ : ∃ size, rest.length = size := ⟨_, rfl⟩
  induction size using Nat.strong_induction_on generalizing front rest n with
  | _ size ih =>
      rcases turn_ahead replacement n plain full ahead with
        here | ⟨front', rest', n', step, shorter, ahead'⟩
      · exact ⟨_, .refl, here⟩
      · obtain ⟨s, turns, parts⟩ := ih rest'.length (by omega) n' ahead' rfl
        exact ⟨s, .head step turns, parts⟩

/-! ## The whole dictionary -/

/-- In a clean text every turn of every loop replaces a whole run. -/
theorem apart_of_clean {words : List Bytes} {w t : Bytes} {m : Nat}
    (plain : ∀ word ∈ words, WideWord word)
    (clean : Clean replacement words (runs wordByte text))
    (begins : Begins alloc replacement words text n w t m)
    (turns : Turns alloc w replacement ⟨t, 0, m⟩ s) : ReplacesApart alloc w replacement s := by
  induction begins with
  | here word words text n =>
      have own := plain word List.mem_cons_self
      have first : Whole wordByte word [] text := (whole_iff own).mpr clean.1
      obtain ⟨front, rest, n', rfl, whole⟩ := whole_turns own first turns
      exact replacesApart_of_whole whole
  | later value begins ih =>
      have own := plain _ List.mem_cons_self
      have result := result_of_whole own ((whole_iff own).mpr clean.1) value
      refine ih (fun word mem => plain word (List.mem_cons_of_mem _ mem)) ?_ turns
      rw [result, runs_replaced]
      exact clean.2

/-- Otherwise some turn does not, even if every allocation succeeds. -/
theorem clean_of_apart {words : List Bytes} (plain : ∀ word ∈ words, WideWord word)
    (full : ∀ k, alloc k)
    (apart : ∀ w t m s, Begins alloc replacement words text n w t m →
      Turns alloc w replacement ⟨t, 0, m⟩ s → ReplacesApart alloc w replacement s) :
    Clean replacement words (runs wordByte text) := by
  induction words generalizing text n with
  | nil => trivial
  | cons word words ih =>
      have own := plain word List.mem_cons_self
      have whole : Whole wordByte word [] text := by
        by_contra ahead
        obtain ⟨s, turns, parts⟩ := turns_ahead replacement n own full ahead
        exact parts (apart word text n s (.here word words text n) turns)
      refine ⟨(whole_iff own).mp whole, ?_⟩
      have ended : Ended alloc _ (scanLoop alloc word replacement (text.length + 1) ⟨text, 0, n⟩) :=
        scanLoop_scanned [] own.1 (Nat.lt_succ_self text.length)
      rcases ended with ⟨s, value, -⟩ | ⟨-, k, failed⟩
      · have result := result_of_whole own whole value
        rw [← runs_replaced, ← result]
        exact ih (fun w mem => plain w (List.mem_cons_of_mem _ mem)) fun w t m s' begins turns =>
          apart w t m s' (.later value begins) turns
      · exact absurd (full k) (Bool.eq_false_iff.mp failed)

/-- **Main.** `censor_text` replaces whole runs of word bytes only if and only if no
longer run has a word inside, between bytes that are not ASCII letters or digits. -/
theorem wholeOnly_iff {dictionary : List Bytes} (plain : ∀ word ∈ dictionary, WideWord word)
    (text replacement : Bytes) :
    WholeOnly dictionary text replacement ↔
      Clean replacement dictionary (runs wordByte text) := by
  constructor
  · intro whole
    exact clean_of_apart plain (fun _ => rfl) (whole (fun _ => true) rfl)
  · intro clean alloc _ w t m s begins turns
    exact apart_of_clean plain clean begins turns

/-- The Cyrillic word "дом". -/
def dom : Bytes := [0xD0, 0xB4, 0xD0, 0xBE, 0xD0, 0xBC]

/-- A longer word, "домик". -/
def domik : Bytes := dom ++ [0xD0, 0xB8, 0xD0, 0xBA]

/-- The word on its own, before a full stop. -/
theorem wholeOnly_iff_dom :
    (∀ word ∈ [dom], WideWord word) ∧
      (WholeOnly [dom] (dom ++ [46]) [42] ↔ Clean [42] [dom] (runs wordByte (dom ++ [46]))) :=
  ⟨by decide, wholeOnly_iff (by decide) (dom ++ [46]) [42]⟩

/-- The beginning of the longer word is replaced. -/
theorem wholeOnly_bad :
    ¬ ∀ dictionary : List Bytes, (∀ word ∈ dictionary, WideWord word) →
      ∀ text replacement, WholeOnly dictionary text replacement := by
  intro whole
  have step : turn (fun _ => true) dom [42] ⟨domik, 0, 1⟩ =
      .again ⟨[42, 0xD0, 0xB8, 0xD0, 0xBA], 1, 2⟩ := by decide
  have apart := whole [dom] (by decide) domik [42] (fun _ => true) rfl dom domik 1 _
    (.here dom [] domik 1) .refl _ 0 step (by decide) (by decide)
  exact apart.2 (by decide)

end Osisp.Censor
