import Osisp.Censor.Passes

/-!
# The order of the dictionary

A pass sees what earlier passes have inserted. If a run of the replacement is a word
of the dictionary, other than the replacement itself, each pass for it makes the text
longer, and an order in which it comes late gives more than one in which it comes
early (`order_iff`).
-/

namespace Osisp.Censor

open Lib

/-- `censor_text` returns `out` if no allocation fails. -/
def Outputs (dictionary : List Bytes) (text replacement out : Bytes) : Prop :=
  ∃ enough, ∀ fuel ≥ enough,
    censorText (fun _ => true) fuel dictionary text replacement = .value out

/-- No word but the replacement itself is a run of the replacement. -/
def Untouched (words : List Bytes) (replacement : Bytes) : Prop :=
  ∀ word ∈ words, word ∈ runs isalnum replacement → word = replacement

instance (words : List Bytes) (replacement : Bytes) : Decidable (Untouched words replacement) :=
  inferInstanceAs (Decidable (∀ _ ∈ _, _ → _))

variable {words dictionary : List Bytes} {word replacement text out u v w : Bytes}

theorem outputs_iff (plain : ∀ word ∈ dictionary, Word word) :
    Outputs dictionary text replacement out ↔ out = dictionary.foldl (pass replacement) text := by
  obtain ⟨enough, h⟩ := censorText_ends (fun _ => true) replacement
    (fun word mem => (plain word mem).1) text
  have value : ∀ fuel ≥ enough, censorText (fun _ => true) fuel dictionary text replacement =
      .value (dictionary.foldl (pass replacement) text) := by
    intro fuel le
    rcases h fuel le with ⟨out, value, fold⟩ | ⟨-, k, full⟩
    · rw [value, fold plain]
    · cases full
  constructor
  · rintro ⟨enough', outputs⟩
    have both := (outputs _ (le_max_right enough enough')).symm.trans
      (value _ (le_max_left enough enough'))
    exact Outcome.value.inj both
  · rintro rfl
    exact ⟨enough, value⟩

/-! ## Passes are made run by run -/

theorem pass_of_all (all : ∀ c ∈ u, isalnum c) :
    pass replacement u word = replaceRun word replacement u := mapRuns_of_all all

theorem foldl_pass (words : List Bytes) (text : Bytes) :
    words.foldl (pass replacement) text =
      mapRuns isalnum (fun run => words.foldl (pass replacement) run) text := by
  induction words generalizing text with
  | nil => exact (mapRuns_eq_self fun _ _ => rfl).symm
  | cons word words ih =>
      rw [List.foldl_cons, ih, pass, mapRuns_mapRuns]
      refine mapRuns_congr (fun run all => ?_) text
      rw [List.foldl_cons, pass_of_all all, ← ih]

/-- The other words do not change a run. -/
theorem foldl_pass_of_not_mem (all : ∀ c ∈ u, isalnum c) (other : u ∉ words) :
    words.foldl (pass replacement) u = u := by
  induction words with
  | nil => rfl
  | cons word words ih =>
      rw [List.mem_cons, not_or] at other
      rw [List.foldl_cons, pass_of_all all, replaceRun, if_neg other.1, ih other.2]

/-- The first pass for a run replaces it, and later ones see the replacement. -/
theorem foldl_pass_append_cons (plain : Word word) {before after : List Bytes}
    (first : word ∉ before) :
    (before ++ word :: after).foldl (pass replacement) word =
      after.foldl (pass replacement) replacement := by
  rw [List.foldl_append, foldl_pass_of_not_mem plain.2 first, List.foldl_cons,
    pass_of_all plain.2, replaceRun, if_pos rfl]

theorem foldl_pass_of_untouched (untouched : Untouched words replacement) :
    words.foldl (pass replacement) replacement = replacement := by
  induction words with
  | nil => rfl
  | cons word words ih =>
      have same : pass replacement replacement word = replacement := by
        refine mapRuns_eq_self fun run mem => ?_
        rw [replaceRun]
        split
        · next eq => rw [eq, untouched word List.mem_cons_self (eq ▸ mem)]
        · rfl
      rw [List.foldl_cons, same]
      exact ih fun w mem => untouched w (List.mem_cons_of_mem _ mem)

/-- In an untouched replacement all that counts is whether a run is in the dictionary. -/
theorem foldl_pass_run (plain : ∀ word ∈ words, Word word)
    (untouched : Untouched words replacement) (all : ∀ c ∈ u, isalnum c) :
    words.foldl (pass replacement) u = if u ∈ words then replacement else u := by
  split
  · next mem =>
      obtain ⟨before, after, rfl, first⟩ := List.eq_append_cons_of_mem mem
      rw [foldl_pass_append_cons (plain u mem) first]
      exact foldl_pass_of_untouched fun w later =>
        untouched w (List.mem_append_right _ (List.mem_cons_of_mem _ later))
  · next other => exact foldl_pass_of_not_mem all other

/-! ## A replacement that is touched gets longer -/

theorem mem_runs_pass (mem : u ∈ runs isalnum (pass replacement text word)) :
    u ∈ runs isalnum text ∨ u ∈ runs isalnum replacement := by
  rw [pass, runs_mapRuns, List.mem_flatMap] at mem
  obtain ⟨run, inText, mem⟩ := mem
  rw [replaceRun] at mem
  split at mem
  · exact Or.inr mem
  · rw [runs_of_all (all_of_mem_runs inText), List.mem_singleton] at mem
    exact Or.inl (mem ▸ inText)

/-- A pass leaves the runs that are not its word. -/
theorem mem_runs_pass_of_ne (mem : u ∈ runs isalnum text) (ne : u ≠ word) :
    u ∈ runs isalnum (pass replacement text word) := by
  rw [pass, runs_mapRuns, List.mem_flatMap]
  refine ⟨u, mem, ?_⟩
  rw [replaceRun, if_neg ne, runs_of_all (all_of_mem_runs mem)]
  exact List.mem_cons_self

/-- Every run of the text is one of the replacement, which is longer than its runs. -/
structure Made (replacement text : Bytes) : Prop where
  within : ∀ u ∈ runs isalnum text, u ∈ runs isalnum replacement
  longer : ∀ u ∈ runs isalnum replacement, u.length < replacement.length

theorem Made.step (made : Made replacement text) (word : Bytes) :
    Made replacement (pass replacement text word) where
  within u mem := (mem_runs_pass mem).elim (made.within u) id
  longer := made.longer

theorem Made.grows (made : Made replacement text) (word : Bytes) :
    ∀ u ∈ runs isalnum text, u.length ≤ (replaceRun word replacement u).length := by
  intro u mem
  rw [replaceRun]
  split
  · exact (made.longer u (made.within u mem)).le
  · exact le_refl _

/-- The passes do not make it shorter, and one for a run of it makes it longer. -/
theorem Made.length_foldl (made : Made replacement text) :
    text.length ≤ (words.foldl (pass replacement) text).length ∧
      (w ∈ runs isalnum text → w ∈ words →
        text.length < (words.foldl (pass replacement) text).length) := by
  induction words generalizing text with
  | nil => exact ⟨le_refl _, fun _ mem => absurd mem List.not_mem_nil⟩
  | cons word words ih =>
      obtain ⟨notShorter, longer⟩ := ih (made.step word)
      have step := length_mapRuns_le (made.grows word)
      refine ⟨step.trans notShorter, fun inText mem => ?_⟩
      by_cases here : w = word
      · subst here
        have lt : w.length < (replaceRun w replacement w).length := by
          rw [replaceRun, if_pos rfl]
          exact made.longer w (made.within w inText)
        exact (length_mapRuns_lt (made.grows w) ⟨w, inText, lt⟩).trans_le notShorter
      · have later := (List.mem_cons.mp mem).resolve_left here
        exact step.trans_lt (longer (mem_runs_pass_of_ne inText here) later)

theorem Made.steps (made : Made replacement text) (words : List Bytes) :
    Made replacement (words.foldl (pass replacement) text) := by
  induction words generalizing text with
  | nil => exact made
  | cons word words ih => exact ih (made.step word)

theorem mem_runs_foldl (mem : w ∈ runs isalnum text) (other : w ∉ words) :
    w ∈ runs isalnum (words.foldl (pass replacement) text) := by
  induction words generalizing text with
  | nil => exact mem
  | cons word words ih =>
      rw [List.mem_cons, not_or] at other
      exact ih (mem_runs_pass_of_ne mem other.1) other.2

/-- A replacement with a run other than itself. -/
theorem made_of_ne (mem : w ∈ runs isalnum replacement) (ne : w ≠ replacement) :
    Made replacement replacement where
  within := fun _ mem => mem
  longer u run := by
    refine (length_of_mem_runs run).resolve_left fun whole => ne ?_
    have all := all_of_mem_runs run
    rw [whole] at all
    rw [runs_of_all all] at mem
    exact List.mem_singleton.mp mem

theorem foldl_pass_eq_iff :
    words.foldl (pass replacement) replacement = replacement ↔ Untouched words replacement := by
  refine ⟨fun same word mem run => ?_, foldl_pass_of_untouched⟩
  by_contra ne
  have longer := (made_of_ne run ne).length_foldl.2 run mem
  rw [same] at longer
  exact absurd longer (lt_irrefl _)

/-! ## Two orders -/

/-- The words other than `v` before the `v`s, or behind them. -/
theorem orders_differ (plain : ∀ word ∈ words, Word word) (inDict : v ∈ words)
    (other : w ∈ words) (ne : w ≠ v) (run : w ∈ runs isalnum replacement)
    (part : w ≠ replacement) :
    ∃ early late : List Bytes, early.Perm words ∧ late.Perm words ∧
      early.foldl (pass replacement) v ≠ late.foldl (pass replacement) v := by
  let own := words.filter fun x => decide (x = v)
  let others := words.filter fun x => !decide (x = v)
  have perm : (own ++ others).Perm words := List.filter_append_perm _ words
  refine ⟨others ++ own, own ++ others, List.perm_append_comm.trans perm, perm, ?_⟩
  have among : w ∈ others := List.mem_filter.mpr ⟨other, by simpa using ne⟩
  have notOther : v ∉ others := fun mem => by simp [others] at mem
  have isOwn : ∀ x ∈ own, x = v := fun x mem => of_decide_eq_true (List.mem_filter.mp mem).2
  obtain ⟨vs, split⟩ : ∃ vs, own = v :: vs := by
    have mem : v ∈ own := List.mem_filter.mpr ⟨inDict, decide_eq_true rfl⟩
    obtain ⟨x, vs, split⟩ := List.exists_cons_of_ne_nil (List.ne_nil_of_mem mem)
    exact ⟨vs, by rw [split, isOwn x (split ▸ List.mem_cons_self)]⟩
  have absent : w ∉ vs := fun mem => ne (isOwn w (split ▸ List.mem_cons_of_mem _ mem))
  have left : (others ++ v :: vs).foldl (pass replacement) v =
      vs.foldl (pass replacement) replacement :=
    foldl_pass_append_cons (plain v inDict) notOther
  have right : ([] ++ v :: (vs ++ others)).foldl (pass replacement) v =
      (vs ++ others).foldl (pass replacement) replacement :=
    foldl_pass_append_cons (plain v inDict) List.not_mem_nil
  rw [List.nil_append] at right
  rw [split, left, List.cons_append, right, List.foldl_append]
  intro same
  have longer := ((made_of_ne run part).steps vs).length_foldl.2 (mem_runs_foldl run absent) among
  rw [← same] at longer
  exact absurd longer (lt_irrefl _)

theorem perm_of_all_eq (one : ∀ v ∈ words, ∀ w ∈ words, v = w) (perm : dictionary.Perm words) :
    dictionary = words := by
  cases words with
  | nil => exact perm.eq_nil
  | cons v words =>
      have same : v :: words = List.replicate (words.length + 1) v :=
        List.eq_replicate_iff.mpr ⟨rfl, fun w mem => one w mem v List.mem_cons_self⟩
      rw [same] at perm ⊢
      exact List.perm_replicate.mp perm

/-- All orders of the dictionary give the same output exactly if there is but one, or no
run of the replacement is a word in it other than the replacement itself; and what is
inserted for a word stays exactly if that holds of the words behind it. -/
theorem order_iff (plain : ∀ word ∈ dictionary, Word word) (replacement : Bytes) :
    ((∀ dictionary', dictionary'.Perm dictionary → ∀ text out,
        Outputs dictionary' text replacement out ↔ Outputs dictionary text replacement out) ↔
      (∀ v ∈ dictionary, ∀ w ∈ dictionary, v = w) ∨ Untouched dictionary replacement) ∧
    ∀ before word after, dictionary = before ++ word :: after → word ∉ before →
      (Outputs dictionary word replacement replacement ↔ Untouched after replacement) := by
  refine ⟨⟨fun same => ?_, fun safe dictionary' perm text out => ?_⟩, ?_⟩
  · by_contra neither
    rw [not_or] at neither
    obtain ⟨differ, touched⟩ := neither
    simp only [Untouched, not_forall] at touched
    obtain ⟨w, mem, run, part⟩ := touched
    obtain ⟨v, mem', ne⟩ : ∃ v ∈ dictionary, w ≠ v := by
      by_contra none
      push Not at none
      exact differ fun v hv u hu => (none v hv).symm.trans (none u hu)
    obtain ⟨early, late, perm, perm', swap⟩ := orders_differ plain mem' mem ne run part
    have plainEarly : ∀ word ∈ early, Word word :=
      fun word mem => plain word (perm.mem_iff.mp mem)
    have plainLate : ∀ word ∈ late, Word word :=
      fun word mem => plain word (perm'.mem_iff.mp mem)
    have one := ((same early perm v _).trans (same late perm' v _).symm).mp
      ((outputs_iff plainEarly).mpr rfl)
    exact swap ((outputs_iff plainLate).mp one)
  · rw [outputs_iff plain, outputs_iff fun word mem => plain word (perm.mem_iff.mp mem)]
    rcases safe with one | untouched
    · rw [perm_of_all_eq one perm]
    · have untouched' : Untouched dictionary' replacement :=
        fun word mem => untouched word (perm.mem_iff.mp mem)
      have plain' : ∀ word ∈ dictionary', Word word :=
        fun word mem => plain word (perm.mem_iff.mp mem)
      have runwise := mapRuns_congr (p := isalnum)
        (f := fun run => dictionary'.foldl (pass replacement) run)
        (g := fun run => dictionary.foldl (pass replacement) run) (fun run all => by
          rw [foldl_pass_run plain' untouched' all, foldl_pass_run plain untouched all]
          simp only [perm.mem_iff]) text
      rw [foldl_pass dictionary', foldl_pass dictionary, runwise]
  · rintro before word after rfl first
    rw [outputs_iff plain, foldl_pass_append_cons (plain word (by simp)) first, eq_comm,
      foldl_pass_eq_iff]

theorem order_iff_word :
    (∀ dictionary', dictionary'.Perm [ascii "bad", ascii "word"] → ∀ text out,
      Outputs dictionary' text (ascii "[CENSORED]") out ↔
        Outputs [ascii "bad", ascii "word"] text (ascii "[CENSORED]") out) ∧
    (Outputs [ascii "bad", ascii "word"] (ascii "bad") (ascii "[CENSORED]")
        (ascii "[CENSORED]") ↔ Untouched [ascii "word"] (ascii "[CENSORED]")) := by
  have plain : ∀ word ∈ [ascii "bad", ascii "word"], Word word := by decide
  have h := order_iff plain (ascii "[CENSORED]")
  exact ⟨h.1.mpr (Or.inr (by decide)), h.2 [] _ _ rfl List.not_mem_nil⟩

/-- The replacement itself contains a word of the dictionary. -/
theorem order_matters :
    ¬ ∀ dictionary : List Bytes, (∀ word ∈ dictionary, Word word) →
      ∀ dictionary', dictionary'.Perm dictionary → ∀ text replacement out,
        Outputs dictionary text replacement out → Outputs dictionary' text replacement out := by
  intro same
  have plain : ∀ word ∈ [ascii "bad", ascii "CENSORED"], Word word := by decide
  have plain' : ∀ word ∈ [ascii "CENSORED", ascii "bad"], Word word := by decide
  have moved := same _ plain _ (List.Perm.swap (ascii "bad") (ascii "CENSORED") [])
    (ascii "bad") (ascii "[CENSORED]") _ ((outputs_iff plain).mpr rfl)
  exact absurd ((outputs_iff plain').mp moved) (by decide)

end Osisp.Censor
