import Mathlib

/-!
# Lists of quoted literals

A literal stands between quotes `q`, and a quote inside it is written twice. The
items of a list are separated by `c` and `b` in a row, and the list ends at `e`;
inside a literal these are symbols like any other. The scan knows only whether it
is inside a literal: the two quotes that stand for one leave it and enter it again.
-/

namespace Lib

variable {α : Type} [DecidableEq α] {q c b e : α}

/-- Every quote is written twice. -/
def doubled (q : α) (s : List α) : List α := s.flatMap fun x => if x = q then [q, q] else [x]

/-- A text as a literal. -/
def literal (q : α) (s : List α) : List α := q :: (doubled q s ++ [q])

/-- The text of a literal whose first quote has been read. -/
def literalText (q : α) : List α → Option (List α)
  | [] => none
  | [x] => if x = q then some [] else none
  | x :: y :: l =>
      if x = q then
        if y = q then (literalText q l).map (q :: ·) else none
      else (literalText q (y :: l)).map (x :: ·)

/-- The items up to the end of the list, and what follows it; `item` has been read
of the first one. -/
def scanItems (q c b e : α) : Bool → List α → List α → Option (List (List α) × List α)
  | _, _, [] => none
  | quoted, item, [x] =>
      if quoted = false ∧ x = e then some ([item], []) else none
  | quoted, item, x :: y :: l =>
      if quoted = false ∧ x = e then some ([item], y :: l)
      else if quoted = false ∧ x = c ∧ y = b then
        (scanItems q c b e false [] l).map fun out => (item :: out.1, out.2)
      else scanItems q c b e (if x = q then !quoted else quoted) (item ++ [x]) (y :: l)

/-- The statements of a text, each up to an `e` outside its literals. A `b` before a
statement is skipped, and a statement has to end. -/
def scanStatements (q e b : α) : Bool → List α → List α → Option (List (List α))
  | _, statement, [] => if statement = [] then some [] else none
  | quoted, statement, x :: l =>
      if statement = [] ∧ x = b then scanStatements q e b quoted [] l
      else if quoted = false ∧ x = e then
        (scanStatements q e b false [] l).map (statement :: ·)
      else scanStatements q e b (if x = q then !quoted else quoted) (statement ++ [x]) l

/-! ## Literals -/

@[simp] theorem doubled_nil : doubled q [] = [] := rfl

theorem doubled_cons_self (s : List α) : doubled q (q :: s) = q :: q :: doubled q s := by
  rw [doubled, List.flatMap_cons, if_pos rfl]
  rfl

theorem doubled_cons_ne {x : α} (ne : x ≠ q) (s : List α) :
    doubled q (x :: s) = x :: doubled q s := by
  rw [doubled, List.flatMap_cons, if_neg ne]
  rfl

theorem literalText_cons {x : α} (ne : x ≠ q) {l : List α} (more : l ≠ []) :
    literalText q (x :: l) = (literalText q l).map (x :: ·) := by
  cases l with
  | nil => exact absurd rfl more
  | cons y l => rw [literalText, if_neg ne]

/-- Reading a literal undoes writing it. -/
theorem literalText_doubled (s : List α) : literalText q (doubled q s ++ [q]) = some s := by
  induction s with
  | nil => rw [doubled_nil, List.nil_append, literalText, if_pos rfl]
  | cons x s ih =>
      by_cases quote : x = q
      · subst quote
        rw [doubled_cons_self, List.cons_append, List.cons_append, literalText, if_pos rfl,
          if_pos rfl, ih, Option.map_some]
      · have more : doubled q s ++ [q] ≠ [] := List.append_ne_nil_of_right_ne_nil _ (by simp)
        rw [doubled_cons_ne quote, List.cons_append, literalText_cons quote more, ih,
          Option.map_some]

/-! ## The scan -/

/-- One symbol on: it neither ends the list nor begins a separator. -/
theorem scanItems_cons {quoted : Bool} {x : α} (inside : quoted = false → x ≠ e ∧ x ≠ c)
    (item l : List α) :
    scanItems q c b e quoted item (x :: l) =
      scanItems q c b e (if x = q then !quoted else quoted) (item ++ [x]) l := by
  have open_ : ¬ (quoted = false ∧ x = e) := fun close => (inside close.1).1 close.2
  cases l with
  | nil => rw [scanItems.eq_2, if_neg open_, scanItems.eq_1]
  | cons y l =>
      have one : ¬ (quoted = false ∧ x = c ∧ y = b) := fun sep => (inside sep.1).2 sep.2.1
      rw [scanItems, if_neg open_, if_neg one]

theorem scanItems_close (item l : List α) :
    scanItems q c b e false item (e :: l) = some ([item], l) := by
  cases l with
  | nil => rw [scanItems, if_pos ⟨rfl, rfl⟩]
  | cons y l => rw [scanItems, if_pos ⟨rfl, rfl⟩]

theorem scanItems_sep (ne : c ≠ e) (item l : List α) :
    scanItems q c b e false item (c :: b :: l) =
      (scanItems q c b e false [] l).map fun out => (item :: out.1, out.2) := by
  rw [scanItems, if_neg fun close => ne close.2, if_pos ⟨rfl, rfl, rfl⟩]

/-- A text without quotes that neither ends the list nor contains a separator. -/
theorem scanItems_bare {s : List α} (plain : ∀ x ∈ s, x ≠ q ∧ x ≠ c ∧ x ≠ e)
    (item l : List α) :
    scanItems q c b e false item (s ++ l) = scanItems q c b e false (item ++ s) l := by
  induction s generalizing item with
  | nil => rw [List.nil_append, List.append_nil]
  | cons x s ih =>
      obtain ⟨quote, comma, close⟩ := plain x List.mem_cons_self
      have rest := ih (fun y mem => plain y (List.mem_cons_of_mem x mem)) (item ++ [x])
      rw [List.cons_append, scanItems_cons (fun _ => ⟨close, comma⟩), if_neg quote, rest,
        List.append_assoc, List.singleton_append]

/-- Inside a literal the scan reads on to the last quote, whatever the text. -/
theorem scanItems_doubled (comma : c ≠ q) (close : e ≠ q) (s item l : List α) :
    scanItems q c b e true item (doubled q s ++ q :: l) =
      scanItems q c b e false (item ++ doubled q s ++ [q]) l := by
  have inside {x : α} : true = false → x ≠ e ∧ x ≠ c := fun absurd => nomatch absurd
  induction s generalizing item with
  | nil =>
      rw [doubled_nil, List.nil_append, List.append_nil, scanItems_cons inside, if_pos rfl,
        Bool.not_true]
  | cons x s ih =>
      by_cases quote : x = q
      · subst quote
        rw [doubled_cons_self, List.cons_append, List.cons_append, scanItems_cons inside,
          if_pos rfl, Bool.not_true, scanItems_cons (fun _ => ⟨close.symm, comma.symm⟩), if_pos rfl,
          Bool.not_false, ih]
        simp only [List.append_assoc, List.cons_append, List.nil_append]
      · rw [doubled_cons_ne quote, List.cons_append, scanItems_cons inside, if_neg quote, ih]
        simp only [List.append_assoc, List.cons_append, List.nil_append]

theorem scanItems_literal (comma : c ≠ q) (close : e ≠ q) (s item l : List α) :
    scanItems q c b e false item (literal q s ++ l) =
      scanItems q c b e false (item ++ literal q s) l := by
  have rest := scanItems_doubled (b := b) comma close s (item ++ [q]) l
  rw [literal, List.cons_append, scanItems_cons (fun _ => ⟨close.symm, comma.symm⟩), if_pos rfl,
    Bool.not_false, List.append_assoc, List.singleton_append, rest]
  simp only [List.append_assoc, List.cons_append, List.nil_append]

/-- An item that the scan reads to its end. -/
def IsItem (q c b e : α) (s : List α) : Prop :=
  ∀ item l, scanItems q c b e false item (s ++ l) = scanItems q c b e false (item ++ s) l

/-- The scan gives back the items that were put behind one another. -/
theorem scanItems_intercalate (ne : c ≠ e) {items : List (List α)} (some_ : items ≠ [])
    (whole : ∀ s ∈ items, IsItem q c b e s) (l : List α) :
    scanItems q c b e false [] ([c, b].intercalate items ++ e :: l) = some (items, l) := by
  induction items with
  | nil => exact absurd rfl some_
  | cons s items ih =>
      have first := whole s List.mem_cons_self
      cases items with
      | nil => rw [List.intercalate_singleton, first, List.nil_append, scanItems_close]
      | cons t items =>
          have rest := ih (List.cons_ne_nil t items) fun u mem =>
            whole u (List.mem_cons_of_mem s mem)
          have parts : [c, b].intercalate (s :: t :: items) =
              s ++ ([c, b] ++ [c, b].intercalate (t :: items)) := by
            rw [List.intercalate_cons_cons, List.append_assoc]
          rw [parts, List.append_assoc, first, List.nil_append, List.append_assoc,
            List.cons_append, List.cons_append, List.nil_append, scanItems_sep ne, rest,
            Option.map_some]

/-! ## Statements -/

/-- A part of a statement, behind its beginning. -/
def IsPart (q e b : α) (s : List α) : Prop :=
  ∀ statement l, statement ≠ [] →
    scanStatements q e b false statement (s ++ l) =
      scanStatements q e b false (statement ++ s) l

theorem IsPart.append {s t : List α} (first : IsPart q e b s) (second : IsPart q e b t) :
    IsPart q e b (s ++ t) := by
  intro statement l more
  have more' : statement ++ s ≠ [] := List.append_ne_nil_of_left_ne_nil more s
  rw [List.append_assoc, first statement _ more, second _ l more', List.append_assoc]

theorem IsPart.intercalate {sep : List α} (between : IsPart q e b sep) {items : List (List α)}
    (parts : ∀ s ∈ items, IsPart q e b s) : IsPart q e b (sep.intercalate items) := by
  induction items with
  | nil =>
      intro statement l _
      rw [List.intercalate_nil, List.nil_append, List.append_nil]
  | cons s items ih =>
      rw [List.forall_mem_cons] at parts
      cases items with
      | nil =>
          rw [List.intercalate_singleton]
          exact parts.1
      | cons t items =>
          rw [List.intercalate_cons_cons]
          exact (parts.1.append between).append (ih parts.2)

theorem scanStatements_cons {quoted : Bool} {x : α} (inside : quoted = false → x ≠ e)
    {statement : List α} (more : statement ≠ []) (l : List α) :
    scanStatements q e b quoted statement (x :: l) =
      scanStatements q e b (if x = q then !quoted else quoted) (statement ++ [x]) l := by
  rw [scanStatements, if_neg fun skip => more skip.1, if_neg fun ends => inside ends.1 ends.2]

theorem isPart_bare {s : List α} (plain : ∀ x ∈ s, x ≠ q ∧ x ≠ e) : IsPart q e b s := by
  induction s with
  | nil =>
      intro statement l _
      rw [List.nil_append, List.append_nil]
  | cons x s ih =>
      intro statement l more
      rw [List.forall_mem_cons] at plain
      obtain ⟨⟨quote, ends⟩, rest⟩ := plain
      have more' : statement ++ [x] ≠ [] := List.append_ne_nil_of_left_ne_nil more _
      rw [List.cons_append, scanStatements_cons (fun _ => ends) more, if_neg quote,
        ih rest _ l more', List.append_assoc, List.singleton_append]

/-- Inside a literal a statement does not end. -/
theorem scanStatements_doubled (ends : e ≠ q) (s l : List α) {statement : List α}
    (more : statement ≠ []) :
    scanStatements q e b true statement (doubled q s ++ q :: l) =
      scanStatements q e b false (statement ++ doubled q s ++ [q]) l := by
  have inside {x : α} : true = false → x ≠ e := fun absurd => nomatch absurd
  induction s generalizing statement with
  | nil =>
      rw [doubled_nil, List.nil_append, List.append_nil, scanStatements_cons inside more,
        if_pos rfl, Bool.not_true]
  | cons x s ih =>
      have more' : statement ++ [x] ≠ [] := List.append_ne_nil_of_left_ne_nil more _
      by_cases quote : x = q
      · subst quote
        have twice : statement ++ [x] ++ [x] ≠ [] := List.append_ne_nil_of_left_ne_nil more' _
        rw [doubled_cons_self, List.cons_append, List.cons_append,
          scanStatements_cons inside more, if_pos rfl, Bool.not_true,
          scanStatements_cons (fun _ => ends.symm) more', if_pos rfl, Bool.not_false, ih twice]
        simp only [List.append_assoc, List.cons_append, List.nil_append]
      · rw [doubled_cons_ne quote, List.cons_append, scanStatements_cons inside more,
          if_neg quote, ih more']
        simp only [List.append_assoc, List.cons_append, List.nil_append]

theorem isPart_literal (ends : e ≠ q) (s : List α) : IsPart q e b (literal q s) := by
  intro statement l more
  have more' : statement ++ [q] ≠ [] := List.append_ne_nil_of_left_ne_nil more _
  rw [literal, List.cons_append, scanStatements_cons (fun _ => ends.symm) more, if_pos rfl,
    Bool.not_false, List.append_assoc, List.singleton_append, scanStatements_doubled ends s l more']
  simp only [List.append_assoc, List.cons_append, List.nil_append]

/-- It begins with a symbol that is neither skipped nor an end, nor opens a literal. -/
structure IsStatement (q e b : α) (s : List α) : Prop where
  parts : ∃ x t, s = x :: t ∧ x ≠ q ∧ x ≠ e ∧ x ≠ b ∧ IsPart q e b t

/-- A statement is read to its end. -/
theorem IsStatement.scan {s : List α} (h : IsStatement q e b s) (l : List α) :
    scanStatements q e b false [] (s ++ e :: b :: l) =
      (scanStatements q e b false [] l).map (s :: ·) := by
  obtain ⟨x, t, rfl, quote, ends, skip, part⟩ := h.parts
  have more : [x] ≠ [] := List.cons_ne_nil x []
  have whole : x :: t ≠ [] := List.cons_ne_nil x t
  rw [List.cons_append, scanStatements, if_neg fun skipped => skip skipped.2,
    if_neg fun ended => ends ended.2, if_neg quote, List.nil_append, part [x] _ more,
    List.singleton_append, scanStatements, if_neg fun skipped => whole skipped.1,
    if_pos ⟨rfl, rfl⟩, scanStatements, if_pos ⟨rfl, rfl⟩]

/-- The statements that were put behind one another are found again. -/
theorem scanStatements_terminated {statements : List (List α)}
    (whole : ∀ s ∈ statements, IsStatement q e b s) :
    scanStatements q e b false [] (statements.flatMap (· ++ [e, b])) = some statements := by
  induction statements with
  | nil => rw [List.flatMap_nil, scanStatements, if_pos rfl]
  | cons s statements ih =>
      rw [List.forall_mem_cons] at whole
      rw [List.flatMap_cons, List.append_assoc, List.cons_append, List.cons_append,
        List.nil_append, whole.1.scan, ih whole.2, Option.map_some]

end Lib