import Osisp.Lib.CInt
import Osisp.Lib.Runs

/-!
# Reading numbers back from a line (`sscanf`)

A format is a list of directives, each with the assignment it makes to a state. What is
printed field by field, with one blank in front of each, is read back field by field,
whatever blank or end follows (`scanf_fields`).
-/

namespace Lib

/-- `%d` and `%ld`. -/
def decimalInt (n : Int) : Bytes := if n < 0 then 45 :: decimal n.natAbs else decimal n.natAbs

/-- `strtol` of a sign and digits, which stays in the range of `long`. -/
def toLong (sign : Int) (digits : Bytes) : Int64 :=
  Int64.ofInt (max (-2 ^ 63) (min (2 ^ 63 - 1) (sign * (ofDecimal digits : Int))))

/-- `strtoul` of them. -/
def toUlong (sign : Int) (digits : Bytes) : UInt64 :=
  let n := ofDecimal digits
  if 2 ^ 64 ≤ n then UInt64.ofNat (2 ^ 64 - 1)
  else if sign < 0 then -(UInt64.ofNat n)
  else UInt64.ofNat n

inductive Directive (σ : Type)
  /-- White space. -/
  | space
  /-- `%c`. -/
  | char (assign : UInt8 → σ → σ)
  /-- `%d` or `%ld`. -/
  | signed (assign : Int64 → σ → σ)
  /-- `%u` or `%lu`. -/
  | unsigned (assign : UInt64 → σ → σ)
  /-- `%*s`. -/
  | skipWord

/-- What `sscanf` returns when the input is at its end: `EOF` as long as no conversion is
made. -/
def inputFailure (converted assigned : Nat) : Int := if converted = 0 then -1 else assigned

/-- `sscanf` behind so many conversions and assignments. -/
def scanf {σ : Type} (converted assigned : Nat) : List (Directive σ) → Bytes → σ → Int × σ
  | [], _, s => (assigned, s)
  | .space :: ds, input, s => scanf converted assigned ds (input.dropWhile isspace) s
  | .char assign :: ds, input, s =>
      match input with
      | [] => (inputFailure converted assigned, s)
      | x :: input => scanf (converted + 1) (assigned + 1) ds input (assign x s)
  | .signed assign :: ds, input, s =>
      let input := input.dropWhile isspace
      let (sign, body) := Lib.signed input
      let digits := body.takeWhile isdigit
      if input = [] then (inputFailure converted assigned, s)
      else if digits = [] then (assigned, s)
      else
        scanf (converted + 1) (assigned + 1) ds (body.dropWhile isdigit)
          (assign (toLong sign digits) s)
  | .unsigned assign :: ds, input, s =>
      let input := input.dropWhile isspace
      let (sign, body) := Lib.signed input
      let digits := body.takeWhile isdigit
      if input = [] then (inputFailure converted assigned, s)
      else if digits = [] then (assigned, s)
      else
        scanf (converted + 1) (assigned + 1) ds (body.dropWhile isdigit)
          (assign (toUlong sign digits) s)
  | .skipWord :: ds, input, s =>
      let input := input.dropWhile isspace
      if input = [] then (inputFailure converted assigned, s)
      else scanf (converted + 1) assigned ds (input.dropWhile fun x => !isspace x) s

def sscanf {σ : Type} (format : List (Directive σ)) (input : Bytes) (s : σ) : Int × σ :=
  scanf 0 0 format input s

/-- An assignment that leaves `f` as it is. -/
def Directive.Keeps {σ τ : Type} (f : σ → τ) : Directive σ → Prop
  | .space => True
  | .char assign => ∀ x s, f (assign x s) = f s
  | .signed assign => ∀ n s, f (assign n s) = f s
  | .unsigned assign => ∀ n s, f (assign n s) = f s
  | .skipWord => True

/-- What no directive assigns stays as it is, whatever the input. -/
theorem scanf_keeps {σ τ : Type} {f : σ → τ} {ds : List (Directive σ)}
    (keeps : ∀ d ∈ ds, d.Keeps f) (converted assigned : Nat) (input : Bytes) (s : σ) :
    f (scanf converted assigned ds input s).2 = f s := by
  induction ds generalizing converted assigned input s with
  | nil => rfl
  | cons d ds ih =>
      rw [List.forall_mem_cons] at keeps
      have rest := ih keeps.2
      cases d with
      | space => exact rest _ _ _ _
      | char assign =>
          cases input with
          | nil => rfl
          | cons x input => exact (rest _ _ _ _).trans (keeps.1 x s)
      | signed assign =>
          rw [scanf]
          dsimp only
          split
          · rfl
          · split
            · rfl
            · exact (rest _ _ _ _).trans (keeps.1 _ s)
      | unsigned assign =>
          rw [scanf]
          dsimp only
          split
          · rfl
          · split
            · rfl
            · exact (rest _ _ _ _).trans (keeps.1 _ s)
      | skipWord =>
          rw [scanf]
          split
          · rfl
          · exact rest _ _ _ _

/-- The result depends on the input alone. -/
theorem scanf_result {σ : Type} (ds : List (Directive σ)) (converted assigned : Nat)
    (input : Bytes) (s s' : σ) :
    (scanf converted assigned ds input s).1 = (scanf converted assigned ds input s').1 := by
  induction ds generalizing converted assigned input s s' with
  | nil => rfl
  | cons d ds ih =>
      cases d with
      | space => exact ih _ _ _ _ _
      | char assign =>
          cases input with
          | nil => rfl
          | cons x input => exact ih _ _ _ _ _
      | signed assign =>
          rw [scanf, scanf]
          dsimp only
          split
          · rfl
          · split
            · rfl
            · exact ih _ _ _ _ _
      | unsigned assign =>
          rw [scanf, scanf]
          dsimp only
          split
          · rfl
          · split
            · rfl
            · exact ih _ _ _ _ _
      | skipWord =>
          rw [scanf, scanf]
          split
          · rfl
          · exact ih _ _ _ _ _

/-! ## Fields -/

/-- A field of a line, with what is to become of its value. -/
inductive ScanField (σ : Type)
  | signed (n : Int64) (assign : Int64 → σ → σ)
  | unsigned (n : UInt64) (assign : UInt64 → σ → σ)
  | skipped (n : Nat)

namespace ScanField

variable {σ : Type}

def directive : ScanField σ → Directive σ
  | .signed _ assign => .signed assign
  | .unsigned _ assign => .unsigned assign
  | .skipped _ => .skipWord

def text : ScanField σ → Bytes
  | .signed n _ => decimalInt n.toInt
  | .unsigned n _ => decimal n.toNat
  | .skipped n => decimal n

def effect : ScanField σ → σ → σ
  | .signed n assign => assign n
  | .unsigned n assign => assign n
  | .skipped _ => id

/-- The assignments it counts for. -/
def count : ScanField σ → Nat
  | .skipped _ => 0
  | _ => 1

end ScanField

/-- The format that reads the fields. -/
def formatOf {σ : Type} (fields : List (ScanField σ)) : List (Directive σ) :=
  fields.flatMap fun f => [.space, f.directive]

/-- The text of the fields, with a blank in front of each. -/
def textOf {σ : Type} (fields : List (ScanField σ)) : Bytes :=
  fields.flatMap fun f => 32 :: f.text

/-- Nothing, or a blank. -/
def Separated (rest : Bytes) : Prop := ∀ x ∈ rest.head?, isspace x = true

/-! ## Numbers -/

theorem isspace_of_isdigit {x : UInt8} (digit : isdigit x = true) : isspace x = false := by
  rw [isdigit, Bool.and_eq_true, decide_eq_true_eq, decide_eq_true_eq, UInt8.le_iff_toNat_le,
    UInt8.le_iff_toNat_le] at digit
  have lower : 48 ≤ x.toNat := digit.1
  rw [isspace, Bool.or_eq_false_iff]
  constructor
  · apply beq_false_of_ne
    rintro rfl
    exact absurd lower (by decide)
  · rw [Bool.and_eq_false_iff]
    right
    apply decide_eq_false
    intro upper
    have := UInt8.le_iff_toNat_le.mp upper
    have : x.toNat ≤ 13 := this
    omega

theorem isdigit_of_isspace {x : UInt8} (space : isspace x = true) : isdigit x = false := by
  cases digit : isdigit x with
  | false => rfl
  | true =>
      rw [isspace_of_isdigit digit] at space
      cases space

/-- The digits end where the number does. -/
theorem takeWhile_digits (n : Nat) {rest : Bytes} (separated : Separated rest) :
    (decimal n ++ rest).takeWhile isdigit = decimal n ∧
      (decimal n ++ rest).dropWhile isdigit = rest := by
  have digits : ∀ x ∈ decimal n, isdigit x = true := fun x mem => isdigit_of_mem_decimal mem
  have stop : ∀ x ∈ rest.head?, ¬ isdigit x = true := by
    intro x head
    rw [isdigit_of_isspace (separated x head)]
    exact Bool.false_ne_true
  exact ⟨takeWhile_run digits stop, dropWhile_run digits stop⟩

theorem signed_decimal (n : Nat) (rest : Bytes) :
    Lib.signed (decimal n ++ rest) = (1, decimal n ++ rest) := by
  obtain ⟨x, l, text, digit⟩ := decimal_eq_cons n
  have noMinus : x ≠ 45 := ne_of_isdigit digit rfl
  have noPlus : x ≠ 43 := ne_of_isdigit digit rfl
  rw [text, List.cons_append, Lib.signed, if_neg noMinus, if_neg noPlus]

theorem signed_decimalInt (n : Int) (rest : Bytes) :
    Lib.signed (decimalInt n ++ rest) =
      (if n < 0 then -1 else 1, decimal n.natAbs ++ rest) := by
  unfold decimalInt
  by_cases negative : n < 0
  · rw [if_pos negative, if_pos negative]
    rfl
  · rw [if_neg negative, if_neg negative]
    exact signed_decimal n.natAbs rest

/-- A sign or a digit. -/
theorem mem_decimalInt {n : Int} {x : UInt8} (mem : x ∈ decimalInt n) :
    x = 45 ∨ isdigit x = true := by
  rw [decimalInt] at mem
  split at mem
  · rcases List.mem_cons.mp mem with sign | digit
    · exact Or.inl sign
    · exact Or.inr (isdigit_of_mem_decimal digit)
  · exact Or.inr (isdigit_of_mem_decimal mem)

theorem toLong_decimal (n : Int64) :
    toLong (if n.toInt < 0 then -1 else 1) (decimal n.toInt.natAbs) = n := by
  have lower := n.le_toInt
  have upper := n.toInt_lt
  have value : (if n.toInt < 0 then -1 else 1) * (n.toInt.natAbs : Int) = n.toInt := by
    split
    · omega
    · omega
  rw [toLong, ofDecimal_decimal, value, Int.min_eq_right (by omega), Int.max_eq_right (by omega),
    Int64.ofInt_toInt]

theorem toUlong_decimal (n : UInt64) : toUlong 1 (decimal n.toNat) = n := by
  have bound := n.toNat_lt
  unfold toUlong
  rw [ofDecimal_decimal]
  dsimp only
  rw [if_neg (by omega), if_neg (by decide), UInt64.ofNat_toNat]

/-- `atoi` undoes `%d`. -/
theorem atoi_decimal {n : Nat} (fits : n ≤ 2147483647) : (atoi (decimal n)).1 = n := by
  obtain ⟨x, l, text, digit⟩ := decimal_eq_cons n
  have start : (decimal n).dropWhile isspace = decimal n := by
    rw [text, List.dropWhile_cons_of_neg]
    rw [isspace_of_isdigit digit]
    exact Bool.false_ne_true
  have sign := signed_decimal n []
  have ended : Separated [] := nofun
  have digits := (takeWhile_digits n ended).1
  rw [List.append_nil] at sign digits
  have value : strtol (decimal n) = n := by
    rw [strtol, start, sign]
    dsimp only
    rw [digits, ofDecimal_decimal]
    omega
  simp only [atoi, value, wrap]
  exact Int.bmod_eq_of_le (by omega) (by omega)

/-! ## Reading fields -/

section Fields

variable {σ : Type}

/-- A field begins with a digit or a sign. -/
theorem ScanField.text_head (f : ScanField σ) :
    ∃ x l, f.text = x :: l ∧ isspace x = false := by
  have digits (n : Nat) : ∃ x l, decimal n = x :: l ∧ isspace x = false := by
    obtain ⟨x, l, text, digit⟩ := decimal_eq_cons n
    exact ⟨x, l, text, isspace_of_isdigit digit⟩
  cases f with
  | signed n _ =>
      rw [ScanField.text, decimalInt]
      split
      · exact ⟨45, _, rfl, rfl⟩
      · exact digits _
  | unsigned n _ => exact digits _
  | skipped n => exact digits n

theorem dropWhile_blank (f : ScanField σ) (rest : Bytes) :
    (32 :: (f.text ++ rest)).dropWhile isspace = f.text ++ rest ∧
      (f.text ++ rest).dropWhile isspace = f.text ++ rest ∧ f.text ++ rest ≠ [] := by
  obtain ⟨x, l, text, notSpace⟩ := f.text_head
  have same : (f.text ++ rest).dropWhile isspace = f.text ++ rest := by
    apply dropWhile_of_head
    intro y head
    rw [text] at head
    cases head
    rw [notSpace]
    exact Bool.false_ne_true
  refine ⟨?_, same, ?_⟩
  · rw [List.dropWhile_cons_of_pos (by decide), same]
  · rw [text]
    exact List.cons_ne_nil _ _

/-- One field is read back. -/
theorem scanf_field (f : ScanField σ) (converted assigned : Nat) (ds : List (Directive σ))
    {rest : Bytes} (separated : Separated rest) (s : σ) :
    scanf converted assigned (.space :: f.directive :: ds) (32 :: (f.text ++ rest)) s =
      scanf (converted + 1) (assigned + f.count) ds rest (f.effect s) := by
  obtain ⟨blank, same, nonempty⟩ := dropWhile_blank f rest
  rw [scanf, blank]
  cases f with
  | signed n assign =>
      obtain ⟨digits, behind⟩ := takeWhile_digits n.toInt.natAbs separated
      rw [ScanField.directive, scanf, same]
      rw [ScanField.text] at nonempty ⊢
      rw [signed_decimalInt]
      dsimp only
      rw [digits, behind, if_neg nonempty, if_neg (decimal_ne_nil _), toLong_decimal]
      rfl
  | unsigned n assign =>
      obtain ⟨digits, behind⟩ := takeWhile_digits n.toNat separated
      rw [ScanField.directive, scanf, same]
      rw [ScanField.text] at nonempty ⊢
      rw [signed_decimal]
      dsimp only
      rw [digits, behind, if_neg nonempty, if_neg (decimal_ne_nil _), toUlong_decimal]
      rfl
  | skipped n =>
      have word : ∀ x ∈ decimal n, (!isspace x) = true := by
        intro x mem
        rw [isspace_of_isdigit (isdigit_of_mem_decimal mem)]
        rfl
      have stop : ∀ x ∈ rest.head?, ¬ (!isspace x) = true := by
        intro x head
        rw [separated x head]
        exact Bool.false_ne_true
      rw [ScanField.directive, scanf, same, if_neg nonempty, ScanField.text,
        dropWhile_run word stop]
      rfl

/-- One number is read back, however many blanks are in front of it. -/
theorem sscanf_value (n : Int64) (assign : Int64 → σ → σ) (blanks : Nat) {rest : Bytes}
    (separated : Separated rest) (s : σ) :
    sscanf [.signed assign] (List.replicate blanks 32 ++ (decimalInt n.toInt ++ rest)) s =
      (1, assign n s) := by
  obtain ⟨-, same, nonempty⟩ := dropWhile_blank (.signed n assign) rest
  rw [ScanField.text] at same nonempty
  obtain ⟨digits, behind⟩ := takeWhile_digits n.toInt.natAbs separated
  have skip : ∀ x ∈ List.replicate blanks (32 : UInt8), isspace x = true := by
    intro x mem
    rw [List.eq_of_mem_replicate mem]
    rfl
  rw [sscanf, scanf, List.dropWhile_append_of_pos skip, same, signed_decimalInt]
  dsimp only
  rw [digits, behind, if_neg nonempty, if_neg (decimal_ne_nil _), toLong_decimal]
  rfl

theorem separated_textOf (fields : List (ScanField σ)) {rest : Bytes} (separated : Separated rest) :
    Separated (textOf fields ++ rest) := by
  cases fields with
  | nil => exact separated
  | cons f fields =>
      intro x head
      cases head
      rfl

/-- The bytes of a text of fields. -/
theorem mem_textOf {fields : List (ScanField σ)} {x : UInt8} (mem : x ∈ textOf fields) :
    x = 32 ∨ x = 45 ∨ isdigit x = true := by
  obtain ⟨f, -, behind⟩ := List.mem_flatMap.mp mem
  rcases List.mem_cons.mp behind with blank | inside
  · exact Or.inl blank
  · right
    cases f with
    | signed n _ => exact mem_decimalInt inside
    | unsigned n _ => exact Or.inr (isdigit_of_mem_decimal inside)
    | skipped n => exact Or.inr (isdigit_of_mem_decimal inside)

/-- What is printed field by field is read back field by field. -/
theorem scanf_fields (fields : List (ScanField σ)) (converted assigned : Nat) {rest : Bytes}
    (separated : Separated rest) (s : σ) :
    scanf converted assigned (formatOf fields) (textOf fields ++ rest) s =
      (((assigned + (fields.map ScanField.count).sum : Nat) : Int),
        fields.foldl (fun s f => f.effect s) s) := by
  induction fields generalizing converted assigned s with
  | nil => rfl
  | cons f fields ih =>
      have text : textOf (f :: fields) ++ rest = 32 :: (f.text ++ (textOf fields ++ rest)) := by
        rw [textOf, List.flatMap_cons, List.cons_append, List.cons_append, List.append_assoc]
        rfl
      have format : formatOf (f :: fields) = .space :: f.directive :: formatOf fields := rfl
      rw [text, format, scanf_field f _ _ _ (separated_textOf fields separated), ih,
        List.map_cons, List.sum_cons, Nat.add_assoc]
      rfl

end Fields

end Lib
