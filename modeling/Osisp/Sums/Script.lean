import Mathlib
import Osisp.Lib.Scanf
import Osisp.Sums.Dump

/-!
# The sums over the matched files (`LabWork_1/scr.sh`)

For each file whose name matches, the script prints the sum of its bytes and the sum of
all sums so far, which `bash` keeps in 64 bits.
-/

namespace Osisp.Sums

open Lib

/-- A file of the list; `content` is what `od` reads of it, nothing if it cannot be read. -/
structure File where
  path : Bytes
  content : Bytes
  deriving DecidableEq

/-- `basename`: what stands behind the last slash, but for slashes at the end. -/
def basename (path : Bytes) : Bytes :=
  let front := path.rdropWhile (· == 47)
  if front = [] then path.take 1 else front.rtakeWhile (· != 47)

/-- `MATCH`. `regex` is what `=~` makes of a pattern and a name. -/
def isMatch (regex : Bytes → Bytes → Bool) (args : List Bytes) (filename : Bytes) : Bool :=
  if args.headD [] == ascii "-r" && regex (args.getD 1 []) filename then true
  else if args.headD [] == ascii "-l" then (args.drop 1).any fun arg => filename == arg
  else false

/-- A decimal constant without leading zeros in an arithmetic expansion. -/
def bashNumber (text : Bytes) : Int64 := Int64.ofInt (ofDecimal text)

/-- The values in the two lines that are printed for a file. -/
structure Echo where
  file : Bytes
  fileSum : Bytes
  totalSum : Bytes
  deriving DecidableEq

section Script

variable (regex : Bytes → Bytes → Bool) (args : List Bytes)

/-- The loop over the files with `TOTAL_SUM`. What goes to `result.txt` is left out. -/
def fileLoop : Int64 → List File → List Echo
  | _, [] => []
  | total, file :: files =>
      if isMatch regex args (basename file.path) then
        let sum := fileSum file.content
        let total := total + bashNumber sum
        ⟨file.path, sum, decimalInt total.toInt⟩ :: fileLoop total files
      else fileLoop total files

def script (files : List File) : List Echo := fileLoop regex args 0 files

/-- What is in the matched files. -/
def matched (files : List File) : List Bytes :=
  (files.filter fun file => isMatch regex args (basename file.path)).map File.content

end Script

/-- What a printed sum is worth. -/
def Echo.worth (e : Echo) : Nat := ofDecimal e.fileSum

/-- The values printed for files with these contents are what they are called. -/
structure SumsRight (contents : List Bytes) (echoes : List Echo) : Prop where
  fileSums : echoes.map Echo.fileSum = contents.map fun content => decimal (byteSum content)
  totalSums : ∀ k e, echoes[k]? = some e →
    e.totalSum = decimal ((echoes.take (k + 1)).map Echo.worth).sum

instance (contents : List Bytes) (echoes : List Echo) : Decidable (SumsRight contents echoes) :=
  decidable_of_iff
    (echoes.map Echo.fileSum = contents.map (fun content => decimal (byteSum content)) ∧
      ∀ k < echoes.length, ∀ e ∈ echoes[k]?,
        e.totalSum = decimal ((echoes.take (k + 1)).map Echo.worth).sum)
    ⟨fun ⟨fileSums, totals⟩ => ⟨fileSums, fun k e here =>
        totals k (List.getElem?_eq_some_iff.mp here).1 e here⟩,
      fun ⟨fileSums, totals⟩ => ⟨fileSums, fun k _ e here => totals k e here⟩⟩

/-! ## The loop -/

section Loop

variable {regex : Bytes → Bytes → Bool} {args : List Bytes}

theorem fileLoop_fileSums (total : Int64) (files : List File) :
    (fileLoop regex args total files).map Echo.fileSum =
      (matched regex args files).map fileSum := by
  induction files generalizing total with
  | nil => rfl
  | cons file files ih =>
      cases matches_ : isMatch regex args (basename file.path) with
      | true =>
          rw [fileLoop, if_pos matches_, matched,
            List.filter_cons_of_pos
              (p := fun file : File => isMatch regex args (basename file.path)) matches_]
          exact congrArg (List.cons _) (ih _)
      | false =>
          have skipped : ¬ isMatch regex args (basename file.path) = true := by
            rw [matches_]
            exact Bool.false_ne_true
          rw [fileLoop, if_neg skipped, matched,
            List.filter_cons_of_neg
              (p := fun file : File => isMatch regex args (basename file.path)) skipped]
          exact ih total

/-- `TOTAL_SUM` is the sum so far, in 64 bits. -/
theorem fileLoop_totalSum (n : Int) (files : List File) {k : Nat} {e : Echo}
    (here : (fileLoop regex args (Int64.ofInt n) files)[k]? = some e) :
    e.totalSum = decimalInt (Int64.ofInt (n + (((fileLoop regex args (Int64.ofInt n) files).take
      (k + 1)).map Echo.worth).sum)).toInt := by
  induction files generalizing n k with
  | nil => cases here
  | cons file files ih =>
      rw [fileLoop] at here ⊢
      split at here
      · rename_i matches_
        rw [if_pos matches_]
        dsimp only at here ⊢
        rw [bashNumber, ← Int64.ofInt_add] at here ⊢
        cases k with
        | zero =>
            cases here
            rw [List.take_succ_cons, List.take_zero, List.map_singleton, List.sum_singleton]
            rfl
        | succ k =>
            have later := ih _ here
            rw [later, List.take_succ_cons, List.map_cons, List.sum_cons, Int.natCast_add,
              ← Int.add_assoc]
            rfl
      · rename_i skipped
        rw [if_neg skipped]
        exact ih n here

theorem script_totalSum {files : List File} {k : Nat} {e : Echo}
    (here : (script regex args files)[k]? = some e) :
    e.totalSum = decimalInt (Int64.ofInt
      (((script regex args files).take (k + 1)).map Echo.worth).sum).toInt := by
  have sum := fileLoop_totalSum 0 files here
  rwa [Int.zero_add] at sum

/-- If the sums of the files are right, they are worth what is in the files. -/
theorem worths_eq {contents : List Bytes} {echoes : List Echo}
    (right : echoes.map Echo.fileSum = contents.map fun content => decimal (byteSum content)) :
    echoes.map Echo.worth = contents.map byteSum := by
  have worths := congrArg (List.map ofDecimal) right
  rw [List.map_map, List.map_map] at worths
  refine worths.trans ?_
  apply List.map_congr_left
  intro content _
  exact ofDecimal_decimal (byteSum content)

end Loop

/-! ## Exactly when the sums are right -/

theorem decimalInt_eq_decimal {n : Int} {m : Nat} : decimalInt n = decimal m ↔ n = m := by
  unfold decimalInt
  constructor
  · intro same
    split at same
    · have sign : (45 : UInt8) ∈ decimal m := by
        rw [← same]
        exact List.mem_cons_self
      exact absurd (isdigit_of_mem_decimal sign) (by decide)
    · have abs : n.natAbs = m := by
        rw [← ofDecimal_decimal n.natAbs, same, ofDecimal_decimal]
      omega
  · rintro rfl
    rw [if_neg (by omega)]
    rfl

/-- 63 bits are enough for a sum or not. -/
theorem toInt_ofInt_natCast {n : Nat} : (Int64.ofInt n).toInt = n ↔ n < 2 ^ 63 := by
  constructor
  · intro same
    have bound := (Int64.ofInt n).toInt_lt
    rw [same] at bound
    omega
  · intro small
    apply Int64.toInt_ofInt_of_le
    · omega
    · omega

/-- **Exactly when the sums are right.** The bytes of each matched file are summable, and
the total fits in 63 bits. -/
theorem sums_right_iff (regex : Bytes → Bytes → Bool) (args : List Bytes) (files : List File) :
    SumsRight (matched regex args files) (script regex args files) ↔
      (∀ content ∈ matched regex args files, Summable content) ∧
        ((matched regex args files).map byteSum).sum < 2 ^ 63 := by
  have sums : (script regex args files).map Echo.fileSum =
      (matched regex args files).map fileSum := fileLoop_fileSums 0 files
  constructor
  · intro right
    have worths := worths_eq right.fileSums
    have same := sums.symm.trans right.fileSums
    constructor
    · intro content mem
      exact (fileSum_eq_iff content).mp (List.map_inj_left.mp same content mem)
    · rw [← worths]
      rcases List.eq_nil_or_concat' (script regex args files) with none | ⟨before, last, all⟩
      · rw [none]
        decide
      · -- the last total is that of all files
        have here : (script regex args files)[before.length]? = some last := by
          rw [all, List.getElem?_append_right (Nat.le_refl _), Nat.sub_self]
          rfl
        have whole : (script regex args files).take (before.length + 1) =
            script regex args files := by
          apply List.take_of_length_le
          rw [all, List.length_append, List.length_singleton]
        have total := (script_totalSum here).symm.trans (right.totalSums _ _ here)
        rw [whole, decimalInt_eq_decimal] at total
        exact toInt_ofInt_natCast.mp total
  · intro holds
    have fileSums : (script regex args files).map Echo.fileSum =
        (matched regex args files).map fun content => decimal (byteSum content) := by
      rw [sums]
      apply List.map_congr_left
      intro content mem
      exact (fileSum_eq_iff content).mpr (holds.1 content mem)
    constructor
    · exact fileSums
    · intro k e here
      have bound := holds.2
      rw [← worths_eq fileSums] at bound
      have parts := congrArg (fun echoes => (echoes.map Echo.worth).sum)
        (List.take_append_drop (k + 1) (script regex args files))
      rw [List.map_append, List.sum_append] at parts
      rw [script_totalSum here, decimalInt_eq_decimal]
      exact toInt_ofInt_natCast.mpr (by omega)

/-- The script with the arguments `-l a`. -/
def listA : List File → List Echo := script (fun _ _ => false) [ascii "-l", ascii "a"]

/-- The files that are matched then. -/
def matchedA : List File → List Bytes := matched (fun _ _ => false) [ascii "-l", ascii "a"]

/-- Two lines of the same 16 bytes, of which the second is left out: the script prints 1040,
and the sum is 2080. -/
theorem repeated_line_lost :
    let files : List File := [⟨ascii "./a", List.replicate 32 65⟩]
    listA files = [⟨ascii "./a", ascii "1040", ascii "1040"⟩] ∧
      ¬ SumsRight (matchedA files) (listA files) := by
  decide +kernel

/-- Zeros may be repeated. -/
example :
    let files : List File :=
      [⟨ascii "./d/a", List.replicate 40 0⟩, ⟨ascii "./b", [7]⟩, ⟨ascii "./a", [65, 66]⟩]
    SumsRight (matchedA files) (listA files) := by
  decide +kernel

end Osisp.Sums
