import Mathlib
import Osisp.Lib.Bytes

/-!
# Named pipes

A pipe as the kernel keeps it: the unread bytes and who holds a descriptor. What
is unread does not outlive the last descriptor, by construction. `Holds enc q p`
says that the unread bytes are the records `q`, whole and in order; each
operation is described by what it does to that queue.
-/

namespace Lib

/-- A pipe with at most one reader and writers named by `ι`. -/
structure Pipe (ι : Type) where
  bytes : Bytes
  writers : Finset ι
  reader : Bool
  kept : reader = false → writers = ∅ → bytes = []
  deriving DecidableEq

namespace Pipe

variable {ι α : Type}

/-! ## Operations -/

def fresh : Pipe ι := ⟨[], ∅, false, fun _ _ => rfl⟩

def openRead (p : Pipe ι) : Pipe ι := ⟨p.bytes, p.writers, true, nofun⟩

/-- A write of at most `PIPE_BUF` bytes: all of them, or none without a reader. -/
def write (p : Pipe ι) (data : Bytes) : Pipe ι :=
  ⟨if p.reader then p.bytes ++ data else p.bytes, p.writers, p.reader, fun closed none => by
    rw [closed, if_neg (by simp)]
    exact p.kept closed none⟩

/-- The pipe after a `read` of `n` bytes. -/
def read (p : Pipe ι) (n : Nat) : Pipe ι :=
  ⟨p.bytes.drop n, p.writers, p.reader, fun closed none => by
    rw [p.kept closed none, List.drop_nil]⟩

section Descriptors

variable [DecidableEq ι]

/-- The pipe after a close: unread bytes are discarded with the last descriptor. -/
def settle (bytes : Bytes) (writers : Finset ι) (reader : Bool) : Pipe ι :=
  ⟨if reader = false ∧ writers = ∅ then [] else bytes, writers, reader,
    fun closed none => if_pos ⟨closed, none⟩⟩

def closeRead (p : Pipe ι) : Pipe ι := settle p.bytes p.writers false

def openWrite (p : Pipe ι) (i : ι) : Pipe ι :=
  ⟨p.bytes, insert i p.writers, p.reader,
    fun _ none => absurd none (Finset.insert_ne_empty i _)⟩

def closeWrite (p : Pipe ι) (i : ι) : Pipe ι := settle p.bytes (p.writers.erase i) p.reader

/-- Only `i` is left with a descriptor. -/
def LastWriter (p : Pipe ι) (i : ι) : Prop := p.reader = false ∧ p.writers ⊆ {i}

instance (p : Pipe ι) (i : ι) : Decidable (p.LastWriter i) := instDecidableAnd

end Descriptors

/-! ## The queue of records in a pipe -/

/-- The unread bytes are the records `q`. -/
def Holds (enc : α → Bytes) (q : List α) (p : Pipe ι) : Prop := p.bytes = (q.map enc).flatten

/-- Decode `k` records of `n` bytes. -/
def decodeAll (dec : Bytes → Option α) (n : Nat) : Nat → Bytes → List α
  | 0, _ => []
  | k + 1, b => (dec (b.take n)).toList ++ decodeAll dec n k (b.drop n)

/-- The unread records of `n` bytes. -/
def records (dec : Bytes → Option α) (n : Nat) (p : Pipe ι) : List α :=
  decodeAll dec n (p.bytes.length / n) p.bytes

namespace Holds

variable {enc : α → Bytes} {q : List α} {p : Pipe ι} {n : Nat}

theorem fresh : Holds enc [] (fresh : Pipe ι) := rfl

theorem openRead (h : p.Holds enc q) : p.openRead.Holds enc q := h

theorem write (h : p.Holds enc q) (reader : p.reader = true) (r : α) :
    (p.write (enc r)).Holds enc (q ++ [r]) := by
  have bytes : (p.write (enc r)).bytes = p.bytes ++ enc r := if_pos reader
  rw [Holds, bytes, h]
  simp

/-- Records of one size: a read of that size takes exactly the first. -/
theorem read (h : p.Holds enc q) (size : ∀ r, (enc r).length = n) (unread : p.bytes ≠ []) :
    ∃ r rest, q = r :: rest ∧ p.bytes.take n = enc r ∧ (p.read n).Holds enc rest := by
  cases q with
  | nil => exact absurd h unread
  | cons r rest =>
      have bytes : p.bytes = enc r ++ (rest.map enc).flatten := h
      refine ⟨r, rest, rfl, ?_, ?_⟩
      · rw [bytes, ← size r, List.take_left]
      · change p.bytes.drop n = _
        rw [bytes, ← size r, List.drop_left]

theorem length (h : p.Holds enc q) (size : ∀ r, (enc r).length = n) :
    p.bytes.length = q.length * n := by
  have same : ((q.map enc).map List.length) = List.replicate q.length n := by
    rw [List.map_map]
    exact List.map_eq_replicate_iff.mpr fun r _ => size r
  rw [h, List.length_flatten, same, List.sum_replicate_nat]

/-- Nothing unread means no record. -/
theorem eq_nil (h : p.Holds enc q) (size : ∀ r, (enc r).length = n) (pos : 0 < n)
    (empty : p.bytes = []) : q = [] := by
  have none := h.length size
  rw [empty, List.length_nil] at none
  exact List.eq_nil_of_length_eq_zero
    ((Nat.mul_eq_zero.mp none.symm).resolve_right (Nat.pos_iff_ne_zero.mp pos))

/-- The records can be told from the bytes. -/
theorem records {dec : Bytes → Option α} (h : p.Holds enc q) (size : ∀ r, (enc r).length = n)
    (pos : 0 < n) (inverse : ∀ r, dec (enc r) = some r) : p.records dec n = q := by
  rw [Pipe.records, h.length size, Nat.mul_div_cancel _ pos, h]
  clear h
  induction q with
  | nil => rfl
  | cons r q ih =>
      have first : ((r :: q).map enc).flatten = enc r ++ (q.map enc).flatten := rfl
      rw [first, List.length_cons, decodeAll, ← size r, List.take_left, List.drop_left, inverse,
        size r, ih]
      rfl

variable [DecidableEq ι]

theorem openWrite (h : p.Holds enc q) (i : ι) : (p.openWrite i).Holds enc q := h

theorem settled {bytes : Bytes} {writers : Finset ι} {reader : Bool}
    (h : bytes = (q.map enc).flatten) (last : reader = false → writers = ∅ → bytes = []) :
    (settle bytes writers reader).Holds enc q := by
  by_cases discard : reader = false ∧ writers = ∅
  · exact (if_pos discard).trans ((last discard.1 discard.2).symm.trans h)
  · exact (if_neg discard).trans h

/-- The last descriptor takes every record with it. -/
theorem settled_last {bytes : Bytes} {writers : Finset ι} {reader : Bool}
    (closed : reader = false) (none : writers = ∅) :
    (settle bytes writers reader).Holds enc ([] : List α) :=
  if_pos ⟨closed, none⟩

/-- The reader may go while a writer is left, or when nothing is unread. -/
theorem closeRead (h : p.Holds enc q) (last : p.writers = ∅ → p.bytes = []) :
    p.closeRead.Holds enc q :=
  settled h fun _ => last

/-- A writer may go while another descriptor is left, or when nothing is unread. -/
theorem closeWrite {i : ι} (h : p.Holds enc q) (last : p.LastWriter i → p.bytes = []) :
    (p.closeWrite i).Holds enc q := by
  refine settled h fun closed none => last ⟨closed, fun j mem => ?_⟩
  by_contra other
  have left : j ∈ p.writers.erase i :=
    Finset.mem_erase.mpr ⟨fun eq => other (Finset.mem_singleton.mpr eq), mem⟩
  rw [none] at left
  exact Finset.notMem_empty j left

/-- What the last writer leaves behind is discarded. -/
theorem closeWrite_last {i : ι} (last : p.LastWriter i) :
    (p.closeWrite i).Holds enc ([] : List α) :=
  settled_last last.1 ((Finset.erase_eq_empty_iff _ i).mpr
    (Finset.subset_singleton_iff.mp last.2))

end Holds

end Pipe

end Lib
