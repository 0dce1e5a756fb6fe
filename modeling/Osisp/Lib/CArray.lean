import Osisp.Lib.CString

/-!
# Arrays with indeterminate cells

An automatic array starts out indeterminate, and every store has to stay inside
it. `CArray size` is such an array: a cell is `none` until it is written, and a
store takes the proof of its bounds, so that an overrun cannot be built.

`Holds` is what a reader of the front of the array needs: the bytes are inside
and initialised.
-/

namespace Lib

/-- `unsigned char a[size]`. -/
structure CArray (size : Nat) where
  cells : List (Option UInt8)
  length_cells : cells.length = size

namespace CArray

variable {size : Nat}

/-- Nothing is written yet. -/
def fresh (size : Nat) : CArray size := ⟨List.replicate size none, List.length_replicate⟩

/-- Store `bytes` from index `pos` on. -/
def write (a : CArray size) (pos : Nat) (bytes : Bytes) (inside : pos + bytes.length ≤ size) :
    CArray size :=
  ⟨a.cells.take pos ++ (bytes.map some ++ a.cells.drop (pos + bytes.length)), by
    have len := a.length_cells
    simp only [List.length_append, List.length_take, List.length_map, List.length_drop]
    omega⟩

/-- The array starts with `bytes`: they are inside and initialised. -/
def Holds (a : CArray size) (bytes : Bytes) : Prop := bytes.map some <+: a.cells

namespace Holds

variable {a : CArray size} {front bytes : Bytes}

theorem nil (a : CArray size) : a.Holds [] := List.nil_prefix

/-- Less can be read, too. -/
theorem of_part (h : a.Holds bytes) (part : front <+: bytes) : a.Holds front :=
  (List.IsPrefix.map some part).trans h

theorem take (h : a.Holds bytes) (n : Nat) : a.Holds (bytes.take n) :=
  h.of_part (List.take_prefix n bytes)

/-- A store right behind the bytes extends them. -/
theorem write (h : a.Holds front) {pos : Nat} (behind : pos = front.length)
    (inside : pos + bytes.length ≤ size) : (a.write pos bytes inside).Holds (front ++ bytes) := by
  subst behind
  obtain ⟨rest, cells⟩ := h
  have here : a.cells.take front.length = front.map some := by
    rw [← cells, ← List.length_map (f := some), List.take_left]
  refine ⟨a.cells.drop (front.length + bytes.length), ?_⟩
  rw [List.map_append, ← here, List.append_assoc]
  rfl

/-- A store behind the bytes leaves them alone. -/
theorem write_behind (h : a.Holds front) {pos : Nat} (behind : front.length ≤ pos)
    (inside : pos + bytes.length ≤ size) : (a.write pos bytes inside).Holds front := by
  obtain ⟨rest, cells⟩ := h
  refine List.IsPrefix.trans ?_ (List.prefix_append _ _)
  rw [← cells, List.take_append, List.take_of_length_le (by rwa [List.length_map])]
  exact List.prefix_append _ _

end Holds

/-- A store at the start is what the array starts with. -/
theorem holds_write (a : CArray size) (bytes : Bytes) (inside : 0 + bytes.length ≤ size) :
    (a.write 0 bytes inside).Holds bytes := (Holds.nil a).write rfl inside

/-- A string literal and its terminator. -/
def literal (text : Bytes) : CArray (text.length + 1) :=
  (fresh _).write 0 (text ++ [0]) (by simp)

theorem holds_literal (text : Bytes) : (literal text).Holds text :=
  (holds_write _ _ _).of_part (List.prefix_append _ _)

/-- `snprintf (a + pos, size - pos, …)` for the formatted `text`. -/
def snprintf (a : CArray size) (pos : Nat) (text : Bytes) (room : pos < size) : CArray size :=
  a.write pos (text.take (size - pos - 1) ++ [0]) (by
    rw [List.length_append, List.length_take, List.length_singleton]
    omega)

namespace Holds

variable {a : CArray size} {front : Bytes}

/-- Formatting behind the bytes extends them by what fits. -/
theorem snprintf (h : a.Holds front) (text : Bytes) (room : front.length < size) :
    (a.snprintf front.length text room).Holds (front ++ text.take (size - front.length - 1)) := by
  refine (h.write rfl _).of_part ?_
  rw [← List.append_assoc]
  exact List.prefix_append _ _

theorem snprintf_behind (h : a.Holds front) (text : Bytes) (room : front.length < size) :
    (a.snprintf front.length text room).Holds front := h.write_behind (Nat.le_refl _) _

end Holds

theorem holds_snprintf (a : CArray size) (text : Bytes) (room : 0 < size) :
    (a.snprintf 0 text room).Holds (text.take (size - 1)) := (Holds.nil a).snprintf text room

end CArray

/-- The array of a string that `strncpy` copied: padded with NULs. -/
def CStr.array {cap : Nat} (s : CStr cap) : CArray (cap + 1) :=
  (CArray.fresh _).write 0 (s.bytes ++ List.replicate (cap + 1 - s.bytes.length) 0) (by
    have fits := s.fits
    simp only [List.length_append, List.length_replicate]
    omega)

theorem CStr.holds_array {cap : Nat} (s : CStr cap) : s.array.Holds s.bytes :=
  (CArray.holds_write _ _ _).of_part (List.prefix_append _ _)

end Lib
