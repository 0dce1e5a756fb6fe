import Osisp.Lib.Bytes

/-!
# Receive buffers

A byte array of fixed capacity together with its fill level, filled by `recv`
into the free room and emptied from the front by `memmove`. The content never
exceeds the capacity, by construction.
-/

namespace Lib

/-- The filled part of an array of `cap` bytes. -/
structure Buf (cap : Nat) where
  bytes : Bytes
  fits : bytes.length ≤ cap
  deriving DecidableEq

namespace Buf

variable {cap : Nat}

@[ext] theorem ext {a b : Buf cap} (h : a.bytes = b.bytes) : a = b := by
  cases a; cases b; cases h; rfl

def empty : Buf cap := ⟨[], Nat.zero_le _⟩

/-- The count handed to `recv`. -/
def room (b : Buf cap) : Nat := cap - b.bytes.length

/-- `recv` of `data` behind the content: no more than the room is taken. -/
def recv (b : Buf cap) (data : Bytes) : Buf cap :=
  ⟨b.bytes ++ data.take b.room, by
    have fits := b.fits
    simp only [List.length_append, List.length_take, room]
    omega⟩

/-- Move the content behind the first `n` bytes to the front. -/
def consume (b : Buf cap) (n : Nat) : Buf cap :=
  ⟨b.bytes.drop n, by
    have fits := b.fits
    rw [List.length_drop]
    omega⟩

@[simp] theorem bytes_empty : (empty : Buf cap).bytes = [] := rfl

@[simp] theorem bytes_consume (b : Buf cap) (n : Nat) : (b.consume n).bytes = b.bytes.drop n :=
  rfl

/-- What fits is received whole. -/
theorem bytes_recv_of_le {b : Buf cap} {data : Bytes} (le : data.length ≤ b.room) :
    (b.recv data).bytes = b.bytes ++ data :=
  congrArg (b.bytes ++ ·) (List.take_of_length_le le)

end Buf

end Lib
