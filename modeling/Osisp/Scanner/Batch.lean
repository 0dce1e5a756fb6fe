import Mathlib
import Osisp.Lib.Select
import Osisp.Lib.Slots

/-!
# One batch of the port scanner (`Lab_6/main.c`)

Up to `MAX_BATCH` sockets are opened and connected without blocking, one `select`
waits for them, and what it marks is examined. What the network does is told for
each attempt in advance: whether there is a socket, and when, counted from the
call of `select`, its connection is decided and how. The array `batch` is not
initialised, so an entry is `none` until the loop fills it in.
-/

namespace Osisp.Scanner

open Lib

def maxBatch : Nat := 256

/-- `TIMEOUT_SEC`. -/
def timeoutSec (τ : Type) [One τ] : τ := 1

/-- `port_target`. -/
structure PortTarget where
  port : Int
  socketFd : Nat
  isActive : Bool
  deriving DecidableEq

/-- What the calls for one port lead to. -/
inductive Attempt (τ : Type)
  /-- `socket` fails. -/
  | noSocket
  /-- `connect` fails at once. -/
  | refused (fd : Nat)
  /-- The connection is pending, or was made at once; it is decided at the given
  time, if ever, and `true` says that it was made. -/
  | pending (fd : Nat) (decided : Option (τ × Bool))
  deriving DecidableEq

variable {τ : Type}

namespace Attempt

/-- The descriptor handed to `select`. -/
def openFd : Attempt τ → Option Nat
  | pending fd _ => some fd
  | _ => none

/-- The descriptor closed at once. -/
def refusedFd : Attempt τ → Option Nat
  | refused fd => some fd
  | _ => none

/-- The decision, if the attempt is the one of `fd`. -/
def decidedFor (fd : Nat) : Attempt τ → Option (τ × Bool)
  | pending fd' decided => if fd' = fd then decided else none
  | _ => none

/-- What is recorded in `batch[i]`. -/
def target (port : Int) (i : Nat) : Attempt τ → Option PortTarget
  | noSocket => none
  | refused fd => some ⟨port + i, fd, false⟩
  | pending fd _ => some ⟨port + i, fd, true⟩

end Attempt

/-- The attempts of a batch; descriptors that are open together are distinct. -/
structure Batch (τ : Type) where
  port : Int
  attempts : List (Attempt τ)
  size : attempts.length ≤ maxBatch
  distinct : (attempts.filterMap Attempt.openFd).Nodup

/-- The local variables of the loop, and the descriptors closed in it. -/
structure Vars where
  batch : List (Option PortTarget)
  writeFds : List Nat
  maxFd : Int
  currentBatchSize : Nat
  closed : List Nat

def Vars.init : Vars := ⟨List.replicate maxBatch none, [], -1, 0, []⟩

/-- The body of the loop that opens and connects the sockets. -/
def connectOne (port : Int) (i : Nat) (v : Vars) (a : Attempt τ) : Vars :=
  match a with
  | .noSocket => v
  | .refused fd =>
      { v with
        batch := v.batch.set i (some ⟨port + i, fd, false⟩)
        currentBatchSize := v.currentBatchSize + 1
        closed := v.closed ++ [fd] }
  | .pending fd _ =>
      { v with
        batch := v.batch.set i (some ⟨port + i, fd, true⟩)
        currentBatchSize := v.currentBatchSize + 1
        writeFds := v.writeFds ++ [fd]
        maxFd := if (fd : Int) > v.maxFd then fd else v.maxFd }

def connectLoop (port : Int) : Nat → List (Attempt τ) → Vars → Vars
  | _, [], v => v
  | i, a :: rest, v => connectLoop port (i + 1) rest (connectOne port i v a)

/-- When and how the connection of a descriptor is decided. -/
def Batch.decided (b : Batch τ) (fd : Nat) : Option (τ × Bool) :=
  b.attempts.findSome? (·.decidedFor fd)

/-- What a batch prints and closes. -/
structure Scan where
  reported : List Int
  closed : List Nat
  deriving DecidableEq

section Scan

variable [LinearOrder τ] [Zero τ] [One τ]

/-- The descriptors `select` marks, out of those below `max_fd + 1`. -/
def marked (b : Batch τ) (v : Vars) : List Nat :=
  select (timeoutSec τ) (fun fd => (b.decided fd).map Prod.fst)
    (v.writeFds.filter fun fd => (fd : Int) < v.maxFd + 1)

/-- `getsockopt (…, SO_ERROR, …)` of a marked descriptor gives 0. -/
def noError (b : Batch τ) (fd : Nat) : Bool := (b.decided fd).any Prod.snd

/-- The loop that reports open ports. -/
def reportLoop (b : Batch τ) (marked : List Nat) : List (Option PortTarget) → Option (List Int) :=
  readLoop fun t =>
    if t.isActive ∧ t.socketFd ∈ marked ∧ noError b t.socketFd then [t.port] else []

/-- The loop that closes the sockets. -/
def closeLoop : List (Option PortTarget) → Option (List Nat) :=
  readLoop fun t => if t.isActive then [t.socketFd] else []

/-- One pass of the outer loop; it has no result when an entry is read that was
not filled in. -/
def scanBatch (b : Batch τ) : Option Scan :=
  let v := connectLoop b.port 0 b.attempts .init
  let targets := v.batch.take v.currentBatchSize
  let marked := marked b v
  (if marked = [] then some [] else reportLoop b marked targets).bind fun reported =>
    (closeLoop targets).map fun closed => ⟨reported, v.closed ++ closed⟩

end Scan

end Osisp.Scanner
