import Osisp.Lib.CInt
import Osisp.Scanner.Batch

/-!
# The ports of a scan

The outer loop strides by `MAX_BATCH`, the inner one is cut at `end_port`. Both
count in `int`, and the port that goes into the address has 16 bits.
-/

namespace Osisp.Scanner

open Lib

/-- What one pass of the inner loop records, and where it connects to. -/
structure Attempted where
  port : Int
  /-- `htons(p)`, in host order. -/
  sinPort : UInt16
  deriving DecidableEq

def attempt (p : Int) : Attempted := ⟨p, UInt16.ofInt p⟩

/-- The inner loop, from `i` on and with as many passes left; it has no result when
`port + i` overflows. -/
def portLoop (endPort port : CInt) : Nat → Nat → Option (List Attempted)
  | _, 0 => some []
  | i, left + 1 =>
      (checked (port.1 + i)).bind fun p =>
        if p.1 ≤ endPort.1 then
          (portLoop endPort port (i + 1) left).map (attempt p.1 :: ·)
        else some []

/-- How the outer loop is left. -/
inductive Ended
  | running
  | overflow
  | finished (attempts : List Attempted)
  deriving DecidableEq

/-- The outer loop, for at most `fuel` passes, after the attempts `done`. -/
def scanPorts (endPort : CInt) : Nat → CInt → List Attempted → Ended
  | 0, _, _ => .running
  | fuel + 1, port, done =>
      if port.1 ≤ endPort.1 then
        match portLoop endPort port 0 maxBatch, checked (port.1 + maxBatch) with
        | some batch, some next => scanPorts endPort fuel next (done ++ batch)
        | _, _ => .overflow
      else .finished done

/-! ## Ranges of integers -/

/-- The integers from `a` to `b`. -/
def ports (a b : Int) : List Int := (List.range (b + 1 - a).toNat).map fun k : Nat => a + (k : Int)

theorem ports_of_lt {a b : Int} (lt : b < a) : ports a b = [] := by
  have none : (b + 1 - a).toNat = 0 := by omega
  rw [ports, none]
  rfl

theorem mem_ports {a b p : Int} : p ∈ ports a b ↔ a ≤ p ∧ p ≤ b := by
  rw [ports, List.mem_map]
  constructor
  · rintro ⟨k, mem, rfl⟩
    have lt := List.mem_range.mp mem
    omega
  · rintro ⟨lower, upper⟩
    exact ⟨(p - a).toNat, List.mem_range.mpr (by omega), by omega⟩

theorem ports_cons {a b : Int} (le : a ≤ b) : ports a b = a :: ports (a + 1) b := by
  have size : (b + 1 - a).toNat = (b + 1 - (a + 1)).toNat + 1 := by omega
  rw [ports, size, List.range_succ_eq_map, List.map_cons, List.map_map, ports]
  congr 1
  · exact Int.add_zero a
  · exact List.map_congr_left fun k _ => by
      rw [Function.comp_apply]
      omega

theorem ports_append {a b c : Int} (le : a ≤ b + 1) (le' : b ≤ c) :
    ports a b ++ ports (b + 1) c = ports a c := by
  obtain ⟨n, eq⟩ : ∃ n : Nat, b + 1 - a = n := ⟨(b + 1 - a).toNat, by omega⟩
  induction n generalizing a with
  | zero =>
      obtain rfl : a = b + 1 := by omega
      rw [ports_of_lt (by omega), List.nil_append]
  | succ n ih =>
      rw [ports_cons (by omega), List.cons_append, ih (by omega) (by omega),
        ← ports_cons (by omega)]

/-! ## The loops -/

/-- Without overflow the inner loop attempts the ports up to the end of the batch or
of the range. -/
theorem portLoop_eq (endPort : CInt) {port : CInt} (i left : Nat)
    (behind : Fits (port.1 + i + left)) (start : port.1 + i ≤ endPort.1 + 1) :
    portLoop endPort port i left =
      some ((ports (port.1 + i) (min (port.1 + i + left - 1) endPort.1)).map attempt) := by
  induction left generalizing i with
  | zero =>
      rw [portLoop, ports_of_lt (by omega)]
      rfl
  | succ left ih =>
      have lower := port.2.1
      have fits : Fits (port.1 + i) := by
        simp only [Fits] at behind ⊢
        omega
      rw [portLoop, checked_of_fits fits, Option.bind_some]
      by_cases within : port.1 + i ≤ endPort.1
      · have next := ih (i + 1)
          (by simp only [Fits] at behind ⊢; omega) (by omega)
        have upper : port.1 + (i + 1 : Nat) + left - 1 = port.1 + i + (left + 1 : Nat) - 1 := by
          omega
        have rest : port.1 + (i + 1 : Nat) = port.1 + i + 1 := by omega
        rw [upper, rest] at next
        rw [if_pos within, next, Option.map_some,
          ports_cons (a := port.1 + i) (by omega), List.map_cons]
      · rw [if_neg within, ports_of_lt (by omega)]
        rfl

/-- Without overflow the loops end, and have attempted the range in order. -/
theorem scanPorts_finished {endPort : CInt} (small : Fits (endPort.1 + maxBatch)) (port : CInt) :
    ∃ fuel, ∀ done, scanPorts endPort fuel port done =
      .finished (done ++ (ports port.1 endPort.1).map attempt) := by
  obtain ⟨n, eq⟩ : ∃ n, (endPort.1 + 1 - port.1).toNat = n := ⟨_, rfl⟩
  induction n using Nat.strong_induction_on generalizing port with
  | _ n ih =>
      by_cases within : port.1 ≤ endPort.1
      · have lower := port.2.1
        have fits : Fits (port.1 + maxBatch) := by
          simp only [Fits, maxBatch] at small ⊢
          omega
        have batch := portLoop_eq endPort 0 maxBatch
          (by simpa using fits) (by omega : port.1 + (0 : Nat) ≤ _)
        have size : (maxBatch : Int) = 256 := rfl
        have shorter : (endPort.1 + 1 - (port.1 + maxBatch)).toNat < n := by omega
        obtain ⟨fuel, rest⟩ := ih _ shorter ⟨_, fits⟩ rfl
        refine ⟨fuel + 1, fun done => ?_⟩
        rw [scanPorts, if_pos within, batch, checked_of_fits fits]
        simp only [rest, List.append_assoc]
        rw [← List.map_append]
        congr 3
        by_cases last : endPort.1 < port.1 + maxBatch
        · have cut : min (port.1 + (0 : Nat) + maxBatch - 1) endPort.1 = endPort.1 := by omega
          rw [cut, ports_of_lt last, List.append_nil]
          congr 1
          omega
        · have whole : min (port.1 + (0 : Nat) + maxBatch - 1) endPort.1 =
              port.1 + maxBatch - 1 := by omega
          have start : port.1 + (0 : Nat) = port.1 := by omega
          have next : port.1 + maxBatch - 1 + 1 = port.1 + (maxBatch : Int) := by omega
          have parts := ports_append (a := port.1) (b := port.1 + maxBatch - 1) (c := endPort.1)
            (by omega) (by omega)
          rw [next] at parts
          rw [whole, start]
          exact parts
      · refine ⟨1, fun done => ?_⟩
        rw [scanPorts, if_neg within, ports_of_lt (by omega), List.map_nil, List.append_nil]

/-- The loops end without overflow, attempt each integer of the range once and in
order, and connect to the port they record. -/
def RangeScanned (startPort endPort : CInt) : Prop :=
  ∃ fuel attempts, scanPorts endPort fuel startPort [] = .finished attempts ∧
    attempts.map Attempted.port = ports startPort.1 endPort.1 ∧
    ∀ a ∈ attempts, (a.sinPort.toNat : Int) = a.port

theorem sinPort_attempt {p : Int} (lower : 0 ≤ p) (upper : p ≤ 65535) :
    ((attempt p).sinPort.toNat : Int) = p := by
  rw [attempt, UInt16.ofInt, UInt16.toNat_ofNat']
  omega

/-- **Main.** The range is scanned if and only if it is empty, or all of it are ports. -/
theorem rangeScanned_iff (startPort endPort : CInt) :
    RangeScanned startPort endPort ↔
      endPort.1 < startPort.1 ∨ 0 ≤ startPort.1 ∧ endPort.1 ≤ 65535 := by
  constructor
  · rintro ⟨fuel, attempts, -, range, connected⟩
    by_cases empty : endPort.1 < startPort.1
    · exact Or.inl empty
    · have port : ∀ p ∈ ports startPort.1 endPort.1, 0 ≤ p ∧ p ≤ 65535 := by
        intro p mem
        rw [← range] at mem
        obtain ⟨a, made, rfl⟩ := List.mem_map.mp mem
        have same := connected a made
        have word := a.sinPort.toNat_lt
        omega
      have first := port startPort.1 (mem_ports.mpr (by omega))
      have last := port endPort.1 (mem_ports.mpr (by omega))
      exact Or.inr ⟨first.1, last.2⟩
  · rintro (empty | ⟨lower, upper⟩)
    · refine ⟨1, [], ?_, ?_, fun a mem => absurd mem List.not_mem_nil⟩
      · rw [scanPorts, if_neg (by omega)]
      · rw [ports_of_lt empty, List.map_nil]
    · by_cases empty : endPort.1 < startPort.1
      · refine ⟨1, [], ?_, ?_, fun a mem => absurd mem List.not_mem_nil⟩
        · rw [scanPorts, if_neg (by omega)]
        · rw [ports_of_lt empty, List.map_nil]
      · have small : Fits (endPort.1 + maxBatch) := by
          simp only [Fits, maxBatch]
          omega
        obtain ⟨fuel, ended⟩ := scanPorts_finished small startPort
        refine ⟨fuel, _, ended [], ?_, ?_⟩
        · rw [List.nil_append, List.map_map]
          exact List.map_id _
        · intro a mem
          rw [List.nil_append] at mem
          obtain ⟨p, inside, rfl⟩ := List.mem_map.mp mem
          have range := mem_ports.mp inside
          exact sinPort_attempt (by omega) (by omega)

/-- Port 70000 is recorded, and port 4464 is connected to. -/
theorem rangeScanned_truncated : ¬ RangeScanned ⟨70000, by decide⟩ ⟨70000, by decide⟩ := by
  rintro ⟨fuel, attempts, -, range, connected⟩
  have mem : (70000 : Int) ∈ attempts.map Attempted.port := by
    rw [range]
    decide
  obtain ⟨a, made, port⟩ := List.mem_map.mp mem
  have same := connected a made
  have word := a.sinPort.toNat_lt
  omega

end Osisp.Scanner
