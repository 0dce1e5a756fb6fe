import Mathlib
import Osisp.Scanner.Ports
import Osisp.Scanner.Sockets

/-!
# The whole scan (`Lab_6/main.c`)

`main` takes the range `MAX_BATCH` ports at a time and scans each batch before it connects
to the next. The lines it prints are for ascending ports, those of each batch whose
connection was made when the first of the batch was decided, and each socket is closed in
the pass that opened it (`scanner_correct`).
-/

namespace Osisp.Scanner

open Lib

variable {τ : Type}

/-- What the calls lead to in each pass of the outer loop, for each offset in the batch. -/
structure Network (τ : Type) where
  attempt : Nat → Nat → Attempt τ
  distinct : ∀ pass, ((List.range maxBatch).filterMap fun i => (attempt pass i).openFd).Nodup

/-- The batch of a pass that attempts `n` ports, of which there are at most `MAX_BATCH`. -/
def Network.batch (net : Network τ) (pass : Nat) (port : Int) (n : Nat) : Batch τ where
  port := port
  attempts := (List.range (min n maxBatch)).map (net.attempt pass)
  size := by
    rw [List.length_map, List.length_range]
    exact min_le_right _ _
  distinct := by
    rw [List.filterMap_map]
    refine List.Nodup.sublist (List.Sublist.filterMap _ ?_) (net.distinct pass)
    exact List.range_sublist.mpr (min_le_right _ _)

/-- How `main` ends. -/
inductive Outcome
  /-- Returns 1. -/
  | usage
  | running
  | overflow
  /-- An entry of `batch` is read that was not filled in. -/
  | uninitialised
  /-- Returns 0. -/
  | finished (scans : List Scan)
  deriving DecidableEq

section Program

variable [LinearOrder τ] [Zero τ] [One τ]

/-- The outer loop, with what the passes so far have printed and closed. -/
def batchLoop (net : Network τ) (endPort : CInt) : Nat → Nat → CInt → List Scan → Outcome
  | 0, _, _, _ => .running
  | fuel + 1, pass, port, done =>
      if port.1 ≤ endPort.1 then
        match portLoop endPort port 0 maxBatch with
        | none => .overflow
        | some attempted =>
            match scanBatch (net.batch pass port.1 attempted.length) with
            | none => .uninitialised
            | some scan =>
                match checked (port.1 + maxBatch) with
                | none => .overflow
                | some next => batchLoop net endPort fuel (pass + 1) next (done ++ [scan])
      else .finished done

/-- `main`. -/
def scanner (net : Network τ) (fuel : Nat) : List Bytes → Outcome
  | _ :: _ :: startPort :: endPort :: _ =>
      batchLoop net (atoi endPort) fuel 0 (atoi startPort) []
  | _ => .usage

end Program

/-! ## The passes -/

variable {net : Network τ} {startPort endPort port : CInt}

/-- The number of passes. -/
def passes (startPort endPort : CInt) : Nat :=
  ((endPort.1 + 1 - startPort.1).toNat + (maxBatch - 1)) / maxBatch

/-- The first port of a pass. -/
def firstPort (startPort : CInt) (pass : Nat) : Int := startPort.1 + maxBatch * pass

/-- The batch of a pass. -/
def Network.batchAt (net : Network τ) (startPort endPort : CInt) (pass : Nat) : Batch τ :=
  net.batch pass (firstPort startPort pass) (endPort.1 + 1 - firstPort startPort pass).toNat

theorem lt_passes_iff {pass : Nat} :
    pass < passes startPort endPort ↔ firstPort startPort pass ≤ endPort.1 := by
  rw [passes, firstPort, maxBatch]
  omega

/-- Of the attempts only those of the batch count. -/
theorem batch_min (net : Network τ) (pass : Nat) (port : Int) (n : Nat) :
    net.batch pass port (min n maxBatch) = net.batch pass port n := by
  rw [Network.batch, Network.batch]
  simp only [min_assoc, min_self]

/-- The batch of a pass has the ports that are left, as far as there is room. -/
theorem length_batchAt (net : Network τ) (startPort endPort : CInt) (pass : Nat) :
    (net.batchAt startPort endPort pass).attempts.length =
      min (endPort.1 + 1 - firstPort startPort pass).toNat maxBatch := by
  rw [Network.batchAt, Network.batch, List.length_map, List.length_range]

/-- The pass in which a port is scanned. -/
def passOf (startPort : CInt) (p : Int) : Nat := ((p - startPort.1) / maxBatch).toNat

/-- Its place in the batch. -/
def offsetOf (startPort : CInt) (p : Int) : Nat := ((p - startPort.1) % maxBatch).toNat

/-- Each port of the range has one place, in one pass. -/
theorem place_iff {p : Int} {pass i : Nat} :
    (pass < passes startPort endPort ∧
      i < (net.batchAt startPort endPort pass).attempts.length ∧
      p = firstPort startPort pass + i) ↔
    (startPort.1 ≤ p ∧ p ≤ endPort.1) ∧ pass = passOf startPort p ∧ i = offsetOf startPort p := by
  rw [length_batchAt, lt_passes_iff, firstPort, passOf, offsetOf, maxBatch]
  omega

/-- The ports in the entries ascend. -/
theorem ascending_slots (port : Int) (attempts : List (Attempt τ)) :
    ((slots port attempts).filterMap id).Pairwise fun t t' => t.port < t'.port := by
  rw [List.pairwise_filterMap, List.pairwise_iff_getElem]
  intro i j inside inside' lt t eq t' eq'
  simp only [slots, List.getElem_mapIdx, id] at eq eq'
  have port_eq (k : Nat) (a : Attempt τ) {t : PortTarget} (eq : a.target port k = some t) :
      t.port = port + k := by
    cases a <;> cases eq <;> rfl
  rw [port_eq i _ eq, port_eq j _ eq']
  omega

section Program

variable [LinearOrder τ] [Zero τ] [One τ]

/-- A pass of the outer loop. -/
theorem batchLoop_pass {pass fuel : Nat} {done : List Scan} {scan : Scan}
    (counts : Fits (firstPort startPort (pass + 1))) (at_ : port.1 = firstPort startPort pass)
    (within : port.1 ≤ endPort.1)
    (scanned : scanBatch (net.batchAt startPort endPort pass) = some scan) :
    ∃ next : CInt, next.1 = firstPort startPort (pass + 1) ∧
      batchLoop net endPort (fuel + 1) pass port done =
        batchLoop net endPort fuel (pass + 1) next (done ++ [scan]) := by
  have next : port.1 + maxBatch = firstPort startPort (pass + 1) := by
    rw [at_, firstPort, firstPort]
    push_cast
    ring
  have fits : Fits (port.1 + maxBatch) := by rwa [next]
  refine ⟨⟨_, fits⟩, next, ?_⟩
  have batch := portLoop_eq endPort 0 maxBatch (by simpa using fits)
    (by omega : port.1 + (0 : Nat) ≤ _)
  have length : ((ports (port.1 + (0 : Nat))
      (min (port.1 + (0 : Nat) + maxBatch - 1) endPort.1)).map attempt).length =
        min (endPort.1 + 1 - port.1).toNat maxBatch := by
    rw [List.length_map, ports, List.length_map, List.length_range, maxBatch]
    omega
  rw [Network.batchAt, ← at_] at scanned
  rw [batchLoop, if_pos within, batch]
  simp only [length, batch_min, scanned, checked_of_fits fits]

/-- If `port` does not overflow behind the last pass, it does not before. -/
theorem fits_firstPort (counts : Fits (firstPort startPort (passes startPort endPort)))
    {pass : Nat} (more : pass < passes startPort endPort) :
    Fits (firstPort startPort (pass + 1)) := by
  have lower := startPort.2.1
  simp only [Fits, firstPort, maxBatch] at counts ⊢
  omega

/-- All passes that are left. -/
theorem batchLoop_passes (counts : Fits (firstPort startPort (passes startPort endPort)))
    {scan : Nat → Scan} (scanned : ∀ pass < passes startPort endPort,
      scanBatch (net.batchAt startPort endPort pass) = some (scan pass))
    (left : Nat) {pass : Nat} (total : pass + left = passes startPort endPort)
    (at_ : port.1 = firstPort startPort pass) {fuel : Nat} (enough : left < fuel)
    (done : List Scan) :
    batchLoop net endPort fuel pass port done =
      .finished (done ++ (List.range' pass left).map scan) := by
  induction left generalizing pass port fuel done with
  | zero =>
      obtain ⟨fuel, rfl⟩ := Nat.exists_eq_add_of_le' (Nat.one_le_of_lt enough)
      have last : ¬ pass < passes startPort endPort := by omega
      rw [lt_passes_iff, ← at_] at last
      rw [batchLoop, if_neg last, List.range'_zero, List.map_nil, List.append_nil]
  | succ left ih =>
      obtain ⟨fuel, rfl⟩ := Nat.exists_eq_add_of_le' (Nat.one_le_of_lt enough)
      have more : pass < passes startPort endPort := by omega
      have within := lt_passes_iff.mp more
      rw [← at_] at within
      obtain ⟨next, at', step⟩ :=
        batchLoop_pass (fits_firstPort counts more) at_ within (scanned pass more)
      rw [step, ih (by omega) at' (by omega), List.append_assoc, List.range'_succ, List.map_cons,
        List.singleton_append]

/-- The range is what `atoi` makes of the arguments. -/
theorem scanner_eq {argv : List Bytes} (start : argv[2]?.map atoi = some startPort)
    (stop : argv[3]?.map atoi = some endPort) (fuel : Nat) :
    scanner net fuel argv = batchLoop net endPort fuel 0 startPort [] := by
  match argv with
  | [] | [_] | [_, _] => cases start
  | [_, _, _] => cases stop
  | _ :: _ :: _ :: _ :: _ =>
      cases start
      cases stop
      rfl

/-! ## What a batch reports -/

/-- The connection of the `i`th port is made in time, and no later than the first of the
batch is decided. -/
def FirstMade (b : Batch τ) (i : Nat) : Prop :=
  ∃ fd t, b.attempts[i]? = some (.pending fd (some (t, true))) ∧ t ≤ timeoutSec τ ∧
    ∀ fd' t' ok, Attempt.pending fd' (some (t', ok)) ∈ b.attempts → t ≤ max 0 t'

variable {b : Batch τ} {scan : Scan}

/-- So do the ports that are reported. -/
theorem ascending_reported (eq : scanBatch b = some scan) : scan.reported.Pairwise (· < ·) := by
  have front : FrontFilled (slots b.port b.attempts) := by
    by_contra left
    rw [scanBatch_eq_none left] at eq
    cases eq
  have after := after_batch b
  simp only [scanBatch, take_batch after] at eq
  obtain ⟨reported, reads, eq⟩ := Option.bind_eq_some_iff.mp eq
  obtain ⟨closed, -, rfl⟩ := Option.map_eq_some_iff.mp eq
  split at reads
  · cases reads
    exact List.Pairwise.nil
  · rw [reportLoop, (readLoop_take_filled _).1 front] at reads
    cases reads
    rw [List.pairwise_flatMap]
    refine ⟨fun t _ => ?_, ?_⟩
    · split
      · exact List.pairwise_singleton _ _
      · exact List.Pairwise.nil
    · refine (ascending_slots b.port b.attempts).imp fun {t t'} lt p mem p' mem' => ?_
      have port {u : PortTarget} {q : Int}
          (mem : q ∈ if u.isActive ∧ u.socketFd ∈ marked b (connectLoop b.port 0 b.attempts .init) ∧
            noError b u.socketFd then [u.port] else []) : q = u.port := by
        split at mem
        · exact List.mem_singleton.mp mem
        · exact absurd mem List.not_mem_nil
      rw [port mem, port mem']
      exact lt

variable [ZeroLEOneClass τ]

/-- A batch whose sockets come first reports the ports whose connection is made first, in
order, and closes the sockets it has opened. -/
theorem scanBatch_first (first : SocketsFirst b) :
    ∃ scan, scanBatch b = some scan ∧ scan.reported.Pairwise (· < ·) ∧
      (∀ p, p ∈ scan.reported ↔ ∃ i < b.attempts.length, p = b.port + i ∧ FirstMade b i) ∧
      scan.closed.Perm (b.attempts.filterMap Attempt.fd) := by
  obtain ⟨scan, eq, reported⟩ := reported_iff first
  have front := frontFilled_slots.mpr first
  refine ⟨scan, eq, ascending_reported eq, fun p => ⟨fun mem => ?_, ?_⟩, ?_⟩
  · obtain ⟨scan', eq', entries⟩ := scanBatch_eq_some front
    obtain rfl := Option.some.inj (eq.symm.trans eq')
    obtain ⟨t, slot, active, -, -, port⟩ := (entries p).mp mem
    obtain ⟨i, fd, decided, found, rfl⟩ := active_slot.mp ⟨slot, active⟩
    subst port
    obtain ⟨inside, -⟩ := List.getElem?_eq_some_iff.mp found
    exact ⟨i, inside, rfl, (reported i).mp mem⟩
  · rintro ⟨i, -, rfl, made⟩
    exact (reported i).mpr made
  · rw [closed_scanBatch front eq]
    exact perm_fds b.attempts

/-- **The scan.** In a range that `port` can count through, and if no `socket` call fails
before one that does not in its batch, the program ends. It has reported, in ascending order,
the ports of the range whose connection was made in time and no later than the first one of
their batch was decided; and each pass has closed each socket it opened, once. -/
theorem scanner_correct (net : Network τ) (startPort endPort : CInt)
    (counts : Fits (firstPort startPort (passes startPort endPort)))
    (first : ∀ pass < passes startPort endPort,
      SocketsFirst (net.batchAt startPort endPort pass)) :
    ∃ scans : List Scan,
      (∀ fuel > passes startPort endPort, ∀ argv : List Bytes,
        argv[2]?.map atoi = some startPort → argv[3]?.map atoi = some endPort →
        scanner net fuel argv = .finished scans) ∧
      (scans.flatMap Scan.reported).Pairwise (· < ·) ∧
      (∀ p, p ∈ scans.flatMap Scan.reported ↔ (startPort.1 ≤ p ∧ p ≤ endPort.1) ∧
        FirstMade (net.batchAt startPort endPort (passOf startPort p)) (offsetOf startPort p)) ∧
      scans.length = passes startPort endPort ∧
      ∀ (pass : Nat) (scan : Scan), scans[pass]? = some scan →
        scan.closed.Perm ((net.batchAt startPort endPort pass).attempts.filterMap Attempt.fd) := by
  let scan (pass : Nat) : Scan :=
    (scanBatch (net.batchAt startPort endPort pass)).getD ⟨[], []⟩
  have each : ∀ pass < passes startPort endPort,
      scanBatch (net.batchAt startPort endPort pass) = some (scan pass) ∧
      (scan pass).reported.Pairwise (· < ·) ∧
      (∀ p, p ∈ (scan pass).reported ↔
        ∃ i < (net.batchAt startPort endPort pass).attempts.length,
          p = firstPort startPort pass + i ∧ FirstMade (net.batchAt startPort endPort pass) i) ∧
      (scan pass).closed.Perm
        ((net.batchAt startPort endPort pass).attempts.filterMap Attempt.fd) := by
    intro pass more
    obtain ⟨s, eq, ascending, reported, closed⟩ := scanBatch_first (first pass more)
    have same : scan pass = s := by
      simp only [scan, eq, Option.getD_some]
    rw [same]
    exact ⟨eq, ascending, reported, closed⟩
  have start : startPort.1 = firstPort startPort 0 := by
    rw [firstPort]
    omega
  have ends (fuel : Nat) (enough : passes startPort endPort < fuel) :
      batchLoop net endPort fuel 0 startPort [] =
        .finished ([] ++ (List.range' 0 (passes startPort endPort)).map scan) :=
    batchLoop_passes counts (fun pass more => (each pass more).1) _ (Nat.zero_add _) start enough []
  refine ⟨(List.range (passes startPort endPort)).map scan,
    fun fuel enough argv first last => ?_, ?_, fun p => ?_, ?_, fun pass s here => ?_⟩
  · rw [scanner_eq first last, ends fuel enough, List.nil_append, List.range_eq_range']
  · rw [List.flatMap_map, List.pairwise_flatMap]
    refine ⟨fun pass mem => (each pass (List.mem_range.mp mem)).2.1, ?_⟩
    refine List.pairwise_lt_range.imp_of_mem fun {pass pass'} mem mem' lt p inside p' inside' => ?_
    obtain ⟨i, short, rfl, -⟩ := ((each pass (List.mem_range.mp mem)).2.2.1 p).mp inside
    obtain ⟨i', short', rfl, -⟩ := ((each pass' (List.mem_range.mp mem')).2.2.1 p').mp inside'
    rw [length_batchAt] at short
    simp only [firstPort, maxBatch] at short ⊢
    omega
  · rw [List.flatMap_map, List.mem_flatMap]
    constructor
    · rintro ⟨pass, mem, inside⟩
      have more := List.mem_range.mp mem
      obtain ⟨i, short, place, made⟩ := ((each pass more).2.2.1 p).mp inside
      obtain ⟨range, rfl, rfl⟩ := place_iff.mp ⟨more, short, place⟩
      exact ⟨range, made⟩
    · rintro ⟨range, made⟩
      obtain ⟨more, short, place⟩ :=
        (@place_iff _ net startPort endPort p _ _).mpr ⟨range, rfl, rfl⟩
      exact ⟨_, List.mem_range.mpr more, ((each _ more).2.2.1 p).mpr ⟨_, short, place, made⟩⟩
  · rw [List.length_map, List.length_range]
  · rw [List.getElem?_map, Option.map_eq_some_iff] at here
    obtain ⟨k, at_, rfl⟩ := here
    obtain ⟨inside, rfl⟩ := List.getElem?_eq_some_iff.mp at_
    rw [List.length_range] at inside
    rw [List.getElem_range]
    exact (each pass inside).2.2.2

end Program

/-- In each batch the first port accepts at once, the second refuses, and the third accepts
later. -/
def threePorts : Network ℚ where
  attempt _ i :=
    if i = 0 then .pending 3 (some (0, true))
    else if i = 1 then .refused 4
    else if i = 2 then .pending 4 (some (1 / 2, true))
    else .noSocket
  distinct _ := by decide +kernel

/-- Two passes, with the third port of each missed. -/
theorem scanner_correct_threePorts :
    ∃ scans,
      scanner threePorts 3 [ascii "scanner", ascii "127.0.0.1", ascii "80", ascii "400"] =
        .finished scans ∧
      (∀ p, p ∈ scans.flatMap Scan.reported ↔ p = 80 ∨ p = 336) ∧ scans.length = 2 := by
  have two : passes ⟨80, by decide⟩ ⟨400, by decide⟩ = 2 := by decide
  have first : ∀ pass < passes ⟨80, by decide⟩ ⟨400, by decide⟩,
      SocketsFirst (threePorts.batchAt ⟨80, by decide⟩ ⟨400, by decide⟩ pass) := by
    intro pass more
    obtain rfl | rfl : pass = 0 ∨ pass = 1 := by omega
    · unfold SocketsFirst
      decide +kernel
    · unfold SocketsFirst
      decide +kernel
  obtain ⟨scans, ends, -, -, length, -⟩ :=
    scanner_correct threePorts ⟨80, by decide⟩ ⟨400, by decide⟩ (by decide) first
  have ended := ends 3 (by decide)
    [ascii "scanner", ascii "127.0.0.1", ascii "80", ascii "400"] (by decide) (by decide)
  have runs : scanner threePorts 3
      [ascii "scanner", ascii "127.0.0.1", ascii "80", ascii "400"] =
        .finished [⟨[80], [4, 3, 4]⟩, ⟨[336], [4, 3, 4]⟩] := by decide +kernel
  have found := Outcome.finished.inj (ended.symm.trans runs)
  refine ⟨scans, ended, fun p => ?_, length.trans two⟩
  rw [found]
  simp

end Osisp.Scanner
