import Mathlib
import Osisp.Chat.Invariant

/-!
# Which `revents` reach which slot

`fds` is filled from the used slots before `accept`; the dispatch loop walks the
used slots after it. `dispatchLoop_handled` computes what the walk pairs up: the
slots used now, in order, with the entries of `fds` in order. The pairing is the
right one exactly when no connection was accepted into a slot below a used one
(`dispatch_own_iff`).
-/

namespace Osisp.Chat

open Lib

/-! ## What handling a slot does -/

/-- The connection has something to report. -/
def Revents.any (rev : Revents) : Bool := rev.pollin || rev.pollerr || rev.pollhup || rev.pollnval

/-- An event of handling the slot whose connection is `fd`: it is received from
when `POLLIN` was reported, and closed when anything was. -/
structure Event.Within (fd : Fd) (rev : Revents) (e : Event) : Prop where
  recv : ∀ fd' data, e = .recv fd' data → fd' = fd ∧ rev.pollin = true
  close : ∀ fd', e = .close fd' → fd' = fd ∧ rev.any = true

theorem Event.Within.of_handler {fd : Fd} {rev : Revents} {e : Event} (h : e.OfHandler) :
    e.Within fd rev := by
  rcases h with sending | ⟨text, rfl⟩
  · constructor <;> rintro fd' <;> intros <;> subst_vars <;> exact sending.elim
  · exact ⟨nofun, nofun⟩

section HandleSlot

variable (env : Env) (inp : LoopInput) (i : Slot) (rev : Revents) (s : Sys)

/-- An operation on the slot of connection `fd`: other slots stay as they are,
and the trace shows nothing that `rev` does not call for. -/
structure Touches (fd : Fd) (s s' : Sys) : Prop where
  others : ∀ j, j ≠ i → s'.srv.clients j = s.srv.clients j
  log : Appends (Event.Within fd rev) s.log s'.log
  /-- The slot keeps its descriptor as long as it is used. -/
  fd : (s'.srv.clients i).used = true → (s'.srv.clients i).fd = (s.srv.clients i).fd

variable {i rev s} {fd : Fd}

theorem Touches.refl (i : Slot) (rev : Revents) (fd : Fd) (s : Sys) : Touches i rev fd s s :=
  ⟨fun _ _ => rfl, .refl _, fun _ => rfl⟩

theorem Touches.trans {s' s'' : Sys} (first : Touches i rev fd s s')
    (used : (s'.srv.clients i).used = true) (second : Touches i rev fd s' s'') :
    Touches i rev fd s s'' :=
  ⟨fun j ne => (second.others j ne).trans (first.others j ne), first.log.trans second.log,
    fun used' => (second.fd used').trans (first.fd used)⟩

theorem closeSlot_touches (reported : rev.any = true) (same : (s.srv.clients i).fd = fd) :
    Touches i rev fd s (closeSlot i s) := by
  refine ⟨fun j ne => closeSlot_of_ne i s ne, ?_, fun used => ?_⟩
  · rw [log_closeSlot]
    split
    · refine Appends.single ⟨nofun, fun fd' eq => ?_⟩
      cases eq
      exact ⟨same, reported⟩
    · exact .refl _
  · rw [closeSlot_self] at used
    cases used

theorem removeClientIndex_touches (reported : rev.any = true) (same : (s.srv.clients i).fd = fd) :
    Touches i rev fd s (removeClientIndex env i s) := by
  unfold removeClientIndex
  dsimp only
  split
  · have sends := (sendAll_sends env s.srv.clients .notify
      (noteBody (partNote (s.srv.clients i).nick.bytes)) (some i) s.log).appends_sending
    let told := s.withLog (broadcastNotify env s.srv.clients
      (partNote (s.srv.clients i).nick.bytes) i s.log)
    have closed : Touches i rev fd told (closeSlot i told) := closeSlot_touches reported same
    refine ⟨closed.others, ?_, closed.fd⟩
    exact (sends.mono fun e sending => Event.Within.of_handler (Or.inl sending)).trans closed.log
  · exact closeSlot_touches reported same

theorem processMessage_touches (reported : rev.any = true) (same : (s.srv.clients i).fd = fd)
    (used : (s.srv.clients i).used = true) :
    Touches i rev fd s (processMessage env i s) := by
  unfold processMessage
  generalize (s.srv.clients i).inbuf.bytes.length + 1 = fuel
  induction fuel generalizing s with
  | zero => exact .refl i rev fd s
  | succ fuel ih =>
      unfold processLoop
      split
      · exact .refl i rev fd s
      · exact closeSlot_touches reported same
      · rename_i f need _
        obtain ⟨sameFd, sameUsed, -, -⟩ := processFrame_sameConn env i f need s
        have step : Touches i rev fd s (processFrame env i f need s) := by
          have noted : Appends (Event.Within fd rev) s.log (s.log ++ [.frame i f]) :=
            Appends.single ⟨nofun, nofun⟩
          exact ⟨fun j ne => processFrame_of_ne env i f need s ne,
            noted.trans ((log_processFrame env i f need s).mono fun e => .of_handler),
            fun _ => sameFd⟩
        exact step.trans (sameUsed.trans used) (ih (sameFd.trans same) (sameUsed.trans used))

theorem handleSlot_touches (same : (s.srv.clients i).fd = fd)
    (used : (s.srv.clients i).used = true) :
    Touches i rev fd s (handleSlot env inp i rev s) := by
  -- the call of `recv` itself
  have called (data : Bytes) (pollin : rev.pollin = true) :
      Touches i rev fd s (s.note (.recv (s.srv.clients i).fd data)) :=
    ⟨fun _ _ => rfl, Appends.single ⟨fun fd' data' eq => by cases eq; exact ⟨same, pollin⟩, nofun⟩,
      fun _ => rfl⟩
  unfold handleSlot
  split
  · rename_i error
    refine removeClientIndex_touches env ?_ same
    rw [Revents.any, Bool.or_assoc, Bool.or_assoc, ← Bool.or_assoc rev.pollerr, error, Bool.or_true]
  · split
    · rename_i pollin
      have reported : rev.any = true := by simp [Revents.any, pollin]
      have gone : Touches i rev fd s
          (removeClientIndex env i (s.note (.recv (s.srv.clients i).fd []))) :=
        (called [] pollin).trans used (removeClientIndex_touches env reported same)
      split
      · exact gone
      · rename_i data _
        split
        · exact gone
        · have self : (recvInto i data s).srv.clients i =
              (s.srv.clients i).setInbuf ((s.srv.clients i).inbuf.recv data) :=
            Sys.clients_setClient_self _ _ _
          have received : Touches i rev fd s (recvInto i data s) := by
            refine ⟨fun j ne => Sys.clients_setClient_of_ne _ _ ne, (called _ pollin).log, ?_⟩
            intro _
            rw [self]
            rfl
          have sameAfter : ((recvInto i data s).srv.clients i).fd = fd := by
            rw [self]
            exact same
          have usedAfter : ((recvInto i data s).srv.clients i).used = true := by
            rw [self]
            exact used
          have processed := received.trans usedAfter
            (processMessage_touches env reported sameAfter usedAfter)
          dsimp only
          split
          · exact processed
          · rename_i stillUsed
            have stillUsed := by simpa using stillUsed
            split
            · exact processed.trans stillUsed (removeClientIndex_touches env reported
                ((processed.fd stillUsed).trans same))
            · exact processed
    · exact .refl i rev fd s

end HandleSlot

/-! ## The pairing -/

/-- The slots used in `t`, in the order of the loops. -/
def usedSlots (t : Table) : List Slot := slots.filter fun i => (t i).used

theorem mem_usedSlots {t : Table} {i : Slot} : i ∈ usedSlots t ↔ (t i).used = true := by
  simp only [usedSlots, List.mem_filter, mem_slots, true_and]

theorem nodup_usedSlots (t : Table) : (usedSlots t).Nodup := nodup_slots.filter _

/-- The walk pairs the used slots with the entries from `fi` on. -/
theorem dispatchLoop_handled (env : Env) (inp : LoopInput) (fds : List Pollfd) (is : List Slot)
    (nodup : is.Nodup) (fi : Nat) (s : Sys) :
    (dispatchLoop env inp fds is fi s).2 =
      ((is.filter fun i => (s.srv.clients i).used).zip (fds.drop fi)).map
        fun p => (p.1, p.2.revents) := by
  induction is generalizing fi s with
  | nil => rfl
  | cons i is ih =>
      obtain ⟨fresh, nodup⟩ := List.nodup_cons.mp nodup
      unfold dispatchLoop
      cases used : (s.srv.clients i).used with
      | false =>
          rw [List.filter_cons_of_neg (by simp [used])]
          exact ih nodup fi s
      | true =>
          rw [List.filter_cons_of_pos (p := fun j => (s.srv.clients j).used) used]
          simp only [Bool.not_true, Bool.false_eq_true, if_false]
          split
          · rename_i past
            have len := List.getElem?_eq_none_iff.mp past
            rw [List.drop_eq_nil_of_le len, List.zip_nil_right]
            rfl
          · rename_i p entry
            obtain ⟨lt, eq⟩ := List.getElem?_eq_some_iff.mp entry
            have touches : Touches i p.revents _ s (handleSlot env inp i p.revents s) :=
              handleSlot_touches env inp rfl used
            -- the slots still to come are as they were
            have rest : (is.filter fun j =>
                ((handleSlot env inp i p.revents s).srv.clients j).used) =
                is.filter fun j => (s.srv.clients j).used := by
              apply List.filter_congr
              intro j mem
              have ne : j ≠ i := fun eq => fresh (eq ▸ mem)
              rw [touches.others j ne]
            rw [List.drop_eq_getElem_cons lt, List.zip_cons_cons, List.map_cons, eq,
              ih nodup (fi + 1), rest]

/-- The entry of `fds` that is filled from slot `i`. -/
def pollIndex (t : Table) (i : Slot) : Nat := 1 + (usedSlots t).idxOf i

/-- That entry holds the slot's own descriptor. -/
theorem fdsOf_pollIndex {t : Table} {i : Slot} (listenFd : Fd) (used : (t i).used = true) :
    (fdsOf listenFd t)[pollIndex t i]? = some (t i).fd := by
  have mem := mem_usedSlots.mpr used
  have lt := List.idxOf_lt_length_of_mem mem
  rw [pollIndex, Nat.add_comm, fdsOf, List.getElem?_cons_succ, List.getElem?_map]
  change ((usedSlots t)[(usedSlots t).idxOf i]?).map _ = _
  rw [List.getElem?_eq_getElem lt, List.getElem_idxOf lt]
  rfl

/-- `rev` is what `poll` returned for the descriptor of slot `i`, in the table
`fds` was filled from. -/
def OwnRevents (inp : LoopInput) (before : Table) (h : Slot × Revents) : Prop :=
  (before h.1).used = true ∧ h.2 = inp.revents (pollIndex before h.1)

/-- What the dispatch pass of an iteration must respect: every slot is handled
with its own `revents`, and in the events of the pass a connection is received
from, or closed, only if it reported so itself. -/
structure DispatchesOwn (env : Env) (listenFd : Fd) (inp : LoopInput) (s : Sys) : Prop where
  own : ∀ h ∈ (iteration env listenFd inp s).2, OwnRevents inp s.srv.clients h
  recv : ∀ added, (iteration env listenFd inp s).1.log = (acceptPhase env inp s).log ++ added →
    ∀ fd data, .recv fd data ∈ added → ∃ i, (s.srv.clients i).used = true ∧
      (s.srv.clients i).fd = fd ∧ (inp.revents (pollIndex s.srv.clients i)).pollin = true
  close : ∀ added, (iteration env listenFd inp s).1.log = (acceptPhase env inp s).log ++ added →
    ∀ fd, .close fd ∈ added → ∃ i, (s.srv.clients i).used = true ∧
      (s.srv.clients i).fd = fd ∧ (inp.revents (pollIndex s.srv.clients i)).any = true

/-- A connection accepted in this iteration goes above every used slot, if it
goes into the table at all. -/
def AcceptsAbove (inp : LoopInput) (t : Table) : Prop :=
  (inp.revents 0).listener = true → 0 ≤ inp.accept →
    ∀ k, slots.find? (fun i => !(t i).used) = some k → ∀ j, (t j).used = true → j < k

/-! ## The table at the two walks -/

/-- `accept` changes the table at most in one free slot, which becomes used. -/
theorem acceptPhase_cases (env : Env) (inp : LoopInput) (s : Sys) :
    ((acceptPhase env inp s).srv.clients = s.srv.clients ∧
      ((inp.revents 0).listener = true → 0 ≤ inp.accept → ∀ i, (s.srv.clients i).used = true)) ∨
    ((inp.revents 0).listener = true ∧ 0 ≤ inp.accept ∧
      ∃ k, slots.find? (fun i => !(s.srv.clients i).used) = some k ∧
        ((acceptPhase env inp s).srv.clients k).used = true ∧
        ∀ j, j ≠ k → (acceptPhase env inp s).srv.clients j = s.srv.clients j) := by
  unfold acceptPhase
  cases listener : (inp.revents 0).listener with
  | false => exact Or.inl ⟨rfl, nofun⟩
  | true =>
      by_cases neg : inp.accept < 0
      · simp only [if_pos neg]
        exact Or.inl ⟨rfl, fun _ nonneg => absurd nonneg (not_le.mpr neg)⟩
      · simp only [if_true, if_neg neg]
        rcases acceptClient_cases env inp.accept s with ⟨k, added, eq⟩ | ⟨full, eq⟩
        · obtain ⟨-, self, others, -, -⟩ := addClient_some added
          refine Or.inr ⟨trivial, not_lt.mp neg, k, ?_, ?_, fun j ne => ?_⟩
          · unfold addClient at added
            split at added
            · cases added
            · rename_i found
              cases added
              exact found
          · rw [eq, self]
          · rw [eq, others j ne]
            rfl
        · obtain ⟨d, d', out, out', told⟩ :=
            turnAway_eq env inp.accept (s.note (.accept inp.accept))
          rw [eq, told]
          exact Or.inl ⟨rfl, fun _ _ => full⟩

/-- The slots below `k`, `k`, and the slots above. -/
theorem slots_split (k : Slot) :
    ∃ below above, slots = below ++ k :: above ∧ (∀ a ∈ below, a < k) ∧ ∀ b ∈ above, k < b := by
  obtain ⟨below, above, split⟩ := List.append_of_mem (mem_slots k)
  have sorted : slots.Pairwise (· < ·) := List.pairwise_lt_finRange maxClients
  rw [split, List.pairwise_append] at sorted
  obtain ⟨-, right, cross⟩ := sorted
  exact ⟨below, above, split, fun a mem => cross a mem k List.mem_cons_self,
    (List.pairwise_cons.mp right).1⟩

/-- Filling the free slot `k` inserts it among the used slots. -/
theorem usedSlots_insert {t t' : Table} {k : Slot} (free : (t k).used = false)
    (used : (t' k).used = true) (others : ∀ j, j ≠ k → t' j = t j) :
    ∃ below above, usedSlots t = below ++ above ∧ usedSlots t' = below ++ k :: above ∧
      ∀ j, (t j).used = true → (k < j ↔ j ∈ above) := by
  obtain ⟨below, above, split, lt, gt⟩ := slots_split k
  have same : ∀ is : List Slot, k ∉ is →
      (is.filter fun i => (t' i).used) = is.filter fun i => (t i).used := by
    intro is fresh
    apply List.filter_congr
    intro j mem
    have ne : j ≠ k := fun eq => fresh (eq ▸ mem)
    rw [others j ne]
  have freshBelow : k ∉ below := fun mem => lt_irrefl _ (lt k mem)
  have freshAbove : k ∉ above := fun mem => lt_irrefl _ (gt k mem)
  refine ⟨below.filter fun i => (t i).used, above.filter fun i => (t i).used, ?_, ?_, ?_⟩
  · rw [usedSlots, split, List.filter_append,
      List.filter_cons_of_neg (p := fun i => (t i).used) (by simp [free])]
  · rw [usedSlots, split, List.filter_append,
      List.filter_cons_of_pos (p := fun i => (t' i).used) used, same below freshBelow,
      same above freshAbove]
  · intro j usedJ
    rw [List.mem_filter, and_iff_left usedJ]
    constructor
    · intro klt
      have mem := mem_slots j
      rw [split, List.mem_append, List.mem_cons] at mem
      rcases mem with low | rfl | high
      · exact absurd (lt j low) (not_lt.mpr klt.le)
      · exact absurd klt (lt_irrefl _)
      · exact high
    · exact gt j

/-! ## The theorem -/

/-- The handled slots: place `p` of the used slots after `accept` meets place
`p` of those before it. -/
theorem mem_handled_iff (env : Env) (listenFd : Fd) (inp : LoopInput) (s : Sys) (i : Slot)
    (rev : Revents) :
    (i, rev) ∈ (iteration env listenFd inp s).2 ↔
      ∃ p, (usedSlots (acceptPhase env inp s).srv.clients)[p]? = some i ∧
        p < (usedSlots s.srv.clients).length ∧ rev = inp.revents (1 + p) := by
  have entry : ∀ p, ((poll inp.revents (fdsOf listenFd s.srv.clients)).drop 1)[p]? =
      (usedSlots s.srv.clients)[p]?.map fun i =>
        (⟨(s.srv.clients i).fd, inp.revents (1 + p)⟩ : Pollfd) := by
    intro p
    rw [List.getElem?_drop, poll, List.getElem?_mapIdx, fdsOf, Nat.add_comm 1 p,
      List.getElem?_cons_succ, List.getElem?_map, Option.map_map]
    rfl
  unfold iteration
  rw [dispatchLoop_handled env inp _ slots nodup_slots, List.mem_map]
  constructor
  · intro found
    rcases found with ⟨⟨j, pf⟩, mem, eq⟩
    obtain ⟨p, at_p⟩ := List.mem_iff_getElem?.mp mem
    obtain ⟨slot, polled⟩ := List.getElem?_zip_eq_some.mp at_p
    rw [entry] at polled
    obtain ⟨k, before, rfl⟩ := Option.map_eq_some_iff.mp polled
    cases eq
    exact ⟨p, slot, (List.getElem?_eq_some_iff.mp before).1, rfl⟩
  · intro found
    rcases found with ⟨p, slot, lt, rfl⟩
    have before := List.getElem?_eq_getElem lt
    refine ⟨(i, ⟨(s.srv.clients (usedSlots s.srv.clients)[p]).fd, inp.revents (1 + p)⟩), ?_, rfl⟩
    refine List.mem_iff_getElem?.mpr ⟨p, List.getElem?_zip_eq_some.mpr ⟨slot, ?_⟩⟩
    rw [entry, before]
    rfl

/-- What the pass adds to the trace stems from handling some slot. -/
theorem dispatchLoop_log (env : Env) (inp : LoopInput) (fds : List Pollfd) (is : List Slot)
    (nodup : is.Nodup) (fi : Nat) (s : Sys) :
    Appends (fun e => ∃ h ∈ (dispatchLoop env inp fds is fi s).2,
      e.Within (s.srv.clients h.1).fd h.2) s.log (dispatchLoop env inp fds is fi s).1.log := by
  induction is generalizing fi s with
  | nil => exact .refl _
  | cons i is ih =>
      obtain ⟨fresh, nodup⟩ := List.nodup_cons.mp nodup
      unfold dispatchLoop
      cases used : (s.srv.clients i).used with
      | false => exact ih nodup fi s
      | true =>
          simp only [Bool.not_true, Bool.false_eq_true, if_false]
          split
          · exact .refl _
          · rename_i p _
            have touches : Touches i p.revents _ s (handleSlot env inp i p.revents s) :=
              handleSlot_touches env inp rfl used
            refine Appends.trans (touches.log.mono fun e within => ?_)
              ((ih nodup (fi + 1) (handleSlot env inp i p.revents s)).mono fun e within => ?_)
            · exact ⟨_, List.mem_cons_self, within⟩
            · obtain ⟨h, mem, within⟩ := within
              -- the slots of the rest are not `i`, so they are as they were
              have later : h.1 ∈ is := by
                rw [dispatchLoop_handled env inp fds is nodup] at mem
                obtain ⟨q, zipped, rfl⟩ := List.mem_map.mp mem
                exact (List.mem_filter.mp (List.of_mem_zip zipped).1).1
              have ne : h.1 ≠ i := fun eq => fresh (eq ▸ later)
              rw [touches.others h.1 ne] at within
              exact ⟨h, List.mem_cons_of_mem _ mem, within⟩

theorem own_of_acceptsAbove (env : Env) (listenFd : Fd) (inp : LoopInput) (s : Sys)
    (above : AcceptsAbove inp s.srv.clients) :
    ∀ h ∈ (iteration env listenFd inp s).2, OwnRevents inp s.srv.clients h := by
  rintro ⟨i, rev⟩ mem
  obtain ⟨p, slot, lt, rfl⟩ := (mem_handled_iff env listenFd inp s i rev).mp mem
  have same : (usedSlots s.srv.clients)[p]? = some i := by
    rcases acceptPhase_cases env inp s with
      ⟨unchanged, -⟩ | ⟨listener, nonneg, k, found, used, others⟩
    · rwa [unchanged] at slot
    · have free : (s.srv.clients k).used = false := by simpa using List.find?_some found
      obtain ⟨low, high, before, after, mem_high⟩ := usedSlots_insert free used others
      have none_above : high = [] := by
        rw [List.eq_nil_iff_forall_not_mem]
        intro j mem
        have usedJ : (s.srv.clients j).used = true :=
          mem_usedSlots.mp (before ▸ List.mem_append_right low mem)
        have below := above listener nonneg k found j usedJ
        exact absurd ((mem_high j usedJ).mpr mem) (not_lt.mpr below.le)
      rw [none_above, List.append_nil] at before
      rw [before] at lt ⊢
      rwa [after, List.getElem?_append_left lt] at slot
  obtain ⟨_, eq⟩ := List.getElem?_eq_some_iff.mp same
  refine ⟨mem_usedSlots.mp (List.mem_iff_getElem?.mpr ⟨p, same⟩), ?_⟩
  rw [pollIndex, ← eq, (nodup_usedSlots _).idxOf_getElem]

/-- **The dispatch pass and the table agree exactly when no connection is
accepted below a used slot.** -/
theorem dispatch_own_iff (env : Env) (listenFd : Fd) (inp : LoopInput) (s : Sys) :
    DispatchesOwn env listenFd inp s ↔ AcceptsAbove inp s.srv.clients := by
  constructor
  · intro dispatches listener nonneg k found j usedJ
    by_contra notBelow
    have free : (s.srv.clients k).used = false := by simpa using List.find?_some found
    have ne : k ≠ j := by
      rintro rfl
      rw [free] at usedJ
      cases usedJ
    have klt : k < j := lt_of_le_of_ne (not_lt.mp notBelow) ne
    rcases acceptPhase_cases env inp s with ⟨-, full⟩ | ⟨-, -, k', found', used, others⟩
    · have used := full listener nonneg k
      rw [free] at used
      cases used
    · rw [found] at found'
      cases found'
      obtain ⟨low, high, before, after, mem_high⟩ := usedSlots_insert free used others
      -- the new connection in `k` meets the entry of the next used slot
      have nonempty : 0 < high.length := List.length_pos_of_mem ((mem_high j usedJ).mp klt)
      have handled : (k, inp.revents (1 + low.length)) ∈ (iteration env listenFd inp s).2 := by
        refine (mem_handled_iff env listenFd inp s k _).mpr ⟨low.length, ?_, ?_, rfl⟩
        · rw [after, List.getElem?_append_right (Nat.le_refl _), Nat.sub_self]
          rfl
        · rw [before, List.length_append]
          omega
      have own := (dispatches.own _ handled).1
      rw [free] at own
      cases own
  · intro above
    have own := own_of_acceptsAbove env listenFd inp s above
    -- a slot used before `accept` is untouched by it
    have kept : ∀ i, (s.srv.clients i).used = true →
        (acceptPhase env inp s).srv.clients i = s.srv.clients i := by
      intro i usedI
      rcases acceptPhase_cases env inp s with ⟨unchanged, -⟩ | ⟨-, -, k, found, -, others⟩
      · rw [unchanged]
      · refine others i fun eq => ?_
        have free : (s.srv.clients k).used = false := by simpa using List.find?_some found
        rw [eq, free] at usedI
        cases usedI
    have within : ∀ added, (iteration env listenFd inp s).1.log =
        (acceptPhase env inp s).log ++ added → ∀ e ∈ added, ∃ i, (s.srv.clients i).used = true ∧
          e.Within (s.srv.clients i).fd (inp.revents (pollIndex s.srv.clients i)) := by
      intro added log e mem
      obtain ⟨added', log', all⟩ := dispatchLoop_log env inp
        (poll inp.revents (fdsOf listenFd s.srv.clients)) slots nodup_slots 1
        (acceptPhase env inp s)
      have same : added = added' := List.append_cancel_left (log.symm.trans log')
      obtain ⟨⟨i, rev⟩, handled, within⟩ := all e (same ▸ mem)
      obtain ⟨used, eq⟩ := own (i, rev) handled
      rw [kept i used, eq] at within
      exact ⟨i, used, within⟩
    refine ⟨own, fun added log fd data mem => ?_, fun added log fd mem => ?_⟩
    · obtain ⟨i, used, within⟩ := within added log _ mem
      obtain ⟨rfl, pollin⟩ := within.recv fd data rfl
      exact ⟨i, used, rfl, pollin⟩
    · obtain ⟨i, used, within⟩ := within added log _ mem
      obtain ⟨rfl, reported⟩ := within.close fd rfl
      exact ⟨i, used, rfl, reported⟩

/-- Slot 0 is free again while slot 1 is in use. -/
def holeState : Sys := [Action.accept 4, .accept 5, .remove 0].foldl (act .smooth) .init

/-- A new connection arrives and the client in slot 1 hangs up. -/
def holeInput : LoopInput where
  revents k := if k = 0 then ⟨true, false, false, false⟩ else ⟨false, false, true, false⟩
  accept := 6
  recv _ := none

/-- The new connection, in slot 0, is closed on the hangup of slot 1. -/
theorem dispatch_into_hole :
    Reachable .smooth holeState ∧ ¬ DispatchesOwn .smooth 3 holeInput holeState := by
  refine ⟨⟨_, .of_enabled (by decide +kernel)⟩, fun dispatches => ?_⟩
  have handled : (0, holeInput.revents 1) ∈ (iteration .smooth 3 holeInput holeState).2 := by
    decide +kernel
  have used := (dispatches.own _ handled).1
  exact absurd used (by decide +kernel)

end Osisp.Chat
