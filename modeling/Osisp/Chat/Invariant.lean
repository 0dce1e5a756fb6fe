import Mathlib
import Osisp.Chat.Run

/-!
# The invariant of the client table

`Inv` ties the table to the connections the process holds: a slot is either used
by one open connection or fully reset, every open connection has its slot, and
the nicks of joined clients are distinct. `Reachable.inv` is the run lemma.
-/

namespace Osisp.Chat

open Lib

/-! ## Descriptors along the trace -/

/-- The event neither opens nor closes a connection. -/
def Event.Neutral (e : Event) : Prop := (∀ fd, e ≠ .accept fd) ∧ ∀ fd, e ≠ .close fd

theorem Event.Neutral.openFds_eq {e : Event} (h : e.Neutral) (fds : Finset Fd) :
    e.openFds fds = fds := by
  cases e with
  | accept fd => exact absurd rfl (h.1 fd)
  | close fd => exact absurd rfl (h.2 fd)
  | _ => rfl

theorem Event.OfHandler.neutral {e : Event} (h : e.OfHandler) : e.Neutral := by
  rcases h with sending | ⟨text, rfl⟩
  · constructor <;> rintro fd rfl <;> exact sending
  · exact ⟨nofun, nofun⟩

theorem openFds_snoc (log : Log) (e : Event) : openFds (log ++ [e]) = e.openFds (openFds log) := by
  simp only [openFds, List.foldl_append, List.foldl_cons, List.foldl_nil]

theorem openFds_of_neutral {l l' : Log} (h : Appends Event.Neutral l l') :
    openFds l' = openFds l := by
  obtain ⟨added, rfl, neutral⟩ := h
  induction added using List.reverseRecOn with
  | nil => rw [List.append_nil]
  | append_singleton added e ih =>
      rw [← List.append_assoc, openFds_snoc, (neutral e (by simp)).openFds_eq,
        ih fun e' mem => neutral e' (List.mem_append_left _ mem)]

theorem ClosesOnce.snoc {log : Log} {e : Event} (h : ClosesOnce log)
    (last : ∀ fd, e = .close fd → fd ∈ openFds log) : ClosesOnce (log ++ [e]) := by
  intro before fd after eq
  rcases List.eq_nil_or_concat' after with rfl | ⟨after, x, rfl⟩
  · obtain ⟨rfl, same⟩ := List.append_inj' eq rfl
    exact last fd (List.cons.inj same).1
  · rw [← List.cons_append, ← List.append_assoc] at eq
    obtain ⟨same, -⟩ := List.append_inj' eq rfl
    exact h before fd after same

theorem ClosesOnce.of_neutral {l l' : Log} (closes : ClosesOnce l)
    (h : Appends Event.Neutral l l') : ClosesOnce l' := by
  obtain ⟨added, rfl, neutral⟩ := h
  induction added using List.reverseRecOn with
  | nil => rwa [List.append_nil]
  | append_singleton added e ih =>
      rw [← List.append_assoc]
      have before := ih fun e' mem => neutral e' (List.mem_append_left _ mem)
      exact before.snoc fun fd close => absurd close ((neutral e (by simp)).2 fd)

/-! ## Accepting a nick -/

section CheckJoin

variable {t : Table} {c : Slot} {body nick : Bytes}

theorem checkJoin_ok (h : checkJoin t c body = .ok nick) :
    nick = body.rdropWhile isNewline ∧ 0 < nick.length ∧ nick.length ≤ chatMaxNick ∧
      nickTaken t nick c = false := by
  unfold checkJoin at h
  split at h
  · cases h
  · rename_i len
    dsimp only at h
    split at h
    · cases h
    · rename_i nonempty
      split at h
      · cases h
      · rename_i free
        cases h
        have shorter := (List.rdropWhile_prefix isNewline (l := body)).length_le
        simp only [Bool.or_eq_true, decide_eq_true_eq, not_or, not_lt] at len
        exact ⟨rfl, Nat.pos_of_ne_zero nonempty, le_trans shorter len.2, by simpa using free⟩

/-- The stored nick is the C string in the frame, whole. -/
theorem storedNick_bytes (h : checkJoin t c body = .ok nick) :
    (CStr.strncpy chatMaxNick nick).bytes = cstr nick :=
  CStr.bytes_strncpy_of_fits (le_trans (length_cstr_le nick) (checkJoin_ok h).2.2.1)

theorem ne_of_nickTaken {i : Slot} (free : nickTaken t nick c = false) (ne : i ≠ c)
    (active : (t i).active = true) : (t i).nick.bytes ≠ cstr nick := by
  intro same
  have taken : nickTaken t nick c = true :=
    List.any_eq_true.mpr ⟨i, mem_slots i, by simp [active, ne, Client.hasNick, same]⟩
  rw [free] at taken
  cases taken

end CheckJoin

/-- A handler changes who is joined, and under which nick, only by an accepted
`JOIN` of the sender. -/
theorem FrameCase.identity {env : Env} {c : Slot} {f : Frame} {s s' : Sys}
    (h : FrameCase env c f s s') :
    (∀ i, (s'.srv.clients i).joined = (s.srv.clients i).joined ∧
      (s'.srv.clients i).nick = (s.srv.clients i).nick) ∨
    ∃ nick, JoinAccepted s.srv.clients c f nick ∧
      s'.srv.clients c = (s.srv.clients c).setJoined (.strncpy chatMaxNick nick) := by
  cases h with
  | quiet _ => exact Or.inl fun i => ⟨rfl, rfl⟩
  | join accepted =>
      refine Or.inr ⟨_, accepted, ?_⟩
      rw [(acceptJoin_case env c _ s).srv, joinAs_self]
  | broadcast _ joined =>
      rw [handleBroadcast_of_joined env joined]
      exact Or.inl fun i => ⟨rfl, rfl⟩
  | privateMsg _ => exact Or.inl fun i => ⟨rfl, rfl⟩

/-! ## The invariant -/

structure Inv (s : Sys) : Prop where
  /-- An unused slot is as `close_slot` leaves it. -/
  unused : ∀ i, (s.srv.clients i).used = false → s.srv.clients i = .free
  nonneg : ∀ i, (s.srv.clients i).used = true → 0 ≤ (s.srv.clients i).fd
  distinct : ∀ i j, (s.srv.clients i).used = true → (s.srv.clients j).used = true →
    (s.srv.clients i).fd = (s.srv.clients j).fd → i = j
  /-- The open connections are those of the used slots. -/
  opened : ∀ fd, fd ∈ openFds s.log ↔
    ∃ i, (s.srv.clients i).used = true ∧ (s.srv.clients i).fd = fd
  closesOnce : ClosesOnce s.log
  nicks : ∀ i j, (s.srv.clients i).joined = true → (s.srv.clients j).joined = true →
    (s.srv.clients i).nick.bytes = (s.srv.clients j).nick.bytes → i = j

namespace Inv

variable {s : Sys}

theorem used_of_joined (h : Inv s) {i : Slot} (joined : (s.srv.clients i).joined = true) :
    (s.srv.clients i).used = true := by
  by_contra unused
  rw [h.unused i (by simpa using unused)] at joined
  cases joined

theorem active_iff (h : Inv s) {i : Slot} :
    (s.srv.clients i).active = true ↔ (s.srv.clients i).joined = true := by
  simp only [Client.active, Bool.and_eq_true, and_iff_right_iff_imp]
  exact h.used_of_joined

theorem init : Inv Sys.init where
  unused _ _ := rfl
  nonneg _ used := by cases used
  distinct _ _ used := by cases used
  opened fd := by simp [openFds, Sys.init, Server.init, Client.free, Client.zero]
  closesOnce before fd after eq := by simp [Sys.init] at eq
  nicks _ _ joined := by cases joined

/-- The invariant only looks at connections, nicks and opened descriptors. -/
theorem of_same {s' : Sys} (h : Inv s)
    (unused : ∀ i, (s'.srv.clients i).used = false → s'.srv.clients i = .free)
    (used : ∀ i, (s'.srv.clients i).used = (s.srv.clients i).used)
    (fd : ∀ i, (s'.srv.clients i).fd = (s.srv.clients i).fd)
    (nicks : ∀ i j, (s'.srv.clients i).joined = true → (s'.srv.clients j).joined = true →
      (s'.srv.clients i).nick.bytes = (s'.srv.clients j).nick.bytes → i = j)
    (log : Appends Event.Neutral s.log s'.log) : Inv s' where
  unused := unused
  nonneg i hi := by
    rw [used] at hi
    rw [fd]
    exact h.nonneg i hi
  distinct i j hi hj same := by
    rw [used] at hi hj
    rw [fd, fd] at same
    exact h.distinct i j hi hj same
  opened fd' := by
    rw [openFds_of_neutral log, h.opened]
    simp only [used, fd]
  closesOnce := h.closesOnce.of_neutral log
  nicks := nicks

/-- Filling a buffer. -/
theorem recvInto (h : Inv s) {i : Slot} (used : (s.srv.clients i).used = true) (data : Bytes) :
    Inv (Chat.recvInto i data s) := by
  have self : (Chat.recvInto i data s).srv.clients i =
      (s.srv.clients i).setInbuf ((s.srv.clients i).inbuf.recv data) :=
    Sys.clients_setClient_self _ _ _
  have other : ∀ j, j ≠ i → (Chat.recvInto i data s).srv.clients j = s.srv.clients j :=
    fun j ne => Sys.clients_setClient_of_ne _ _ ne
  have same : ∀ j, ((Chat.recvInto i data s).srv.clients j).used = (s.srv.clients j).used ∧
      ((Chat.recvInto i data s).srv.clients j).fd = (s.srv.clients j).fd ∧
      ((Chat.recvInto i data s).srv.clients j).joined = (s.srv.clients j).joined ∧
      ((Chat.recvInto i data s).srv.clients j).nick = (s.srv.clients j).nick := by
    intro j
    by_cases eq : j = i
    · rw [eq, self]
      exact ⟨rfl, rfl, rfl, rfl⟩
    · rw [other j eq]
      exact ⟨rfl, rfl, rfl, rfl⟩
  refine h.of_same ?_ (fun j => (same j).1) (fun j => (same j).2.1) ?_
    (Appends.single ⟨nofun, nofun⟩)
  · intro j unused
    by_cases eq : j = i
    · rw [(same j).1, eq, used] at unused
      cases unused
    · rw [other j eq] at unused ⊢
      exact h.unused j unused
  · intro j k joined joined' eq
    rw [(same j).2.2.1] at joined
    rw [(same k).2.2.1] at joined'
    rw [(same j).2.2.2, (same k).2.2.2] at eq
    exact h.nicks j k joined joined' eq

/-- Handling a frame: the one place where a nick appears, and it is checked. -/
theorem processFrame (h : Inv s) (env : Env) {c : Slot} (used : (s.srv.clients c).used = true)
    (f : Frame) (need : Nat) : Inv (Chat.processFrame env c f need s) := by
  obtain ⟨fdEq, usedEq, -, -⟩ := processFrame_sameConn env c f need s
  have other : ∀ j, j ≠ c → (Chat.processFrame env c f need s).srv.clients j = s.srv.clients j :=
    fun j ne => processFrame_of_ne env c f need s ne
  have log : Appends Event.Neutral s.log (Chat.processFrame env c f need s).log :=
    (Appends.single ⟨nofun, nofun⟩).trans
      ((log_processFrame env c f need s).mono fun e handler => handler.neutral)
  refine h.of_same ?_ ?_ ?_ ?_ log
  · intro j unused
    by_cases eq : j = c
    · rw [eq, usedEq, Client.setInbuf, used] at unused
      cases unused
    · rw [other j eq] at unused ⊢
      exact h.unused j unused
  · intro j
    by_cases eq : j = c
    · rw [eq, usedEq]
      rfl
    · rw [other j eq]
  · intro j
    by_cases eq : j = c
    · rw [eq, fdEq]
      rfl
    · rw [other j eq]
  · obtain ⟨s', handled, eq⟩ := processFrame_case env c f need s
    have selfJoined : ((Chat.processFrame env c f need s).srv.clients c).joined =
        (s'.srv.clients c).joined ∧ ((Chat.processFrame env c f need s).srv.clients c).nick =
        (s'.srv.clients c).nick := by
      rw [eq, Sys.clients_setClient_self]
      exact ⟨rfl, rfl⟩
    rcases handled.identity with same | ⟨nick, accepted, joinedAs⟩
    · -- nobody joined
      have same' : ∀ j, ((Chat.processFrame env c f need s).srv.clients j).joined =
          (s.srv.clients j).joined ∧ ((Chat.processFrame env c f need s).srv.clients j).nick =
          (s.srv.clients j).nick := by
        intro j
        by_cases eq : j = c
        · rw [eq, selfJoined.1, selfJoined.2]
          exact same c
        · rw [other j eq]
          exact ⟨rfl, rfl⟩
      intro j k joined joined' eq
      rw [(same' j).1] at joined
      rw [(same' k).1] at joined'
      rw [(same' j).2, (same' k).2] at eq
      exact h.nicks j k joined joined' eq
    · -- the sender joined under a nick that no other joined client has
      have nickEq : ((Chat.processFrame env c f need s).srv.clients c).nick.bytes = cstr nick := by
        rw [selfJoined.2, joinedAs]
        exact storedNick_bytes accepted.check
      have free : ∀ j, j ≠ c → (s.srv.clients j).joined = true →
          (s.srv.clients j).nick.bytes ≠ cstr nick := fun j ne joined =>
        ne_of_nickTaken (checkJoin_ok accepted.check).2.2.2 ne (h.active_iff.mpr joined)
      intro j k joined joined' eq
      by_cases jc : j = c <;> by_cases kc : k = c
      · rw [jc, kc]
      · rw [jc, nickEq, other k kc] at eq
        rw [other k kc] at joined'
        exact absurd eq.symm (free k kc joined')
      · rw [kc, nickEq, other j jc] at eq
        rw [other j jc] at joined
        exact absurd eq (free j jc joined)
      · rw [other j jc, other k kc] at eq
        rw [other j jc] at joined
        rw [other k kc] at joined'
        exact h.nicks j k joined joined' eq

/-- Closing a slot closes its connection, which was open. -/
theorem closeSlot (h : Inv s) {i : Slot} (used : (s.srv.clients i).used = true) :
    Inv (Chat.closeSlot i s) := by
  have nonneg := h.nonneg i used
  have self := closeSlot_self i s
  have other : ∀ j, j ≠ i → (Chat.closeSlot i s).srv.clients j = s.srv.clients j :=
    fun j ne => closeSlot_of_ne i s ne
  have log : (Chat.closeSlot i s).log = s.log ++ [.close (s.srv.clients i).fd] := by
    rw [log_closeSlot, if_pos nonneg]
  -- a slot that is still used was used before, and is another one
  have stillUsed : ∀ j, ((Chat.closeSlot i s).srv.clients j).used = true → j ≠ i := by
    intro j usedJ eq
    rw [eq, self] at usedJ
    cases usedJ
  have stillJoined : ∀ j, ((Chat.closeSlot i s).srv.clients j).joined = true → j ≠ i := by
    intro j joinedJ eq
    rw [eq, self] at joinedJ
    cases joinedJ
  constructor
  · intro j unused
    by_cases eq : j = i
    · rw [eq, self]
    · rw [other j eq] at unused ⊢
      exact h.unused j unused
  · intro j usedJ
    have ne := stillUsed j usedJ
    rw [other j ne] at usedJ ⊢
    exact h.nonneg j usedJ
  · intro j k usedJ usedK same
    have neJ := stillUsed j usedJ
    have neK := stillUsed k usedK
    rw [other j neJ] at usedJ same
    rw [other k neK] at usedK same
    exact h.distinct j k usedJ usedK same
  · intro fd
    rw [log, openFds_snoc, Event.openFds, Finset.mem_erase, h.opened]
    constructor
    · intro holder
      rcases holder with ⟨ne, j, usedJ, rfl⟩
      have neJ : j ≠ i := fun eq => ne (eq ▸ rfl)
      exact ⟨j, by rw [other j neJ]; exact usedJ, by rw [other j neJ]⟩
    · intro holder
      rcases holder with ⟨j, usedJ, rfl⟩
      have neJ := stillUsed j usedJ
      rw [other j neJ] at usedJ ⊢
      exact ⟨fun same => neJ (h.distinct j i usedJ used same), j, usedJ, rfl⟩
  · rw [log]
    refine h.closesOnce.snoc fun fd eq => ?_
    cases eq
    exact (h.opened _).mpr ⟨i, used, rfl⟩
  · intro j k joinedJ joinedK same
    have neJ := stillJoined j joinedJ
    have neK := stillJoined k joinedK
    rw [other j neJ] at joinedJ same
    rw [other k neK] at joinedK same
    exact h.nicks j k joinedJ joinedK same

/-- Sending changes nothing the invariant looks at. -/
theorem withLog (h : Inv s) {log : Log} (sends : Appends Event.Neutral s.log log) :
    Inv (s.withLog log) :=
  h.of_same h.unused (fun _ => rfl) (fun _ => rfl) h.nicks sends

theorem removeClientIndex (h : Inv s) (env : Env) {i : Slot}
    (used : (s.srv.clients i).used = true) : Inv (Chat.removeClientIndex env i s) := by
  unfold Chat.removeClientIndex
  dsimp only
  split
  · have sends := (sendAll_sends env s.srv.clients .notify
      (noteBody (partNote (s.srv.clients i).nick.bytes)) (some i) s.log).appends_sending
    have told : Inv (s.withLog (broadcastNotify env s.srv.clients
        (partNote (s.srv.clients i).nick.bytes) i s.log)) :=
      h.withLog (sends.mono fun e sending => Event.OfHandler.neutral (Or.inl sending))
    exact told.closeSlot used
  · exact h.closeSlot used

end Inv

/-! ## Accepting a connection -/

theorem addClient_none {fd : Fd} {s : Sys} (h : (addClient fd s).1 = none) :
    (addClient fd s).2 = s ∧ ∀ i, (s.srv.clients i).used = true := by
  unfold addClient at h ⊢
  split
  · rename_i full
    refine ⟨rfl, fun i => ?_⟩
    have used := List.find?_eq_none.mp full i (mem_slots i)
    simpa using used
  · rename_i i free
    rw [free] at h
    cases h

theorem addClient_some {fd : Fd} {s : Sys} {i : Slot} (h : (addClient fd s).1 = some i) :
    (s.srv.clients i).used = false ∧
      (addClient fd s).2.srv.clients i =
        { Client.zero with fd := fd, used := true, id := s.srv.nextId } ∧
      (∀ j, j ≠ i → (addClient fd s).2.srv.clients j = s.srv.clients j) ∧
      (addClient fd s).2.log = s.log ∧ (addClient fd s).2.srv.history = s.srv.history := by
  unfold addClient at h ⊢
  split
  · rename_i full
    rw [full] at h
    cases h
  · rename_i k free
    rw [free] at h
    cases h
    have unused := List.find?_some free
    refine ⟨by simpa using unused, ?_, fun j ne => ?_, rfl, rfl⟩
    · exact Sys.clients_setClient_self _ _ _
    · exact Sys.clients_setClient_of_ne _ _ ne

theorem turnAway_eq (env : Env) (fd : Fd) (s : Sys) : ∃ d d' out out', turnAway env fd s =
    s.withLog (s.log ++ [.write fd d out] ++ [.write fd d' out'] ++ [.close fd]) :=
  ⟨_, _, _, _, rfl⟩

/-- The two ways a connection is accepted: into a free slot, or turned away. -/
theorem acceptClient_cases (env : Env) (fd : Fd) (s : Sys) :
    (∃ i, (addClient fd (s.note (.accept fd))).1 = some i ∧
      acceptClient env fd s = (addClient fd (s.note (.accept fd))).2) ∨
    ((∀ i, (s.srv.clients i).used = true) ∧
      acceptClient env fd s = turnAway env fd (s.note (.accept fd))) := by
  unfold acceptClient
  split
  · rename_i i s' added
    exact Or.inl ⟨i, by rw [added], by rw [added]⟩
  · rename_i s' added
    have none : (addClient fd (s.note (.accept fd))).1 = none := by rw [added]
    obtain ⟨same, full⟩ := addClient_none none
    rw [added] at same
    cases same
    exact Or.inr ⟨full, rfl⟩

/-- A free slot is filled with a descriptor that nobody has. -/
theorem Inv.addClient {s : Sys} {i : Slot} (h : Inv s) {fd : Fd} (nonneg : 0 ≤ fd)
    (fresh : fd ∉ openFds s.log) (added : (addClient fd (s.note (.accept fd))).1 = some i) :
    Inv (Chat.addClient fd (s.note (.accept fd))).2 := by
  have freshSlot : ∀ i, (s.srv.clients i).used = true → (s.srv.clients i).fd ≠ fd :=
    fun i used same => fresh ((h.opened fd).mpr ⟨i, used, same⟩)
  obtain ⟨free, self, other, log, -⟩ := addClient_some added
  rw [Sys.log_note] at log
  generalize (Chat.addClient fd (s.note (.accept fd))).2 = s' at self other log ⊢
  have usedOld : ∀ j, j ≠ i → (s'.srv.clients j).used = true → (s.srv.clients j).used = true := by
    intro j ne used
    rw [other j ne] at used
    exact used
  have joinedNe : ∀ j, (s'.srv.clients j).joined = true → j ≠ i := by
    intro j joined eq
    rw [eq, self] at joined
    cases joined
  constructor
  · intro j unused
    by_cases eq : j = i
    · rw [eq, self] at unused
      cases unused
    · rw [other j eq] at unused ⊢
      exact h.unused j unused
  · intro j used
    by_cases eq : j = i
    · rw [eq, self]
      exact nonneg
    · rw [other j eq] at used ⊢
      exact h.nonneg j used
  · intro j k usedJ usedK same
    by_cases jc : j = i <;> by_cases kc : k = i
    · rw [jc, kc]
    · rw [jc, self, other k kc] at same
      exact absurd same.symm (freshSlot k (usedOld k kc usedK))
    · rw [kc, self, other j jc] at same
      exact absurd same (freshSlot j (usedOld j jc usedJ))
    · rw [other j jc, other k kc] at same
      exact h.distinct j k (usedOld j jc usedJ) (usedOld k kc usedK) same
  · intro fd'
    rw [log, openFds_snoc, Event.openFds, Finset.mem_insert, h.opened]
    constructor
    · intro holder
      rcases holder with rfl | ⟨j, used, rfl⟩
      · exact ⟨i, by rw [self], by rw [self]⟩
      · have ne : j ≠ i := by
          rintro rfl
          rw [Sys.srv_note] at free
          rw [free] at used
          cases used
        exact ⟨j, by rw [other j ne]; exact used, by rw [other j ne]; rfl⟩
    · intro holder
      rcases holder with ⟨j, used, rfl⟩
      by_cases eq : j = i
      · rw [eq, self]
        exact Or.inl rfl
      · rw [other j eq] at used ⊢
        exact Or.inr ⟨j, used, rfl⟩
  · rw [log]
    exact h.closesOnce.snoc nofun
  · intro j k joined joined' same
    have neJ := joinedNe j joined
    have neK := joinedNe k joined'
    rw [other j neJ] at joined same
    rw [other k neK] at joined' same
    exact h.nicks j k joined joined' same

/-- A connection that is turned away is opened, told and closed. -/
theorem Inv.turnAway {s : Sys} (h : Inv s) (env : Env) {fd : Fd} (fresh : fd ∉ openFds s.log) :
    Inv (Chat.turnAway env fd (s.note (.accept fd))) := by
  obtain ⟨d, d', out, out', told⟩ := turnAway_eq env fd (s.note (.accept fd))
  rw [told]
  have accepted : ClosesOnce (s.log ++ [.accept fd]) := h.closesOnce.snoc nofun
  have written : Appends Event.Neutral (s.log ++ [.accept fd])
      (s.log ++ [.accept fd] ++ [.write fd d out] ++ [.write fd d' out']) :=
    (Appends.single ⟨nofun, nofun⟩).trans (Appends.single ⟨nofun, nofun⟩)
  have opened : openFds (s.log ++ [.accept fd] ++ [.write fd d out] ++ [.write fd d' out']) =
      insert fd (openFds s.log) := by
    rw [openFds_of_neutral written, openFds_snoc]
    rfl
  refine ⟨h.unused, h.nonneg, h.distinct, fun fd' => ?_,
    (accepted.of_neutral written).snoc fun fd' same => ?_, h.nicks⟩
  · rw [Sys.log_withLog, Sys.log_note, openFds_snoc, opened, Event.openFds,
      Finset.erase_insert fresh]
    exact h.opened fd'
  · cases same
    rw [opened]
    exact Finset.mem_insert_self _ _

theorem Inv.acceptClient {s : Sys} (h : Inv s) (env : Env) {fd : Fd} (nonneg : 0 ≤ fd)
    (fresh : fd ∉ openFds s.log) : Inv (Chat.acceptClient env fd s) := by
  rcases acceptClient_cases env fd s with ⟨i, added, eq⟩ | ⟨-, eq⟩
  · rw [eq]
    exact h.addClient nonneg fresh added
  · rw [eq]
    exact h.turnAway env fresh

/-! ## Runs -/

theorem Inv.act {s : Sys} {a : Action} (h : Inv s) (env : Env) (enabled : Enabled s a) :
    Inv (Chat.act env s a) := by
  cases a with
  | accept fd => exact h.acceptClient env enabled.1 enabled.2
  | recv i data => exact h.recvInto enabled data
  | frame i =>
      obtain ⟨used, f, need, scan⟩ := enabled
      rw [act_frame scan]
      exact h.processFrame env used f need
  | invalid i => exact h.closeSlot enabled.1
  | remove i => exact h.removeClientIndex env enabled

theorem Reachable.inv {env : Env} {s : Sys} (reach : Reachable env s) : Inv s := by
  obtain ⟨as, run⟩ := reach
  exact run.preserves Inv.init fun h enabled => h.act env enabled

/-- The exit path keeps the invariant. -/
theorem Inv.shutdown {s : Sys} (h : Inv s) : Inv (Chat.shutdown s) := by
  unfold Chat.shutdown
  generalize slots = is
  induction is generalizing s with
  | nil => exact h
  | cons i is ih =>
      rw [List.foldl_cons]
      split
      · rename_i used
        exact ih (h.closeSlot used)
      · exact ih h

/-- The invariant holds of the event loop whenever it is left. -/
theorem mainLoop_inv (env : Env) (listenFd : Fd) (rs : List PollResult)
    (fresh : FreshFds env listenFd rs Sys.init) : Inv (mainLoop env listenFd rs Sys.init) := by
  obtain ⟨s, reach, loop | exit⟩ := mainLoop_run env listenFd rs Sys.init fresh
  · rw [loop]
    exact Reachable.inv reach
  · rw [exit]
    exact (Reachable.inv reach).shutdown

/-- **The client table.** In every reachable state unused slots are reset, joined
slots are used, the descriptors of used slots are distinct and are the open
connections, every close was of an open connection, and no two joined clients
share a nick. -/
theorem table_sound (env : Env) (s : Sys) (reach : Reachable env s) :
    (∀ i, (s.srv.clients i).used = false → (s.srv.clients i).fd = -1 ∧
      (s.srv.clients i).joined = false ∧ (s.srv.clients i).inbuf.bytes = []) ∧
    (∀ i, (s.srv.clients i).joined = true → (s.srv.clients i).used = true) ∧
    (∀ i j, i ≠ j → (s.srv.clients i).used = true → (s.srv.clients j).used = true →
      (s.srv.clients i).fd ≠ (s.srv.clients j).fd) ∧
    (∀ fd, fd ∈ openFds s.log ↔
      ∃ i, (s.srv.clients i).used = true ∧ (s.srv.clients i).fd = fd) ∧
    ClosesOnce s.log ∧
    (∀ i j, i ≠ j → (s.srv.clients i).joined = true → (s.srv.clients j).joined = true →
      (s.srv.clients i).nick.bytes ≠ (s.srv.clients j).nick.bytes) := by
  have inv := reach.inv
  refine ⟨fun i unused => ?_, fun i => inv.used_of_joined, fun i j ne usedI usedJ same => ?_,
    inv.opened, inv.closesOnce, fun i j ne joinedI joinedJ same => ?_⟩
  · rw [inv.unused i unused]
    exact ⟨rfl, rfl, rfl⟩
  · exact ne (inv.distinct i j usedI usedJ same)
  · exact ne (inv.nicks i j joinedI joinedJ same)

/-- Ann and Bob have joined, and a third connection was closed. -/
theorem table_sound_accepted :
    let s := (arrival 0 4 "ann" ++ arrival 1 5 "bob" ++ [Action.accept 6, .remove 2]).foldl
      (act .smooth) .init
    (s.srv.clients 0).used = true ∧ (s.srv.clients 1).used = true ∧
      (s.srv.clients 0).fd ≠ (s.srv.clients 1).fd ∧
      (s.srv.clients 0).nick.bytes ≠ (s.srv.clients 1).nick.bytes ∧
      (s.srv.clients 2).fd = -1 ∧ (∀ fd, fd ∈ openFds s.log ↔
        ∃ i, (s.srv.clients i).used = true ∧ (s.srv.clients i).fd = fd) ∧
      Event.close 6 ∈ s.log ∧ ClosesOnce s.log := by
  intro s
  have reach : Reachable .smooth s := ⟨_, .of_enabled (by decide +kernel)⟩
  have ann : (s.srv.clients 0).joined = true := by decide +kernel
  have bob : (s.srv.clients 1).joined = true := by decide +kernel
  obtain ⟨unused, used, distinct, opened, once, nicks⟩ := table_sound .smooth s reach
  exact ⟨used 0 ann, used 1 bob, distinct 0 1 (by decide) (used 0 ann) (used 1 bob),
    nicks 0 1 (by decide) ann bob, (unused 2 (by decide +kernel)).1, opened,
    by decide +kernel, once⟩

end Osisp.Chat
