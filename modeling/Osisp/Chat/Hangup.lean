import Osisp.Chat.Dispatch
import Osisp.Chat.Stream

/-!
# Data that arrives with a hang-up

When a peer sends and closes, `poll` reports `POLLIN` together with `POLLHUP`. Both
loops test for the error bits first and drop the connection, with what is still to
be read on it. So the server reads what is readable before it drops a connection
exactly if there is nothing, or no error bit in the entry that it looks at
(`iteration_readFirst_iff`). For the client this module has its calls of `recv` in the
main loop; how it leaves that loop is in `Chat/Dropping`.
-/

namespace Osisp.Chat

open Lib

/-! ## What was read -/

/-- The bytes the event takes from the connection `fd`. -/
def Event.bytesRead (fd : Fd) : Event → Bytes
  | .recv fd' data => if fd' = fd then data else []
  | _ => []

/-- The bytes read from the connection `fd`. -/
def bytesRead (fd : Fd) (log : Log) : Bytes := log.flatMap (Event.bytesRead fd)

/-- One of the bits that a connection is dropped for. -/
def Revents.failed (rev : Revents) : Bool := rev.pollerr || rev.pollhup || rev.pollnval

/-- What can be read from the connection in slot `i`. -/
def LoopInput.readable (inp : LoopInput) (i : Slot) : Bytes := (inp.recv i).getD []

/-- The readable bytes were read, as far as the buffer has room, and the complete
frames in them were handled. -/
structure ReadAll (s s' : Sys) (i : Slot) (data : Bytes) : Prop where
  bytes : bytesRead (s.srv.clients i).fd s'.log =
    bytesRead (s.srv.clients i).fd s.log ++ data.take (s.srv.clients i).inbuf.room
  frames : framesFrom i s'.log = framesFrom i s.log ++
    (chatCodec.parse ((s.srv.clients i).inbuf.bytes ++ data)).frames

/-- The connection is open, or was dropped behind the readable bytes. -/
def ReadFirst (s s' : Sys) (i : Slot) (data : Bytes) : Prop :=
  (s'.srv.clients i).used = true ∨ ReadAll s s' i data

/-- The entry of `fds` that the dispatch pass reads for slot `i`. -/
def entryRead (env : Env) (listenFd : Fd) (inp : LoopInput) (s : Sys) (i : Slot) :
    Option Pollfd :=
  (poll inp.revents (fdsOf listenFd s.srv.clients))[
    pollIndex (acceptPhase env inp s).srv.clients i]?

/-- Between two iterations no buffer has anything left to process. -/
def Waiting (s : Sys) : Prop :=
  ∀ i, (s.srv.clients i).used = true → scanFrame (s.srv.clients i).inbuf.bytes = .more

/-- The states in which the event loop calls `poll`. -/
def Polling (env : Env) (listenFd : Fd) (s : Sys) : Prop :=
  ∃ rs, .error ∉ rs ∧ FreshFds env listenFd rs .init ∧ mainLoop env listenFd rs .init = s

theorem room_of_more {b : Buf recvCap} (more : scanFrame b.bytes = .more) : 1 ≤ b.room :=
  Nat.sub_pos_of_lt (length_lt_recvCap_of_more more)

theorem bytesRead_of_appends {fd : Fd} {P : Event → Prop} {l l' : Log} (h : Appends P l l')
    (other : ∀ e, P e → ∀ data, e ≠ .recv fd data) : bytesRead fd l' = bytesRead fd l := by
  refine h.flatMap_eq fun e allowed => ?_
  cases e with
  | recv fd' data =>
      have ne : fd' ≠ fd := fun eq => other _ allowed data (by rw [eq])
      exact if_neg ne
  | _ => rfl

/-! ## Handling one slot -/

section Slot

variable {env : Env} {inp : LoopInput} {i j : Slot} {rev : Revents} {fd : Fd} {s : Sys}

/-- Slot `i` is as it was, and nothing was read from its connection `fd`. -/
structure Apart (i : Slot) (fd : Fd) (s s' : Sys) : Prop where
  client : s'.srv.clients i = s.srv.clients i
  bytesRead : bytesRead fd s'.log = bytesRead fd s.log
  frames : framesFrom i s'.log = framesFrom i s.log

theorem Apart.refl (i : Slot) (fd : Fd) (s : Sys) : Apart i fd s s := ⟨rfl, rfl, rfl⟩

theorem Apart.trans {s' s'' : Sys} (first : Apart i fd s s') (second : Apart i fd s' s'') :
    Apart i fd s s'' where
  client := second.client.trans first.client
  bytesRead := second.bytesRead.trans first.bytesRead
  frames := second.frames.trans first.frames

/-- What lies between is the same on both sides. -/
theorem Apart.readFirst_iff {s₁ s₂ s' : Sys} {data : Bytes}
    (before : Apart i (s.srv.clients i).fd s s₁) (after : Apart i (s.srv.clients i).fd s₂ s') :
    ReadFirst s s' i data ↔ ReadFirst s₁ s₂ i data := by
  have read : ReadAll s s' i data ↔ ReadAll s₁ s₂ i data := by
    constructor
    · rintro ⟨bytes, frames⟩
      refine ⟨?_, ?_⟩
      · rw [before.client, before.bytesRead, ← after.bytesRead, bytes]
      · rw [before.client, before.frames, ← after.frames, frames]
    · rintro ⟨bytes, frames⟩
      rw [before.client] at bytes frames
      refine ⟨?_, ?_⟩
      · rw [after.bytesRead, bytes, before.bytesRead]
      · rw [after.frames, frames, before.frames]
  unfold ReadFirst
  rw [after.client, read]

theorem framesFrom_removeClientIndex (env : Env) (i j : Slot) (s : Sys) :
    framesFrom j (removeClientIndex env i s).log = framesFrom j s.log := by
  unfold removeClientIndex
  dsimp only
  rw [framesFrom_closeSlot]
  split
  · have sends := (sendAll_sends env s.srv.clients .notify
      (noteBody (partNote (s.srv.clients i).nick.bytes)) (some i) s.log).appends_sending
    exact framesFrom_of_handler (sends.mono fun _ => Or.inl) j
  · rfl

/-- Removing a client reads nothing. -/
theorem bytesRead_removeClientIndex (env : Env) (i : Slot) (fd : Fd) (s : Sys) :
    bytesRead fd (removeClientIndex env i s).log = bytesRead fd s.log := by
  have touches : Touches i ⟨false, true, false, false⟩ _ s (removeClientIndex env i s) :=
    removeClientIndex_touches env rfl rfl
  refine bytesRead_of_appends touches.log fun e within data eq => ?_
  cases (within.recv fd data eq).2

/-- Neither does decoding. -/
theorem bytesRead_processMessage (env : Env) (fd : Fd) (used : (s.srv.clients i).used = true) :
    bytesRead fd (processMessage env i s).log = bytesRead fd s.log := by
  have touches : Touches i ⟨false, true, false, false⟩ _ s (processMessage env i s) :=
    processMessage_touches env rfl rfl used
  refine bytesRead_of_appends touches.log fun e within data eq => ?_
  cases (within.recv fd data eq).2

theorem framesFrom_processMessage_of_ne (env : Env) (ne : i ≠ j) :
    framesFrom i (processMessage env j s).log = framesFrom i s.log := by
  unfold processMessage
  generalize (s.srv.clients j).inbuf.bytes.length + 1 = fuel
  induction fuel generalizing s with
  | zero => rfl
  | succ fuel ih =>
      unfold processLoop
      split
      · rfl
      · exact framesFrom_closeSlot j s i
      · rename_i f need _
        rw [ih, framesFrom_of_handler (log_processFrame env j f need s), framesFrom_append]
        simp [framesFrom, Event.framesFrom, ne.symm]

theorem framesFrom_note_recv (fd' : Fd) (data : Bytes) :
    framesFrom i (s.note (.recv fd' data)).log = framesFrom i s.log := by
  rw [Sys.log_note, framesFrom_append]
  exact List.append_nil _

theorem bytesRead_note_recv (data : Bytes) :
    bytesRead fd (s.note (.recv fd data)).log = bytesRead fd s.log ++ data := by
  simp [bytesRead, Event.bytesRead]

/-- What the body of the dispatch loop can do with a slot. -/
inductive SlotCase (env : Env) (inp : LoopInput) (i : Slot) (rev : Revents) (s : Sys) : Sys → Prop
  | dropped : rev.failed = true → SlotCase env inp i rev s (removeClientIndex env i s)
  | idle : rev.failed = false → rev.pollin = false → SlotCase env inp i rev s s
  | ended : rev.failed = false → rev.pollin = true →
    (inp.readable i).take (s.srv.clients i).inbuf.room = [] →
    SlotCase env inp i rev s (removeClientIndex env i (s.note (.recv (s.srv.clients i).fd [])))
  | round : rev.failed = false → rev.pollin = true →
    SlotCase env inp i rev s (processMessage env i (recvInto i (inp.readable i) s))
  | full : rev.failed = false → rev.pollin = true →
    ((processMessage env i (recvInto i (inp.readable i) s)).srv.clients i).used = true →
    recvCap ≤ ((processMessage env i (recvInto i (inp.readable i) s)).srv.clients i
      ).inbuf.bytes.length →
    SlotCase env inp i rev s
      (removeClientIndex env i (processMessage env i (recvInto i (inp.readable i) s)))

theorem handleSlot_case (env : Env) (inp : LoopInput) (i : Slot) (rev : Revents) (s : Sys) :
    SlotCase env inp i rev s (handleSlot env inp i rev s) := by
  unfold handleSlot
  split
  · rename_i failed
    exact .dropped failed
  · rename_i clear
    have clear : rev.failed = false := Bool.eq_false_of_not_eq_true clear
    split
    · rename_i pollin
      split
      · rename_i none
        refine .ended clear pollin ?_
        rw [LoopInput.readable, none]
        exact List.take_nil
      · rename_i data some
        obtain rfl : inp.readable i = data := by
          rw [LoopInput.readable, some]
          rfl
        split
        · rename_i nothing
          exact .ended clear pollin nothing
        · dsimp only
          split
          · exact .round clear pollin
          · rename_i used
            have used := by simpa using used
            split
            · rename_i long
              exact .full clear pollin used long
            · exact .round clear pollin
    · rename_i quiet
      exact .idle clear (Bool.eq_false_of_not_eq_true quiet)

/-- Handling another slot. -/
theorem handleSlot_apart (env : Env) (inp : LoopInput) (rev : Revents) (ne : i ≠ j)
    (used : (s.srv.clients j).used = true) (other : (s.srv.clients j).fd ≠ fd) :
    Apart i fd s (handleSlot env inp j rev s) := by
  have touches : Touches j rev _ s (handleSlot env inp j rev s) :=
    handleSlot_touches env inp rfl used
  refine ⟨touches.others i ne, ?_, ?_⟩
  · refine bytesRead_of_appends touches.log fun e within data eq => ?_
    exact other (within.recv fd data eq).1.symm
  · have processed : framesFrom i (processMessage env j (recvInto j (inp.readable j) s)).log =
        framesFrom i s.log := by
      rw [framesFrom_processMessage_of_ne env ne, framesFrom_recvInto]
    have slotCase := handleSlot_case env inp j rev s
    generalize handleSlot env inp j rev s = s' at slotCase ⊢
    cases slotCase with
    | dropped _ => exact framesFrom_removeClientIndex env j i s
    | idle _ _ => rfl
    | ended _ _ _ => rw [framesFrom_removeClientIndex, framesFrom_note_recv]
    | round _ _ => exact processed
    | full _ _ _ _ => rw [framesFrom_removeClientIndex, processed]

section Own

variable (env) (waiting : scanFrame (s.srv.clients i).inbuf.bytes = .more)
include waiting

/-- If nothing can be read, nothing is lost. -/
theorem readAll_nil {s' : Sys}
    (bytes : bytesRead (s.srv.clients i).fd s'.log = bytesRead (s.srv.clients i).fd s.log)
    (frames : framesFrom i s'.log = framesFrom i s.log) : ReadAll s s' i [] := by
  refine ⟨?_, ?_⟩
  · rw [bytes, List.take_nil, List.append_nil]
  · rw [List.append_nil, chatCodec.parse_of_more waiting, frames]
    exact (List.append_nil _).symm

/-- A connection that is dropped at an error bit loses what could be read. -/
theorem removeClientIndex_readFirst (data : Bytes) :
    ReadFirst s (removeClientIndex env i s) i data ↔ data = [] := by
  constructor
  · rintro (still | read)
    · rw [srv_removeClientIndex, Sys.clients_setClient_self] at still
      cases still
    · have bytes := read.bytes
      rw [bytesRead_removeClientIndex] at bytes
      have nothing := List.append_cancel_left ((List.append_nil _).trans bytes)
      rcases List.take_eq_nil_iff.mp nothing.symm with full | empty
      · exact absurd full (Nat.ne_of_gt (room_of_more waiting))
      · exact empty
  · rintro rfl
    exact .inr (readAll_nil waiting (bytesRead_removeClientIndex env i _ s)
      (framesFrom_removeClientIndex env i i s))

/-- The end of the stream is read before the connection is dropped. -/
theorem end_readAll :
    ReadAll s (removeClientIndex env i (s.note (.recv (s.srv.clients i).fd []))) i [] := by
  refine readAll_nil waiting ?_ ?_
  · rw [bytesRead_removeClientIndex, bytesRead_note_recv, List.append_nil]
  · rw [framesFrom_removeClientIndex, framesFrom_note_recv]

omit waiting in
/-- A round with data decodes all of it, or keeps the connection. -/
theorem round_readFirst (used : (s.srv.clients i).used = true) (data : Bytes) :
    let s₁ := processMessage env i (recvInto i data s)
    ((s₁.srv.clients i).used = true ∧ (s₁.srv.clients i).inbuf.bytes.length < recvCap) ∨
      ((s₁.srv.clients i).used = false ∧ ReadAll s s₁ i data) := by
  intro s₁
  have self : (recvInto i data s).srv.clients i =
      (s.srv.clients i).setInbuf ((s.srv.clients i).inbuf.recv data) :=
    Sys.clients_setClient_self _ _ _
  have parsed := processMessage_parses env i (recvInto i data s)
  have buffered : ((recvInto i data s).srv.clients i).inbuf.bytes =
      (s.srv.clients i).inbuf.bytes ++ data.take (s.srv.clients i).inbuf.room := by
    rw [self]
    rfl
  rw [buffered] at parsed
  cases tail : (chatCodec.parse ((s.srv.clients i).inbuf.bytes ++
      data.take (s.srv.clients i).inbuf.room)).tail with
  | some t =>
      obtain ⟨inbuf, -, sameUsed⟩ := parsed.kept t tail
      refine .inl ⟨?_, ?_⟩
      · rw [sameUsed, self]
        exact used
      · rw [inbuf]
        exact length_lt_recvCap_of_more (chatCodec.scan_tail tail)
  | none =>
      refine .inr ⟨by rw [parsed.closed tail]; rfl, ?_, ?_⟩
      · have bytesRead₁ : bytesRead (s.srv.clients i).fd s₁.log =
            bytesRead (s.srv.clients i).fd (recvInto i data s).log :=
          bytesRead_processMessage env _ (by rw [self]; exact used)
        rw [bytesRead₁]
        exact bytesRead_note_recv _
      · -- behind an invalid header there is no frame
        have whole : (s.srv.clients i).inbuf.bytes ++ data =
            (s.srv.clients i).inbuf.bytes ++ data.take (s.srv.clients i).inbuf.room ++
              data.drop (s.srv.clients i).inbuf.room := by
          rw [List.append_assoc, List.take_append_drop]
        rw [whole, chatCodec.parse_append_of_none tail]
        exact parsed.frames.trans (congrArg (· ++ _) (framesFrom_recvInto i i data s))

/-- Handling the slot itself. -/
theorem handleSlot_readFirst (inp : LoopInput) (rev : Revents)
    (used : (s.srv.clients i).used = true) :
    ReadFirst s (handleSlot env inp i rev s) i (inp.readable i) ↔
      inp.readable i = [] ∨ rev.failed = false := by
  have slotCase := handleSlot_case env inp i rev s
  generalize handleSlot env inp i rev s = s' at slotCase ⊢
  cases slotCase with
  | dropped failed =>
      rw [removeClientIndex_readFirst env waiting, failed]
      exact (or_iff_left nofun).symm
  | idle clear _ => exact iff_of_true (.inl used) (.inr clear)
  | ended clear _ nothing =>
      refine iff_of_true (.inr ?_) (.inr clear)
      have empty : inp.readable i = [] :=
        (List.take_eq_nil_iff.mp nothing).resolve_left (Nat.ne_of_gt (room_of_more waiting))
      rw [empty]
      exact end_readAll env waiting
  | round clear _ =>
      refine iff_of_true ?_ (.inr clear)
      rcases round_readFirst env used (inp.readable i) with ⟨still, -⟩ | ⟨-, read⟩
      · exact .inl still
      · exact .inr read
  | full clear _ still long =>
      -- a buffer that waits for more has room
      rcases round_readFirst env used (inp.readable i) with ⟨-, short⟩ | ⟨gone, -⟩
      · exact absurd long (not_le.mpr short)
      · rw [gone] at still
        cases still

end Own

end Slot

/-! ## The dispatch pass -/

/-- No other slot has the connection `fd`. -/
def Alone (i : Slot) (fd : Fd) (s : Sys) : Prop :=
  ∀ j, j ≠ i → (s.srv.clients j).used = true → (s.srv.clients j).fd ≠ fd

theorem Inv.alone {s : Sys} (inv : Inv s) {i : Slot} (used : (s.srv.clients i).used = true) :
    Alone i (s.srv.clients i).fd s :=
  fun j ne usedJ same => ne (inv.distinct j i usedJ used same)

section Pass

variable {env : Env} {inp : LoopInput} {fds : List Pollfd} {i : Slot} {fd : Fd} {is : List Slot}
  {s : Sys}

/-- Handling any slot leaves the others their connections. -/
theorem Alone.handleSlot (alone : Alone i fd s) {j : Slot} {rev : Revents}
    (used : (s.srv.clients j).used = true) : Alone i fd (handleSlot env inp j rev s) := by
  intro k ne usedK
  have touches : Touches j rev _ s (Chat.handleSlot env inp j rev s) :=
    handleSlot_touches env inp rfl used
  by_cases own : k = j
  · rw [own] at ne usedK ⊢
    rw [touches.fd usedK]
    exact alone j ne used
  · rw [touches.others k own] at usedK ⊢
    exact alone k ne usedK

/-- The walk over other slots. -/
theorem dispatchLoop_apart (fi : Nat) (alone : Alone i fd s) (notMem : i ∉ is) :
    Apart i fd s (dispatchLoop env inp fds is fi s).1 := by
  induction is generalizing fi s with
  | nil => exact .refl i fd s
  | cons j is ih =>
      have ne : i ≠ j := List.ne_of_not_mem_cons notMem
      have later : i ∉ is := List.not_mem_of_not_mem_cons notMem
      unfold dispatchLoop
      split
      · exact ih fi alone later
      · rename_i used
        have used : (s.srv.clients j).used = true := by simpa using used
        split
        · exact .refl i fd s
        · rename_i p _
          exact (handleSlot_apart env inp p.revents ne used (alone j (Ne.symm ne) used)).trans
            (ih (fi + 1) (alone.handleSlot used) later)

variable (env inp fds) in
/-- **The walk at slot `i`.** It is handled with the entry that is as far from `fi` as
there are used slots in front of it, or not at all if there is no such entry. -/
theorem dispatchLoop_slot (fi : Nat) (alone : Alone i fd s) (nodup : is.Nodup) (mem : i ∈ is)
    (used : (s.srv.clients i).used = true) :
    ∃ s₁, Apart i fd s s₁ ∧
      match fds[fi + (is.filter fun j => (s.srv.clients j).used).idxOf i]? with
      | none => Apart i fd s₁ (dispatchLoop env inp fds is fi s).1
      | some p => Apart i fd (handleSlot env inp i p.revents s₁)
          (dispatchLoop env inp fds is fi s).1 := by
  induction is generalizing fi s with
  | nil => cases mem
  | cons j is ih =>
      obtain ⟨fresh, nodup⟩ := List.nodup_cons.mp nodup
      unfold dispatchLoop
      by_cases own : j = i
      · subst own
        rw [List.filter_cons_of_pos (p := fun k => (s.srv.clients k).used) used,
          List.idxOf_cons_self, Nat.add_zero]
        simp only [used, Bool.not_true, Bool.false_eq_true, if_false]
        refine ⟨s, .refl j fd s, ?_⟩
        cases entry : fds[fi]? with
        | none => exact .refl j fd s
        | some p => exact dispatchLoop_apart (fi + 1) (alone.handleSlot used) fresh
      · have later : i ∈ is := (List.mem_cons.mp mem).resolve_left (Ne.symm own)
        cases usedJ : (s.srv.clients j).used with
        | false =>
            rw [List.filter_cons_of_neg (by simp [usedJ])]
            exact ih fi alone nodup later used
        | true =>
            rw [List.filter_cons_of_pos (p := fun k => (s.srv.clients k).used) usedJ,
              List.idxOf_cons_ne _ own]
            simp only [Bool.not_true, Bool.false_eq_true, if_false]
            cases entry : fds[fi]? with
            | none =>
                have past : fds.length ≤ fi := List.getElem?_eq_none_iff.mp entry
                refine ⟨s, .refl i fd s, ?_⟩
                rw [List.getElem?_eq_none_iff.mpr (by omega)]
                exact .refl i fd s
            | some p =>
                have apart : Apart i fd s (handleSlot env inp j p.revents s) :=
                  handleSlot_apart env inp p.revents (Ne.symm own) usedJ (alone j own usedJ)
                have touches : Touches j p.revents _ s (handleSlot env inp j p.revents s) :=
                  handleSlot_touches env inp rfl usedJ
                have rest : (is.filter fun k =>
                    ((handleSlot env inp j p.revents s).srv.clients k).used) =
                    is.filter fun k => (s.srv.clients k).used := by
                  apply List.filter_congr
                  intro k memK
                  have ne : k ≠ j := fun eq => fresh (eq ▸ memK)
                  rw [touches.others k ne]
                obtain ⟨s₁, before, handled⟩ := ih (fi + 1) (alone.handleSlot usedJ) nodup later
                  (by rw [apart.client]; exact used)
                rw [rest] at handled
                have index : fi + 1 + (is.filter fun k => (s.srv.clients k).used).idxOf i =
                    fi + ((is.filter fun k => (s.srv.clients k).used).idxOf i + 1) := by omega
                rw [index] at handled
                exact ⟨s₁, apart.trans before, handled⟩

/-- Accepting a connection reads nothing, and leaves the used slots as they are. -/
theorem acceptPhase_apart (env : Env) (inp : LoopInput) (fd : Fd)
    (used : (s.srv.clients i).used = true) : Apart i fd s (acceptPhase env inp s) := by
  unfold acceptPhase
  split
  · split
    · exact .refl i fd s
    · rcases acceptClient_cases env inp.accept s with ⟨k, added, eq⟩ | ⟨-, eq⟩
      · obtain ⟨free, -, others, log, -⟩ := addClient_some added
        have ne : i ≠ k := by
          rintro rfl
          rw [Sys.srv_note, used] at free
          cases free
        rw [eq]
        refine ⟨others i ne, ?_, ?_⟩
        · rw [log]
          simp [bytesRead, Event.bytesRead]
        · rw [log]
          simp [framesFrom, Event.framesFrom]
      · obtain ⟨d, d', out, out', told⟩ := turnAway_eq env inp.accept (s.note (.accept inp.accept))
        rw [eq, told]
        refine ⟨rfl, ?_, ?_⟩
        · simp [bytesRead, Event.bytesRead]
        · simp [framesFrom, Event.framesFrom]
  · exact .refl i fd s

end Pass

/-! ## Between two passes -/

section Waiting

variable {env : Env} {inp : LoopInput} {s : Sys}

theorem Waiting.of_slot {s' : Sys} (h : Waiting s) {i : Slot}
    (others : ∀ j, j ≠ i → s'.srv.clients j = s.srv.clients j)
    (own : (s'.srv.clients i).used = true → scanFrame (s'.srv.clients i).inbuf.bytes = .more) :
    Waiting s' := by
  intro j used
  by_cases eq : j = i
  · rw [eq] at used ⊢
    exact own used
  · rw [others j eq] at used ⊢
    exact h j used

/-- Handling a slot decodes its buffer as far as it goes. -/
theorem Waiting.handleSlot (h : Waiting s) (env : Env) (inp : LoopInput) (rev : Revents) {i : Slot}
    (used : (s.srv.clients i).used = true) : Waiting (handleSlot env inp i rev s) := by
  have touches : Touches i rev _ s (Chat.handleSlot env inp i rev s) :=
    handleSlot_touches env inp rfl used
  have removed (s₁ : Sys) (still : ((removeClientIndex env i s₁).srv.clients i).used = true) :
      scanFrame ((removeClientIndex env i s₁).srv.clients i).inbuf.bytes = .more := by
    rw [srv_removeClientIndex, Sys.clients_setClient_self] at still
    cases still
  refine h.of_slot touches.others fun still => ?_
  have slotCase := handleSlot_case env inp i rev s
  generalize Chat.handleSlot env inp i rev s = s' at slotCase still
  cases slotCase with
  | dropped _ => exact removed _ still
  | idle _ _ => exact h i used
  | ended _ _ _ => exact removed _ still
  | full _ _ _ _ => exact removed _ still
  | round _ _ =>
      have parsed := processMessage_parses env i (recvInto i (inp.readable i) s)
      cases tail : (chatCodec.parse
          ((recvInto i (inp.readable i) s).srv.clients i).inbuf.bytes).tail with
      | none =>
          rw [parsed.closed tail] at still
          cases still
      | some t =>
          rw [(parsed.kept t tail).1]
          exact chatCodec.scan_tail tail

theorem Waiting.dispatchLoop (h : Waiting s) (env : Env) (inp : LoopInput) (fds : List Pollfd)
    (is : List Slot) (fi : Nat) : Waiting (dispatchLoop env inp fds is fi s).1 := by
  induction is generalizing fi s with
  | nil => exact h
  | cons i is ih =>
      unfold Chat.dispatchLoop
      split
      · exact ih h fi
      · rename_i used
        split
        · exact h
        · exact ih (h.handleSlot env inp _ (by simpa using used)) (fi + 1)

theorem Waiting.acceptPhase (h : Waiting s) (env : Env) (inp : LoopInput) :
    Waiting (acceptPhase env inp s) := by
  unfold Chat.acceptPhase
  split
  · split
    · exact h
    · rcases acceptClient_cases env inp.accept s with ⟨k, added, eq⟩ | ⟨-, eq⟩
      · obtain ⟨-, self, others, -, -⟩ := addClient_some added
        rw [eq]
        refine h.of_slot others fun _ => ?_
        rw [self]
        rfl
      · obtain ⟨d, d', out, out', told⟩ := turnAway_eq env inp.accept (s.note (.accept inp.accept))
        rw [eq, told]
        exact h
  · exact h

/-- At each call of `poll` the buffers wait, and the state is reachable. -/
theorem Polling.sound {listenFd : Fd} (polling : Polling env listenFd s) :
    Waiting s ∧ Reachable env s := by
  obtain ⟨rs, noError, fresh, rfl⟩ := polling
  have general : ∀ (rs : List PollResult) (s : Sys), .error ∉ rs → FreshFds env listenFd rs s →
      Waiting s → Reachable env s →
      Waiting (mainLoop env listenFd rs s) ∧ Reachable env (mainLoop env listenFd rs s) := by
    intro rs
    induction rs with
    | nil => exact fun _ _ _ waiting reach => ⟨waiting, reach⟩
    | cons r rs ih =>
        intro s noError fresh waiting reach
        have later : .error ∉ rs := List.not_mem_of_not_mem_cons noError
        cases r with
        | eintr => exact ih s later fresh waiting reach
        | error => exact absurd List.mem_cons_self noError
        | ready inp =>
            obtain ⟨as, run⟩ := iteration_leads env listenFd inp s fresh.1
            exact ih _ later fresh.2 ((waiting.acceptPhase env inp).dispatchLoop env inp _ _ _)
              (reach.run run)
  exact general rs Sys.init noError fresh (fun _ used => by cases used) ⟨[], .nil _⟩

end Waiting

/-- The dispatch pass drops no connection with unread data exactly if there is no error
bit in the entry that is read for it. -/
theorem iteration_readFirst_iff {env : Env} {listenFd : Fd} {inp : LoopInput} {s : Sys}
    (polling : Polling env listenFd s) (fresh : inp.FreshFd s) {i : Slot}
    (used : (s.srv.clients i).used = true) :
    ReadFirst s (iteration env listenFd inp s).1 i (inp.readable i) ↔ inp.readable i = [] ∨
      ∀ p, entryRead env listenFd inp s i = some p → p.revents.failed = false := by
  obtain ⟨waiting, reach⟩ := polling.sound
  obtain ⟨as, run⟩ := acceptPhase_leads env inp s fresh
  have accepted := acceptPhase_apart env inp (s.srv.clients i).fd used
  have used' : ((acceptPhase env inp s).srv.clients i).used = true := by
    rw [accepted.client]
    exact used
  have alone : Alone i (s.srv.clients i).fd (acceptPhase env inp s) := by
    have alone := (reach.run run).inv.alone used'
    rwa [accepted.client] at alone
  obtain ⟨s₁, before, handled⟩ := dispatchLoop_slot env inp
    (poll inp.revents (fdsOf listenFd s.srv.clients)) 1 alone nodup_slots (mem_slots i) used'
  have before := accepted.trans before
  change match entryRead env listenFd inp s i with
    | none => Apart i (s.srv.clients i).fd s₁ (iteration env listenFd inp s).1
    | some p => Apart i (s.srv.clients i).fd (handleSlot env inp i p.revents s₁)
        (iteration env listenFd inp s).1 at handled
  cases entry : entryRead env listenFd inp s i with
  | none =>
      rw [entry] at handled
      refine iff_of_true (.inl ?_) (.inr nofun)
      rw [handled.client, before.client]
      exact used
  | some p =>
      rw [entry] at handled
      have own := handleSlot_readFirst env (s := s₁) (i := i)
        (by rw [before.client]; exact waiting i used) inp p.revents
        (by rw [before.client]; exact used)
      rw [before.readFirst_iff handled, own]
      simp only [Option.some.injEq, forall_eq']

/-! ## The client -/

/-- The receiving half of an iteration of the client's main loop, with the bytes that
`recv` took: `rev` is what `poll` stores for the socket, and `readable` what can be
read from it, or `none` where `recv` fails. -/
def mainReceive (rev : Revents) (readable : Option Bytes) (c : ClientSys) : ClientSys × Bytes :=
  if rev.pollerr || rev.pollhup || rev.pollnval then (c.quit "Server closed connection.\n", [])
  else if rev.pollin then
    match readable with
    | none => (c.receive .error, [])
    | some data =>
        let chunk := data.take c.rx.room
        if chunk = [] then (c.receive .closed, []) else (c.receive (.data chunk), chunk)
  else (c, [])

/-- The states of the client at its calls of `recv` and `poll`. -/
inductive ClientReachable : ClientSys → Prop
  | init : ClientReachable .init
  | handshake {c : ClientSys} {gotJoin : Bool} (ret : RecvRet) :
    ClientReachable c → c.phase = .handshake gotJoin → ClientReachable (c.receive ret)
  | main {c : ClientSys} (rev : Revents) (readable : Option Bytes) :
    ClientReachable c → c.phase = .connected → ClientReachable (mainReceive rev readable c).1
  | pull {c : ClientSys} (answers : Nat → PullAnswer) :
    ClientReachable c → c.phase = .connected → ClientReachable (pullServerAfterSend answers c)

section Client

variable {c : ClientSys}

/-- The handshake ends with an empty buffer. -/
theorem handshakeLoop_connected {fuel : Nat} {gotJoin : Bool} {c' : ClientSys}
    (result : handshakeLoop fuel gotJoin c = c') (connected : c'.phase = .connected) :
    c'.rx.bytes = [] := by
  induction fuel generalizing gotJoin c with
  | zero =>
      rw [← result] at connected
      cases connected
  | succ fuel ih =>
      unfold handshakeLoop at result
      split at result
      · rw [← result] at connected
        cases connected
      · split at result
        · rename_i done
          rw [← result]
          simp only [Bool.and_eq_true, decide_eq_true_eq] at done
          exact done.2
        · rw [← result] at connected
          cases connected
      · split at result
        · rw [← result] at connected
          cases connected
        · exact ih result
        · split at result
          · rw [← result] at connected
            cases connected
          · exact ih result
        · rw [← result] at connected
          cases connected

/-- What a `recv` takes is no more than the room, and so is what it is handed. -/
theorem receive_take (connected : c.phase = .connected) (data : Bytes) :
    (c.receive (.data (data.take c.rx.room))).phase = .connected ∧
      scanFrame (c.receive (.data (data.take c.rx.room))).rx.bytes = .more := by
  obtain ⟨phase, rx, -⟩ := receive_hears connected (List.length_take_le c.rx.room data)
  refine ⟨phase, ?_⟩
  rw [rx]
  exact scanFrame_leftOver _

/-- In the main loop the buffer waits for more. -/
theorem ClientReachable.waiting (h : ClientReachable c) (connected : c.phase = .connected) :
    scanFrame c.rx.bytes = .more := by
  induction h with
  | init => cases connected
  | @handshake c gotJoin ret _ phase _ =>
      cases ret with
      | data chunk =>
          have step : c.receive (.data chunk) = handshakeLoop
              ((c.rx.recv chunk).bytes.length + 1) gotJoin { c with rx := c.rx.recv chunk } := by
            simp only [ClientSys.receive, phase]
          rw [handshakeLoop_connected step.symm connected]
          rfl
      | closed =>
          simp only [ClientSys.receive, phase] at connected
          cases connected
      | error =>
          simp only [ClientSys.receive, phase] at connected
          cases connected
  | @main c rev readable _ phase ih =>
      unfold mainReceive at connected ⊢
      split
      · rename_i failed
        rw [if_pos failed] at connected
        cases connected
      · rename_i clear
        rw [if_neg clear] at connected
        split
        · rename_i pollin
          rw [if_pos pollin] at connected
          cases readable with
          | none =>
              simp only [ClientSys.receive, phase] at connected
              cases connected
          | some data =>
              dsimp only at connected ⊢
              split
              · rename_i nothing
                simp only [if_pos nothing, ClientSys.receive, phase] at connected
                cases connected
              · exact (receive_take phase data).2
        · exact ih phase
  | @pull c answers _ phase ih =>
      obtain ⟨chunks, valid, eq⟩ := pullServerAfterSend_receives answers c phase
      rw [eq]
      exact (receiveAll_hears phase (ih phase) valid).2.1

end Client

/-! ## A peer that sends and closes -/

/-- A connection on descriptor 4. -/
def connectInput : LoopInput where
  revents _ := ⟨true, false, false, false⟩
  accept := 4
  recv _ := none

/-- The connection in slot 0 has sent a `JOIN`; with `hup` it has closed as well. -/
def joinInput (hup : Bool) : LoopInput where
  revents k := ⟨k = 1, false, hup && k = 1, false⟩
  accept := -1
  recv _ := some (Message.frame ⟨.join, ascii "ann"⟩).encode

/-- The server after the connection. -/
def connectedState : Sys := mainLoop .smooth 3 [.ready connectInput] .init

/-- The client behind a handshake. -/
def greetedClient : ClientSys :=
  ClientSys.init.receive (.data (Message.frame ⟨.joinAck, ascii "id=1"⟩).encode)

theorem connectedState_polling : Polling .smooth 3 connectedState :=
  ⟨[.ready connectInput], by simp, ⟨fun _ _ => by decide +kernel, trivial⟩, rfl⟩

theorem greetedClient_reachable :
    ClientReachable greetedClient ∧ greetedClient.phase = .connected :=
  ⟨.handshake _ .init rfl, by decide +kernel⟩

end Osisp.Chat
