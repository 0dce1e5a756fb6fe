import Osisp.Chat.Invariant

/-!
# Who is let in, and under which nick

`handle_join` checks a byte array of counted length and then stores and compares
C strings. `handleJoin_cases` says what a call does: it is refused and leaves the
table alone, or the caller is joined, whatever becomes of the `JOIN_ACK`. So the
call is all or nothing exactly when the `JOIN_ACK` gets through
(`join_atomic_iff`), and the nick stored is the nick sent exactly when that has no
NUL inside (`join_nick_iff`).
-/

namespace Osisp.Chat

open Lib

/-- The nick in the body of a `JOIN`: what is left without trailing line ends. -/
def joinNick (body : Bytes) : Bytes := body.rdropWhile isNewline

/-- The body passes the checks of `handle_join`. -/
structure Admissible (t : Table) (c : Slot) (body : Bytes) : Prop where
  nonempty : 0 < body.length
  short : body.length ≤ chatMaxNick
  named : joinNick body ≠ []
  free : nickTaken t (joinNick body) c = false

instance decidableAdmissible (t : Table) (c : Slot) (body : Bytes) :
    Decidable (Admissible t c body) :=
  decidable_of_iff (0 < body.length ∧ body.length ≤ chatMaxNick ∧ joinNick body ≠ [] ∧
      nickTaken t (joinNick body) c = false)
    ⟨fun h => ⟨h.1, h.2.1, h.2.2.1, h.2.2.2⟩, fun h => ⟨h.nonempty, h.short, h.named, h.free⟩⟩

/-- The writes of the `JOIN_ACK` for the caller's new nick get through. -/
def AckTaken (env : Env) (s : Sys) (c : Slot) (body : Bytes) : Prop :=
  env.Takes (s.srv.clients c).fd .joinAck
    (joinAckText (s.srv.clients c).id (CStr.strncpy chatMaxNick (joinNick body)).bytes) s.log

section Join

variable {t : Table} {c : Slot} {body : Bytes}

theorem Admissible.check (h : Admissible t c body) : checkJoin t c body = .ok (joinNick body) := by
  have len : (body.length = 0 || body.length > chatMaxNick) = false := by
    have nonempty := h.nonempty
    have short := h.short
    simp only [Bool.or_eq_false_iff, decide_eq_false_iff_not]
    omega
  have named : ¬ (body.rdropWhile isNewline).length = 0 :=
    fun zero => h.named (List.length_eq_zero_iff.mp zero)
  have free : nickTaken t (body.rdropWhile isNewline) c = false := h.free
  unfold checkJoin
  simp only [len, Bool.false_eq_true, if_false, if_neg named, free]
  rfl

theorem Admissible.of_check {nick : Bytes} (h : checkJoin t c body = .ok nick) :
    Admissible t c body := by
  obtain ⟨rfl, long, -, free⟩ := checkJoin_ok h
  unfold checkJoin at h
  split at h
  · cases h
  · rename_i len
    simp only [Bool.or_eq_true, decide_eq_true_eq, not_or, not_lt] at len
    exact ⟨Nat.pos_of_ne_zero len.1, len.2, List.ne_nil_of_length_pos long, free⟩

theorem Admissible.fits (h : Admissible t c body) : (joinNick body).length ≤ chatMaxNick :=
  (checkJoin_ok h.check).2.2.1

/-- What is stored is the nick up to its first NUL. -/
theorem Admissible.stored (h : Admissible t c body) :
    (CStr.strncpy chatMaxNick (joinNick body)).bytes = cstr (joinNick body) :=
  storedNick_bytes h.check

/-- The two ways `handle_join` ends: refused, or joined. -/
theorem handleJoin_cases (env : Env) (c : Slot) (body : Bytes) (s : Sys) :
    (¬ Admissible s.srv.clients c body ∧ (handleJoin env c body s).1 = -1 ∧
      (handleJoin env c body s).2.srv = s.srv) ∨
    (Admissible s.srv.clients c body ∧
      ((AckTaken env s c body ∧ (handleJoin env c body s).1 = 0) ∨
        ¬ AckTaken env s c body ∧ (handleJoin env c body s).1 = -1) ∧
      (handleJoin env c body s).2.srv = (s.joinAs c (joinNick body)).srv) := by
  unfold handleJoin
  cases check : checkJoin s.srv.clients c body with
  | error e =>
      refine .inl ⟨fun admissible => ?_, rfl, rfl⟩
      rw [admissible.check] at check
      cases check
  | ok nick =>
      have admissible := Admissible.of_check check
      obtain rfl : joinNick body = nick := Except.ok.inj (admissible.check.symm.trans check)
      refine .inr ⟨admissible, ?_, (acceptJoin_case env c _ s).srv⟩
      have ack : (sendAck env c (joinNick body) s).1 = true ↔ AckTaken env s c body := by
        unfold sendAck AckTaken
        rw [joinAs_self]
        exact sendFrame_iff_takes
      dsimp only
      rw [acceptJoin_eq]
      cases sent : (sendAck env c (joinNick body) s).1 with
      | false => exact .inr ⟨fun taken => absurd (ack.mpr taken) (by simp [sent]), rfl⟩
      | true => exact .inl ⟨ack.mp sent, rfl⟩

/-- Joining changes nothing only for a caller who has joined under the nick. -/
theorem joinAs_same_iff {s : Sys} {nick : Bytes} :
    (s.joinAs c nick).srv.clients = s.srv.clients ↔
      (s.srv.clients c).joined = true ∧ (s.srv.clients c).nick = .strncpy chatMaxNick nick := by
  constructor
  · intro same
    have self := congrFun same c
    rw [joinAs_self] at self
    exact ⟨(congrArg Client.joined self).symm, (congrArg Client.nick self).symm⟩
  · intro before
    obtain ⟨joined, named⟩ := before
    have self : (s.srv.clients c).setJoined (.strncpy chatMaxNick nick) = s.srv.clients c := by
      rw [← named, Client.setJoined, ← joined]
    exact (congrArg (Function.update s.srv.clients c) self).trans (Function.update_eq_self c _)

end Join

/-! ## All or nothing -/

/-- **When `handle_join` is all or nothing.** A call that returns -1 leaves the table
and the history as they were, unless it was the `JOIN_ACK` that failed: the caller
is joined by then. -/
theorem join_atomic_iff (env : Env) (c : Slot) (body : Bytes) (s : Sys) :
    ((handleJoin env c body s).1 = -1 →
      (handleJoin env c body s).2.srv.clients = s.srv.clients ∧
        (handleJoin env c body s).2.srv.history = s.srv.history) ↔
    (Admissible s.srv.clients c body → AckTaken env s c body ∨
      (s.srv.clients c).joined = true ∧
        (s.srv.clients c).nick = .strncpy chatMaxNick (joinNick body)) := by
  rcases handleJoin_cases env c body s with
    ⟨refused, -, same⟩ | ⟨admissible, ⟨taken, result⟩ | ⟨lost, result⟩, joined⟩
  · rw [same]
    exact ⟨fun _ admissible => absurd admissible refused, fun _ _ => ⟨rfl, rfl⟩⟩
  · rw [result]
    exact ⟨fun _ _ => .inl taken, fun _ => nofun⟩
  · rw [result, joined, joinAs_same_iff]
    refine ⟨fun atomic _ => .inr (atomic rfl).1, fun kept _ => ⟨?_, rfl⟩⟩
    exact (kept admissible).resolve_left lost

/-- No write gets through. -/
def Env.broken : Env := fun _ _ => [.error]

/-- Ann's `JOIN_ACK` is lost: the call fails, and she is in the chat. -/
theorem join_half_done :
    let s := [Action.accept 4].foldl (act .broken) .init
    Reachable .broken s ∧ (handleJoin .broken 0 (ascii "ann") s).1 = -1 ∧
      (handleJoin .broken 0 (ascii "ann") s).2.srv.clients ≠ s.srv.clients ∧
      ((handleJoin .broken 0 (ascii "ann") s).2.srv.clients 0).joined = true := by
  intro s
  have before : (s.srv.clients 0).joined = false := by decide +kernel
  have after : ((handleJoin .broken 0 (ascii "ann") s).2.srv.clients 0).joined = true := by
    decide +kernel
  refine ⟨⟨_, .of_enabled (by decide +kernel)⟩, by decide +kernel, fun same => ?_, after⟩
  rw [same, before] at after
  cases after

/-! ## The nick -/

/-- A name: not empty, and not with a line end at its end. -/
structure ProperNick (nick : Bytes) : Prop where
  nonempty : nick ≠ []
  ended : ∀ x ∈ nick.getLast?, isNewline x = false

/-- The complete frame at the head of the slot's buffer. -/
def headFrame (s : Sys) (i : Slot) : Option Frame :=
  match scanFrame (s.srv.clients i).inbuf.bytes with
  | .frame f _ => some f
  | _ => none

/-- A `JOIN` that is accepted has no NUL in its nick. -/
def NulFree (s : Sys) : Action → Prop
  | .frame i => ∀ f ∈ headFrame s i, f.type = MsgType.join.code →
      (s.srv.clients i).joined = false → Admissible s.srv.clients i f.body →
      (0 : UInt8) ∉ joinNick f.body
  | _ => True

instance decidableNulFree (s : Sys) (a : Action) : Decidable (NulFree s a) := by
  cases a <;> unfold NulFree <;> infer_instance

theorem joinNick_proper {body : Bytes} (named : joinNick body ≠ []) :
    ProperNick (joinNick body) := by
  refine ⟨named, fun x last => ?_⟩
  have eq := List.getLast_eq_iff_getLast?_eq_some named |>.mpr last
  have ended : ¬ isNewline ((joinNick body).getLast named) = true :=
    List.rdropWhile_last_not isNewline body named
  rw [eq] at ended
  exact Bool.eq_false_of_not_eq_true ended

/-- Joined clients have proper nicks. -/
def ProperNicks (s : Sys) : Prop :=
  ∀ i, (s.srv.clients i).joined = true → ProperNick (s.srv.clients i).nick.bytes

section Run

variable {env : Env} {s : Sys}

/-- One slot has changed. -/
theorem ProperNicks.of_slot {s' : Sys} (h : ProperNicks s) (c : Slot)
    (others : ∀ i ≠ c, s'.srv.clients i = s.srv.clients i)
    (own : (s'.srv.clients c).joined = true → ProperNick (s'.srv.clients c).nick.bytes) :
    ProperNicks s' := by
  intro i joined
  by_cases eq : i = c
  · rw [eq] at joined ⊢
    exact own joined
  · rw [others i eq] at joined ⊢
    exact h i joined

/-- It was emptied. -/
theorem ProperNicks.closeSlot (h : ProperNicks s) (i : Slot) : ProperNicks (closeSlot i s) := by
  refine h.of_slot i (fun j ne => closeSlot_of_ne i s ne) fun joined => ?_
  rw [closeSlot_self] at joined
  cases joined

theorem ProperNicks.frame (h : ProperNicks s) {c : Slot} (free : NulFree s (.frame c))
    {f : Frame} {need : Nat} (scan : scanFrame (s.srv.clients c).inbuf.bytes = .frame f need) :
    ProperNicks (processFrame env c f need s) := by
  obtain ⟨s', handled, eq⟩ := processFrame_case env c f need s
  have after : ProperNicks s' := by
    refine h.of_slot c (fun i ne => handled.clients_of_ne ne) fun joined => ?_
    rcases handled.identity with same | ⟨nick, accepted, joinedAs⟩
    · rw [(same c).1] at joined
      rw [(same c).2]
      exact h c joined
    · have admissible := Admissible.of_check accepted.check
      obtain rfl : joinNick f.body = nick :=
        Except.ok.inj (admissible.check.symm.trans accepted.check)
      have head : headFrame s c = some f := by
        unfold headFrame
        rw [scan]
      have noNul := free f head accepted.type accepted.fresh admissible
      rw [joinedAs, Client.setJoined, admissible.stored, cstr_eq_self noNul]
      exact joinNick_proper admissible.named
  rw [eq]
  refine after.of_slot c (fun i ne => Sys.clients_setClient_of_ne _ _ ne) fun joined => ?_
  rw [Sys.clients_setClient_self] at joined ⊢
  exact after c joined

theorem properNicks_act (h : ProperNicks s) {a : Action} (free : NulFree s a)
    (enabled : Enabled s a) : ProperNicks (act env s a) := by
  cases a with
  | accept fd =>
      rcases acceptClient_cases env fd s with ⟨i, added, eq⟩ | ⟨-, eq⟩
      · obtain ⟨-, self, others, -, -⟩ := addClient_some added
        rw [act, eq]
        refine h.of_slot i others fun joined => ?_
        rw [self] at joined
        cases joined
      · obtain ⟨d, d', out, out', told⟩ := turnAway_eq env fd (s.note (.accept fd))
        rw [act, eq, told]
        exact h
  | recv i data =>
      refine h.of_slot i (fun j ne => Sys.clients_setClient_of_ne _ _ ne) fun joined => ?_
      rw [act, recvInto, Sys.clients_setClient_self] at joined ⊢
      exact h i joined
  | frame i =>
      obtain ⟨-, f, need, scan⟩ := enabled
      rw [act_frame scan]
      exact h.frame free scan
  | invalid i => exact h.closeSlot i
  | remove i =>
      have same := (srv_removeClientIndex env i s).trans (srv_closeSlot i s).symm
      rw [ProperNicks, act, same]
      exact h.closeSlot i

end Run

/-- **Which nick is stored.** A `JOIN` is accepted only if its nick has 1 to 31 bytes;
what is stored is this nick exactly if it has no NUL; and where no such nick was
accepted, every joined client has a proper one. -/
theorem join_nick_iff (env : Env) :
    (∀ c body s, (handleJoin env c body s).1 = 0 →
      1 ≤ (joinNick body).length ∧ (joinNick body).length ≤ chatMaxNick ∧
        (((handleJoin env c body s).2.srv.clients c).nick.bytes = joinNick body ↔
          (0 : UInt8) ∉ joinNick body)) ∧
    ∀ as s, Run env .init as s → EachStep env NulFree .init as →
      ∀ i, (s.srv.clients i).joined = true → ProperNick (s.srv.clients i).nick.bytes := by
  refine ⟨fun c body s result => ?_, fun as s run each => ?_⟩
  · rcases handleJoin_cases env c body s with
      ⟨-, failed, -⟩ | ⟨admissible, -, joined⟩
    · rw [failed] at result
      cases result
    · refine ⟨List.length_pos_iff.mpr admissible.named, admissible.fits, ?_⟩
      rw [joined, joinAs_self, Client.setJoined, admissible.stored]
      refine ⟨fun same mem => ?_, cstr_eq_self⟩
      exact zero_not_mem_cstr _ (same ▸ mem)
  · have start : ProperNicks Sys.init := fun i joined => by cases joined
    exact Lib.Run.preserves_each run start each fun h free enabled => properNicks_act h free enabled

/-- Ann joins. -/
theorem join_nick_iff_ann :
    ProperNick ((((arrival 0 4 "ann").foldl (act .smooth) .init).srv.clients 0).nick.bytes) :=
  (join_nick_iff .smooth).2 (arrival 0 4 "ann") _ (.of_enabled (by decide +kernel))
    (by decide +kernel) 0 (by decide +kernel)

/-- A `JOIN` of a single NUL is accepted, and its client joins without a name. -/
theorem nameless_join :
    let s := [Action.accept 4, .recv 0 (Message.frame ⟨.join, [0]⟩).encode].foldl
      (act .smooth) .init
    Reachable .smooth (act .smooth s (.frame 0)) ∧ (handleJoin .smooth 0 [0] s).1 = 0 ∧
      joinNick [0] = [0] ∧ ((handleJoin .smooth 0 [0] s).2.srv.clients 0).nick.bytes = [] ∧
      ((act .smooth s (.frame 0)).srv.clients 0).joined = true ∧
      ((act .smooth s (.frame 0)).srv.clients 0).nick.bytes = [] := by
  intro s
  have run : Run .smooth Sys.init
      [.accept 4, .recv 0 (Message.frame ⟨.join, [0]⟩).encode, .frame 0]
      (act .smooth s (.frame 0)) := .of_enabled (by decide +kernel)
  exact ⟨⟨_, run⟩, by decide +kernel, by decide +kernel, by decide +kernel, by decide +kernel,
    by decide +kernel⟩

end Osisp.Chat
