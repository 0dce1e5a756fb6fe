import Osisp.Chat.Invariant

/-!
# What an action means to a joined client

`act_observed` says once what an action can do while a client `o` stays joined:
which messages `o` is sent, and how the roster, the history and the lines change
with them. Only writes to `o` need to get through for this; what happens to the
other connections is free.
-/

namespace Osisp.Chat

open Lib

/-! ## What is added to the trace, as seen on one descriptor -/

/-- From `l` to `l'` the messages `ms` are sent whole on `fd`, and nothing else is
written there; `lines` are built; `fd` is not accepted anew. -/
def Adds (fd : Fd) (ms : List Message) (lines : List Bytes) (l l' : Log) : Prop :=
  ∃ added, l' = l ++ added ∧ messagesTo fd added = ms ∧ linesOf added = lines ∧
    bytesTo fd added = chatCodec.encodeAll (ms.map Message.frame) ∧ .accept fd ∉ added

/-- The event does not show in `Adds fd`. -/
structure Event.Silent (fd : Fd) (e : Event) : Prop where
  messages : e.messagesTo fd = []
  lines : e.lines = []
  bytes : e.bytesTo fd = []
  accept : e ≠ .accept fd

namespace Adds

variable {fd : Fd} {ms ms' : List Message} {lines lines' : List Bytes} {l l' l'' : Log}

theorem refl (fd : Fd) (l : Log) : Adds fd [] [] l l :=
  ⟨[], (List.append_nil l).symm, rfl, rfl, rfl, List.not_mem_nil⟩

theorem trans (first : Adds fd ms lines l l') (second : Adds fd ms' lines' l' l'') :
    Adds fd (ms ++ ms') (lines ++ lines') l l'' := by
  obtain ⟨a, rfl, rfl, rfl, bytes, fresh⟩ := first
  obtain ⟨b, rfl, rfl, rfl, bytes', fresh'⟩ := second
  refine ⟨a ++ b, List.append_assoc _ _ _, messagesTo_append _ _ _, linesOf_append _ _, ?_,
    fun mem => (List.mem_append.mp mem).elim fresh fresh'⟩
  rw [bytesTo_append, bytes, bytes', List.map_append, Codec.encodeAll_append]

theorem of_silent (h : Appends (Event.Silent fd) l l') : Adds fd [] [] l l' := by
  obtain ⟨added, rfl, silent⟩ := h
  refine ⟨added, rfl, ?_, ?_, ?_, fun mem => (silent _ mem).accept rfl⟩
  · exact List.flatMap_eq_nil_iff.mpr fun e mem => (silent e mem).messages
  · exact List.flatMap_eq_nil_iff.mpr fun e mem => (silent e mem).lines
  · exact List.flatMap_eq_nil_iff.mpr fun e mem => (silent e mem).bytes

theorem line (fd : Fd) (text : Bytes) (l : Log) : Adds fd [] [text] l (l ++ [.line text]) :=
  ⟨_, rfl, rfl, rfl, rfl, by simp⟩

theorem messagesTo_eq (h : Adds fd ms lines l l') :
    messagesTo fd l' = messagesTo fd l ++ ms := by
  obtain ⟨added, rfl, rfl, -, -, -⟩ := h
  exact messagesTo_append _ _ _

theorem linesOf_eq (h : Adds fd ms lines l l') : linesOf l' = linesOf l ++ lines := by
  obtain ⟨added, rfl, -, rfl, -, -⟩ := h
  exact linesOf_append _ _

end Adds

section SendsAdds

variable {env : Env} {P : Fd → Message → Prop} {fd : Fd} {l l' : Log}

/-- Sending, where `fd` is known to get exactly `ms`. -/
theorem Sends.adds (h : Sends env P l l') (ok : env.Delivers fd) {ms : List Message}
    (sent : messagesTo fd l' = messagesTo fd l ++ ms) : Adds fd ms [] l l' := by
  obtain ⟨ms', messages, bytes, -⟩ := h.stream ok
  have same : ms' = ms := List.append_cancel_left (messages.symm.trans sent)
  obtain ⟨added, rfl, sending⟩ := h.appends_sending
  rw [messagesTo_append] at sent
  rw [bytesTo_append, same] at bytes
  refine ⟨added, rfl, List.append_cancel_left sent, ?_, List.append_cancel_left bytes,
    fun mem => sending _ mem⟩
  refine List.flatMap_eq_nil_iff.mpr fun e mem => ?_
  have sends := sending e mem
  cases e <;> first | rfl | exact sends.elim

/-- Sending of which `fd` gets some messages. -/
theorem Sends.adds_some (h : Sends env P l l') (ok : env.Delivers fd) :
    ∃ ms, (∀ m ∈ ms, P fd m) ∧ Adds fd ms [] l l' := by
  obtain ⟨ms, messages, -, allowed⟩ := h.stream ok
  exact ⟨ms, allowed, h.adds ok messages⟩

end SendsAdds

/-! ## The cases of an action -/

/-- How a slot appears in the roster of joined clients. -/
def Client.roster (c : Client) : Option (CStr chatMaxNick) := if c.joined then some c.nick else none

/-- Everyone but the clients in `moved` is in the roster as before. -/
def SameRoster (moved : Slot → Prop) (s s' : Sys) : Prop :=
  ∀ j, ¬ moved j → (s'.srv.clients j).roster = (s.srv.clients j).roster

def joinMessage (nick : Bytes) : Message := ⟨.notify, noteBody (joinNote nick)⟩

def partMessage (nick : Bytes) : Message := ⟨.notify, noteBody (partNote nick)⟩

/-- What the action `a` from `s` to `s'` can be to the joined client in slot
`o`. -/
inductive Observed (env : Env) (o : Slot) (s : Sys) (a : Action) (s' : Sys) : Prop
  /-- At most private messages, or answers to a request of `o`. -/
  | quiet (ms : List Message) :
    SameRoster (fun _ => False) s s' → s'.srv.history = s.srv.history →
    (∀ m ∈ ms, m.type = .privateMsg ∧ m.body.length ≤ chatMaxBody ∨
      a = .frame o ∧ m.type.isAnswer = true) →
    Adds (s.srv.clients o).fd ms [] s.log s'.log → Observed env o s a s'
  | spoke {line : Bytes} :
    SameRoster (fun _ => False) s s' → 0 ∉ line →
    s'.srv.history = s.srv.history.push (.strncpy chatMaxBody line) →
    Adds (s.srv.clients o).fd [⟨.broadcast, line.take chatMaxBody⟩] [line] s.log s'.log →
    Observed env o s a s'
  /-- A newcomer is announced if its `JOIN_ACK` gets through. -/
  | joins {c : Slot} {f : Frame} {need : Nat} {nick : Bytes} {ms : List Message} :
    c ≠ o → a = .frame c → scanFrame (s.srv.clients c).inbuf.bytes = .frame f need →
    JoinAccepted s.srv.clients c f nick →
    (s'.srv.clients c).roster = some (.strncpy chatMaxNick nick) →
    SameRoster (· = c) s s' → s'.srv.history = s.srv.history →
    ((sendAck env c nick (s.note (.frame c f))).1 = true ∧
        ms = [joinMessage (CStr.strncpy chatMaxNick nick).bytes] ∨
      (sendAck env c nick (s.note (.frame c f))).1 = false ∧ ms = []) →
    Adds (s.srv.clients o).fd ms [] s.log s'.log → Observed env o s a s'
  /-- Only `remove_client_index` announces that a client left. -/
  | leaves {c : Slot} {ms : List Message} :
    c ≠ o → (s.srv.clients c).joined = true → (s'.srv.clients c).roster = none →
    SameRoster (· = c) s s' → s'.srv.history = s.srv.history →
    (a = .remove c ∧ ms = [partMessage (s.srv.clients c).nick.bytes] ∨
      a = .invalid c ∧ ms = []) →
    Adds (s.srv.clients o).fd ms [] s.log s'.log → Observed env o s a s'

theorem roster_eq_none {c : Client} : c.roster = none ↔ c.joined = false := by
  unfold Client.roster
  cases c.joined <;> simp

theorem roster_of_joined {c : Client} (joined : c.joined = true) : c.roster = some c.nick :=
  if_pos joined

theorem roster_eq_some {c : Client} {stored : CStr chatMaxNick} :
    c.roster = some stored ↔ c.joined = true ∧ c.nick = stored := by
  unfold Client.roster
  cases c.joined <;> simp

/-! ## The actions one by one -/

section Actions

variable {env : Env} {o : Slot} {s : Sys}

/-- The descriptor of `o` is its own. -/
theorem Inv.ne_fd (inv : Inv s) (joined : (s.srv.clients o).joined = true) {c : Slot}
    (used : (s.srv.clients c).used = true) (ne : c ≠ o) :
    (s.srv.clients o).fd ≠ (s.srv.clients c).fd := fun same =>
  ne (inv.distinct o c (inv.used_of_joined joined) used same).symm

theorem closeSlot_silent (fd : Fd) (i : Slot) (s : Sys) :
    Adds fd [] [] s.log (closeSlot i s).log := by
  rw [log_closeSlot]
  split
  · exact .of_silent (Appends.single ⟨rfl, rfl, rfl, nofun⟩)
  · exact .refl fd s.log

theorem closeSlot_roster (i : Slot) (s : Sys) : SameRoster (· = i) s (closeSlot i s) :=
  fun j ne => by rw [closeSlot_of_ne i s ne]

theorem closeSlot_history (i : Slot) (s : Sys) :
    (closeSlot i s).srv.history = s.srv.history := by
  unfold closeSlot
  rw [Sys.history_setClient]
  split <;> rfl

/-- The client that is told something by a loop over the table. -/
theorem sendAll_adds (inv : Inv s) (joined : (s.srv.clients o).joined = true)
    (ok : env.Delivers (s.srv.clients o).fd) {t : Table}
    (same : ∀ j, Client.SameConn (t j) (s.srv.clients j)) (joinedT : (t o).joined = true)
    (type : MsgType) (body : Bytes) (skip : Option Slot) (skipped : skip ≠ some o) (log : Log) :
    Adds (s.srv.clients o).fd [⟨type, body⟩] [] log (sendAll env t type body skip log) := by
  obtain ⟨fdO, usedO, -, -⟩ := same o
  have activeO : (t o).active = true := by
    rw [Client.active, usedO, inv.used_of_joined joined, joinedT]
    rfl
  refine (sendAll_sends env t type body skip log).adds ok ?_
  rw [← fdO] at ok ⊢
  refine messagesTo_sendAll type body log ok activeO skipped fun j active sameFd => ?_
  obtain ⟨fdJ, usedJ, -, -⟩ := same j
  have used : (s.srv.clients j).used = true := by
    rw [← usedJ]
    exact (Bool.and_eq_true_iff.mp active).1
  exact inv.distinct j o used (inv.used_of_joined joined) (by rw [← fdJ, ← fdO, sameFd])

/-- The descriptor of a slot in use is not accepted again, and a newcomer who is
turned away is told on its own descriptor. -/
theorem acceptClient_silent (inv : Inv s) (used : (s.srv.clients o).used = true) {fd : Fd}
    (fresh : fd ∉ openFds s.log) :
    Adds (s.srv.clients o).fd [] [] s.log (acceptClient env fd s).log := by
  have ne : (s.srv.clients o).fd ≠ fd := fun same =>
    fresh ((inv.opened fd).mpr ⟨o, used, same⟩)
  have accepted : Event.Silent (s.srv.clients o).fd (.accept fd) :=
    ⟨rfl, rfl, rfl, fun same => ne (Event.accept.inj same).symm⟩
  rcases acceptClient_cases env fd s with ⟨i, added, eq⟩ | ⟨-, eq⟩
  · obtain ⟨-, -, -, log, -⟩ := addClient_some added
    rw [eq, log]
    exact .of_silent (Appends.single accepted)
  · obtain ⟨d, d', out, out', told⟩ := turnAway_eq env fd (s.note (.accept fd))
    rw [eq, told]
    have write (d : Bytes) (out : WriteOut) :
        Event.Silent (s.srv.clients o).fd (.write fd d out) :=
      ⟨rfl, rfl, if_neg ne.symm, nofun⟩
    refine .of_silent ?_
    exact (((Appends.single accepted).trans (Appends.single (write d out))).trans
      (Appends.single (write d' out'))).trans (Appends.single ⟨rfl, rfl, rfl, nofun⟩)

theorem accept_observed (inv : Inv s) (joined : (s.srv.clients o).joined = true) {fd : Fd}
    (fresh : fd ∉ openFds s.log) :
    Observed env o s (.accept fd) (acceptClient env fd s) := by
  have silent : Adds (s.srv.clients o).fd [] [] s.log (acceptClient env fd s).log :=
    acceptClient_silent inv (inv.used_of_joined joined) fresh
  rcases acceptClient_cases env fd s with ⟨i, added, eq⟩ | ⟨-, eq⟩
  · obtain ⟨free, self, others, -, history⟩ := addClient_some added
    refine .quiet [] (fun j _ => ?_) (by rw [eq]; exact history) nofun silent
    by_cases ij : j = i
    · have reset : s.srv.clients i = .free := inv.unused i free
      rw [eq, ij, self, reset]
      rfl
    · rw [eq, others j ij]
      rfl
  · obtain ⟨d, d', out, out', told⟩ := turnAway_eq env fd (s.note (.accept fd))
    refine .quiet [] (fun j _ => ?_) ?_ nofun silent
    · rw [eq, told]
      rfl
    · rw [eq, told]
      rfl

theorem recv_observed (i : Slot) (data : Bytes) :
    Observed env o s (.recv i data) (recvInto i data s) := by
  refine .quiet [] (fun j _ => ?_) rfl nofun
    (.of_silent (Appends.single ⟨rfl, rfl, rfl, nofun⟩))
  by_cases ij : j = i
  · rw [ij, recvInto, Sys.clients_setClient_self]
    rfl
  · rw [recvInto, Sys.clients_setClient_of_ne _ _ ij]
    rfl

theorem invalid_observed {c : Slot} (ne : c ≠ o) :
    Observed env o s (.invalid c) (closeSlot c s) := by
  have gone : ((closeSlot c s).srv.clients c).roster = none := by
    rw [closeSlot_self]
    rfl
  cases joined : (s.srv.clients c).joined with
  | true =>
      exact .leaves ne joined gone (closeSlot_roster c s) (closeSlot_history c s)
        (Or.inr ⟨rfl, rfl⟩) (closeSlot_silent _ c s)
  | false =>
      refine .quiet [] (fun j _ => ?_) (closeSlot_history c s) nofun
        (closeSlot_silent _ c s)
      by_cases jc : j = c
      · rw [jc, gone, roster_eq_none.mpr joined]
      · exact closeSlot_roster c s j jc

theorem remove_observed (inv : Inv s) (joined : (s.srv.clients o).joined = true)
    (ok : env.Delivers (s.srv.clients o).fd) {c : Slot} (ne : c ≠ o) :
    Observed env o s (.remove c) (removeClientIndex env c s) := by
  unfold removeClientIndex
  dsimp only
  cases joinedC : (s.srv.clients c).joined with
  | true =>
      have told := sendAll_adds inv joined ok (t := s.srv.clients) (fun _ => ⟨rfl, rfl, rfl, rfl⟩)
        joined .notify (noteBody (partNote (s.srv.clients c).nick.bytes)) (some c)
        (fun same => ne (Option.some.inj same)) s.log
      rw [if_pos rfl]
      exact .leaves ne joinedC (by rw [closeSlot_self]; rfl) (closeSlot_roster c _)
        (closeSlot_history c _) (Or.inl ⟨rfl, rfl⟩) (told.trans (closeSlot_silent _ c _))
  | false =>
      rw [if_neg Bool.false_ne_true]
      refine .quiet [] (fun j _ => ?_) (closeSlot_history c s) nofun
        (closeSlot_silent _ c s)
      by_cases jc : j = c
      · rw [jc, closeSlot_self, roster_eq_none.mpr joinedC]
        rfl
      · exact closeSlot_roster c s j jc

/-- Consuming the frame does not show. -/
theorem setInbuf_roster (c : Slot) (s : Sys) (inbuf : Buf recvCap) (j : Slot) :
    ((s.setClient c ((s.srv.clients c).setInbuf inbuf)).srv.clients j).roster =
      (s.srv.clients j).roster := by
  by_cases jc : j = c
  · rw [jc, Sys.clients_setClient_self]
    rfl
  · rw [Sys.clients_setClient_of_ne _ _ jc]

theorem zero_not_mem_broadcastLine (nick : CStr chatMaxNick) (body : Bytes) :
    0 ∉ broadcastLine nick.bytes body := by
  intro mem
  have whole := List.mem_of_mem_take mem
  rcases List.mem_append.mp whole with left | right
  · rcases List.mem_append.mp left with name | colon
    · exact nick.noNul name
    · exact absurd colon (by decide +kernel)
  · exact zero_not_mem_cstr body right

theorem acceptJoin_observed (inv : Inv s) (joined : (s.srv.clients o).joined = true)
    (ok : env.Delivers (s.srv.clients o).fd) {c : Slot} (used : (s.srv.clients c).used = true)
    {nick : Bytes} (fresh : (s.srv.clients c).joined = false) {s' : Sys}
    (h : AcceptJoinCase env c nick s s') :
    ∃ ms, ((sendAck env c nick s).1 = true ∧
        ms = [joinMessage (CStr.strncpy chatMaxNick nick).bytes] ∨
      (sendAck env c nick s).1 = false ∧ ms = []) ∧
      Adds (s.srv.clients o).fd ms [] s.log s'.log := by
  have ne : o ≠ c := by
    rintro rfl
    rw [fresh] at joined
    cases joined
  have apart := inv.ne_fd joined used ne.symm
  have fdC : ((s.joinAs c nick).srv.clients c).fd = (s.srv.clients c).fd := by
    rw [joinAs_self]
    rfl
  have silentAck : messagesTo (s.srv.clients o).fd (sendAck env c nick s).2 =
      messagesTo (s.srv.clients o).fd s.log :=
    messagesTo_of_other (sendFrame_appends env _ _ _ _) (by rw [fdC]; exact apart)
  cases h with
  | ackLost lost =>
      refine ⟨[], Or.inr ⟨lost, rfl⟩, (AcceptJoinCase.ackLost lost).sends.adds ok ?_⟩
      rw [Sys.log_withLog, silentAck, List.append_nil]
  | admitted acked =>
      refine ⟨_, Or.inl ⟨acked, rfl⟩, (AcceptJoinCase.admitted acked).sends.adds ok ?_⟩
      have same : ∀ j, Client.SameConn ((s.joinAs c nick).srv.clients j) (s.srv.clients j) := by
        intro j
        by_cases jc : j = c
        · rw [jc, joinAs_self]
          exact ⟨rfl, rfl, rfl, rfl⟩
        · rw [joinAs_of_ne jc]
          exact ⟨rfl, rfl, rfl, rfl⟩
      have told := sendAll_adds inv joined ok same (by rw [joinAs_of_ne ne]; exact joined) .notify
        (noteBody (joinNote ((s.joinAs c nick).srv.clients c).nick.bytes)) (some c)
        (fun eq => ne (Option.some.inj eq).symm)
        (sendLines env ((s.joinAs c nick).srv.clients c).fd s.srv.history.toList
          (sendAck env c nick s).2)
      have silentHistory := (sendLines_sends env ((s.joinAs c nick).srv.clients c).fd
        s.srv.history.toList (sendAck env c nick s).2).messagesTo_eq
        (s.srv.clients o).fd fun m allowed => apart (allowed.1.trans fdC)
      rw [Sys.log_withLog, acceptJoinLog, told.messagesTo_eq, silentHistory, silentAck, joinAs_self]
      rfl

theorem processFrame_observed (inv : Inv s) (joined : (s.srv.clients o).joined = true)
    (ok : env.Delivers (s.srv.clients o).fd) {c : Slot} (used : (s.srv.clients c).used = true)
    {f : Frame} {need : Nat} (scan : scanFrame (s.srv.clients c).inbuf.bytes = .frame f need) :
    Observed env o s (.frame c) (processFrame env c f need s) := by
  obtain ⟨s', handled, eq⟩ := processFrame_case env c f need s
  have noted : Adds (s.srv.clients o).fd [] [] s.log (s.note (.frame c f)).log :=
    .of_silent (Appends.single ⟨rfl, rfl, rfl, nofun⟩)
  have invNoted : Inv (s.note (.frame c f)) := inv.withLog (Appends.single ⟨nofun, nofun⟩)
  rw [eq]
  cases handled with
  | @quiet log sends =>
      rw [← eq]
      have roster : SameRoster (fun _ => False) s (processFrame env c f need s) := fun j _ => by
        rw [eq]
        exact setInbuf_roster c _ _ j
      have history : (processFrame env c f need s).srv.history = s.srv.history := by
        rw [eq]
        rfl
      have log' : (processFrame env c f need s).log = log := by
        rw [eq]
        rfl
      by_cases co : c = o
      · obtain ⟨ms, answers, adds⟩ := sends.adds_some ok
        exact .quiet ms roster history (fun m mem => Or.inr ⟨by rw [co], (answers m mem).2⟩)
          (log' ▸ noted.trans adds)
      · have apart := inv.ne_fd joined used co
        have nothing := sends.messagesTo_eq (s.srv.clients o).fd
          fun m allowed => apart allowed.1
        exact .quiet [] roster history nofun
          (log' ▸ noted.trans (sends.adds ok (by rw [nothing, List.append_nil])))
  | @join nick accepted =>
      have ne : c ≠ o := by
        rintro rfl
        have fresh := accepted.fresh
        rw [Sys.srv_note, joined] at fresh
        cases fresh
      have admitted := acceptJoin_case env c nick (s.note (.frame c f))
      obtain ⟨ms, verdict, adds⟩ :=
        acceptJoin_observed invNoted joined ok used accepted.fresh admitted
      refine .joins ne rfl scan accepted ?_ (fun j jc => ?_) ?_ verdict (noted.trans adds)
      · rw [setInbuf_roster, admitted.srv, joinAs_self]
        rfl
      · rw [setInbuf_roster, admitted.srv, joinAs_of_ne jc]
        rfl
      · rw [Sys.history_setClient, admitted.srv]
        rfl
  | broadcast _ joinedC =>
      rw [handleBroadcast_of_joined env joinedC]
      refine .spoke (fun j _ => setInbuf_roster c _ _ j) (zero_not_mem_broadcastLine _ _) rfl ?_
      have told := sendAll_adds inv joined ok (t := s.srv.clients)
        (fun _ => ⟨rfl, rfl, rfl, rfl⟩) joined .broadcast
        ((broadcastLine (s.srv.clients c).nick.bytes f.body).take chatMaxBody) none
        (Option.some_ne_none o).symm
        (s.log ++ [.frame c f] ++ [.line (broadcastLine (s.srv.clients c).nick.bytes f.body)])
      exact noted.trans ((Adds.line _ _ _).trans told)
  | @privateMsg dest target msg accepted =>
      have sends := sendPrivate_sends env s.srv.clients c dest
        ((privateLine (s.srv.clients c).nick.bytes target msg).take chatMaxBody)
        (s.note (.frame c f)).log
      obtain ⟨ms, allowed, adds⟩ := sends.adds_some ok
      refine .quiet ms (fun j _ => setInbuf_roster c _ _ j) rfl (fun m mem => Or.inl ?_)
        (noted.trans adds)
      rw [(allowed m mem).1]
      exact ⟨rfl, List.length_take_le _ _⟩

end Actions

/-! ## Any action -/

section Any

variable {env : Env} {o : Slot} {s : Sys} {a : Action}

/-- **Inversion of an action**, for a client that stays joined. -/
theorem act_observed (inv : Inv s) (enabled : Enabled s a)
    (joined : (s.srv.clients o).joined = true)
    (still : ((act env s a).srv.clients o).joined = true)
    (ok : env.Delivers (s.srv.clients o).fd) : Observed env o s a (act env s a) := by
  cases a with
  | accept fd => exact accept_observed inv joined enabled.2
  | recv i data => exact recv_observed i data
  | frame c =>
      obtain ⟨used, f, need, scan⟩ := enabled
      rw [act_frame scan]
      exact processFrame_observed inv joined ok used scan
  | invalid c =>
      have ne : c ≠ o := by
        rintro rfl
        rw [act, closeSlot_self] at still
        cases still
      exact invalid_observed ne
  | remove c =>
      have ne : c ≠ o := by
        rintro rfl
        rw [act, removeClientIndex, closeSlot_self] at still
        cases still
      exact remove_observed inv joined ok ne

/-- The actions of the others leave a slot in use as it is. -/
theorem act_of_other (used : (s.srv.clients o).used = true) (other : a.slot ≠ some o) :
    (act env s a).srv.clients o = s.srv.clients o := by
  have apart {c : Slot} (slot : a.slot = some c) : o ≠ c := fun eq => other (slot.trans (eq ▸ rfl))
  cases a with
  | accept fd =>
      rcases acceptClient_cases env fd s with ⟨i, added, eq⟩ | ⟨-, eq⟩
      · obtain ⟨free, -, others, -, -⟩ := addClient_some added
        have ne : o ≠ i := by
          rintro rfl
          rw [Sys.srv_note, used] at free
          cases free
        rw [act, eq, others o ne]
        rfl
      · obtain ⟨d, d', out, out', told⟩ := turnAway_eq env fd (s.note (.accept fd))
        rw [act, eq, told]
        rfl
  | recv i data =>
      rw [act, recvInto, Sys.clients_setClient_of_ne _ _ (apart rfl)]
      rfl
  | frame c =>
      unfold act
      dsimp only
      split
      · exact processFrame_of_ne env c _ _ s (apart rfl)
      · rfl
  | invalid c => exact closeSlot_of_ne c s (apart rfl)
  | remove c =>
      rw [act, removeClientIndex, closeSlot_of_ne c _ (apart rfl)]
      split <;> rfl

/-- A slot that stays used keeps its connection: the descriptor is the same, and a
client that has joined stays joined. -/
theorem act_stays (enabled : Enabled s a) (used : (s.srv.clients o).used = true)
    (still : ((act env s a).srv.clients o).used = true) :
    ((act env s a).srv.clients o).fd = (s.srv.clients o).fd ∧
      ((s.srv.clients o).joined = true → ((act env s a).srv.clients o).joined = true) := by
  by_cases own : a.slot = some o
  · cases a with
    | accept fd => cases own
    | recv i data =>
        cases own
        rw [act, recvInto, Sys.clients_setClient_self]
        exact ⟨rfl, id⟩
    | frame c =>
        cases own
        obtain ⟨-, f, need, scan⟩ := enabled
        rw [act_frame scan]
        refine ⟨by rw [(processFrame_sameConn env o f need s).1]; rfl, fun joined => ?_⟩
        obtain ⟨s', handled, eq⟩ := processFrame_case env o f need s
        rw [eq, Sys.clients_setClient_self]
        rcases handled.identity with same | ⟨nick, -, self⟩
        · exact (same o).1.trans joined
        · rw [self]
          rfl
    | invalid c =>
        cases own
        rw [act, closeSlot_self] at still
        cases still
    | remove c =>
        cases own
        rw [act, removeClientIndex, closeSlot_self] at still
        cases still
  · rw [act_of_other used own]
    exact ⟨rfl, id⟩

/-- Only an accepted connection brings a slot into use. -/
theorem act_opens (enabled : Enabled s a) (free : (s.srv.clients o).used = false)
    (used : ((act env s a).srv.clients o).used = true) :
    (act env s a).log = s.log ++ [.accept ((act env s a).srv.clients o).fd] := by
  have close (s : Sys) (c : Slot) (free : (s.srv.clients o).used = false) :
      ((closeSlot c s).srv.clients o).used ≠ true := by
    by_cases oc : o = c
    · rw [oc, closeSlot_self]
      nofun
    · rw [closeSlot_of_ne c s oc, free]
      nofun
  cases a with
  | accept fd =>
      rcases acceptClient_cases env fd s with ⟨i, added, eq⟩ | ⟨full, -⟩
      · obtain ⟨-, self, others, log, -⟩ := addClient_some added
        by_cases oi : o = i
        · rw [act, eq, log, oi, self]
          rfl
        · rw [act, eq, others o oi, Sys.srv_note, free] at used
          cases used
      · rw [full o] at free
        cases free
  | recv i data =>
      have ne : o ≠ i := by
        rintro rfl
        rw [enabled] at free
        cases free
      rw [act, recvInto, Sys.clients_setClient_of_ne _ _ ne] at used
      rw [Sys.srv_note, free] at used
      cases used
  | frame c =>
      obtain ⟨usedC, f, need, scan⟩ := enabled
      have ne : o ≠ c := by
        rintro rfl
        rw [usedC] at free
        cases free
      rw [act_frame scan, processFrame_of_ne env c f need s ne, free] at used
      cases used
  | invalid c => exact absurd used (close s c free)
  | remove c =>
      rw [act, removeClientIndex] at used
      refine absurd used (close _ c ?_)
      split <;> exact free

end Any

/-! ## Before the client has joined -/

section Unjoined

variable {env : Env} {o : Slot} {s : Sys}

/-- The greeting of a newcomer whose connection is `c`. -/
def greeting (c : Client) (history : List (CStr chatMaxBody)) : List Message :=
  ⟨.joinAck, joinAckText c.id c.nick.bytes⟩ ::
    history.map fun line => ⟨.history, line.bytes⟩

/-- A newcomer is sent its acknowledgement and the history. -/
theorem acceptJoin_greets (inv : Inv s) (used : (s.srv.clients o).used = true)
    (ok : env.Delivers (s.srv.clients o).fd) {nick : Bytes} {s' : Sys}
    (h : AcceptJoinCase env o nick s s') :
    Adds (s.srv.clients o).fd (greeting (s'.srv.clients o) s.srv.history.toList) []
      s.log s'.log := by
  have self : s'.srv.clients o = (s.joinAs o nick).srv.clients o := by rw [h.srv]
  have fd : ((s.joinAs o nick).srv.clients o).fd = (s.srv.clients o).fd := by
    rw [joinAs_self]
    rfl
  refine h.sends.adds ok ?_
  rw [self]
  rw [← fd] at ok ⊢
  cases h with
  | ackLost lost =>
      have sent : (sendAck env o nick s).1 = true := sendFrame_ok ok _ _ _
      rw [lost] at sent
      cases sent
  | admitted =>
      -- the notice goes to the others
      have others := (sendAll_sends env (s.joinAs o nick).srv.clients .notify
        (noteBody (joinNote ((s.joinAs o nick).srv.clients o).nick.bytes)) (some o)
        (sendLines env ((s.joinAs o nick).srv.clients o).fd s.srv.history.toList
          (sendAck env o nick s).2)).messagesTo_eq
        ((s.joinAs o nick).srv.clients o).fd (by
          intro m reached
          rcases reached with ⟨-, i, active, skipped, same⟩
          have ne : i ≠ o := fun eq => skipped (eq ▸ rfl)
          rw [joinAs_of_ne ne] at active same
          exact ne (inv.distinct i o (Bool.and_eq_true_iff.mp active).1 used (same.trans fd)))
      rw [Sys.log_withLog, acceptJoinLog, others, messagesTo_sendLines ok, sendAck,
        messagesTo_sendFrame ok, List.append_assoc]
      rfl

/-- The frame by which a client joins. -/
theorem processFrame_joins (inv : Inv s) (used : (s.srv.clients o).used = true)
    (ok : env.Delivers (s.srv.clients o).fd) (fresh : (s.srv.clients o).joined = false)
    {f : Frame} {need : Nat}
    (joined : ((processFrame env o f need s).srv.clients o).joined = true) :
    (processFrame env o f need s).srv.history = s.srv.history ∧
    Adds (s.srv.clients o).fd
      (greeting ((processFrame env o f need s).srv.clients o) s.srv.history.toList) []
      s.log (processFrame env o f need s).log := by
  obtain ⟨s', handled, eq⟩ := processFrame_case env o f need s
  have noted : Adds (s.srv.clients o).fd [] [] s.log (s.note (.frame o f)).log :=
    .of_silent (Appends.single ⟨rfl, rfl, rfl, nofun⟩)
  have invNoted : Inv (s.note (.frame o f)) := inv.withLog (Appends.single ⟨nofun, nofun⟩)
  have joined' : (s'.srv.clients o).joined = true := by
    rwa [eq, Sys.clients_setClient_self] at joined
  have greeted : greeting ((processFrame env o f need s).srv.clients o) =
      greeting (s'.srv.clients o) := by
    rw [eq, Sys.clients_setClient_self]
    rfl
  rw [greeted, eq, Sys.history_setClient, Sys.log_setClient]
  have unchanged : (s'.srv.clients o).joined ≠ (s.srv.clients o).joined := by
    rw [joined', fresh]
    nofun
  cases handled with
  | quiet _ => exact absurd rfl unchanged
  | @join nick accepted =>
      have admitted := acceptJoin_case env o nick (s.note (.frame o f))
      refine ⟨?_, noted.trans (acceptJoin_greets invNoted used ok admitted)⟩
      rw [admitted.srv]
      rfl
  | broadcast _ joinedO =>
      rw [Sys.srv_note, fresh] at joinedO
      cases joinedO
  | privateMsg _ => exact absurd rfl unchanged

theorem checkPrivate_joined {t : Table} {body target msg : Bytes} {dest : Slot}
    (h : checkPrivate t body = .ok (dest, target, msg)) : (t dest).joined = true :=
  (Bool.and_eq_true_iff.mp (checkPrivate_ok h).2.2.2.2.2.1).2

/-- A loop over the joined clients does not reach one that has not joined. -/
theorem Inv.unreached (inv : Inv s) (used : (s.srv.clients o).used = true)
    (fresh : (s.srv.clients o).joined = false) {i : Slot}
    (joined : (s.srv.clients i).joined = true) :
    (s.srv.clients o).fd ≠ (s.srv.clients i).fd := by
  intro same
  rw [inv.distinct o i used (inv.used_of_joined joined) same, joined] at fresh
  cases fresh

/-- A client that has not joined is sent nothing but answers to its requests. -/
theorem act_unjoined {a : Action} (inv : Inv s) (enabled : Enabled s a)
    (used : (s.srv.clients o).used = true) (fresh : (s.srv.clients o).joined = false)
    (unjoined : ((act env s a).srv.clients o).joined = false)
    (ok : env.Delivers (s.srv.clients o).fd) :
    ∃ ms lines, (∀ m ∈ ms, m.type.isAnswer = true) ∧
      Adds (s.srv.clients o).fd ms lines s.log (act env s a).log := by
  have quiet {P : Fd → Message → Prop} {l l' : Log} (sends : Sends env P l l')
      (never : ∀ m, ¬ P (s.srv.clients o).fd m) : Adds (s.srv.clients o).fd [] [] l l' :=
    sends.adds ok (by rw [sends.messagesTo_eq _ never, List.append_nil])
  have all (type : MsgType) (body : Bytes) (skip : Option Slot) (log : Log) :
      Adds (s.srv.clients o).fd [] [] log (sendAll env s.srv.clients type body skip log) :=
    quiet (sendAll_sends _ _ _ _ _ _) fun m reached => by
      obtain ⟨-, i, active, -, same⟩ := reached
      exact inv.unreached used fresh (Bool.and_eq_true_iff.mp active).2 same.symm
  have none : ∀ m ∈ ([] : List Message), m.type.isAnswer = true :=
    fun _ mem => absurd mem List.not_mem_nil
  have silent {lines : List Bytes} (adds : Adds (s.srv.clients o).fd [] lines s.log
      (act env s a).log) : ∃ ms lines, (∀ m ∈ ms, m.type.isAnswer = true) ∧
      Adds (s.srv.clients o).fd ms lines s.log (act env s a).log := ⟨[], lines, none, adds⟩
  cases a with
  | accept fd => exact silent (acceptClient_silent inv used enabled.2)
  | recv i data => exact silent (.of_silent (Appends.single ⟨rfl, rfl, rfl, fun eq => by cases eq⟩))
  | invalid c => exact silent (closeSlot_silent _ c s)
  | remove c =>
      refine ⟨[], [], none, ?_⟩
      rw [act, removeClientIndex]
      split
      · exact (all _ _ _ _).trans (closeSlot_silent _ c _)
      · exact closeSlot_silent _ c s
  | frame c =>
      obtain ⟨usedC, f, need, scan⟩ := enabled
      rw [act_frame scan] at unjoined silent ⊢
      obtain ⟨s', handled, eq⟩ := processFrame_case env c f need s
      have noted : Adds (s.srv.clients o).fd [] [] s.log (s.note (.frame c f)).log :=
        .of_silent (Appends.single ⟨rfl, rfl, rfl, fun eq => by cases eq⟩)
      have log : (processFrame env c f need s).log = s'.log := by rw [eq]; rfl
      rw [log] at silent ⊢
      cases handled with
      | quiet sends =>
          obtain ⟨ms, answers, adds⟩ := sends.adds_some ok
          exact ⟨ms, [], fun m mem => (answers m mem).2, noted.trans adds⟩
      | @join nick accepted =>
          have admitted := acceptJoin_case env c nick (s.note (.frame c f))
          have ne : c ≠ o := by
            rintro rfl
            rw [eq, Sys.clients_setClient_self, Client.setInbuf, admitted.srv,
              joinAs_self] at unjoined
            cases unjoined
          refine silent (noted.trans (quiet admitted.sends ?_))
          intro m reached
          rcases reached with ⟨same, -⟩ | ⟨-, i, -, active, same⟩
          · exact ne (inv.distinct o c used usedC same).symm
          · exact inv.unreached used fresh (Bool.and_eq_true_iff.mp active).2 same.symm
      | broadcast _ joinedC =>
          rw [handleBroadcast_of_joined env joinedC] at silent ⊢
          exact silent (noted.trans ((Adds.line _ _ _).trans (all _ _ _ _)))
      | @privateMsg dest target msg accepted =>
          refine silent (noted.trans (quiet (sendPrivate_sends _ _ _ _ _ _) ?_))
          intro m reached
          rcases reached with ⟨-, same | same⟩
          · exact inv.unreached used fresh (checkPrivate_joined accepted.check) same
          · exact inv.unreached used fresh accepted.joined same

end Unjoined

end Osisp.Chat
