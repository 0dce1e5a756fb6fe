import Osisp.Chat.TotalOrder

/-!
# Who reads a private message

A private message that a client is shown was written by a client, the one that it names
as its author, and it is shown to its author and to the client of the name it is written
to, to nobody else (`private_messages`).
-/

namespace Osisp.Chat

open Lib

section Whispers

variable {ι : Type}

/-- The frame `f` that client `k` is sent carries the private message `g` of client `j`. -/
structure PrivateCopy (st : Setting ι) (n : Net ι) (k j : ι) (g f : Frame) : Prop where
  sent : g ∈ (n.links j).sentUp (st.sock j)
  type : g.type = MsgType.privateMsg.code
  text : f.body = (privateLine (storedNick (st.nick j)) (cstr g.body)
    (g.body.drop ((cstr g.body).length + 1))).take chatMaxBody
  reader : k = j ∨ storedNick (st.nick k) = cstr g.body

/-- Every private message that a client is sent is such a message. -/
def Discreet (st : Setting ι) (n : Net ι) : Prop :=
  ∀ k, st.env.Delivers (n.links k).fd → ∀ f ∈ (n.links k).sentDown,
    f.type = MsgType.privateMsg.code → ∃ j g, PrivateCopy st n k j g f

variable {st : Setting ι} {n n' : Net ι}

theorem PrivateCopy.mono {k j : ι} {g f : Frame} (h : PrivateCopy st n k j g f)
    (grows : ∀ k, (n.links k).sentUp (st.sock k) <+: (n'.links k).sentUp (st.sock k)) :
    PrivateCopy st n' k j g f := ⟨(grows j).subset h.sent, h.type, h.text, h.reader⟩

/-- Of the messages of the server the private ones are from `handle_private`. -/
theorem Origin.whisper {s : Sys} {a : Action} {fd : Fd} {m : Message} (h : Origin s a fd m)
    (type : m.type = .privateMsg) :
    ∃ c f need dest target msg, a = .frame c ∧
      scanFrame (s.srv.clients c).inbuf.bytes = .frame f need ∧
      PrivateAccepted s.srv.clients c f dest target msg ∧
      (fd = (s.srv.clients dest).fd ∨ fd = (s.srv.clients c).fd) ∧
      m.body = (privateLine (s.srv.clients c).nick.bytes target msg).take chatMaxBody := by
  cases h with
  | left _ note => cases note.symm.trans type
  | @frame c f need eq scan tells =>
      cases tells with
      | answer answer =>
          rw [type] at answer
          cases answer
      | greet _ _ greets =>
          rcases greets with greets | greets <;> cases greets.symm.trans type
      | note _ note => cases note.symm.trans type
      | spoke => cases type
      | @whisper _ dest target msg accepted reader =>
          exact ⟨c, f, need, dest, target, msg, eq, scan, accepted, reader, rfl⟩

variable [DecidableEq ι] {said : List (ι × Bytes)}

/-- A client is sent what the server makes of a frame. -/
theorem Ordered.whispers (h : Ordered st n said) (sound : NetSound st n) {a : Action} {k : ι}
    {i : Slot} (at_ : (n.links k).At n.srv i) {m : Message}
    (origin : Origin n.srv a (n.links k).fd m) (type : m.type = .privateMsg) :
    ∃ j g, PrivateCopy st n k j g m.frame := by
  have inv := sound.srv.inv
  obtain ⟨c, g, need, dest, target, msg, rfl, scan, accepted, reader, text⟩ := origin.whisper type
  have used := inv.used_of_joined accepted.joined
  obtain ⟨j, own⟩ := sound.wired.own c used
  obtain ⟨named, rest, -, -, -, active, nick⟩ := checkPrivate_ok accepted.check
  refine ⟨j, g, ?_, accepted.type, ?_, ?_⟩
  · exact ((sound.up j).takes own scan).1.subset
      (List.mem_append_right _ (List.mem_singleton_self g))
  · rw [← (h.spoken.joined j c own accepted.joined).1, ← named, ← rest]
    exact text
  · rw [← at_.fd] at reader
    rcases reader with same | same
    · have there := checkPrivate_joined accepted.check
      have eq := inv.distinct i dest at_.used (inv.used_of_joined there) same
      rw [eq] at at_
      rw [← (h.spoken.joined k dest at_ there).1, nick, named]
      exact .inr rfl
    · have eq := inv.distinct i c at_.used used same
      rw [eq] at at_
      exact .inl (sound.wired.one k j c at_ own)

/-- The clients send more and more. -/
theorem NetSound.sentUp_grows (sound : NetSound st n) {x : NetAction ι}
    (enabled : NetEnabled st n x) (k : ι) :
    (n.links k).sentUp (st.sock k) <+: ((netAct st n x).links k).sentUp (st.sock k) := by
  have heard : ∀ {n' : Net ι} {a : Action},
      ((n'.serve st.env a).links k).sentUp (st.sock k) = (n'.links k).sentUp (st.sock k) := by
    intro n' a
    change Link.sentUp _ (Link.hear _ (n'.links k)) = _
    rw [Link.sentUp, Link.proc_hear]
    rfl
  have changed : ∀ {k' : ι} {l : Link},
      (n.links k').sentUp (st.sock k') <+: l.sentUp (st.sock k') →
      (n.links k).sentUp (st.sock k) <+: ((n.setLink k' l).links k).sentUp (st.sock k) := by
    intro k' l part
    by_cases own : k = k'
    · subst own
      rwa [Net.links_setLink_self]
    · rw [Net.links_setLink_of_ne own]
  have acts : ∀ k' a, (n.links k').proc.user.done = false →
      (n.links k').sentUp (st.sock k') <+:
        ((n.links k').act (st.userEnv k') (st.sock k') a).sentUp (st.sock k') := by
    intro k' a running
    obtain ⟨added, log⟩ := clientAct_log (st.userEnv k') (st.sock k') running a
    change _ <+: (triedOn _ (clientAct _ _ _ a).user.log).map Message.frame
    rw [log, triedOn_append, List.map_append]
    exact List.prefix_append _ _
  cases x with
  | connect k' fd =>
      change _ <+: ((Net.serve _ _ (n.setLink k' _)).links k).sentUp _
      rw [heard]
      refine changed ?_
      rw [(sound.up k').idle enabled.1]
      exact List.nil_prefix
  | upload k' i m =>
      change _ <+: ((Net.serve _ _ (n.setLink k' _)).links k).sentUp _
      rw [heard]
      exact changed List.prefix_rfl
  | serve a =>
      change _ <+: ((Net.serve _ _ n).links k).sentUp _
      rw [heard]
  | download k' m =>
      have running : (n.links k').proc.user.done = false :=
        Bool.eq_false_iff.mpr fun done => enabled.1 ((sound.up k').joint.mp done)
      exact changed (acts k' (.receive (.data _)) running)
  | client k' a => exact changed (acts k' a ((sound.up k').joint.running enabled.2))

/-- An action of the server. -/
theorem Discreet.hear (h : Discreet st n) (ordered : Ordered st n said) (sound : NetSound st n)
    {a : Action} (enabled : Enabled n.srv a) {k : ι}
    (ok : st.env.Delivers ((n.links k).hear (addedBy st.env n.srv a)).fd) {f : Frame}
    (mem : f ∈ ((n.links k).hear (addedBy st.env n.srv a)).sentDown)
    (type : f.type = MsgType.privateMsg.code) : ∃ j g, PrivateCopy st n k j g f := by
  rw [Link.fd_hear] at ok
  have valid : ∀ i, (n.links k).At n.srv i → a ≠ .invalid i := by
    rintro i at_ rfl
    exact sound.not_bad at_.used enabled.2
  rcases (ordered.told k ok).sent_hear (sound.wired.held k) sound.srv.inv enabled ok valid mem with
    old | ⟨i, m, at_, rfl, origin⟩
  · exact h k ok f old type
  · exact ordered.whispers sound at_ origin (MsgType.code_inj type)

/-- **One action of the network.** -/
theorem Discreet.act (h : Discreet st n) (ordered : Ordered st n said) (sound : NetSound st n)
    {x : NetAction ι} (enabled : NetEnabled st n x) : Discreet st (netAct st n x) := by
  have grows := sound.sentUp_grows enabled
  -- nothing new is sent to a link that is left as it is
  have keeps : ∀ {k k' : ι} {l : Link}, l.fd = (n.links k').fd →
      l.sentDown = (n.links k').sentDown →
      st.env.Delivers ((n.setLink k' l).links k).fd → ∀ f ∈ ((n.setLink k' l).links k).sentDown,
        f.type = MsgType.privateMsg.code → ∃ j g, PrivateCopy st n k j g f := by
    intro k k' l fd down ok f mem type
    by_cases own : k = k'
    · subst own
      rw [Net.links_setLink_self, fd] at ok
      rw [Net.links_setLink_self, down] at mem
      exact h k ok f mem type
    · rw [Net.links_setLink_of_ne own] at ok mem
      exact h k ok f mem type
  intro k ok f mem type
  suffices old : ∃ j g, PrivateCopy st n k j g f by
    obtain ⟨j, g, copy⟩ := old
    exact ⟨j, g, copy.mono grows⟩
  cases x with
  | connect k' fd =>
      change st.env.Delivers (Link.hear _ ((n.setLink k' _).links k)).fd at ok
      change f ∈ (Link.hear _ ((n.setLink k' _).links k)).sentDown at mem
      by_cases own : k = k'
      · subst own
        rw [Net.links_setLink_self] at ok mem
        rw [Link.fd_hear] at ok
        change st.env.Delivers fd at ok
        have first : f ∈ welcome (addClient fd (n.srv.note (.accept fd))).1 := by
          rw [← (Link.sentDown_start (st.userEnv k) (st.sock k) (st.nick k) ok n.srv).2]
          exact mem
        rw [welcome_error _ f first] at type
        cases type
      · rw [Net.links_setLink_of_ne own] at ok mem
        exact h.hear ordered sound enabled.2.2 ok mem type
  | upload k' i m =>
      obtain ⟨linked, slot, -⟩ := enabled
      obtain ⟨j, at_⟩ := sound.wired.held k' linked
      cases at_.slot.symm.trans slot
      have receives : Enabled n.srv (.recv i ((n.links k').up.pending.take m)) := at_.used
      change st.env.Delivers (Link.hear _ ((n.setLink k' _).links k)).fd at ok
      change f ∈ (Link.hear _ ((n.setLink k' _).links k)).sentDown at mem
      by_cases own : k = k'
      · subst own
        rw [Net.links_setLink_self, Link.hear_withUp] at ok mem
        exact h.hear ordered sound receives ok mem type
      · rw [Net.links_setLink_of_ne own] at ok mem
        exact h.hear ordered sound receives ok mem type
  | serve a => exact h.hear ordered sound enabled.2 ok mem type
  | download k' m =>
      change st.env.Delivers ((n.setLink k' _).links k).fd at ok
      change f ∈ ((n.setLink k' _).links k).sentDown at mem
      refine keeps ?_ ?_ ok f mem type <;> rfl
  | client k' a =>
      change st.env.Delivers ((n.setLink k' _).links k).fd at ok
      change f ∈ ((n.setLink k' _).links k).sentDown at mem
      refine keeps ?_ ?_ ok f mem type <;> rfl

theorem NetReachable.discreet (reach : NetReachable st n) : Discreet st n := by
  obtain ⟨as, run⟩ := reach
  have all : NetSound st n ∧ (∃ said, Ordered st n said) ∧ Discreet st n := by
    refine run.preserves (P := fun n => NetSound st n ∧ (∃ said, Ordered st n said) ∧
      Discreet st n) ⟨.init, ⟨[], .init⟩, fun k _ f mem => by cases mem⟩ ?_
    rintro n x ⟨sound, ⟨said, ordered⟩, discreet⟩ enabled
    obtain ⟨more, after⟩ := ordered.act sound enabled
    exact ⟨sound.act enabled, ⟨_, after⟩, discreet.act ordered sound enabled⟩
  exact all.2.2

/-- **Private messages stay private.** A private message that a client prints was sent by a
client, and is the line that the server makes of it, under that client's name; the reader
is that client or the one it is written to. -/
theorem private_messages (reach : NetReachable st n) (k : ι)
    (ok : st.env.Delivers (n.links k).fd) (f : Frame) (shown : f ∈ (n.links k).shown)
    (type : f.type = MsgType.privateMsg.code) : ∃ j g, PrivateCopy st n k j g f := by
  obtain ⟨said, ordered⟩ := reach.ordered
  exact reach.discreet k ok f ((ordered.told k ok).down.shown_begins.subset shown) type

end Whispers

/-- Bob has written to Ann. -/
def bobWrites : List (NetAction Bool) :=
  bothCome ++ writes true 1 "/msg ann yo\n" 22 ++ [.download false 34]

theorem private_messages_bobWrites :
    let n := bobWrites.foldl (netAct duet) .init
    let f := Message.frame ⟨.privateMsg, ascii "(pm bob -> ann) yo"⟩
    ∃ j g, PrivateCopy duet n false j g f := by
  intro n f
  have reach : NetReachable duet n := ⟨_, .of_enabled (by decide +kernel)⟩
  exact private_messages reach false (Env.smooth_delivers _) f (by decide +kernel) rfl

end Osisp.Chat
