import Osisp.Chat.Settled

/-!
# Who is in the chat

Whether a client is in the chat is known to itself and to the server, and while messages are
on their way the two may differ. When nothing is on its way they agree: no client is left
waiting in its handshake, and the server knows those that are in the chat by their nicks
(`members_agree`).
-/

namespace Osisp.Chat

open Lib

/-! ## A client in its handshake -/

/-- A client that has not been acknowledged has printed nothing. One that has been, and is
still in its handshake, has received the beginning of another frame. -/
structure ClientSys.Starting (c : ClientSys) : Prop where
  silent : c.phase = .handshake false → c.out = []
  begun : c.phase = .handshake true → c.rx.bytes ≠ []

section Starting

variable {c : ClientSys}

theorem ClientSys.Starting.of_stopped (stopped : c.phase = .stopped) : c.Starting := by
  constructor <;> intro phase <;> cases stopped.symm.trans phase

theorem ClientSys.Starting.of_connected (connected : c.phase = .connected) : c.Starting := by
  constructor <;> intro phase <;> cases connected.symm.trans phase

theorem handshakeLoop_starting {fuel : Nat} {gotJoin : Bool} (enough : c.rx.bytes.length < fuel)
    (silent : gotJoin = false → c.out = []) : (handshakeLoop fuel gotJoin c).Starting := by
  induction fuel generalizing gotJoin c with
  | zero => exact absurd enough (Nat.not_lt_zero _)
  | succ fuel ih =>
      unfold handshakeLoop
      cases scan : scanFrame c.rx.bytes with
      | bad => exact .of_stopped rfl
      | more =>
          dsimp only
          split
          · exact .of_connected rfl
          · rename_i waits
            refine ⟨fun phase => ?_, fun phase => ?_⟩
            · cases phase
              exact silent rfl
            · cases phase
              simpa using waits
      | frame f need =>
          dsimp only
          have shorter : (c.rx.bytes.drop need).length < fuel := by
            have := chatCodec.length_drop_lt (b := c.rx.bytes) scan
            omega
          split
          · exact .of_stopped rfl
          · exact ih shorter nofun
          · split
            · exact .of_stopped rfl
            · rename_i got
              refine ih shorter fun no => absurd ?_ got
              rw [no]
              rfl
          · exact .of_stopped rfl

theorem ClientSys.Starting.receive (h : c.Starting) (ret : RecvRet) :
    (c.receive ret).Starting := by
  unfold ClientSys.receive
  cases phase : c.phase with
  | stopped => cases ret <;> exact h
  | connected =>
      cases ret with
      | data chunk =>
          exact .of_connected (serverLoop_hears _ (Nat.lt_succ_self _)).1
      | closed | error => exact .of_stopped rfl
  | handshake gotJoin =>
      cases ret with
      | data chunk =>
          refine handshakeLoop_starting (Nat.lt_succ_self _) fun no => h.silent ?_
          rw [phase, no]
      | closed | error => exact .of_stopped rfl

theorem ClientSys.Starting.act {env : Env} {sock : Fd} {p : ClientProc} (h : p.rcv.Starting)
    (a : ClientAction) : (clientAct env sock p a).rcv.Starting := by
  cases a with
  | receive ret =>
      change (p.setRcv sock _).rcv.Starting
      rw [ClientProc.rcv_setRcv]
      exact h.receive ret
  | hangup =>
      change (p.setRcv sock _).rcv.Starting
      rw [ClientProc.rcv_setRcv]
      exact .of_stopped rfl
  | typed x =>
      rw [clientAct_typed]
      split
      · exact .of_stopped rfl
      · exact h
  | leave => exact .of_stopped rfl

end Starting

/-! ## A `JOIN` is answered -/

section Answers

variable {env : Env} {s : Sys} {a : Action} {c : Slot}

/-- The newcomer is sent an acknowledgement or the reason why not. -/
theorem join_answered (inv : Inv s) (used : (s.srv.clients c).used = true)
    (ok : env.Delivers (s.srv.clients c).fd) {f : Frame} {need : Nat}
    (scan : scanFrame (s.srv.clients c).inbuf.bytes = .frame f need)
    (type : f.type = MsgType.join.code) :
    ∃ m ms, Adds (s.srv.clients c).fd (m :: ms) [] s.log (act env s (.frame c)).log := by
  have known : MsgType.ofCode f.type = some .join := by
    rw [type]
    rfl
  have noted : Adds (s.srv.clients c).fd [] [] s.log (s.note (.frame c f)).log :=
    .of_silent (Appends.single ⟨rfl, rfl, rfl, nofun⟩)
  have invNoted : Inv (s.note (.frame c f)) := inv.withLog (Appends.single ⟨nofun, nofun⟩)
  have refused : ∀ text, Adds (s.srv.clients c).fd [⟨.error, ascii text⟩] []
      (s.note (.frame c f)).log (sendError env c text (s.note (.frame c f))).log := fun text =>
    (Sends.one (P := fun _ _ => True) trivial _).adds ok (messagesTo_sendFrame ok _ _ _)
  rw [log_act_frame scan]
  unfold handleFrame
  rw [known]
  dsimp only
  split
  · exact ⟨_, _, noted.trans (refused _)⟩
  · unfold handleJoin
    split
    · exact ⟨_, _, noted.trans (refused _)⟩
    · exact ⟨_, _, noted.trans (acceptJoin_greets invNoted used ok (acceptJoin_case env c _ _))⟩

/-- The first frame of a client is its `JOIN`. -/
theorem Upward.join_first {sock : Fd} {nick : CStr chatMaxNick} {l : Link}
    (h : Upward sock nick s l) (at_ : l.At s c) {f : Frame} {need : Nat}
    (scan : scanFrame (s.srv.clients c).inbuf.bytes = .frame f need) (none : l.handled = []) :
    f.type = MsgType.join.code := by
  obtain ⟨first, -⟩ := h.takes at_ scan
  obtain ⟨rest, join, -⟩ := (h.started at_).join
  rw [none, List.nil_append, Link.sentUp, join, List.map_cons] at first
  obtain ⟨same, -⟩ := List.cons_prefix_cons.mp first
  rw [same]
  rfl

theorem Frame.encode_ne_nil (f : Frame) : f.encode ≠ [] := by
  refine List.append_ne_nil_of_left_ne_nil (List.ne_nil_of_length_pos ?_) _
  rw [length_chatHeaderToWire]
  decide

/-- A client of which a frame has been handled has been sent something. -/
def Link.Answered (l : Link) : Prop := l.handled ≠ [] → l.down.sent ≠ []

theorem Link.Answered.hear {sock : Fd} {nick : CStr chatMaxNick} {l : Link} (h : l.Answered)
    (up : Upward sock nick s l) (held : l.status = .linked → ∃ i, l.At s i) (inv : Inv s)
    (enabled : Enabled s a) (ok : env.Delivers l.fd) : (l.hear (addedBy env s a)).Answered := by
  by_cases linked : l.status = .linked
  · obtain ⟨i, at_⟩ := held linked
    intro handled
    rw [Link.handled_hear _ linked at_.slot] at handled
    have sent : (l.hear (addedBy env s a)).down.sent =
        l.down.sent ++ bytesTo l.fd (addedBy env s a) := by
      rw [Link.hear_of_linked linked]
      rfl
    rw [sent]
    by_cases none : l.handled = []
    · -- the first frame of the client is handled now
      rw [none, List.nil_append] at handled
      have own : a = .frame i := by
        by_contra other
        exact handled (framesFrom_addedBy other)
      subst own
      obtain ⟨used, f, need, scan⟩ := enabled
      rw [← at_.fd] at ok
      obtain ⟨m, ms, adds⟩ := join_answered inv used ok scan (up.join_first at_ scan none)
      rw [← at_.fd, adds.added.1, List.map_cons, Codec.encodeAll_cons]
      refine List.append_ne_nil_of_right_ne_nil _ ?_
      exact List.append_ne_nil_of_left_ne_nil (Frame.encode_ne_nil _) _
    · exact List.append_ne_nil_of_left_ne_nil (h none) _
  · rw [Link.hear_of_not_linked linked]
    exact h

end Answers

/-! ## The network -/

section Net

variable {ι : Type} [DecidableEq ι] {st : Setting ι} {n : Net ι}

theorem NetReachable.starting (reach : NetReachable st n) (k : ι) :
    (n.links k).proc.rcv.Starting := by
  refine reach.proc (P := fun p => p.rcv.Starting) (.of_stopped rfl) (fun k => ?_)
    (fun k {_ a} h => h.act a) k
  unfold ClientProc.start
  dsimp only
  split
  · exact .of_stopped rfl
  · exact ⟨fun _ => rfl, fun phase => by cases phase⟩

/-- Every client of which a frame has been handled has been sent something. -/
def AllAnswered (st : Setting ι) (n : Net ι) : Prop :=
  ∀ k, st.env.Delivers (n.links k).fd → (n.links k).Answered

/-- **One action of the network.** -/
theorem AllAnswered.act (h : AllAnswered st n) (sound : NetSound st n) {x : NetAction ι}
    (enabled : NetEnabled st n x) : AllAnswered st (netAct st n x) := by
  have hear : ∀ {a : Action}, Enabled n.srv a → ∀ k,
      st.env.Delivers ((n.links k).hear (addedBy st.env n.srv a)).fd →
      ((n.links k).hear (addedBy st.env n.srv a)).Answered := by
    intro a enabled k ok
    rw [Link.fd_hear] at ok
    exact (h k ok).hear (sound.up k) (sound.wired.held k) sound.srv.inv enabled ok
  -- what was sent and what was handled stays when the client acts
  have keeps : ∀ {k' : ι} {l : Link}, l.fd = (n.links k').fd →
      l.handled = (n.links k').handled → l.down.sent = (n.links k').down.sent →
      AllAnswered st (n.setLink k' l) := by
    intro k' l fd handled sent k ok
    by_cases own : k = k'
    · subst own
      rw [Net.links_setLink_self] at ok ⊢
      rw [fd] at ok
      unfold Link.Answered
      rw [handled, sent]
      exact h k ok
    · rw [Net.links_setLink_of_ne own] at ok ⊢
      exact h k ok
  cases x with
  | connect k' fd =>
      intro k ok
      change (Link.hear _ ((n.setLink k' _).links k)).Answered
      change st.env.Delivers (Link.hear _ ((n.setLink k' _).links k)).fd at ok
      by_cases own : k = k'
      · subst own
        rw [Net.links_setLink_self]
        exact absurd (Link.handled_start st.env _ _ _ fd n.srv)
      · rw [Net.links_setLink_of_ne own] at ok ⊢
        exact hear enabled.2.2 k ok
  | upload k' i m =>
      intro k ok
      obtain ⟨linked, slot, -⟩ := enabled
      obtain ⟨j, at_⟩ := sound.wired.held k' linked
      cases at_.slot.symm.trans slot
      have receives : Enabled n.srv (.recv i ((n.links k').up.pending.take m)) := at_.used
      change (Link.hear _ ((n.setLink k' _).links k)).Answered
      change st.env.Delivers (Link.hear _ ((n.setLink k' _).links k)).fd at ok
      by_cases own : k = k'
      · subst own
        rw [Net.links_setLink_self, Link.hear_withUp] at ok ⊢
        exact hear receives k ok
      · rw [Net.links_setLink_of_ne own] at ok ⊢
        exact hear receives k ok
  | serve a => exact hear enabled.2
  | download k' m => exact keeps rfl rfl rfl
  | client k' a => exact keeps rfl rfl rfl

theorem NetReachable.answered (reach : NetReachable st n) : AllAnswered st n := by
  obtain ⟨as, run⟩ := reach
  have both : NetSound st n ∧ AllAnswered st n := by
    refine run.preserves (P := fun n => NetSound st n ∧ AllAnswered st n)
      ⟨.init, fun k _ handled => absurd rfl handled⟩ ?_
    intro n x h enabled
    exact ⟨h.1.act enabled, h.2.act h.1 enabled⟩
  exact both.2

/-- Client `k` is in the chat, for itself and for the server. -/
structure InChat (st : Setting ι) (n : Net ι) (k : ι) : Prop where
  connected : (n.links k).proc.rcv.phase = .connected
  known : ∃ i, (n.links k).At n.srv i ∧ (n.srv.srv.clients i).joined = true ∧
    (n.srv.srv.clients i).nick.bytes = storedNick (st.nick k)

/-- A client that has sent its `JOIN` has been answered by the time nothing is on its way. -/
theorem NetReachable.leaves_handshake (reach : NetReachable st n) (quiet : n.Quiet) {k : ι}
    (linked : (n.links k).status = .linked) (ok : st.env.Delivers (n.links k).fd)
    (gotJoin : Bool) : (n.links k).proc.rcv.phase ≠ .handshake gotJoin := by
  intro phase
  have sound := reach.sound
  obtain ⟨said, ordered⟩ := reach.ordered
  obtain ⟨i, at_⟩ := sound.wired.held k linked
  have going : (n.links k).proc.rcv.phase ≠ .stopped := by
    rw [phase]
    exact fun h => by cases h
  have starting := reach.starting k
  have down := (ordered.told k ok).down
  have settled := down.settled (reach.waits k) going (quiet.down k going)
  cases gotJoin with
  | true =>
      obtain ⟨fs, reads⟩ := down.reads
      refine starting.begun phase ?_
      have whole : (n.links k).down.received = chatCodec.encodeAll (n.links k).sentDown := by
        have all := (n.links k).down.received_append_pending
        rw [quiet.down k going, List.append_nil, down.stream] at all
        exact all
      have rest := reads.rest going
      rw [whole, ← settled, Link.shown, reads.messages] at rest
      exact List.self_eq_append_right.mp rest
  | false =>
      -- it has been sent nothing, but its `JOIN` has been handled
      have nothing : (n.links k).down.sent = [] := by
        rw [down.stream, ← settled, Link.shown, starting.silent phase]
        rfl
      have running : (n.links k).proc.user.done = false :=
        Bool.eq_false_iff.mpr fun done => going ((sound.up k).joint.mp done)
      obtain ⟨rest, join, -⟩ := ((sound.up k).started at_).join
      have handled : (n.links k).handled ≠ [] := by
        rw [(sound.up k).settled at_ running (quiet.up k linked) (reach.more quiet.frames at_.used),
          Link.sentUp, join, List.map_cons]
        exact List.cons_ne_nil _ _
      exact reach.answered k ok handled nothing

/-- **Who is in the chat.** When nothing is on its way, every client that is still running
is in the chat, and the server knows it by its nick; and no two clients that are in the chat
have the same nick. -/
theorem members_agree (reach : NetReachable st n) (quiet : n.Quiet) :
    (∀ k, (n.links k).status = .linked → st.env.Delivers (n.links k).fd →
      (n.links k).proc.rcv.phase = .stopped ∨ InChat st n k) ∧
    ∀ k j, InChat st n k → InChat st n j → storedNick (st.nick k) = storedNick (st.nick j) →
      k = j := by
  have sound := reach.sound
  obtain ⟨said, ordered⟩ := reach.ordered
  refine ⟨fun k linked ok => ?_, fun k j here there same => ?_⟩
  · cases phase : (n.links k).proc.rcv.phase with
    | stopped => exact .inl rfl
    | handshake gotJoin => exact absurd phase (reach.leaves_handshake quiet linked ok gotJoin)
    | connected =>
        obtain ⟨i, at_⟩ := sound.wired.held k linked
        have joined := (ordered.told k ok).joined_of_connected at_ phase
        exact .inr ⟨phase, i, at_, joined, (ordered.spoken.joined k i at_ joined).1⟩
  · obtain ⟨i, atK, joinedK, nickK⟩ := here.known
    obtain ⟨i', atJ, joinedJ, nickJ⟩ := there.known
    cases sound.srv.inv.nicks i i' joinedK joinedJ (by rw [nickK, nickJ, same])
    exact sound.wired.one k j i atK atJ

end Net

theorem members_agree_annHeard :
    let n := annHeard.foldl (netAct duet) .init
    InChat duet n false ∧ InChat duet n true := by
  intro n
  have reach : NetReachable duet n := ⟨_, .of_enabled (by decide +kernel)⟩
  have agree := (members_agree reach annHeard_quiet).1
  exact ⟨(agree false (by decide +kernel) (Env.smooth_delivers _)).resolve_left (by decide +kernel),
    (agree true (by decide +kernel) (Env.smooth_delivers _)).resolve_left (by decide +kernel)⟩

end Osisp.Chat
