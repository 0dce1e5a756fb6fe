import Osisp.Chat.Reading

/-!
# All clients hear one chat

The lines of the chat are one sequence, the one in which the server builds them. Every
client is sent a contiguous part of it: the last lines from before it joined, and then
each line that follows, until the connection ends (`Told`).
-/

namespace Osisp.Chat

open Lib

/-- The frame carries a line of the chat. -/
def Frame.isLine (f : Frame) : Bool :=
  f.type = MsgType.history.code || f.type = MsgType.broadcast.code

/-- The lines of the chat among frames. -/
def chatLines (fs : List Frame) : List Bytes := (fs.filter Frame.isLine).map Frame.body

@[simp] theorem chatLines_append (fs gs : List Frame) :
    chatLines (fs ++ gs) = chatLines fs ++ chatLines gs := by
  rw [chatLines, List.filter_append, List.map_append, chatLines, chatLines]

theorem chatLines_begin {fs gs : List Frame} (h : fs <+: gs) : chatLines fs <+: chatLines gs := by
  obtain ⟨rest, rfl⟩ := h
  rw [chatLines_append]
  exact List.prefix_append _ _

theorem Message.isLine_frame (m : Message) : m.frame.isLine = m.isLine := by
  rcases m with ⟨type, body⟩
  cases type <;> rfl

theorem chatLines_frames (ms : List Message) :
    chatLines (ms.map Message.frame) = (ms.filter Message.isLine).map Message.body := by
  have same : Frame.isLine ∘ Message.frame = Message.isLine := funext Message.isLine_frame
  rw [chatLines, List.filter_map, List.map_map, same]
  rfl

/-! ## What an action sends to a link -/

section Adds

variable {env : Env} {s : Sys} {a : Action} {fd : Fd} {ms : List Message} {lines : List Bytes}

/-- What is added, seen on one descriptor. -/
theorem Adds.added (h : Adds fd ms lines s.log (act env s a).log) :
    bytesTo fd (addedBy env s a) = chatCodec.encodeAll (ms.map Message.frame) ∧
      linesOf (addedBy env s a) = lines ∧
      ∀ f ∈ ms.map Message.frame, chatCodec.Fits f := by
  obtain ⟨added, log, messages, lines, bytes, -⟩ := h
  have same : addedBy env s a = added := by rw [addedBy, log, List.drop_left]
  rw [← same] at messages lines bytes
  refine ⟨bytes, lines, fun f mem => ?_⟩
  obtain ⟨m, sent, rfl⟩ := List.mem_map.mp mem
  rw [← messages] at sent
  exact (messagesTo_origin sent).fits

theorem Adds.messages (h : Adds fd ms lines s.log (act env s a).log) :
    messagesTo fd (addedBy env s a) = ms := by
  obtain ⟨added, log, messages, -⟩ := h
  rw [addedBy, log, List.drop_left, messages]

theorem cutLines_act (env : Env) (s : Sys) (a : Action) :
    cutLines (act env s a).log =
      cutLines s.log ++ (linesOf (addedBy env s a)).map (·.take chatMaxBody) := by
  rw [cutLines, cutLines, log_act, linesOf_append, List.map_append]

/-- The client that is removed is told nothing. -/
theorem bytesTo_remove (inv : Inv s) {i : Slot} (used : (s.srv.clients i).used = true) :
    bytesTo (s.srv.clients i).fd (addedBy env s (.remove i)) = [] := by
  have silent : ∀ {l l' : Log}, l' = l ++ addedBy env s (.remove i) →
      bytesTo (s.srv.clients i).fd l' = bytesTo (s.srv.clients i).fd l →
      bytesTo (s.srv.clients i).fd (addedBy env s (.remove i)) = [] := by
    intro l l' eq same
    rw [eq, bytesTo_append] at same
    exact List.append_right_eq_self.mp same
  refine silent (log_act env s (.remove i)) ?_
  have closes : ∀ t : Sys, bytesTo (s.srv.clients i).fd (closeSlot i t).log =
      bytesTo (s.srv.clients i).fd t.log := by
    intro t
    rw [log_closeSlot]
    split
    · rw [bytesTo_append]
      exact List.append_nil _
    · rfl
  change bytesTo _ (removeClientIndex env i s).log = _
  unfold removeClientIndex
  dsimp only
  rw [closes]
  split
  · refine (sendAll_sends env s.srv.clients .notify _ (some i) s.log).appends.flatMap_eq ?_
    rintro e ⟨fd, m, ⟨-, j, active, other, rfl⟩, here⟩
    have ne : (s.srv.clients j).fd ≠ (s.srv.clients i).fd := by
      intro same
      have usedJ : (s.srv.clients j).used = true := by
        simp only [Client.active, Bool.and_eq_true] at active
        exact active.1
      exact other (congrArg some (inv.distinct j i usedJ used same).symm)
    cases e with
    | write fd' data out =>
        cases here
        exact if_neg ne
    | sent | accept | recv | close | frame | line => rfl
  · rfl

/-- Who a client is stays as it is, but for its own frames. -/
theorem act_identity {i : Slot} (used : (s.srv.clients i).used = true) (goes : ¬ a.Ends i)
    (other : a ≠ .frame i) :
    ((act env s a).srv.clients i).joined = (s.srv.clients i).joined ∧
      ((act env s a).srv.clients i).nick = (s.srv.clients i).nick := by
  by_cases own : a.slot = some i
  · cases a with
    | accept fd => cases own
    | recv j data =>
        cases own
        change ((recvInto i data s).srv.clients i).joined = _ ∧
          ((recvInto i data s).srv.clients i).nick = _
        unfold recvInto
        rw [Sys.clients_setClient_self]
        exact ⟨rfl, rfl⟩
    | frame j =>
        cases own
        exact absurd rfl other
    | invalid j =>
        cases own
        exact absurd (.inl rfl) goes
    | remove j =>
        cases own
        exact absurd (.inr rfl) goes
  · rw [act_of_other used own]
    exact ⟨rfl, rfl⟩

/-- A client joins by a frame of its own. -/
theorem act_joins {i : Slot} (enabled : Enabled s a) (used : (s.srv.clients i).used = true)
    (goes : ¬ a.Ends i) (here : (s.srv.clients i).joined = false)
    (now : ((act env s a).srv.clients i).joined = true) :
    ∃ f need, a = .frame i ∧ scanFrame (s.srv.clients i).inbuf.bytes = .frame f need ∧
      ((processFrame env i f need s).srv.clients i).joined = true := by
  by_cases other : a = .frame i
  · subst other
    obtain ⟨-, f, need, scan⟩ := enabled
    rw [act_frame scan] at now
    exact ⟨f, need, rfl, scan, now⟩
  · rw [(act_identity used goes other).1] at now
    cases here.symm.trans now

end Adds

/-! ## What a client has been sent -/

/-- The frame answers a request. -/
def Frame.isAnswer (f : Frame) : Bool :=
  f.type = MsgType.error.code || f.type = MsgType.listReply.code

/-- The client has been sent frames, and the lines among them are a part of the chat: all
of it from some line on while it is in the chat, none before it has joined. -/
structure Told (s : Sys) (l : Link) : Prop where
  down : Downward l
  part : ∃ start, chatLines l.sentDown <+: (cutLines s.log).drop start
  joined : ∀ i, l.At s i → (s.srv.clients i).joined = true →
    ∃ start, start ≤ (cutLines s.log).length ∧
      chatLines l.sentDown = (cutLines s.log).drop start
  fresh : ∀ i, l.At s i → (s.srv.clients i).joined = false →
    ∀ f ∈ l.sentDown, f.isAnswer = true

theorem chatLines_answers {fs : List Frame} (answers : ∀ f ∈ fs, f.isAnswer = true) :
    chatLines fs = [] := by
  have none : fs.filter Frame.isLine = [] := by
    refine List.filter_eq_nil_iff.mpr fun f mem => ?_
    have answer := answers f mem
    simp only [Frame.isAnswer, Bool.or_eq_true, decide_eq_true_eq] at answer
    unfold Frame.isLine
    rcases answer with type | type <;> rw [type] <;> decide
  rw [chatLines, none, List.map_nil]

theorem isAnswer_frame {m : Message} (answer : m.type.isAnswer = true) :
    m.frame.isAnswer = true := by
  rcases m with ⟨type, body⟩
  cases type <;> first | rfl | cases answer

namespace Told

variable {env : Env} {s : Sys} {a : Action} {l l' : Link} {i : Slot}

theorem idle (s : Sys) : Told s .idle where
  down := .idle
  part := ⟨0, List.nil_prefix⟩
  joined _ at_ := by cases at_.linked
  fresh _ at_ := by cases at_.linked

/-- The chat has gone on. -/
theorem part_grows (h : Told s l) {fs : List Frame} {log : Log} {more : List Bytes}
    (same : fs = l.sentDown) (grows : cutLines log = cutLines s.log ++ more) :
    ∃ start, chatLines fs <+: (cutLines log).drop start := by
  obtain ⟨start, part⟩ := h.part
  refine ⟨start, ?_⟩
  rw [same, grows, List.drop_append]
  exact part.trans (List.prefix_append _ _)

/-- The link is at its end. -/
theorem ended (h : Told s l) (status : l'.status ≠ .linked) (proc : l'.proc.rcv = l.proc.rcv)
    (down : l'.down = l.down) {s' : Sys} {more : List Bytes}
    (grows : cutLines s'.log = cutLines s.log ++ more) : Told s' l' := by
  have same : l'.sentDown = l.sentDown := by rw [Link.sentDown, down, Link.sentDown]
  refine ⟨⟨?_, ?_, ?_⟩, h.part_grows same grows, fun _ at_ => absurd at_.linked status,
    fun _ at_ => absurd at_.linked status⟩
  · rw [same, down]
    exact h.down.stream
  · rw [same]
    exact h.down.fit
  · rw [proc, down]
    exact h.down.reads

/-- The server has written frames to the link. -/
theorem hears (h : Told s l) (linked : l.status = .linked) {added : Log} {fs : List Frame}
    (fit : ∀ f ∈ fs, chatCodec.Fits f) (bytes : bytesTo l.fd added = chatCodec.encodeAll fs) :
    Downward (l.hear added) ∧ (l.hear added).sentDown = l.sentDown ++ fs := by
  refine h.down.put fit ?_ ?_
  · rw [Link.proc_hear]
  · rw [Link.hear_of_linked linked, bytes]

/-- A joined client is told each line that is built. -/
theorem stays_joined (h : Told s l) (at_ : l.At s i) (inv : Inv s) (enabled : Enabled s a)
    (ok : env.Delivers l.fd) (goes : ¬ a.Ends i) (here : (s.srv.clients i).joined = true) :
    Told (Chat.act env s a) (l.hear (addedBy env s a)) := by
  have at' : (l.hear (addedBy env s a)).At (Chat.act env s a) i := at_.hear inv enabled goes
  have still := (act_stays enabled at_.used at'.used).2 here
  rw [← at_.fd] at ok
  obtain ⟨ms, new, adds, lines⟩ := (act_observed inv enabled here still ok).adds
  obtain ⟨bytes, built, fit⟩ := adds.added
  rw [at_.fd] at bytes
  obtain ⟨down, sent⟩ := h.hears at_.linked fit bytes
  obtain ⟨start, within, whole⟩ := h.joined i at_ here
  have grows : chatLines (l.hear (addedBy env s a)).sentDown =
      (cutLines (Chat.act env s a).log).drop start := by
    rw [sent, chatLines_append, whole, chatLines_frames, lines, cutLines_act, built,
      List.drop_append_of_le_length within, List.map_map]
    rfl
  refine ⟨down, ⟨start, ?_⟩, fun j at'' _ => ⟨start, ?_, grows⟩, fun j at'' no => ?_⟩
  · rw [grows]
  · rw [cutLines_act, List.length_append]
    exact Nat.le_add_right_of_le within
  · cases at''.slot_unique at'
    cases still.symm.trans no

/-- A client that does not join is told answers. -/
theorem stays_fresh (h : Told s l) (at_ : l.At s i) (inv : Inv s) (enabled : Enabled s a)
    (ok : env.Delivers l.fd) (goes : ¬ a.Ends i) (here : (s.srv.clients i).joined = false)
    (still : ((Chat.act env s a).srv.clients i).joined = false) :
    Told (Chat.act env s a) (l.hear (addedBy env s a)) := by
  have at' : (l.hear (addedBy env s a)).At (Chat.act env s a) i := at_.hear inv enabled goes
  rw [← at_.fd] at ok
  obtain ⟨ms, new, answers, adds⟩ := act_unjoined inv enabled at_.used here still ok
  obtain ⟨bytes, -, fit⟩ := adds.added
  rw [at_.fd] at bytes
  obtain ⟨down, sent⟩ := h.hears at_.linked fit bytes
  have all : ∀ f ∈ (l.hear (addedBy env s a)).sentDown, f.isAnswer = true := by
    intro f mem
    rw [sent] at mem
    rcases List.mem_append.mp mem with old | new
    · exact h.fresh i at_ here f old
    · obtain ⟨m, told, rfl⟩ := List.mem_map.mp new
      exact isAnswer_frame (answers m told)
  refine ⟨down, ⟨0, ?_⟩, fun j at'' yes => ?_, fun j at'' _ => all⟩
  · rw [chatLines_answers all]
    exact List.nil_prefix
  · cases at''.slot_unique at'
    cases still.symm.trans yes

/-- A client that joins is told the last lines. -/
theorem joins (h : Told s l) (at_ : l.At s i) (inv : Inv s) (history : HistoryInv s)
    (enabled : Enabled s a) (ok : env.Delivers l.fd) (goes : ¬ a.Ends i)
    (here : (s.srv.clients i).joined = false)
    (now : ((Chat.act env s a).srv.clients i).joined = true) :
    Told (Chat.act env s a) (l.hear (addedBy env s a)) := by
  have at' : (l.hear (addedBy env s a)).At (Chat.act env s a) i := at_.hear inv enabled goes
  rw [← at_.fd] at ok
  obtain ⟨f, need, rfl, scan, joined⟩ := act_joins enabled at_.used goes here now
  obtain ⟨-, adds⟩ := processFrame_joins inv at_.used ok here joined
  rw [← act_frame scan] at adds
  obtain ⟨bytes, built, fit⟩ := adds.added
  rw [at_.fd] at bytes
  obtain ⟨down, sent⟩ := h.hears at_.linked fit bytes
  have grows : chatLines (l.hear (addedBy env s (.frame i))).sentDown =
      (cutLines (Chat.act env s (.frame i)).log).drop
        ((cutLines s.log).length - historyLines) := by
    rw [sent, chatLines_append, chatLines_answers (h.fresh i at_ here), List.nil_append,
      chatLines_frames, greeting_lines history, cutLines_act, built, List.map_nil,
      List.append_nil, lastN, cutLines, List.length_map, List.map_map, List.map_drop]
    rfl
  refine ⟨down, ⟨_, by rw [grows]⟩, fun k at'' _ => ⟨_, ?_, grows⟩, fun k at'' no => ?_⟩
  · rw [cutLines_act, List.length_append]
    exact Nat.le_add_right_of_le (Nat.sub_le _ _)
  · cases at''.slot_unique at'
    cases now.symm.trans no

/-- **One action of the server.** -/
theorem hear (h : Told s l) (held : l.status = .linked → ∃ i, l.At s i) (inv : Inv s)
    (history : HistoryInv s) (enabled : Enabled s a) (ok : env.Delivers l.fd)
    (valid : ∀ i, l.At s i → a ≠ .invalid i) :
    Told (Chat.act env s a) (l.hear (addedBy env s a)) := by
  by_cases linked : l.status = .linked
  · obtain ⟨i, at_⟩ := held linked
    by_cases ends : a.Ends i
    · rcases ends with eq | eq
      · exact absurd eq (valid i at_)
      · have silent : bytesTo l.fd (addedBy env s a) = chatCodec.encodeAll [] := by
          rw [← at_.fd, eq]
          exact bytesTo_remove inv at_.used
        obtain ⟨down, sent⟩ := h.hears linked (List.forall_mem_nil _) silent
        rw [List.append_nil] at sent
        have gone : (l.hear (addedBy env s a)).status ≠ .linked := by
          intro still
          exact (at_.hear_iff inv enabled).mp still (.inr eq)
        exact ⟨down, h.part_grows sent (cutLines_act env s a),
          fun _ at' => absurd at'.linked gone, fun _ at' => absurd at'.linked gone⟩
    · cases here : (s.srv.clients i).joined with
      | true => exact h.stays_joined at_ inv enabled ok ends here
      | false =>
          cases now : ((Chat.act env s a).srv.clients i).joined with
          | true => exact h.joins at_ inv history enabled ok ends here now
          | false => exact h.stays_fresh at_ inv enabled ok ends here now
  · rw [Link.hear_of_not_linked linked]
    exact h.ended linked rfl rfl (cutLines_act env s a)

/-- The client acts without receiving. -/
theorem own (h : Told s l) {sock : Fd} {x : ClientAction} (enabled : ClientEnabled l.proc x)
    (own : x.isOwn = true) : Told s (l.act env sock x) where
  down := h.down.own enabled own
  part := h.part
  joined i at_ := h.joined i ⟨at_.linked, at_.slot, at_.used, at_.fd⟩
  fresh i at_ := h.fresh i ⟨at_.linked, at_.slot, at_.used, at_.fd⟩

/-- The client receives the next bytes. -/
theorem download (h : Told s l) (env : Env) (sock : Fd) {n : Nat}
    (going : l.proc.rcv.phase ≠ .stopped) (within : n ≤ l.down.pending.length)
    (fits : n ≤ l.proc.rcv.rx.room) :
    Told s { l.act env sock (.receive (.data (l.down.pending.take n))) with
      down := l.down.get n } where
  down := h.down.download env sock going within fits
  part := h.part
  joined i at_ := h.joined i ⟨at_.linked, at_.slot, at_.used, at_.fd⟩
  fresh i at_ := h.fresh i ⟨at_.linked, at_.slot, at_.used, at_.fd⟩

/-- The server receives bytes of the client. -/
theorem upload (h : Told s l) (n : Nat) : Told s { l with up := l.up.get n } where
  down := ⟨h.down.stream, h.down.fit, h.down.reads⟩
  part := h.part
  joined i at_ := h.joined i ⟨at_.linked, at_.slot, at_.used, at_.fd⟩
  fresh i at_ := h.fresh i ⟨at_.linked, at_.slot, at_.used, at_.fd⟩

theorem unstarted (userEnv : Env) (sock : Fd) (nick : CStr chatMaxNick) (fd : Fd) (s : Sys) :
    Told s (.start userEnv sock nick fd (addClient fd (s.note (.accept fd))).1) := by
  have nowhere : ∀ i,
      ¬ (Link.start userEnv sock nick fd (addClient fd (s.note (.accept fd))).1).At s i := by
    intro i at_
    exact ne_true_of_eq_false (addClient_some at_.slot).1 at_.used
  refine ⟨⟨rfl, List.forall_mem_nil _, [], ?_⟩, ⟨0, List.nil_prefix⟩,
    fun i at_ => absurd at_ (nowhere i), fun i at_ => absurd at_ (nowhere i)⟩
  change Reads (ClientProc.start sock userEnv nick).rcv [] []
  unfold ClientProc.start
  dsimp only
  split
  · exact Reads.init.stop (fun h => by cases h) (List.forall_mem_nil _)
  · exact Reads.init

end Told

/-- What a client is sent when its connection is accepted: nothing, unless the server is
full. -/
def welcome (slot : Option Slot) : List Frame :=
  if slot = none then [Message.frame ⟨.error, ascii "Server full"⟩] else []

theorem bytesTo_accept {env : Env} {s : Sys} {fd : Fd} (ok : env.Delivers fd) :
    bytesTo fd (addedBy env s (.accept fd)) =
      chatCodec.encodeAll (welcome (addClient fd (s.note (.accept fd))).1) := by
  rcases acceptClient_cases env fd s with ⟨j, added, -⟩ | ⟨full, same⟩
  · rw [(addedBy_accept added).1, added]
    rfl
  · have none : (addClient fd (s.note (.accept fd))).1 = none := by
      by_contra some_
      obtain ⟨j, added⟩ := Option.ne_none_iff_exists'.mp some_
      exact ne_true_of_eq_false (addClient_some added).1 (full j)
    have log : (act env s (.accept fd)).log = s.log ++ [.accept fd,
        .write fd (chatHeaderToWire (frameHeader MsgType.error.code (ascii "Server full").length))
          .done,
        .write fd (ascii "Server full") .done, .close fd] := by
      change (acceptClient env fd s).log = _
      rw [same, turnAway]
      simp only [writeFd_of_delivers ok, Sys.log_note, Sys.log_withLog, List.append_assoc,
        List.cons_append, List.nil_append]
    rw [addedBy, log, List.drop_left, none]
    simp [bytesTo, Event.bytesTo, welcome, Message.frame, Frame.encode]

theorem welcome_error (slot : Option Slot) : ∀ f ∈ welcome slot,
    f = Message.frame ⟨.error, ascii "Server full"⟩ := by
  unfold welcome
  split
  · exact fun f mem => List.mem_singleton.mp mem
  · exact List.forall_mem_nil _

section Start

variable {env : Env} (userEnv : Env) (sock : Fd) (nick : CStr chatMaxNick) {fd : Fd}
  (ok : env.Delivers fd) (s : Sys)
include ok

/-- The client is started. -/
theorem Link.sentDown_start :
    Downward (Link.hear (addedBy env s (.accept fd))
      (.start userEnv sock nick fd (addClient fd (s.note (.accept fd))).1)) ∧
    (Link.hear (addedBy env s (.accept fd))
      (.start userEnv sock nick fd (addClient fd (s.note (.accept fd))).1)).sentDown =
        welcome (addClient fd (s.note (.accept fd))).1 := by
  refine (Told.unstarted userEnv sock nick fd s).hears rfl (fun f mem => ?_) (bytesTo_accept ok)
  rw [welcome_error _ f mem]
  exact (ServerSite.error (show "Server full" ∈ errorTexts by decide)).fits

theorem Told.start :
    Told (Chat.act env s (.accept fd)) (Link.hear (addedBy env s (.accept fd))
      (.start userEnv sock nick fd (addClient fd (s.note (.accept fd))).1)) := by
  obtain ⟨down, sent⟩ := Link.sentDown_start userEnv sock nick ok s
  have answers : ∀ f ∈ welcome (addClient fd (s.note (.accept fd))).1, f.isAnswer = true := by
    intro f mem
    rw [welcome_error _ f mem]
    rfl
  refine ⟨down, ⟨0, ?_⟩, fun j at_ yes => ?_, fun j at_ _ => ?_⟩
  · rw [sent, chatLines_answers answers]
    exact List.nil_prefix
  · have added : (addClient fd (s.note (.accept fd))).1 = some j :=
      Link.slot_hear.symm.trans at_.slot
    cases (joined_accept added).symm.trans yes
  · rwa [sent]

end Start

/-! ## Where the frames of a client come from -/

section Sent

variable {env : Env} {s : Sys} {a : Action} {l : Link} {i : Slot}

/-- What an action sends to a client it does not part with. -/
theorem Link.At.adds (at_ : l.At s i) (inv : Inv s) (enabled : Enabled s a)
    (ok : env.Delivers l.fd) (goes : ¬ a.Ends i) :
    ∃ ms lines, Adds l.fd ms lines s.log (Chat.act env s a).log := by
  obtain ⟨used, -⟩ : ((Chat.act env s a).srv.clients i).used = true ∧ _ :=
    act_keeps enabled at_.used goes
  rw [← at_.fd] at ok ⊢
  cases here : (s.srv.clients i).joined with
  | true =>
      have still := (act_stays enabled at_.used used).2 here
      obtain ⟨ms, new, adds, -⟩ := (act_observed inv enabled here still ok).adds
      exact ⟨ms, new, adds⟩
  | false =>
      cases now : ((Chat.act env s a).srv.clients i).joined with
      | true =>
          obtain ⟨f, need, rfl, scan, joined⟩ := act_joins enabled at_.used goes here now
          have joins := (processFrame_joins inv at_.used ok here joined).2
          rw [← act_frame scan] at joins
          exact ⟨_, _, joins⟩
      | false =>
          obtain ⟨ms, new, -, adds⟩ := act_unjoined inv enabled at_.used here now ok
          exact ⟨ms, new, adds⟩

/-- A frame is sent because of an action. -/
theorem Told.sent_hear (h : Told s l) (held : l.status = .linked → ∃ i, l.At s i) (inv : Inv s)
    (enabled : Enabled s a) (ok : env.Delivers l.fd) (valid : ∀ i, l.At s i → a ≠ .invalid i)
    {f : Frame} (mem : f ∈ (l.hear (addedBy env s a)).sentDown) :
    f ∈ l.sentDown ∨ ∃ i m, l.At s i ∧ f = m.frame ∧ Origin s a l.fd m := by
  by_cases linked : l.status = .linked
  · obtain ⟨i, at_⟩ := held linked
    by_cases ends : a.Ends i
    · rcases ends with eq | eq
      · exact absurd eq (valid i at_)
      · have silent : bytesTo l.fd (addedBy env s a) = chatCodec.encodeAll [] := by
          rw [← at_.fd, eq]
          exact bytesTo_remove inv at_.used
        obtain ⟨-, sent⟩ := h.hears linked (List.forall_mem_nil _) silent
        rw [sent, List.append_nil] at mem
        exact .inl mem
    · obtain ⟨ms, lines, adds⟩ := at_.adds inv enabled ok ends
      obtain ⟨bytes, -, fit⟩ := adds.added
      obtain ⟨-, sent⟩ := h.hears linked fit bytes
      rw [sent] at mem
      rcases List.mem_append.mp mem with old | new
      · exact .inl old
      · obtain ⟨m, told, rfl⟩ := List.mem_map.mp new
        rw [← adds.messages] at told
        exact .inr ⟨i, m, at_, rfl, messagesTo_origin told⟩
  · rw [Link.hear_of_not_linked linked] at mem
    exact .inl mem

end Sent

end Osisp.Chat
