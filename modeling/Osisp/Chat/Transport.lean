import Osisp.Chat.Network
import Osisp.Chat.WellFormed

/-!
# The streams between the server and its clients

Whatever the network does, the server takes from a connection the frames that the
client at its other end wrote, in order, each once, and nothing else; it never finds an
invalid header. The same holds the other way while the server's writes to the client
get through. `Speaks` is the client's half of this, `Upward` and `Downward` are the two
streams.
-/

namespace Osisp.Chat

open Lib

/-! ## What a `send_frame` puts on a connection -/

theorem writeFull_begins (rets : List WriteRet) (buf : Bytes) : (writeFull rets buf).2 <+: buf := by
  induction rets, buf using writeFull.induct with
  | case1 rets => rw [writeFull]
  | case2 buf nonempty =>
      rw [writeFull]
      exact nonempty
  | case3 k rets buf nonempty ih =>
      rw [writeFull]
      · dsimp only
        conv => rhs; rw [← List.take_append_drop (k + 1) buf]
        exact (List.prefix_append_right_inj _).mpr ih
      · exact nonempty
  | case4 rets buf nonempty ih =>
      rw [writeFull]
      · exact ih
      · exact nonempty
  | case5 rets buf nonempty =>
      rw [writeFull]
      · exact List.nil_prefix
      · exact nonempty
  | case6 rets buf nonempty =>
      rw [writeFull]
      · exact List.nil_prefix
      · exact nonempty

theorem bytesTo_writeFd (env : Env) (fd : Fd) (buf : Bytes) (log : Log) :
    ∃ part, bytesTo fd (writeFd env fd buf log).2 = bytesTo fd log ++ part ∧ part <+: buf := by
  refine ⟨_, ?_, writeFull_begins (env fd (writeCalls fd log)) buf⟩
  unfold writeFd
  rw [bytesTo_append]
  simp [bytesTo, Event.bytesTo]

theorem bytesTo_snoc_sent (fd fd' : Fd) (type : MsgType) (body : Bytes) (ok : Bool) (log : Log) :
    bytesTo fd (log ++ [.sent fd' type body ok]) = bytesTo fd log := by
  rw [bytesTo_append]
  exact List.append_nil _

/-- A frame is written whole or not to its end. -/
theorem bytesTo_sendFrame_part (env : Env) (fd : Fd) (type : MsgType) (body : Bytes) (log : Log) :
    ∃ part, bytesTo fd (sendFrame env fd type body log).2 = bytesTo fd log ++ part ∧
      part <+: (Message.frame ⟨type, body⟩).encode ∧
      ((sendFrame env fd type body log).1 = true →
        part = (Message.frame ⟨type, body⟩).encode) := by
  by_cases sent : (sendFrame env fd type body log).1 = true
  · exact ⟨_, bytesTo_of_sent sent, List.prefix_rfl, fun _ => rfl⟩
  · have wire := chatHeaderToWire (frameHeader type.code body.length)
    obtain ⟨front, first, begins⟩ := bytesTo_writeFd env fd
      (chatHeaderToWire (frameHeader type.code body.length)) log
    refine (?_ : ∃ part, bytesTo fd (sendFrame env fd type body log).2 = bytesTo fd log ++ part ∧
      part <+: (Message.frame ⟨type, body⟩).encode).imp fun part h =>
        ⟨h.1, h.2, fun ok => absurd ok sent⟩
    unfold sendFrame at sent ⊢
    dsimp only at sent ⊢
    split at sent
    · rename_i header
      rw [if_pos header, bytesTo_snoc_sent]
      exact ⟨front, first, begins.trans (List.prefix_append _ _)⟩
    · rename_i header
      have whole := bytesTo_of_written (not_not.mp header)
      rw [if_neg header]
      split at sent
      · rename_i nonempty
        obtain ⟨rest, second, begins'⟩ := bytesTo_writeFd env fd body
          (writeFd env fd (chatHeaderToWire (frameHeader type.code body.length)) log).2
        split at sent
        · rename_i cut
          rw [if_pos nonempty, if_pos cut, bytesTo_snoc_sent, second, whole, List.append_assoc]
          exact ⟨_, rfl, (List.prefix_append_right_inj _).mpr begins'⟩
        · exact absurd rfl sent
      · exact absurd rfl sent

/-! ## What a client sends -/

/-- The message the event reports on `fd`, sent or not. -/
def Event.triedOn (fd : Fd) : Event → List Message
  | .sent fd' type body _ => if fd' = fd then [⟨type, body⟩] else []
  | _ => []

/-- The messages that `send_frame` was called with, in order. -/
def triedOn (fd : Fd) (log : Log) : List Message := log.flatMap (Event.triedOn fd)

theorem triedOn_append (fd : Fd) (l l' : Log) :
    triedOn fd (l ++ l') = triedOn fd l ++ triedOn fd l' := List.flatMap_append

theorem triedOn_sendFrame (env : Env) (fd : Fd) (type : MsgType) (body : Bytes) (log : Log) :
    triedOn fd (sendFrame env fd type body log).2 = triedOn fd log ++ [⟨type, body⟩] := by
  obtain ⟨writes, only, eq⟩ := sendFrame_log env fd type body log
  have nothing : triedOn fd writes = [] := by
    refine List.flatMap_eq_nil_iff.mpr fun e mem => ?_
    obtain ⟨data, out, rfl⟩ := only e mem
    rfl
  rw [eq, triedOn_append, triedOn_append, nothing, List.append_nil]
  simp [triedOn, Event.triedOn]

theorem encodeAll_snoc (fs : List Frame) (f : Frame) :
    chatCodec.encodeAll (fs ++ [f]) = chatCodec.encodeAll fs ++ f.encode := by
  rw [Codec.encodeAll_append, Codec.encodeAll_cons, Codec.encodeAll_nil, List.append_nil]
  rfl

/-- The event is of a `send_frame` on `fd`. -/
def Event.SendsOn (fd : Fd) : Event → Prop
  | .write fd' _ _ | .sent fd' _ _ _ => fd' = fd
  | _ => False

theorem sendFrame_sendsOn (env : Env) (fd : Fd) (type : MsgType) (body : Bytes) (log : Log) :
    Appends (Event.SendsOn fd) log (sendFrame env fd type body log).2 := by
  obtain ⟨writes, only, eq⟩ := sendFrame_log env fd type body log
  rw [eq]
  refine Appends.trans ⟨writes, rfl, fun e mem => ?_⟩ (.single rfl)
  obtain ⟨data, out, rfl⟩ := only e mem
  rfl

/-- How a client ends. -/
def ending (sock : Fd) (done : Bool) : Log := if done then [.close sock] else []

/-- What a started client has written is its `JOIN` and then other frames, of which only
the last can be missing its end. It uses no descriptor but its socket, and closes it as the
last thing it does. -/
structure Speaks (sock : Fd) (nick : CStr chatMaxNick) (u : UserSys) : Prop where
  join : ∃ rest, triedOn sock u.log = ⟨.join, nick.bytes⟩ :: rest ∧ ∀ m ∈ rest, m.type ≠ .join
  fits : ∀ m ∈ triedOn sock u.log, m.body.length ≤ chatMaxBody
  stream : bytesTo sock u.log <+:
    chatCodec.encodeAll ((triedOn sock u.log).map Message.frame)
  whole : u.done = false → bytesTo sock u.log =
    chatCodec.encodeAll ((triedOn sock u.log).map Message.frame)
  ends : ∃ sends : Log, u.log = sends ++ ending sock u.done ∧ ∀ e ∈ sends, e.SendsOn sock

/-- What an action of a running client can mean to its sending half. -/
inductive UserCase (env : Env) (sock : Fd) (u : UserSys) : UserSys → Prop
  | silent (line : Buf (lineCap - 1)) (out : List UserOutput) (done : Bool) :
    UserCase env sock u ⟨line, out, u.log ++ ending sock done, done⟩
  | sends {kept : Bytes} {m : Message} (line : Buf (lineCap - 1)) (out : List UserOutput)
      (done : Bool) :
    LineSends kept m → (done = false → (sendFrame env sock m.type m.body u.log).1 = true) →
    UserCase env sock u
      ⟨line, out, (sendFrame env sock m.type m.body u.log).2 ++ ending sock done, done⟩

section Client

variable {env : Env} {sock : Fd} {nick : CStr chatMaxNick} {u u' : UserSys} {p : ClientProc}

theorem LineSends.fits {kept : Bytes} {m : Message} (h : LineSends kept m) :
    m.body.length ≤ chatMaxBody ∧ m.type ≠ .join := by
  cases h with
  | list => exact ⟨Nat.zero_le _, fun h => by cases h⟩
  | privateMsg text fits =>
      refine ⟨?_, fun h => by cases h⟩
      rw [List.length_append, List.length_cons]
      omega
  | broadcast other fits => exact ⟨fits, fun h => by cases h⟩

theorem bytesTo_ending (sock : Fd) (log : Log) (done : Bool) :
    bytesTo sock (log ++ ending sock done) = bytesTo sock log ∧
      triedOn sock (log ++ ending sock done) = triedOn sock log := by
  have bytes : bytesTo sock (ending sock done) = [] := by cases done <;> rfl
  have tried : triedOn sock (ending sock done) = [] := by cases done <;> rfl
  rw [bytesTo_append, triedOn_append, bytes, tried, List.append_nil, List.append_nil]
  exact ⟨rfl, rfl⟩

/-- A running client has done nothing but send. -/
theorem Speaks.sends (h : Speaks sock nick u) (running : u.done = false) :
    ∀ e ∈ u.log, e.SendsOn sock := by
  obtain ⟨sends, eq, all⟩ := h.ends
  rw [running] at eq
  rw [eq]
  exact fun e mem => all e (by simpa [ending] using mem)

theorem Speaks.user (h : Speaks sock nick u) (running : u.done = false)
    (step : UserCase env sock u u') : Speaks sock nick u' := by
  cases step with
  | silent line out done =>
      obtain ⟨bytes, tried⟩ := bytesTo_ending sock u.log done
      refine ⟨?_, ?_, ?_, fun _ => ?_, u.log, rfl, h.sends running⟩ <;> dsimp only
      · rw [tried]
        exact h.join
      · rw [tried]
        exact h.fits
      · rw [bytes, tried]
        exact h.stream
      · rw [bytes, tried]
        exact h.whole running
  | @sends kept m line out done text ok =>
      obtain ⟨bytes, tried⟩ :=
        bytesTo_ending sock (sendFrame env sock m.type m.body u.log).2 done
      obtain ⟨part, written, begins, whole⟩ :=
        bytesTo_sendFrame_part env sock m.type m.body u.log
      obtain ⟨short, other⟩ := text.fits
      obtain ⟨rest, join, others⟩ := h.join
      obtain ⟨sends, log, all⟩ := sendFrame_sendsOn env sock m.type m.body u.log
      have tried' : triedOn sock
          ((sendFrame env sock m.type m.body u.log).2 ++ ending sock done) =
          triedOn sock u.log ++ [m] := by
        rw [tried, triedOn_sendFrame]
      have encoded : chatCodec.encodeAll ((triedOn sock u.log ++ [m]).map Message.frame) =
          chatCodec.encodeAll ((triedOn sock u.log).map Message.frame) ++ m.frame.encode := by
        rw [List.map_append, List.map_singleton, encodeAll_snoc]
      refine ⟨⟨rest ++ [m], ?_, fun m' mem => ?_⟩, fun m' mem => ?_, ?_, fun more => ?_,
        _, rfl, fun e mem => ?_⟩
      · dsimp only
        rw [tried', join]
        rfl
      · rcases List.mem_append.mp mem with old | new
        · exact others m' old
        · rw [List.mem_singleton.mp new]
          exact other
      · dsimp only at mem
        rw [tried'] at mem
        rcases List.mem_append.mp mem with old | new
        · exact h.fits m' old
        · rw [List.mem_singleton.mp new]
          exact short
      · dsimp only
        rw [bytes, tried', encoded, written, h.whole running]
        exact (List.prefix_append_right_inj _).mpr begins
      · dsimp only
        rw [bytes, tried', encoded, written, h.whole running, whole (ok more)]
      · rw [log] at mem
        exact (List.mem_append.mp mem).elim (h.sends running e) (all e)

/-- The client goes on. -/
theorem UserCase.goes (line : Buf (lineCap - 1)) (out : List UserOutput) :
    UserCase env sock u ⟨line, out, u.log, false⟩ := by
  have step : UserCase env sock u ⟨line, out, u.log ++ [], false⟩ := .silent line out false
  rwa [List.append_nil] at step

theorem UserCase.same (running : u.done = false) : UserCase env sock u u := by
  have step : UserCase env sock u ⟨u.line, u.out, u.log, false⟩ := .goes u.line u.out
  rwa [← running] at step

theorem UserCase.closes (line : Buf (lineCap - 1)) (out : List UserOutput) :
    UserCase env sock u ⟨line, out, u.log ++ [.close sock], true⟩ := .silent line out true

/-- A line that is sent, with what `main` does about the result of `handle_user_line`. -/
theorem typed_case {kept : Bytes} {r : UserResult × List UserOutput × Log}
    (line : LineCase env sock kept u.log r) :
    UserCase env sock u (if r.1 = .quit then ⟨u.line, u.out ++ r.2.1, r.2.2 ++ [.close sock], true⟩
      else ⟨.empty, u.out ++ r.2.1, r.2.2, false⟩) := by
  cases line with
  | silent result out =>
      split
      · exact .closes _ _
      · exact .goes _ _
  | @sends type body text =>
      have log := sendUser_log env sock type body u.log
      have result : (sendUser env sock type body u.log).1 ≠ .quit →
          (sendFrame env sock type body u.log).1 = true := by
        unfold sendUser
        dsimp only
        split
        · exact fun h => absurd rfl h
        · rename_i ok
          exact fun _ => by simpa using ok
      rw [log]
      split
      · exact .sends (m := ⟨type, body⟩) _ _ true text fun h => by cases h
      · rename_i goes
        have step : UserCase env sock u ⟨.empty, u.out ++ (sendUser env sock type body u.log).2.1,
            (sendFrame env sock type body u.log).2 ++ [], false⟩ :=
          .sends (m := ⟨type, body⟩) _ _ false text fun _ => result goes
        rwa [List.append_nil] at step

theorem typeByte_case (env : Env) (sock : Fd) (running : u.done = false) (x : UInt8) :
    UserCase env sock u (typeByte env sock u x) := by
  unfold typeByte
  rw [if_neg (ne_true_of_eq_false running)]
  split
  · exact typed_case (handleUserLine_case env sock u.line.bytes u.log)
  · rw [running]
    exact .goes _ _

theorem clientAct_user (env : Env) (sock : Fd) {p : ClientProc} (running : p.user.done = false)
    (a : ClientAction) : UserCase env sock p.user (clientAct env sock p a).user := by
  have receives : ∀ c, UserCase env sock p.user (p.setRcv sock c).user := by
    intro c
    unfold ClientProc.setRcv
    split
    · exact .closes _ _
    · exact .same running
  cases a with
  | receive ret => exact receives _
  | hangup => exact receives _
  | leave => exact .closes _ _
  | typed x =>
      rw [clientAct_typed]
      split <;> exact typeByte_case env sock running x

/-- What a client writes is added to what it has written. -/
theorem clientAct_log (env : Env) (sock : Fd) {p : ClientProc} (running : p.user.done = false)
    (a : ClientAction) : ∃ added, (clientAct env sock p a).user.log = p.user.log ++ added := by
  have step := clientAct_user env sock running a
  generalize (clientAct env sock p a).user = u' at step
  cases step with
  | silent line out done => exact ⟨ending sock done, rfl⟩
  | @sends kept m line out done =>
      obtain ⟨added, eq, -⟩ := sendFrame_appends env sock m.type m.body p.user.log
      refine ⟨added ++ ending sock done, ?_⟩
      dsimp only
      rw [eq, List.append_assoc]

theorem Speaks.start (env : Env) (sock : Fd) (nick : CStr chatMaxNick) :
    Speaks sock nick (ClientProc.start sock env nick).user := by
  have same : (ClientProc.start sock env nick).user = userJoin env sock nick := by
    unfold ClientProc.start
    dsimp only
    split <;> rfl
  obtain ⟨part, written, begins, whole⟩ := bytesTo_sendFrame_part env sock .join nick.bytes []
  have tried : triedOn sock (sendFrame env sock .join nick.bytes []).2 = [⟨.join, nick.bytes⟩] :=
    triedOn_sendFrame env sock .join nick.bytes []
  have short : nick.bytes.length ≤ chatMaxBody := le_trans nick.fits (by decide)
  have encoded : chatCodec.encodeAll ([(⟨.join, nick.bytes⟩ : Message)].map Message.frame) =
      (Message.frame ⟨.join, nick.bytes⟩).encode := List.append_nil _
  have log : (userJoin env sock nick).log = (sendFrame env sock .join nick.bytes []).2 ++
        ending sock (userJoin env sock nick).done ∧
      ((userJoin env sock nick).done = false →
        (sendFrame env sock .join nick.bytes []).1 = true) := by
    unfold userJoin
    dsimp only
    split
    · exact ⟨rfl, fun h => by cases h⟩
    · rename_i ok
      exact ⟨(List.append_nil _).symm, fun _ => by simpa using ok⟩
  obtain ⟨eq, ok⟩ := log
  obtain ⟨sends, sent, all⟩ := sendFrame_sendsOn env sock .join nick.bytes []
  obtain ⟨bytes, tried'⟩ := bytesTo_ending sock
    (sendFrame env sock .join nick.bytes []).2 (userJoin env sock nick).done
  rw [tried] at tried'
  rw [written] at bytes
  rw [same]
  refine ⟨⟨[], ?_, List.forall_mem_nil _⟩, fun m mem => ?_, ?_, fun more => ?_, _, eq, ?_⟩
  · rw [eq, tried']
  · rw [eq, tried', List.mem_singleton] at mem
    rw [mem]
    exact short
  · rw [eq, tried', encoded, bytes]
    exact begins
  · rw [eq, tried', encoded, bytes, whole (ok more)]
    rfl
  · rw [sent]
    exact all

/-- What a client writes is its own. -/
theorem Speaks.act (h : Speaks sock nick p.user) (joint : p.Joint) {a : ClientAction}
    (enabled : ClientEnabled p a) : Speaks sock nick (clientAct env sock p a).user :=
  h.user (joint.running enabled) (clientAct_user env sock (joint.running enabled) a)

/-- **The client as a whole.** Whatever the kernel answers, `main` is a run of the actions of
a client, and ends when its receiving half does. What it has written is its `JOIN` and then
other frames, whole unless it has ended; it closes its socket once, at the end. -/
theorem clientMain_speaks (env : Env) (sock : Fd) (nick : CStr chatMaxNick)
    (recvs : List (Option Bytes)) (polls : List ClientPoll) :
    let p := clientMain env sock nick recvs polls
    ClientLeads env sock (.start sock env nick) p ∧ p.Joint ∧ Speaks sock nick p.user := by
  obtain ⟨as, run⟩ := clientMain_runs env sock nick recvs polls
  have both := run.preserves (P := fun p => p.Joint ∧ Speaks sock nick p.user)
    ⟨ClientProc.start_joint env sock nick, .start env sock nick⟩
    fun h enabled => ⟨h.1.act enabled, h.2.act h.1 enabled⟩
  exact ⟨⟨as, run⟩, both⟩

end Client

/-! ## The stream to the server -/

/-- The frames that the client has sent. -/
def Link.sentUp (sock : Fd) (l : Link) : List Frame :=
  (triedOn sock l.proc.user.log).map Message.frame

/-- The server has handled the first frames that the client sent, and has the beginning
of the next in its buffer. -/
structure Upward (sock : Fd) (nick : CStr chatMaxNick) (s : Sys) (l : Link) : Prop where
  idle : l.status = .idle → l = .idle
  joint : l.proc.Joint
  speaks : l.status ≠ .idle → Speaks sock nick l.proc.user
  sent : l.up.sent = bytesTo sock l.proc.user.log
  begins : l.handled <+: l.sentUp sock
  handled : ∃ rest, l.up.received = chatCodec.encodeAll l.handled ++ rest ∧
    ∀ i, l.At s i → (s.srv.clients i).inbuf.bytes = rest

section Handled

variable {l : Link} {i : Slot}

theorem Link.handled_of_slot (slot : l.slot = some i) : l.handled = framesFrom i l.served := by
  unfold handled
  rw [slot]

theorem Link.handled_hear (added : Log) (linked : l.status = .linked) (slot : l.slot = some i) :
    (l.hear added).handled = l.handled ++ framesFrom i added := by
  rw [handled_of_slot (slot_hear.trans slot), handled_of_slot slot, hear_of_linked linked]
  exact framesFrom_append _ _ _

/-- Of a client that has just been accepted nothing has been handled. -/
theorem Link.handled_start (env userEnv : Env) (sock : Fd) (nick : CStr chatMaxNick) (fd : Fd)
    (s : Sys) : (Link.hear (addedBy env s (.accept fd)) (.start userEnv sock nick fd
      (addClient fd (s.note (.accept fd))).1)).handled = [] := by
  cases slot : (addClient fd (s.note (.accept fd))).1 with
  | none =>
      unfold Link.handled
      rw [Link.slot_hear]
      rfl
  | some i =>
      have other : Action.accept fd ≠ .frame i := fun eq => by cases eq
      rw [Link.handled_hear _ rfl rfl, framesFrom_addedBy other]
      rfl

end Handled

namespace Upward

variable {env : Env} {sock : Fd} {nick : CStr chatMaxNick} {s : Sys} {l : Link} {i : Slot}

theorem of_idle (sock : Fd) (nick : CStr chatMaxNick) (s : Sys) : Upward sock nick s .idle where
  idle _ := rfl
  joint := ⟨fun _ => rfl, fun _ => rfl⟩
  speaks other := absurd rfl other
  sent := rfl
  begins := List.prefix_rfl
  handled := ⟨[], rfl, fun _ at_ => by cases at_.linked⟩

theorem started (h : Upward sock nick s l) (at_ : l.At s i) : Speaks sock nick l.proc.user :=
  h.speaks (by rw [at_.linked]; exact fun h => by cases h)

theorem fits (h : Upward sock nick s l) (at_ : l.At s i) :
    ∀ f ∈ l.sentUp sock, chatCodec.Fits f := by
  intro f mem
  obtain ⟨m, tried, rfl⟩ := List.mem_map.mp mem
  exact (h.started at_).fits m tried

/-- What is in the buffer is the beginning of the frames that come next. -/
theorem waits (h : Upward sock nick s l) (at_ : l.At s i) :
    ∃ gs, l.sentUp sock = l.handled ++ gs ∧
      l.up.received = chatCodec.encodeAll l.handled ++ (s.srv.clients i).inbuf.bytes ∧
      (s.srv.clients i).inbuf.bytes <+: chatCodec.encodeAll gs ∧ ∀ f ∈ gs, chatCodec.Fits f := by
  obtain ⟨gs, split⟩ := h.begins
  obtain ⟨rest, received, buffered⟩ := h.handled
  have stream := (h.started at_).stream
  rw [← h.sent] at stream
  have part := l.up.received_begins.trans stream
  change _ <+: chatCodec.encodeAll (l.sentUp sock) at part
  rw [received, ← split, Codec.encodeAll_append, List.prefix_append_right_inj] at part
  rw [buffered i at_]
  refine ⟨gs, split.symm, received, part, fun f mem => h.fits at_ f ?_⟩
  rw [← split]
  exact List.mem_append_right _ mem

/-- The server finds no invalid header. -/
theorem not_bad (h : Upward sock nick s l) (at_ : l.At s i) :
    scanFrame (s.srv.clients i).inbuf.bytes ≠ .bad := by
  obtain ⟨gs, -, -, part, fit⟩ := h.waits at_
  intro bad
  rcases chatCodec.scan_of_part fit part with more | ⟨f, rest, -, scan, -⟩
  · cases more.symm.trans bad
  · cases scan.symm.trans bad

/-- The server takes the next frame. -/
theorem takes (h : Upward sock nick s l) (at_ : l.At s i) {f : Frame} {need : Nat}
    (scan : scanFrame (s.srv.clients i).inbuf.bytes = .frame f need) :
    l.handled ++ [f] <+: l.sentUp sock ∧ l.up.received =
      chatCodec.encodeAll (l.handled ++ [f]) ++ (s.srv.clients i).inbuf.bytes.drop need := by
  obtain ⟨gs, split, received, part, fit⟩ := h.waits at_
  rcases chatCodec.scan_of_part fit part with more | ⟨g, rest, eq, first, begins, -⟩
  · cases more.symm.trans scan
  · cases first.symm.trans scan
    refine ⟨?_, ?_⟩
    · rw [split, eq]
      exact ⟨rest, List.append_assoc _ _ _⟩
    · rw [encodeAll_snoc, List.append_assoc, received]
      obtain ⟨behind, whole⟩ := begins
      rw [← whole, List.drop_left]
      rfl

/-- An action of the server, other than receiving from this client. -/
theorem hear (h : Upward sock nick s l) (held : l.status = .linked → ∃ i, l.At s i)
    (inv : Inv s) {a : Action} (enabled : Enabled s a)
    (other : ∀ i data, l.At s i → a ≠ .recv i data) :
    Upward sock nick (act env s a) (l.hear (addedBy env s a)) := by
  by_cases linked : l.status = .linked
  · obtain ⟨i, at_⟩ := held linked
    have handled := Link.handled_hear (addedBy env s a) linked at_.slot
    have unmoved : l.status ≠ .idle := by
      rw [linked]
      exact fun h => by cases h
    have status : (l.hear (addedBy env s a)).status ≠ .idle := by
      rw [Link.hear_of_linked linked]
      dsimp only
      split <;> exact fun h => by cases h
    have after : ∀ j, (l.hear (addedBy env s a)).At (Chat.act env s a) j → j = i ∧ ¬ a.Ends i := by
      intro j at'
      obtain ⟨before, goes⟩ := (Link.At.hear_at_iff inv enabled held).mp at'
      cases before.slot_unique at_
      exact ⟨rfl, goes⟩
    have stream : l.handled ++ framesFrom i (addedBy env s a) <+: l.sentUp sock ∧
        ∃ rest, l.up.received =
            chatCodec.encodeAll (l.handled ++ framesFrom i (addedBy env s a)) ++ rest ∧
          ∀ j, (l.hear (addedBy env s a)).At (Chat.act env s a) j →
            ((Chat.act env s a).srv.clients j).inbuf.bytes = rest := by
      by_cases own : a = .frame i
      · subst own
        obtain ⟨used, f, need, scan⟩ := enabled
        obtain ⟨first, received⟩ := h.takes at_ scan
        have frames : framesFrom i (addedBy env s (.frame i)) = [f] := by
          have log := framesFrom_processFrame env i f need s
          rw [← act_frame scan, log_act, framesFrom_append] at log
          exact List.append_cancel_left log
        rw [frames]
        refine ⟨first, _, received, fun j at' => ?_⟩
        obtain ⟨rfl, -⟩ := after j at'
        rw [act_frame scan, (processFrame_sameConn env j f need s).2.2.2]
        rfl
      · rw [framesFrom_addedBy own, List.append_nil]
        obtain ⟨rest, received, buffered⟩ := h.handled
        refine ⟨h.begins, rest, received, fun j at' => ?_⟩
        obtain ⟨rfl, goes⟩ := after j at'
        have elsewhere : a.slot ≠ some j := by
          intro slot
          cases a with
          | accept fd => cases slot
          | recv k data =>
              cases slot
              exact other j data at_ rfl
          | frame k =>
              cases slot
              exact own rfl
          | invalid k =>
              cases slot
              exact goes (.inl rfl)
          | remove k =>
              cases slot
              exact goes (.inr rfl)
        rw [act_of_other at_.used elsewhere]
        exact buffered j at_
    refine ⟨fun idle => absurd idle status, ?_, fun _ => ?_, ?_, ?_, ?_⟩
    · rw [Link.proc_hear]
      exact h.joint
    · rw [Link.proc_hear]
      exact h.speaks unmoved
    · rw [Link.proc_hear, Link.up_hear]
      exact h.sent
    · rw [handled, Link.sentUp, Link.proc_hear]
      exact stream.1
    · rw [handled, Link.up_hear]
      exact stream.2
  · rw [Link.hear_of_not_linked linked]
    refine ⟨h.idle, h.joint, h.speaks, h.sent, h.begins, ?_⟩
    obtain ⟨rest, received, -⟩ := h.handled
    exact ⟨rest, received, fun _ at_ => absurd at_.linked linked⟩

/-- The server receives the next bytes of this client. -/
theorem upload (h : Upward sock nick s l) (at_ : l.At s i) (inv : Inv s) {n : Nat}
    (within : n ≤ l.up.pending.length) (fits : n ≤ (s.srv.clients i).inbuf.room) :
    Upward sock nick (act env s (.recv i (l.up.pending.take n)))
      (Link.hear (addedBy env s (.recv i (l.up.pending.take n))) { l with up := l.up.get n }) := by
  have enabled : Enabled s (.recv i (l.up.pending.take n)) := at_.used
  have at_' : ({ l with up := l.up.get n } : Link).At s i :=
    ⟨at_.linked, at_.slot, at_.used, at_.fd⟩
  obtain ⟨gs, split, received, part, -⟩ := h.waits at_
  have unmoved : l.status ≠ .idle := by
    rw [at_.linked]
    exact fun h => by cases h
  have handled : (Link.hear (addedBy env s (.recv i (l.up.pending.take n)))
      { l with up := l.up.get n }).handled = l.handled := by
    have other : Action.recv i (l.up.pending.take n) ≠ .frame i := fun eq => by cases eq
    rw [Link.handled_hear _ at_'.linked at_'.slot, framesFrom_addedBy other, List.append_nil]
    rfl
  refine ⟨fun idle => ?_, ?_, fun _ => ?_, ?_, ?_, ?_⟩
  · rw [Link.hear_of_linked at_'.linked] at idle
    dsimp only at idle
    split at idle <;> cases idle
  · rw [Link.proc_hear]
    exact h.joint
  · rw [Link.proc_hear]
    exact h.speaks unmoved
  · rw [Link.proc_hear, Link.up_hear]
    exact h.sent
  · rw [handled, Link.sentUp, Link.proc_hear]
    exact h.begins
  · rw [handled, Link.up_hear]
    refine ⟨(s.srv.clients i).inbuf.bytes ++ l.up.pending.take n, ?_, fun j at' => ?_⟩
    · rw [Wire.received_get, received, List.append_assoc]
    · obtain ⟨before, -⟩ := (Link.At.hear_at_iff inv enabled fun _ => ⟨i, at_'⟩).mp at'
      cases before.slot_unique at_'
      change ((recvInto i (l.up.pending.take n) s).srv.clients i).inbuf.bytes = _
      unfold recvInto
      rw [Sys.clients_setClient_self, Client.inbuf_setInbuf, Buf.bytes_recv_of_le]
      rw [List.length_take, min_eq_left within]
      exact fits

/-- The client does something. -/
theorem client (h : Upward sock nick s l) {a : ClientAction} (enabled : ClientEnabled l.proc a)
    {down : Wire UInt8} : Upward sock nick s { l.act env sock a with down := down } := by
  have running := h.joint.running enabled
  have unmoved : l.status ≠ .idle := by
    intro idle
    rw [h.idle idle] at running
    cases running
  obtain ⟨added, log⟩ := clientAct_log env sock running a
  have tried : ({ l.act env sock a with down := down } : Link).sentUp sock =
      l.sentUp sock ++ (triedOn sock added).map Message.frame := by
    change (triedOn sock (clientAct env sock l.proc a).user.log).map _ = _
    rw [log, triedOn_append, List.map_append]
    rfl
  refine ⟨fun idle => absurd idle unmoved, h.joint.act enabled,
    fun _ => (h.speaks unmoved).act h.joint enabled, ?_, ?_, ?_⟩
  · change l.up.sent ++ bytesTo sock
      ((clientAct env sock l.proc a).user.log.drop l.proc.user.log.length) = _
    rw [h.sent, log, List.drop_left, ← bytesTo_append, ← log]
    rfl
  · rw [tried]
    exact h.begins.trans (List.prefix_append _ _)
  · obtain ⟨rest, received, buffered⟩ := h.handled
    refine ⟨rest, ?_, fun i at_ => buffered i ⟨at_.linked, at_.slot, at_.used, at_.fd⟩⟩
    change (l.up.put _).received = _
    rw [Wire.received_put]
    exact received

/-- The client is started. -/
theorem start (sock : Fd) (nick : CStr chatMaxNick) (userEnv : Env) (fd : Fd) (s : Sys) :
    Upward sock nick (act env s (.accept fd)) (Link.hear (addedBy env s (.accept fd))
      (.start userEnv sock nick fd (addClient fd (s.note (.accept fd))).1)) := by
  have handled := Link.handled_start env userEnv sock nick fd s
  refine ⟨fun idle => ?_, ?_, fun _ => ?_, ?_, ?_, ?_⟩
  · rw [Link.hear_of_linked rfl] at idle
    dsimp only at idle
    split at idle <;> cases idle
  · rw [Link.proc_hear]
    exact ClientProc.start_joint userEnv sock nick
  · rw [Link.proc_hear]
    exact Speaks.start userEnv sock nick
  · rw [Link.proc_hear, Link.up_hear]
    rfl
  · rw [handled]
    exact List.nil_prefix
  · rw [handled, Link.up_hear]
    refine ⟨[], rfl, fun i at_ => ?_⟩
    have added : (addClient fd (s.note (.accept fd))).1 = some i :=
      Link.slot_hear.symm.trans at_.slot
    have same : act env s (.accept fd) = (addClient fd (s.note (.accept fd))).2 := by
      rcases acceptClient_cases env fd s with ⟨j, -, same⟩ | ⟨full, -⟩
      · exact same
      · exact absurd (full i) (ne_true_of_eq_false (addClient_some added).1)
    rw [same, (addClient_some added).2.1]
    rfl

end Upward

/-! ## Any action of the network -/

/-- The server is in a state of its own, holds the links in its slots, and reads from
each what its client wrote. -/
structure NetSound {ι : Type} (st : Setting ι) (n : Net ι) : Prop where
  srv : Reachable st.env n.srv
  wired : Wired n
  up : ∀ k, Upward (st.sock k) (st.nick k) n.srv (n.links k)

section Links

variable {ι : Type} [DecidableEq ι] {n : Net ι} {k k' : ι} {l : Link}

@[simp] theorem Net.links_setLink_self : (n.setLink k l).links k = l := Function.update_self ..

theorem Net.links_setLink_of_ne (ne : k' ≠ k) : (n.setLink k l).links k' = n.links k' :=
  Function.update_of_ne ne ..

end Links

namespace NetSound

variable {ι : Type} {st : Setting ι} {n : Net ι}

theorem init : NetSound st Net.init where
  srv := ⟨[], .nil _⟩
  wired := .init
  up k := .of_idle (st.sock k) (st.nick k) _

/-- No slot of the server holds an invalid header. -/
theorem not_bad (h : NetSound st n) {i : Slot} (used : (n.srv.srv.clients i).used = true) :
    scanFrame (n.srv.srv.clients i).inbuf.bytes ≠ .bad := by
  obtain ⟨k, at_⟩ := h.wired.own i used
  exact (h.up k).not_bad at_

theorem reach (h : NetSound st n) {a : Action} (enabled : Enabled n.srv a) :
    Reachable st.env (Chat.act st.env n.srv a) := h.srv.run (.one enabled)

theorem serve (h : NetSound st n) {a : Action} (enabled : Enabled n.srv a)
    (inner : a.isInner = true) : NetSound st (n.serve st.env a) := by
  have accepts : ∀ fd, a ≠ .accept fd := by
    rintro fd rfl
    cases inner
  refine ⟨h.reach enabled, h.wired.serve h.srv.inv enabled accepts, fun k => ?_⟩
  refine (h.up k).hear (h.wired.held k) h.srv.inv enabled ?_
  rintro i data - rfl
  cases inner

variable [DecidableEq ι]

/-- A client acts, and the server does nothing. -/
theorem client (h : NetSound st n) (k : ι) {a : ClientAction}
    (enabled : ClientEnabled (n.links k).proc a) (down : Wire UInt8) :
    NetSound st (n.setLink k
      { (n.links k).act (st.userEnv k) (st.sock k) a with down := down }) := by
  refine ⟨h.srv, h.wired.setLink (fun i => ?_) rfl, fun k' => ?_⟩
  · exact ⟨fun at_ => ⟨at_.linked, at_.slot, at_.used, at_.fd⟩,
      fun at_ => ⟨at_.linked, at_.slot, at_.used, at_.fd⟩⟩
  · by_cases own : k' = k
    · subst own
      rw [Net.links_setLink_self]
      exact (h.up k').client enabled
    · rw [Net.links_setLink_of_ne own]
      exact h.up k'

theorem upload (h : NetSound st n) {k : ι} {i : Slot} (at_ : (n.links k).At n.srv i) {m : Nat}
    (within : m ≤ (n.links k).up.pending.length)
    (fits : m ≤ (n.srv.srv.clients i).inbuf.room) :
    NetSound st ((n.setLink k { n.links k with up := (n.links k).up.get m }).serve st.env
      (.recv i ((n.links k).up.pending.take m))) := by
  have enabled : Enabled n.srv (.recv i ((n.links k).up.pending.take m)) := at_.used
  have moved : Wired (n.setLink k { n.links k with up := (n.links k).up.get m }) :=
    h.wired.setLink (fun i => ⟨fun at_ => ⟨at_.linked, at_.slot, at_.used, at_.fd⟩,
      fun at_ => ⟨at_.linked, at_.slot, at_.used, at_.fd⟩⟩) rfl
  have accepts : ∀ fd, Action.recv i ((n.links k).up.pending.take m) ≠ .accept fd := by
    rintro fd eq
    cases eq
  refine ⟨h.reach enabled, moved.serve h.srv.inv enabled accepts, fun k' => ?_⟩
  change Upward _ _ _ (Link.hear _ ((n.setLink k _).links k'))
  by_cases own : k' = k
  · subst own
    rw [Net.links_setLink_self]
    exact (h.up k').upload at_ h.srv.inv within fits
  · rw [Net.links_setLink_of_ne own]
    refine (h.up k').hear (h.wired.held k') h.srv.inv enabled ?_
    rintro j data at_' eq
    cases eq
    exact own (h.wired.one k' k i at_' at_)

theorem connect (h : NetSound st n) {k : ι} (idle : (n.links k).status = .idle) {fd : Fd}
    (enabled : Enabled n.srv (.accept fd)) :
    NetSound st (netAct st n (.connect k fd)) := by
  refine ⟨h.reach enabled, h.wired.connect h.srv.inv idle enabled rfl rfl rfl, fun k' => ?_⟩
  change Upward _ _ _ (Link.hear _ ((n.setLink k _).links k'))
  by_cases own : k' = k
  · subst own
    rw [Net.links_setLink_self]
    exact .start _ _ _ fd n.srv
  · rw [Net.links_setLink_of_ne own]
    refine (h.up k').hear (h.wired.held k') h.srv.inv enabled ?_
    rintro i data - eq
    cases eq

/-- **One action of the network.** -/
theorem act (h : NetSound st n) {x : NetAction ι} (enabled : NetEnabled st n x) :
    NetSound st (netAct st n x) := by
  cases x with
  | connect k fd => exact h.connect enabled.1 enabled.2.2
  | upload k i m =>
      obtain ⟨linked, slot, -, within, fits⟩ := enabled
      obtain ⟨j, at_⟩ := h.wired.held k linked
      cases at_.slot.symm.trans slot
      exact h.upload at_ within fits
  | serve a => exact h.serve enabled.2 enabled.1
  | download k m =>
      obtain ⟨going, long, within, fits⟩ := enabled
      have size : ((n.links k).down.pending.take m).length = m := by
        rw [List.length_take, min_eq_left within]
      have receives : ClientEnabled (n.links k).proc
          (.receive (.data ((n.links k).down.pending.take m))) := by
        refine ⟨going, ?_, ?_⟩ <;> rw [size]
        · exact long
        · exact fits
      exact h.client k receives _
  | client k a => exact h.client k enabled.2 (n.links k).down

end NetSound

theorem NetReachable.sound {ι : Type} [DecidableEq ι] {st : Setting ι} {n : Net ι}
    (reach : NetReachable st n) : NetSound st n := by
  obtain ⟨as, run⟩ := reach
  exact run.preserves .init fun h enabled => h.act enabled

end Osisp.Chat
