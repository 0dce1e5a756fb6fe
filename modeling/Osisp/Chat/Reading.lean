import Osisp.Chat.Handshake
import Osisp.Chat.Origins

/-!
# What a client reads of its stream

A client that is sent a stream of frames prints the first of them, in order, each once,
and never complains of an invalid header; while it runs, what it has not printed is in
its buffer (`Reads`). Together with the server's half of the stream this is `Downward`.
-/

namespace Osisp.Chat

open Lib

/-- Output that is neither a message nor the announcement of an invalid header. -/
def Output.Plain (o : Output) : Prop := o.message = none ∧ o ≠ protocolError

/-- Of the stream `got` the client has printed the frames `fs`. -/
structure Reads (c : ClientSys) (got : Bytes) (fs : List Frame) : Prop where
  fit : ∀ f ∈ fs, chatCodec.Fits f
  begins : chatCodec.encodeAll fs <+: got
  out : ∃ later, c.out = fs.map .print ++ later ∧ (∀ o ∈ later, o.Plain) ∧
    (c.phase ≠ .stopped → later = [])
  rest : c.phase ≠ .stopped → got = chatCodec.encodeAll fs ++ c.rx.bytes
  acked : c.phase = .connected ∨ c.phase = .handshake true →
    ∃ f ∈ fs, f.type = MsgType.joinAck.code

/-- The same while the client decodes, with its `got_join`. -/
structure Reading (c : ClientSys) (got : Bytes) (fs : List Frame) (gotJoin : Bool) : Prop where
  fit : ∀ f ∈ fs, chatCodec.Fits f
  out : c.out = fs.map .print
  whole : got = chatCodec.encodeAll fs ++ c.rx.bytes
  acked : gotJoin = true → ∃ f ∈ fs, f.type = MsgType.joinAck.code

theorem Output.plain_diag {text : String}
    (other : ascii text ≠ ascii "Protocol error, disconnecting.\n") :
    (Output.diag (ascii text)).Plain :=
  ⟨rfl, fun eq => other (Output.diag.inj eq)⟩

theorem Output.plain_unexpected (type : UInt32) : (Output.diag (unexpected type)).Plain := by
  refine ⟨rfl, fun eq => ?_⟩
  have heads := congrArg List.head? (Output.diag.inj eq)
  have first : (ascii "Unexpected message during handshake (type=").head? = some 85 := by decide
  have other : (ascii "Protocol error, disconnecting.\n").head? = some 80 := by decide
  rw [unexpected, List.append_assoc, List.head?_append, first, other] at heads
  cases heads

namespace Reading

variable {c : ClientSys} {got : Bytes} {fs : List Frame} {gotJoin : Bool}

/-- The client gives up, with a diagnostic or without. -/
theorem stop (h : Reading c got fs gotJoin) {later : List Output} (plain : ∀ o ∈ later, o.Plain)
    (rx : Buf recvCap) : Reads ⟨.stopped, rx, c.out ++ later⟩ got fs where
  fit := h.fit
  begins := ⟨c.rx.bytes, h.whole.symm⟩
  out := ⟨later, congrArg (· ++ later) h.out, plain, fun going => absurd rfl going⟩
  rest going := absurd rfl going
  acked phase := by rcases phase with eq | eq <;> cases eq

/-- The client waits for more. -/
theorem wait (h : Reading c got fs gotJoin) {phase : Phase}
    (acked : phase = .connected ∨ phase = .handshake true → gotJoin = true) :
    Reads { c with phase := phase } got fs where
  fit := h.fit
  begins := ⟨c.rx.bytes, h.whole.symm⟩
  out := ⟨[], by rw [List.append_nil]; exact h.out, List.forall_mem_nil _, fun _ => rfl⟩
  rest _ := h.whole
  acked joined := h.acked (acked joined)

theorem fit_snoc (h : Reading c got fs gotJoin) {f : Frame} (fits : chatCodec.Fits f) :
    ∀ g ∈ fs ++ [f], chatCodec.Fits g := by
  intro g mem
  rcases List.mem_append.mp mem with old | new
  · exact h.fit g old
  · rw [List.mem_singleton.mp new]
    exact fits

/-- One more frame is printed. -/
theorem print (h : Reading c got fs gotJoin) {f : Frame} (fits : chatCodec.Fits f)
    (begins : f.encode <+: c.rx.bytes)
    {gotJoin' : Bool}
    (acked : gotJoin' = true → gotJoin = true ∨ f.type = MsgType.joinAck.code) :
    Reading ((c.print f).consume f.encode.length) got (fs ++ [f]) gotJoin' := by
  obtain ⟨behind, eq⟩ := begins
  refine ⟨h.fit_snoc fits, ?_, ?_, fun yes => ?_⟩
  · change c.out ++ [.print f] = _
    rw [h.out, List.map_append]
    rfl
  · change got = chatCodec.encodeAll (fs ++ [f]) ++ c.rx.bytes.drop f.encode.length
    rw [encodeAll_snoc, h.whole, ← eq, List.drop_left, List.append_assoc]
  · rcases acked yes with before | now
    · obtain ⟨g, mem, type⟩ := h.acked before
      exact ⟨g, List.mem_append_left _ mem, type⟩
    · exact ⟨f, List.mem_append_right _ (List.mem_singleton_self f), now⟩

/-- The last frame is printed. -/
theorem refused (h : Reading c got fs gotJoin) {f : Frame} (fits : chatCodec.Fits f)
    (begins : f.encode <+: c.rx.bytes) :
    Reads { c.print f with phase := .stopped } got (fs ++ [f]) := by
  have last : Reading ((c.print f).consume f.encode.length) got (fs ++ [f]) false :=
    h.print fits begins fun no => by cases no
  have stopped := last.stop (List.forall_mem_nil _) c.rx
  rwa [List.append_nil] at stopped

/-- `handshake_blocking` over the beginning of a stream of frames. -/
theorem handshakeLoop {fuel : Nat} {gs : List Frame} (fit : ∀ f ∈ gs, chatCodec.Fits f)
    (h : Reading c got fs gotJoin) (part : c.rx.bytes <+: chatCodec.encodeAll gs) :
    ∃ fs', Reads (Chat.handshakeLoop fuel gotJoin c) got fs' := by
  induction fuel generalizing gotJoin c fs gs with
  | zero => exact ⟨fs, h.wait (by rintro (eq | eq) <;> cases eq; rfl)⟩
  | succ fuel ih =>
      unfold Chat.handshakeLoop
      rcases chatCodec.scan_of_part fit part with more | ⟨f, rest, rfl, scan, begins, behind⟩
      · rw [← chatCodec_scan, more]
        dsimp only
        split
        · rename_i done
          simp only [Bool.and_eq_true, decide_eq_true_eq] at done
          exact ⟨fs, h.wait fun _ => done.1⟩
        · exact ⟨fs, h.wait (by rintro (eq | eq) <;> cases eq; rfl)⟩
      · rw [← chatCodec_scan, scan]
        dsimp only
        have fits := fit f List.mem_cons_self
        have fit' : ∀ g ∈ rest, chatCodec.Fits g := fun g mem => fit g (List.mem_cons_of_mem f mem)
        split
        · -- the server refuses the client
          exact ⟨fs ++ [f], h.refused fits begins⟩
        · rename_i type
          exact ih fit' (h.print fits begins fun _ => .inr (MsgType.ofCode_eq_some type)) behind
        · split
          · exact ⟨fs, h.stop (by
              intro o mem
              rw [List.mem_singleton.mp mem]
              exact Output.plain_diag (by decide)) c.rx⟩
          · exact ih fit' (h.print fits begins .inl) behind
        · exact ⟨fs, h.stop (by
            intro o mem
            rw [List.mem_singleton.mp mem]
            exact Output.plain_unexpected f.type) c.rx⟩

/-- `process_server` over the beginning of a stream of frames. -/
theorem processServer {gs : List Frame} (fit : ∀ f ∈ gs, chatCodec.Fits f)
    (h : Reading c got fs true) (part : c.rx.bytes <+: chatCodec.encodeAll gs) :
    ∃ fs', Reads (Chat.processServer c) got fs' := by
  obtain ⟨hs, t, parsed, first, eq⟩ := chatCodec.parse_part fit part
  obtain ⟨-, rx, out⟩ := serverLoop_parses c parsed (Nat.lt_succ_self _)
  have whole : got = chatCodec.encodeAll (fs ++ hs) ++ t := by
    rw [Codec.encodeAll_append, List.append_assoc, ← eq]
    exact h.whole
  refine ⟨fs ++ hs, fun f mem => ?_, ⟨t, whole.symm⟩,
    ⟨[], ?_, List.forall_mem_nil _, fun _ => rfl⟩, fun _ => ?_, fun _ => ?_⟩
  · rcases List.mem_append.mp mem with old | new
    · exact h.fit f old
    · exact fit f (first.subset new)
  · rw [List.append_nil, List.map_append, ← h.out]
    exact out
  · rw [whole]
    exact congrArg (chatCodec.encodeAll (fs ++ hs) ++ ·) rx.symm
  · obtain ⟨f, mem, type⟩ := h.acked rfl
    exact ⟨f, List.mem_append_left _ mem, type⟩

end Reading

namespace Reads

variable {c : ClientSys} {got : Bytes} {fs : List Frame}

theorem init : Reads ClientSys.init [] [] where
  fit := List.forall_mem_nil _
  begins := List.prefix_rfl
  out := ⟨[], rfl, List.forall_mem_nil _, fun _ => rfl⟩
  rest _ := rfl
  acked phase := by rcases phase with eq | eq <;> cases eq

/-- The client ends, with a diagnostic or without. -/
theorem stop (h : Reads c got fs) (going : c.phase ≠ .stopped) {later : List Output}
    (plain : ∀ o ∈ later, o.Plain) : Reads ⟨.stopped, c.rx, c.out ++ later⟩ got fs := by
  obtain ⟨before, out, -, none⟩ := h.out
  rw [none going, List.append_nil] at out
  refine ⟨h.fit, h.begins, ⟨later, ?_, plain, fun going => absurd rfl going⟩,
    fun going => absurd rfl going, fun phase => ?_⟩
  · dsimp only
    rw [out]
  · rcases phase with eq | eq <;> cases eq

/-- The client as it decodes a chunk. -/
theorem reading (h : Reads c got fs) (going : c.phase ≠ .stopped) {chunk : Bytes}
    (fits : chunk.length ≤ c.rx.room) (phase : Phase) {gotJoin : Bool}
    (acked : gotJoin = true → c.phase = .connected ∨ c.phase = .handshake true) :
    Reading ⟨phase, c.rx.recv chunk, c.out⟩ (got ++ chunk) fs gotJoin := by
  obtain ⟨before, out, -, none⟩ := h.out
  rw [none going, List.append_nil] at out
  refine ⟨h.fit, out, ?_, fun yes => h.acked (acked yes)⟩
  dsimp only
  rw [Buf.bytes_recv_of_le fits, h.rest going, List.append_assoc]

/-- **One chunk** of a stream of frames. -/
theorem receive (h : Reads c got fs) (going : c.phase ≠ .stopped) {chunk : Bytes}
    (fits : chunk.length ≤ c.rx.room) {gs : List Frame} (fit : ∀ f ∈ gs, chatCodec.Fits f)
    (part : got ++ chunk <+: chatCodec.encodeAll gs) :
    ∃ fs', Reads (c.receive (.data chunk)) (got ++ chunk) fs' := by
  -- what is buffered is the beginning of what comes behind the frames printed
  have ahead : ∃ hs, (∀ f ∈ hs, chatCodec.Fits f) ∧
      (c.rx.recv chunk).bytes <+: chatCodec.encodeAll hs := by
    rw [h.rest going, List.append_assoc, ← Buf.bytes_recv_of_le fits] at part
    obtain ⟨hs, rfl⟩ :=
      chatCodec.prefix_of_encodeAll fit h.fit ((List.prefix_append _ _).trans part)
    rw [Codec.encodeAll_append, List.prefix_append_right_inj] at part
    exact ⟨hs, fun f mem => fit f (List.mem_append_right _ mem), part⟩
  obtain ⟨hs, fit', part'⟩ := ahead
  unfold ClientSys.receive
  cases phase : c.phase with
  | stopped => exact absurd phase going
  | handshake gotJoin =>
      dsimp only
      refine (h.reading going fits (.handshake gotJoin) fun yes => .inr ?_).handshakeLoop fit' part'
      rw [phase, yes]
  | connected =>
      dsimp only
      exact (h.reading going fits .connected fun _ => .inl phase).processServer fit' part'

/-- What the client does by itself. -/
theorem own {env : Env} {sock : Fd} {p : ClientProc} (h : Reads p.rcv got fs) {a : ClientAction}
    (enabled : ClientEnabled p a) (own : a.isOwn = true) :
    Reads (clientAct env sock p a).rcv got fs := by
  have quits : ∀ text, p.rcv.phase ≠ .stopped →
      ascii text ≠ ascii "Protocol error, disconnecting.\n" →
      Reads (p.setRcv sock (p.rcv.quit text)).rcv got fs := by
    intro text going other
    refine h.stop going fun o mem => ?_
    rw [List.mem_singleton.mp mem]
    exact Output.plain_diag other
  have leaves : p.rcv.phase ≠ .stopped → Reads { p.rcv with phase := .stopped } got fs := by
    intro going
    have stopped := h.stop going (List.forall_mem_nil _)
    rwa [List.append_nil] at stopped
  have going : p.rcv.phase = .connected → p.rcv.phase ≠ .stopped := by
    intro connected stopped
    cases connected.symm.trans stopped
  cases a with
  | receive ret =>
      cases ret with
      | data chunk => cases own
      | closed =>
          change Reads (p.setRcv sock (p.rcv.receive .closed)).rcv got fs
          unfold ClientSys.receive
          cases phase : p.rcv.phase with
          | stopped => exact absurd phase enabled
          | handshake gotJoin => exact quits _ enabled (by decide)
          | connected => exact quits _ enabled (by decide)
      | error =>
          change Reads (p.setRcv sock (p.rcv.receive .error)).rcv got fs
          unfold ClientSys.receive
          cases phase : p.rcv.phase with
          | stopped => exact absurd phase enabled
          | handshake gotJoin => exact quits _ enabled (by decide)
          | connected => exact quits _ enabled (by decide)
  | hangup => exact quits _ (going enabled) (by decide)
  | leave => exact leaves (going enabled)
  | typed x =>
      rw [clientAct_typed]
      split
      · exact leaves (going enabled)
      · exact h

/-- The client has printed these frames. -/
theorem messages (h : Reads c got fs) : c.out.filterMap Output.message = fs := by
  obtain ⟨later, out, plain, -⟩ := h.out
  have nothing : later.filterMap Output.message = [] :=
    List.filterMap_eq_nil_iff.mpr fun o mem => (plain o mem).1
  have all : (fs.map Output.print).filterMap Output.message = fs := by
    rw [List.filterMap_map]
    exact List.filterMap_some
  rw [out, List.filterMap_append, all, nothing, List.append_nil]

theorem not_protocolError (h : Reads c got fs) : protocolError ∉ c.out := by
  obtain ⟨later, out, plain, -⟩ := h.out
  rw [out]
  intro mem
  rcases List.mem_append.mp mem with printed | other
  · obtain ⟨f, -, eq⟩ := List.mem_map.mp printed
    cases eq
  · exact (plain _ other).2 rfl

end Reads

/-! ## The stream to the client -/

/-- The frames that the server has sent to the client. -/
def Link.sentDown (l : Link) : List Frame := (chatCodec.parse l.down.sent).frames

/-- The server has written frames to the client, and it has printed the first of them. -/
structure Downward (l : Link) : Prop where
  stream : l.down.sent = chatCodec.encodeAll l.sentDown
  fit : ∀ f ∈ l.sentDown, chatCodec.Fits f
  reads : ∃ fs, Reads l.proc.rcv l.down.received fs

theorem Link.sentDown_eq {l : Link} {fs : List Frame} (fit : ∀ f ∈ fs, chatCodec.Fits f)
    (stream : l.down.sent = chatCodec.encodeAll fs) : l.sentDown = fs := by
  rw [sentDown, stream, chatCodec.parse_encodeAll fit]

namespace Downward

variable {l l' : Link}

theorem idle : Downward .idle where
  stream := rfl
  fit := List.forall_mem_nil _
  reads := ⟨[], List.forall_mem_nil _, List.prefix_rfl,
    ⟨[], rfl, List.forall_mem_nil _, fun _ => rfl⟩, fun going => absurd rfl going,
    fun phase => by rcases phase with eq | eq <;> cases eq⟩

/-- The client has printed the first frames. -/
theorem shown_begins (h : Downward l) : l.shown <+: l.sentDown := by
  obtain ⟨fs, reads⟩ := h.reads
  rw [Link.shown, reads.messages]
  have part := reads.begins.trans l.down.received_begins
  rw [h.stream] at part
  exact chatCodec.prefix_of_encodeAll h.fit reads.fit part

/-- More frames are sent. -/
theorem put (h : Downward l) {fs : List Frame} (fit : ∀ f ∈ fs, chatCodec.Fits f)
    (proc : l'.proc.rcv = l.proc.rcv) (down : l'.down = l.down.put (chatCodec.encodeAll fs)) :
    Downward l' ∧ l'.sentDown = l.sentDown ++ fs := by
  have fit' : ∀ f ∈ l.sentDown ++ fs, chatCodec.Fits f := by
    intro f mem
    rcases List.mem_append.mp mem with old | new
    · exact h.fit f old
    · exact fit f new
  have stream : l'.down.sent = chatCodec.encodeAll (l.sentDown ++ fs) := by
    rw [down, Wire.sent_put, h.stream, Codec.encodeAll_append]
  have same : l'.sentDown = l.sentDown ++ fs := Link.sentDown_eq fit' stream
  refine ⟨⟨?_, ?_, ?_⟩, same⟩
  · rw [same, stream]
  · rw [same]
    exact fit'
  · rw [proc, down, Wire.received_put]
    exact h.reads

/-- The client acts without receiving. -/
theorem own (h : Downward l) {env : Env} {sock : Fd} {a : ClientAction}
    (enabled : ClientEnabled l.proc a) (own : a.isOwn = true) : Downward (l.act env sock a) := by
  obtain ⟨fs, reads⟩ := h.reads
  exact ⟨h.stream, h.fit, fs, reads.own enabled own⟩

/-- The client receives the next bytes. -/
theorem download (h : Downward l) (env : Env) (sock : Fd) {n : Nat}
    (going : l.proc.rcv.phase ≠ .stopped) (within : n ≤ l.down.pending.length)
    (fits : n ≤ l.proc.rcv.rx.room) :
    Downward { l.act env sock (.receive (.data (l.down.pending.take n))) with
      down := l.down.get n } := by
  obtain ⟨fs, reads⟩ := h.reads
  have size : (l.down.pending.take n).length ≤ l.proc.rcv.rx.room := by
    rw [List.length_take, min_eq_left within]
    exact fits
  have part : l.down.received ++ l.down.pending.take n <+: chatCodec.encodeAll l.sentDown := by
    rw [← h.stream, ← Wire.received_get]
    exact (l.down.get n).received_begins
  obtain ⟨fs', reads'⟩ := reads.receive going size h.fit part
  refine ⟨h.stream, h.fit, fs', ?_⟩
  change Reads (l.proc.setRcv sock _).rcv (l.down.get n).received fs'
  rw [ClientProc.rcv_setRcv, Wire.received_get]
  exact reads'

end Downward

end Osisp.Chat
