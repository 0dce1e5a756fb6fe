import Osisp.Chat.Io
import Osisp.Chat.Client

/-!
# What the client makes of a stream

Behind the handshake the client decodes its buffer with `process_server` after
each `recv`. Over a stream that `send_frame` wrote this is lossless: whatever the
writes and the reads cut, the frames arrive once and in order
(`sent_frames_heard`).

A stream with an invalid header is another matter. The client says that it
disconnects, clears the buffer and goes on, so that what is left of the stream is
decoded from wherever `recv` happened to stop. Two cuts of one stream read alike
exactly when nothing decodable is left behind any such place (`reads_alike_iff`).
-/

namespace Osisp.Chat

open Lib

/-! ## The loop of `process_server` -/

/-- The announcement of an invalid header. -/
def protocolError : Output := .diag (ascii "Protocol error, disconnecting.\n")

/-- The output for decoded bytes: the frames, then the announcement if a bad head
was met. -/
def heard (p : Parsed UInt8 Frame) : List Output :=
  p.frames.map .print ++ if p.tail = none then [protocolError] else []

theorem heard_some (fs : List Frame) (t : Bytes) : heard ⟨fs, some t⟩ = fs.map .print :=
  List.append_nil _

theorem heard_none (fs : List Frame) : heard ⟨fs, none⟩ = fs.map .print ++ [protocolError] := rfl

/-- Only a head that waits for more is passed over in silence. -/
theorem heard_eq_nil_iff {b : Bytes} : heard (chatCodec.parse b) = [] ↔ scanFrame b = .more := by
  constructor
  · intro silent
    cases scan : scanFrame b with
    | more => rfl
    | bad =>
        rw [chatCodec.parse_of_bad scan] at silent
        cases silent
    | frame f n =>
        rw [chatCodec.parse_of_frame scan] at silent
        cases silent
  · intro scan
    rw [chatCodec.parse_of_more scan]
    rfl

/-- What `process_server` leaves in the buffer. -/
def leftOver (p : Parsed UInt8 Frame) : Bytes := p.tail.getD []

/-- What is left waits for more input. -/
theorem scanFrame_leftOver (b : Bytes) : scanFrame (leftOver (chatCodec.parse b)) = .more := by
  unfold leftOver
  cases tail : (chatCodec.parse b).tail with
  | none => rfl
  | some t => exact chatCodec.scan_tail tail

/-- `process_server` decodes its buffer in one go. -/
theorem serverLoop_hears {fuel : Nat} (c : ClientSys) (enough : c.rx.bytes.length < fuel) :
    (serverLoop fuel c).phase = c.phase ∧
      (serverLoop fuel c).rx.bytes = leftOver (chatCodec.parse c.rx.bytes) ∧
      (serverLoop fuel c).out = c.out ++ heard (chatCodec.parse c.rx.bytes) := by
  generalize buf : c.rx.bytes = b at enough
  induction b using chatCodec.parse_induction generalizing fuel c with
  | more b scan =>
      obtain ⟨fuel, rfl⟩ : ∃ k, fuel = k + 1 := ⟨fuel - 1, by omega⟩
      rw [chatCodec.parse_of_more scan]
      rw [chatCodec_scan] at scan
      simp only [serverLoop, buf, scan]
      exact ⟨trivial, rfl, (List.append_nil _).symm⟩
  | bad b scan =>
      obtain ⟨fuel, rfl⟩ : ∃ k, fuel = k + 1 := ⟨fuel - 1, by omega⟩
      rw [chatCodec.parse_of_bad scan]
      rw [chatCodec_scan] at scan
      simp only [serverLoop, buf, scan]
      exact ⟨trivial, rfl, rfl⟩
  | frame b f need scan ih =>
      obtain ⟨fuel, rfl⟩ : ∃ k, fuel = k + 1 := ⟨fuel - 1, by omega⟩
      have shorter := chatCodec.length_drop_lt scan
      rw [chatCodec.parse_of_frame scan]
      rw [chatCodec_scan] at scan
      simp only [serverLoop, buf, scan]
      have left : ((c.print f).consume need).rx.bytes = b.drop need := by
        rw [← buf]
        rfl
      obtain ⟨phase, rx, out⟩ := ih ((c.print f).consume need) left
        (show (b.drop need).length < fuel by omega)
      refine ⟨phase, rx, out.trans ?_⟩
      exact List.append_assoc c.out [.print f] _

/-- One `recv` of the main loop. -/
theorem receive_hears {c : ClientSys} {chunk : Bytes} (connected : c.phase = .connected)
    (fits : chunk.length ≤ c.rx.room) :
    (c.receive (.data chunk)).phase = .connected ∧
      (c.receive (.data chunk)).rx.bytes =
        leftOver (chatCodec.parse (c.rx.bytes ++ chunk)) ∧
      (c.receive (.data chunk)).out =
        c.out ++ heard (chatCodec.parse (c.rx.bytes ++ chunk)) := by
  have step : c.receive (.data chunk) = processServer { c with rx := c.rx.recv chunk } := by
    simp only [ClientSys.receive, connected]
  have filled : (c.rx.recv chunk).bytes = c.rx.bytes ++ chunk := Buf.bytes_recv_of_le fits
  obtain ⟨phase, rx, out⟩ := serverLoop_hears { c with rx := c.rx.recv chunk }
    (Nat.lt_succ_self (c.rx.recv chunk).bytes.length)
  rw [step, ← filled]
  exact ⟨phase.trans connected, rx, out⟩

/-! ## Over a whole stream -/

/-- Wherever the buffer can be cleared behind an invalid header, what is left of
the stream starts with neither a complete frame nor an invalid header. -/
def Settles (b : Bytes) : Prop :=
  ∀ fs t, chatCodec.After b fs t → scanFrame t = .bad →
    ∀ k, chatHeaderSize ≤ k → k ≤ recvCap → k ≤ t.length → scanFrame (t.drop k) = .more

theorem Settles.after {b t : Bytes} {fs : List Frame} (h : Settles b)
    (after : chatCodec.After b fs t) : Settles t :=
  fun _ u next bad => h _ u (after.trans next) bad

theorem settles_of_more {b : Bytes} (scan : scanFrame b = .more) : Settles b := by
  intro fs t after bad
  cases after with
  | here _ =>
      rw [scan] at bad
      cases bad
  | frame head _ =>
      rw [chatCodec_scan, scan] at head
      cases head

/-- A buffer that meets an invalid header holds it whole, and no more than it
can. -/
theorem Settles.cleared {b u rest : Bytes} {fs : List Frame} (h : Settles (b ++ rest))
    (after : chatCodec.After b fs u) (bad : scanFrame u = .bad) (full : u.length ≤ recvCap) :
    scanFrame rest = .more := by
  have long := (scanFrame_eq_bad_iff.mp bad).1
  have stop := h fs (u ++ rest) (after.append rest) (chatCodec.bad_append rest bad) u.length long
    full (by rw [List.length_append]; omega)
  rwa [List.drop_left] at stop

/-- **The client over a stream.** However it is cut, what a one-shot decoding
yields is printed first. Nothing follows unless an invalid header was met, and
even then nothing if the stream settles. -/
theorem receiveAll_hears {c : ClientSys} {chunks : List Bytes} (connected : c.phase = .connected)
    (waiting : scanFrame c.rx.bytes = .more) (valid : c.ValidCuts chunks) :
    (c.receiveAll chunks).phase = .connected ∧
      scanFrame (c.receiveAll chunks).rx.bytes = .more ∧
      ∃ later, (c.receiveAll chunks).out =
          c.out ++ heard (chatCodec.parse (c.rx.bytes ++ chunks.flatten)) ++ later ∧
        (∀ t, (chatCodec.parse (c.rx.bytes ++ chunks.flatten)).tail = some t →
          later = [] ∧ (c.receiveAll chunks).rx.bytes = t) ∧
        (Settles (c.rx.bytes ++ chunks.flatten) → later = []) := by
  induction chunks generalizing c with
  | nil =>
      refine ⟨connected, waiting, [], ?_⟩
      have same : c.rx.bytes ++ ([] : List Bytes).flatten = c.rx.bytes := List.append_nil _
      rw [same, chatCodec.parse_of_more waiting]
      refine ⟨by simp [ClientSys.receiveAll, heard], fun t tail => ⟨rfl, ?_⟩, fun _ => rfl⟩
      exact Option.some.inj tail
  | cons chunk chunks ih =>
      obtain ⟨-, fits, validRest⟩ := valid (by rw [connected]; nofun)
      obtain ⟨phase, rx, out⟩ := receive_hears connected fits
      have waiting' : scanFrame (c.receive (.data chunk)).rx.bytes = .more := by
        rw [rx]
        exact scanFrame_leftOver _
      obtain ⟨phase', waits, later, out', whole, silent⟩ := ih phase waiting' validRest
      rw [List.flatten_cons, ← List.append_assoc]
      cases tail : (chatCodec.parse (c.rx.bytes ++ chunk)).tail with
      | some t =>
          -- nothing was lost: the rest is decoded behind the tail
          have left : (c.receive (.data chunk)).rx.bytes = t := by
            rw [rx, leftOver, tail]
            rfl
          have before : heard (chatCodec.parse (c.rx.bytes ++ chunk)) =
              (chatCodec.parse (c.rx.bytes ++ chunk)).frames.map .print := by
            rw [heard, tail]
            exact List.append_nil _
          rw [left] at out' whole silent
          rw [chatCodec.parse_append_of_some tail]
          refine ⟨phase', waits, later, ?_, whole, fun settled => silent ?_⟩
          · refine out'.trans ?_
            rw [out, before]
            simp only [heard, List.map_append, List.append_assoc]
          · exact settled.after ((chatCodec.after_tail tail).append _)
      | none =>
          -- the buffer was cleared: the rest is decoded by itself
          have left : (c.receive (.data chunk)).rx.bytes = [] := by
            rw [rx, leftOver, tail]
            rfl
          rw [left, List.nil_append] at out' whole silent
          rw [chatCodec.parse_append_of_none tail]
          refine ⟨phase', waits, heard (chatCodec.parse chunks.flatten) ++ later, ?_, ?_, ?_⟩
          · refine out'.trans ?_
            rw [out, List.append_assoc, List.append_assoc]
          · intro t kept
            rw [tail] at kept
            cases kept
          · intro settled
            obtain ⟨u, after, bad⟩ := chatCodec.after_bad tail
            obtain ⟨a, split⟩ := after.drop_eq
            have filled : (c.rx.bytes ++ chunk).length ≤ recvCap := by
              have full := (c.rx.recv chunk).fits
              rwa [Buf.bytes_recv_of_le fits] at full
            have short : u.length ≤ recvCap := by
              rw [split, List.length_drop]
              omega
            have more := settled.cleared after bad short
            rw [heard_eq_nil_iff.mpr more, silent (settles_of_more more)]
            rfl

/-! ## Reading after a send -/

/-- An iteration of `pull_server_after_send`: `poll` reports nothing, or `recv` is
called. -/
inductive PullAnswer
  | quiet
  | ready (ret : RecvRet)

/-- `incomplete_frame`. -/
def incompleteFrame (buf : Bytes) : Bool :=
  if buf.length = 0 then false
  else if buf.length < chatHeaderSize then true
  else
    let h := chatHeaderFromWire (buf.take chatHeaderSize)
    if !chatHeaderValid h then false
    else buf.length < chatHeaderSize + h.bodyLen.toNat

/-- `pull_server_after_send` from iteration `sp` on, for at most `fuel` of them. -/
def pullLoop (answers : Nat → PullAnswer) : Nat → Nat → Nat → ClientSys → ClientSys
  | 0, _, _, c => c
  | fuel + 1, sp, stall, c =>
      match answers sp with
      | .quiet =>
          if !incompleteFrame c.rx.bytes then c
          else if stall + 1 > 40 then c
          else pullLoop answers fuel (sp + 1) (stall + 1) c
      | .ready (.data chunk) =>
          if chunk.take c.rx.room = [] then c
          else pullLoop answers fuel (sp + 1) 0 (processServer { c with rx := c.rx.recv chunk })
      | .ready _ => c

def pullServerAfterSend (answers : Nat → PullAnswer) (c : ClientSys) : ClientSys :=
  pullLoop answers 128 0 0 c

/-- What `recv` returns to it. -/
def pullChunks (answers : Nat → PullAnswer) : Nat → Nat → Nat → ClientSys → List Bytes
  | 0, _, _, _ => []
  | fuel + 1, sp, stall, c =>
      match answers sp with
      | .quiet =>
          if !incompleteFrame c.rx.bytes then []
          else if stall + 1 > 40 then []
          else pullChunks answers fuel (sp + 1) (stall + 1) c
      | .ready (.data chunk) =>
          if chunk.take c.rx.room = [] then []
          else chunk.take c.rx.room ::
            pullChunks answers fuel (sp + 1) 0 (processServer { c with rx := c.rx.recv chunk })
      | .ready _ => []

theorem pullLoop_receives (answers : Nat → PullAnswer) (fuel sp stall : Nat) (c : ClientSys)
    (connected : c.phase = .connected) :
    c.ValidCuts (pullChunks answers fuel sp stall c) ∧
      pullLoop answers fuel sp stall c = c.receiveAll (pullChunks answers fuel sp stall c) := by
  induction fuel generalizing sp stall c with
  | zero => exact ⟨trivial, rfl⟩
  | succ fuel ih =>
      unfold pullLoop pullChunks
      cases answers sp with
      | quiet =>
          dsimp only
          split
          · exact ⟨trivial, rfl⟩
          · split
            · exact ⟨trivial, rfl⟩
            · exact ih (sp + 1) (stall + 1) c connected
      | ready ret =>
          cases ret with
          | data chunk =>
              dsimp only
              split
              · exact ⟨trivial, rfl⟩
              · rename_i nonempty
                have taken : c.rx.recv (chunk.take c.rx.room) = c.rx.recv chunk := by
                  apply Buf.ext
                  simp only [Buf.recv, List.take_take, Nat.min_self]
                have step : c.receive (.data (chunk.take c.rx.room)) =
                    processServer { c with rx := c.rx.recv chunk } := by
                  simp only [ClientSys.receive, connected, taken]
                have fits : (chunk.take c.rx.room).length ≤ c.rx.room := List.length_take_le _ _
                have phase := (receive_hears connected fits).1
                rw [step] at phase
                obtain ⟨valid, eq⟩ := ih (sp + 1) 0 _ phase
                refine ⟨fun _ => ⟨?_, fits, ?_⟩, ?_⟩
                · exact List.length_pos_iff.mpr nonempty
                · rwa [step]
                · rw [eq, ← step]
                  rfl
          | closed => exact ⟨trivial, rfl⟩
          | error => exact ⟨trivial, rfl⟩

/-- Reading after a send is receiving chunk by chunk, as in the main loop. -/
theorem pullServerAfterSend_receives (answers : Nat → PullAnswer) (c : ClientSys)
    (connected : c.phase = .connected) :
    ∃ chunks, c.ValidCuts chunks ∧ pullServerAfterSend answers c = c.receiveAll chunks :=
  ⟨_, pullLoop_receives answers 128 0 0 c connected⟩

/-! ## Sent and received -/

/-- `send_frame` for any word as the type; `sendFrame` is it at an enumerator
(`sendFrame_eq`). -/
def sendWord (env : Env) (fd : Fd) (f : Frame) (log : Log) : Bool × Log :=
  let (out, log) := writeFd env fd (chatHeaderToWire (frameHeader f.type f.body.length)) log
  if out ≠ .done then (false, log)
  else if f.body.length > 0 then
    let (out, log) := writeFd env fd f.body log
    if out ≠ .done then (false, log) else (true, log)
  else (true, log)

theorem sendFrame_eq (env : Env) (fd : Fd) (type : MsgType) (body : Bytes) (log : Log) :
    sendFrame env fd type body log =
      ((sendWord env fd ⟨type.code, body⟩ log).1, (sendWord env fd ⟨type.code, body⟩ log).2 ++
        [.sent fd type body (sendWord env fd ⟨type.code, body⟩ log).1]) := by
  unfold sendFrame sendWord
  dsimp only
  split
  · rfl
  · split
    · split
      · rfl
      · rfl
    · rfl

/-- `send_frame` for one message after the other, each with its return value. -/
def sendWords (env : Env) (fd : Fd) : List Frame → Log → List Bool × Log
  | [], log => ([], log)
  | f :: fs, log =>
      let (ok, log) := sendWord env fd f log
      let (oks, log) := sendWords env fd fs log
      (ok :: oks, log)

section Sent

variable {env : Env} {fd : Fd} (ok : env.Delivers fd)
include ok

theorem sendWord_of_delivers (f : Frame) (log : Log) :
    (sendWord env fd f log).1 = true ∧
      bytesTo fd (sendWord env fd f log).2 = bytesTo fd log ++ f.encode := by
  rcases f with ⟨type, body⟩
  unfold sendWord
  simp only [writeFd_of_delivers ok]
  cases body with
  | nil => exact ⟨rfl, by simp [bytesTo, Event.bytesTo, Frame.encode]⟩
  | cons x body => exact ⟨rfl, by simp [bytesTo, Event.bytesTo, Frame.encode]⟩

theorem sendWords_of_delivers (fs : List Frame) (log : Log) :
    (∀ r ∈ (sendWords env fd fs log).1, r = true) ∧
      bytesTo fd (sendWords env fd fs log).2 = bytesTo fd log ++ chatCodec.encodeAll fs := by
  induction fs generalizing log with
  | nil => exact ⟨nofun, (List.append_nil _).symm⟩
  | cons f fs ih =>
      obtain ⟨returned, bytes⟩ := sendWord_of_delivers ok f log
      obtain ⟨rest, bytes'⟩ := ih (sendWord env fd f log).2
      refine ⟨fun r mem => ?_, ?_⟩
      · rcases List.mem_cons.mp mem with rfl | mem
        · exact returned
        · exact rest r mem
      · refine bytes'.trans ?_
        rw [bytes, Codec.encodeAll_cons, List.append_assoc]
        rfl

end Sent

/-- **Nothing is lost between `send_frame` and `process_server`.** Whatever words
the types are and whatever the bodies hold, the messages of one stream are printed
once and in order and nothing is left in the buffer, however short the writes are
and however `recv` cuts the stream. -/
theorem sent_frames_heard (env : Env) (fd : Fd) (ok : env.Delivers fd) (fs : List Frame)
    (fit : ∀ f ∈ fs, f.body.length ≤ chatMaxBody) (log : Log) (c : ClientSys)
    (connected : c.phase = .connected) (empty : c.rx.bytes = []) (chunks : List Bytes)
    (cut : bytesTo fd (sendWords env fd fs log).2 = bytesTo fd log ++ chunks.flatten)
    (valid : c.ValidCuts chunks) :
    (∀ r ∈ (sendWords env fd fs log).1, r = true) ∧
      (c.receiveAll chunks).phase = .connected ∧
      (c.receiveAll chunks).out = c.out ++ fs.map .print ∧
      (c.receiveAll chunks).rx.bytes = [] := by
  obtain ⟨returned, bytes⟩ := sendWords_of_delivers ok fs log
  have stream : chunks.flatten = chatCodec.encodeAll fs :=
    List.append_cancel_left (cut.symm.trans bytes)
  have waiting : scanFrame c.rx.bytes = .more := by
    rw [empty]
    rfl
  obtain ⟨phase, -, later, out, whole, -⟩ := receiveAll_hears connected waiting valid
  rw [empty, List.nil_append, stream, chatCodec.parse_encodeAll fit] at out whole
  obtain ⟨none, left⟩ := whole [] rfl
  refine ⟨returned, phase, ?_, left⟩
  rw [out, none, heard_some, List.append_nil]

/-- A write that is cut short and interrupted, and a type word that is no
enumerator, in three chunks. -/
theorem sent_frames_heard_cut :
    let env : Env := fun _ _ => [.short 2, .eintr]
    let f : Frame := ⟨77, ascii "hi"⟩
    let chunks := [f.encode.take 5, (f.encode.drop 5).take 12, f.encode.drop 17]
    let c : ClientSys := ⟨.connected, .empty, []⟩
    (∀ r ∈ (sendWords env 4 [f] []).1, r = true) ∧
      (c.receiveAll chunks).phase = .connected ∧
      (c.receiveAll chunks).out = [.print f] ∧
      (c.receiveAll chunks).rx.bytes = [] := by
  intro env f chunks c
  have delivers : env.Delivers 4 := fun _ => by decide
  exact sent_frames_heard env 4 delivers [f] (by decide +kernel) [] c rfl rfl chunks
    (by decide +kernel) (fun _ => ⟨by decide +kernel, by decide +kernel,
      fun _ => ⟨by decide +kernel, by decide +kernel,
        fun _ => ⟨by decide +kernel, by decide +kernel, trivial⟩⟩⟩)

/-! ## Two cuts of one stream -/

/-- What the client writes while it receives the chunks. -/
def ClientSys.written (c : ClientSys) (chunks : List Bytes) : List Output :=
  (c.receiveAll chunks).out.drop c.out.length

/-- The message of a `print_incoming` call. -/
def Output.message : Output → Option Frame
  | .print f => some f
  | .diag _ => none

/-- `chunks` is a way for `recv` to deliver the stream `b`. -/
structure ClientSys.Cuts (c : ClientSys) (b : Bytes) (chunks : List Bytes) : Prop where
  whole : chunks.flatten = b
  valid : c.ValidCuts chunks

/-- The stream reads the same however it is cut, and after the announcement of a
protocol error nothing of it is printed. -/
structure ReadsAlike (c : ClientSys) (b : Bytes) : Prop where
  same : ∀ chunks chunks', c.Cuts b chunks → c.Cuts b chunks' →
    (c.written chunks).filterMap Output.message = (c.written chunks').filterMap Output.message
  silent : ∀ chunks, c.Cuts b chunks → ∀ before after,
    c.written chunks = before ++ protocolError :: after → after = []

section Cutting

variable {c : ClientSys}

theorem ClientSys.receiveAll_append (c : ClientSys) (xs ys : List Bytes) :
    c.receiveAll (xs ++ ys) = (c.receiveAll xs).receiveAll ys := List.foldl_append

theorem ClientSys.ValidCuts.append {xs ys : List Bytes} (first : c.ValidCuts xs)
    (second : (c.receiveAll xs).ValidCuts ys) : c.ValidCuts (xs ++ ys) := by
  induction xs generalizing c with
  | nil => exact second
  | cons x xs ih =>
      intro running
      obtain ⟨pos, fits, rest⟩ := first running
      exact ⟨pos, fits, ih rest second⟩

/-- `recv` may return one byte at a time. -/
def bytewise (b : Bytes) : List Bytes := b.map fun x => [x]

@[simp] theorem flatten_bytewise (b : Bytes) : (bytewise b).flatten = b := by
  induction b with
  | nil => rfl
  | cons x b ih => exact congrArg (x :: ·) ih

/-- A buffer that waits for more has room for it. -/
theorem validCuts_bytewise (connected : c.phase = .connected)
    (waiting : scanFrame c.rx.bytes = .more) (b : Bytes) : c.ValidCuts (bytewise b) := by
  induction b generalizing c with
  | nil => trivial
  | cons x b ih =>
      intro _
      have room := length_lt_recvCap_of_more waiting
      have fits : [x].length ≤ c.rx.room := by
        rw [List.length_singleton, Buf.room]
        omega
      obtain ⟨phase, rx, -⟩ := receive_hears connected fits
      refine ⟨Nat.le_refl 1, fits, ih phase ?_⟩
      rw [rx]
      exact scanFrame_leftOver _

end Cutting

/-- A frame is recognised from its own bytes. -/
theorem scanFrame_take {b : Bytes} {f : Frame} {n : Nat} (scan : scanFrame b = .frame f n) :
    scanFrame (b.take n) = .frame f n := by
  obtain ⟨h, header, valid, rfl, enough, rfl⟩ := scanFrame_eq_frame_iff.mp scan
  refine scanFrame_eq_frame_iff.mpr ⟨h, ?_, valid, rfl, ?_, ?_⟩
  · rw [List.take_take, Nat.min_eq_left (Nat.le_add_right _ _)]
    exact header
  · exact Nat.le_of_eq (List.length_take_of_le enough).symm
  · rw [List.drop_take, Nat.add_sub_cancel_left, List.take_take, Nat.min_self]

/-- An invalid header is recognised from its 16 bytes. -/
theorem scanFrame_take_bad {b : Bytes} {k : Nat} (bad : scanFrame b = .bad)
    (long : chatHeaderSize ≤ k) : scanFrame (b.take k) = .bad := by
  obtain ⟨enough, invalid⟩ := scanFrame_eq_bad_iff.mp bad
  refine scanFrame_eq_bad_iff.mpr ⟨?_, ?_⟩
  · rw [List.length_take]
    omega
  · rwa [List.take_take, Nat.min_eq_left long]

/-- Deliver the frames byte by byte, then the first `k` bytes from the invalid
header on at once, then the rest byte by byte. -/
theorem clearing_cut {c : ClientSys} {b t : Bytes} {fs : List Frame} {k : Nat}
    (connected : c.phase = .connected) (empty : c.rx.bytes = [])
    (after : chatCodec.After b fs t) (bad : scanFrame t = .bad) (long : chatHeaderSize ≤ k)
    (fits : k ≤ recvCap) (within : k ≤ t.length) :
    ∃ chunks later, c.Cuts b chunks ∧ c.written chunks =
      fs.map .print ++ protocolError :: (heard (chatCodec.parse (t.drop k)) ++ later) := by
  obtain ⟨a, rfl, front⟩ := after.split scanFrame_take
  have waiting : scanFrame c.rx.bytes = .more := by
    rw [empty]
    rfl
  -- the frames
  have valid₁ := validCuts_bytewise connected waiting a
  obtain ⟨phase₁, -, later₁, out₁, whole₁, -⟩ := receiveAll_hears connected waiting valid₁
  rw [empty, List.nil_append, flatten_bytewise, front.parse_eq,
    chatCodec.parse_of_more chatCodec.scan_nil] at out₁ whole₁
  obtain ⟨rfl, left₁⟩ := whole₁ [] rfl
  rw [heard_some, List.append_nil, List.append_nil] at out₁
  -- the chunk that clears the buffer
  have len : (t.take k).length = k := List.length_take_of_le within
  have room : (t.take k).length ≤ (c.receiveAll (bytewise a)).rx.room := by
    rw [len, Buf.room, left₁]
    exact fits
  obtain ⟨phase₂, left₂, out₂⟩ := receive_hears phase₁ room
  rw [left₁, List.nil_append, chatCodec.parse_of_bad (scanFrame_take_bad bad long)] at left₂ out₂
  -- the rest
  have waiting₂ : scanFrame ((c.receiveAll (bytewise a)).receive (.data (t.take k))).rx.bytes =
      .more := by
    rw [left₂]
    rfl
  have valid₃ := validCuts_bytewise phase₂ waiting₂ (t.drop k)
  obtain ⟨-, -, later, out₃, -, -⟩ := receiveAll_hears phase₂ waiting₂ valid₃
  rw [left₂, flatten_bytewise, show leftOver (⟨[], none⟩ : Parsed UInt8 Frame) = [] from rfl,
    List.nil_append] at out₃
  have valid : (c.receiveAll (bytewise a)).ValidCuts ([t.take k] ++ bytewise (t.drop k)) :=
    fun _ => ⟨by rw [len]; exact le_trans (by decide) long, room, valid₃⟩
  refine ⟨bytewise a ++ ([t.take k] ++ bytewise (t.drop k)), later, ⟨?_, valid₁.append valid⟩, ?_⟩
  · simp only [List.flatten_append, flatten_bytewise, List.flatten_singleton,
      List.take_append_drop]
  · have all : (c.receiveAll (bytewise a ++ ([t.take k] ++ bytewise (t.drop k)))).out =
        c.out ++ (fs.map .print ++
          protocolError :: (heard (chatCodec.parse (t.drop k)) ++ later)) := by
      rw [ClientSys.receiveAll_append]
      refine out₃.trans ?_
      rw [out₂, out₁]
      simp [heard_none]
    rw [ClientSys.written, all, List.drop_left]

/-- A frame is not an announcement. -/
theorem map_print_ne {fs : List Frame} {before after : List Output} :
    fs.map Output.print ≠ before ++ protocolError :: after := by
  intro eq
  have mem : protocolError ∈ fs.map Output.print := by
    rw [eq]
    exact List.mem_append_right _ List.mem_cons_self
  obtain ⟨f, -, announced⟩ := List.mem_map.mp mem
  cases announced

/-- **Exactly the streams that read alike.** -/
theorem reads_alike_iff (c : ClientSys) (connected : c.phase = .connected)
    (empty : c.rx.bytes = []) (b : Bytes) : ReadsAlike c b ↔ Settles b := by
  have waiting : scanFrame c.rx.bytes = .more := by
    rw [empty]
    rfl
  constructor
  · intro alike fs t after bad k long fits within
    obtain ⟨chunks, later, cuts, written⟩ :=
      clearing_cut connected empty after bad long fits within
    have nothing := alike.silent chunks cuts _ _ written
    exact heard_eq_nil_iff.mp (List.append_eq_nil_iff.mp nothing).1
  · intro settled
    -- every cut is decoded in one go
    have once (chunks : List Bytes) (cuts : c.Cuts b chunks) :
        c.written chunks = heard (chatCodec.parse b) := by
      obtain ⟨-, -, later, out, -, silent⟩ := receiveAll_hears connected waiting cuts.valid
      rw [empty, List.nil_append, cuts.whole] at out silent
      rw [ClientSys.written, out, silent settled, List.append_nil, List.drop_left]
    constructor
    · intro chunks chunks' cuts cuts'
      rw [once chunks cuts, once chunks' cuts']
    · intro chunks cuts before after written
      rw [once chunks cuts, heard] at written
      split at written
      · -- the announcement is the last line, and no frame is one
        rcases List.eq_nil_or_concat' after with rfl | ⟨after, last, rfl⟩
        · rfl
        · rw [← List.cons_append, ← List.append_assoc] at written
          obtain ⟨prints, -⟩ := List.append_inj' written rfl
          exact absurd prints map_print_ne
      · rw [List.append_nil] at written
        exact absurd written map_print_ne

/-- An invalid header and a message behind it. In one chunk the message is
cleared away with the header; in two it is printed, after the client has said that
it disconnects. -/
theorem reads_differently :
    let junk : Bytes := List.replicate 16 0
    let f : Frame := ⟨MsgType.broadcast.code, ascii "hi"⟩
    let c : ClientSys := ⟨.connected, .empty, []⟩
    c.Cuts (junk ++ f.encode) [junk ++ f.encode] ∧ c.Cuts (junk ++ f.encode) [junk, f.encode] ∧
      c.written [junk ++ f.encode] = [protocolError] ∧
      c.written [junk, f.encode] = [protocolError, .print f] ∧
      ¬ ReadsAlike c (junk ++ f.encode) := by
  intro junk f c
  have once : c.Cuts (junk ++ f.encode) [junk ++ f.encode] :=
    ⟨rfl, fun _ => ⟨by decide +kernel, by decide +kernel, trivial⟩⟩
  have twice : c.Cuts (junk ++ f.encode) [junk, f.encode] :=
    ⟨rfl, fun _ => ⟨by decide +kernel, by decide +kernel,
      fun _ => ⟨by decide +kernel, by decide +kernel, trivial⟩⟩⟩
  have written : c.written [junk, f.encode] = [protocolError, .print f] := by decide +kernel
  refine ⟨once, twice, by decide +kernel, written, fun alike => ?_⟩
  cases alike.silent _ twice [] _ written

/-- A stream of two messages that ends with an invalid header reads alike. -/
theorem reads_alike_iff_ends :
    let hi : Frame := ⟨MsgType.broadcast.code, ascii "ann: hi"⟩
    ReadsAlike ⟨.connected, .empty, []⟩ (hi.encode ++ hi.encode ++ List.replicate 16 0) := by
  intro hi
  refine (reads_alike_iff ⟨.connected, .empty, []⟩ rfl rfl _).mpr ?_
  intro fs t after bad k long _ within
  have first : scanFrame (hi.encode ++ hi.encode ++ List.replicate 16 0) = .frame hi 23 := by
    decide +kernel
  have second : scanFrame (hi.encode ++ List.replicate 16 0) = .frame hi 23 := by decide +kernel
  have invalid : scanFrame (List.replicate 16 0) = .bad := by decide +kernel
  cases after with
  | here _ =>
      rw [first] at bad
      cases bad
  | frame head rest =>
      rw [chatCodec_scan, first] at head
      cases head
      change chatCodec.After (hi.encode ++ List.replicate 16 0) _ t at rest
      cases rest with
      | here _ =>
          rw [second] at bad
          cases bad
      | frame head rest =>
          rw [chatCodec_scan, second] at head
          cases head
          change chatCodec.After (List.replicate 16 0) _ t at rest
          cases rest with
          | here _ =>
              have whole : k = 16 := Nat.le_antisymm within long
              rw [whole]
              rfl
          | frame head _ =>
              rw [chatCodec_scan, invalid] at head
              cases head

end Osisp.Chat
