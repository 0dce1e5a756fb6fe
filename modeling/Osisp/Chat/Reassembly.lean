import Osisp.Chat.ServerMain
import Osisp.Chat.Handlers

/-!
# Reassembly of a client's stream

`process_message` decodes the buffered bytes exactly as `chatCodec.parse` does
(`processMessage_parses`), so by `Framing.parse_append_of_some` it does not
matter how `recv` cuts the stream.
-/

namespace Osisp.Chat

open Lib

/-! ## One round -/

section Round

variable (env : Env) (c : Slot) (f : Frame) (need : Nat) (s : Sys)

theorem processFrame_case :
    ∃ s', FrameCase env c f (s.note (.frame c f)) s' ∧ processFrame env c f need s =
      s'.setClient c ((s'.srv.clients c).setInbuf ((s'.srv.clients c).inbuf.consume need)) :=
  ⟨_, handleFrame_case env c f _, rfl⟩

/-- A round changes the connection of its slot only in the buffer. -/
theorem processFrame_sameConn :
    Client.SameConn ((processFrame env c f need s).srv.clients c)
      ((s.srv.clients c).setInbuf ((s.srv.clients c).inbuf.consume need)) := by
  obtain ⟨s', handled, eq⟩ := processFrame_case env c f need s
  obtain ⟨fd, used, id, inbuf⟩ := handled.sameConn c
  rw [eq, Sys.clients_setClient_self]
  exact ⟨fd, used, id, congrArg (Buf.consume · need) inbuf⟩

theorem processFrame_of_ne {i : Slot} (ne : i ≠ c) :
    (processFrame env c f need s).srv.clients i = s.srv.clients i := by
  obtain ⟨s', handled, eq⟩ := processFrame_case env c f need s
  rw [eq, Sys.clients_setClient_of_ne _ _ ne, handled.clients_of_ne ne]
  rfl

theorem log_processFrame :
    Appends Event.OfHandler (s.log ++ [.frame c f]) (processFrame env c f need s).log := by
  obtain ⟨s', handled, eq⟩ := processFrame_case env c f need s
  rw [eq]
  exact handled.appends

theorem framesFrom_processFrame :
    framesFrom c (processFrame env c f need s).log = framesFrom c s.log ++ [f] := by
  obtain ⟨s', handled, eq⟩ := processFrame_case env c f need s
  rw [eq, Sys.log_setClient, handled.framesFrom_eq, Sys.log_note, framesFrom_append]
  simp [framesFrom, Event.framesFrom]

theorem srv_closeSlot : (closeSlot c s).srv = (s.setClient c .free).srv := by
  unfold closeSlot
  dsimp only
  split <;> rfl

/-- The notice changes nothing in the tables. -/
theorem srv_removeClientIndex : (removeClientIndex env c s).srv = (s.setClient c .free).srv := by
  unfold removeClientIndex
  dsimp only
  rw [srv_closeSlot]
  split <;> rfl

theorem closeSlot_self : (closeSlot c s).srv.clients c = .free := by
  rw [srv_closeSlot, Sys.clients_setClient_self]

theorem closeSlot_of_ne {i : Slot} (ne : i ≠ c) :
    (closeSlot c s).srv.clients i = s.srv.clients i := by
  rw [srv_closeSlot, Sys.clients_setClient_of_ne _ _ ne]

theorem log_closeSlot : (closeSlot c s).log =
    if (s.srv.clients c).fd ≥ 0 then s.log ++ [.close (s.srv.clients c).fd] else s.log := by
  unfold closeSlot
  rw [Sys.log_setClient]
  split <;> rfl

theorem framesFrom_closeSlot (i : Slot) :
    framesFrom i (closeSlot c s).log = framesFrom i s.log := by
  rw [log_closeSlot]
  split
  · rw [framesFrom_append]
    exact List.append_nil _
  · rfl

end Round

/-! ## The loop -/

/-- The frames of slot `c` are handled one after the other. Between them, `recv` adds to
its buffer. -/
inductive Handles (env : Env) (c : Slot) : List Frame → Sys → Sys → Prop
  | done (s : Sys) : Handles env c [] s s
  | recv {fs : List Frame} {s s' : Sys} (data : Bytes) :
    Handles env c fs (recvInto c data s) s' → Handles env c fs s s'
  | frame {f : Frame} {need : Nat} {fs : List Frame} {s s' : Sys} :
    scanFrame (s.srv.clients c).inbuf.bytes = .frame f need →
    Handles env c fs (processFrame env c f need s) s' → Handles env c (f :: fs) s s'

theorem Handles.trans {env : Env} {c : Slot} {fs gs : List Frame} {s s' s'' : Sys}
    (first : Handles env c fs s s') (second : Handles env c gs s' s'') :
    Handles env c (fs ++ gs) s s'' := by
  induction first with
  | done s => exact second
  | recv data _ ih => exact .recv data (ih second)
  | frame scan _ ih => exact .frame scan (ih second)

/-- What is left when a buffer has been decoded: the slot is emptied behind an invalid
header. -/
def settle (c : Slot) (tail : Option Bytes) (s : Sys) : Sys :=
  if tail = none then closeSlot c s else s

/-- What `process_message` does to its slot when its buffer decodes to `p`. -/
structure Processed (env : Env) (c : Slot) (p : Parsed UInt8 Frame) (s s' : Sys) : Prop where
  frames : framesFrom c s'.log = framesFrom c s.log ++ p.frames
  handled : ∃ s'', Handles env c p.frames s s'' ∧ s' = settle c p.tail s''
  closed : p.tail = none → s'.srv.clients c = .free
  kept : ∀ t, p.tail = some t → (s'.srv.clients c).inbuf.bytes = t ∧
    (s'.srv.clients c).fd = (s.srv.clients c).fd ∧
    (s'.srv.clients c).used = (s.srv.clients c).used

/-- `process_message` decodes its buffer in one go. -/
theorem processMessage_parses (env : Env) (c : Slot) (s : Sys) :
    Processed env c (chatCodec.parse (s.srv.clients c).inbuf.bytes) s (processMessage env c s) := by
  have general : ∀ (b : Bytes) (fuel : Nat) (s : Sys), (s.srv.clients c).inbuf.bytes = b →
      b.length < fuel → Processed env c (chatCodec.parse b) s (processLoop env c fuel s) := by
    intro b
    induction b using chatCodec.parse_induction with
    | more b scan =>
        intro fuel s buf enough
        obtain ⟨fuel, rfl⟩ : ∃ k, fuel = k + 1 := ⟨fuel - 1, by omega⟩
        rw [chatCodec.parse_of_more scan]
        rw [chatCodec_scan] at scan
        simp only [processLoop, buf, scan]
        refine ⟨(List.append_nil _).symm, ⟨s, .done s, rfl⟩, nofun, fun t tail => ?_⟩
        cases tail
        exact ⟨buf, rfl, rfl⟩
    | bad b scan =>
        intro fuel s buf enough
        obtain ⟨fuel, rfl⟩ : ∃ k, fuel = k + 1 := ⟨fuel - 1, by omega⟩
        rw [chatCodec.parse_of_bad scan]
        rw [chatCodec_scan] at scan
        simp only [processLoop, buf, scan]
        refine ⟨?_, ⟨s, .done s, rfl⟩, fun _ => closeSlot_self c s, fun t tail => by cases tail⟩
        rw [framesFrom_closeSlot, List.append_nil]
    | frame b f need scan ih =>
        intro fuel s buf enough
        obtain ⟨fuel, rfl⟩ : ∃ k, fuel = k + 1 := ⟨fuel - 1, by omega⟩
        have shorter := chatCodec.length_drop_lt scan
        rw [chatCodec.parse_of_frame scan]
        rw [chatCodec_scan] at scan
        have here : scanFrame (s.srv.clients c).inbuf.bytes = .frame f need := by rw [buf, scan]
        simp only [processLoop, here]
        obtain ⟨sameFd, sameUsed, -, consumed⟩ := processFrame_sameConn env c f need s
        have left : ((processFrame env c f need s).srv.clients c).inbuf.bytes = b.drop need := by
          rw [consumed, ← buf]
          rfl
        have rest := ih fuel (processFrame env c f need s) left (by omega)
        obtain ⟨s'', handled, eq⟩ := rest.handled
        refine ⟨?_, ⟨s'', .frame here handled, eq⟩, rest.closed, fun t tail => ?_⟩
        · rw [rest.frames, framesFrom_processFrame, List.append_assoc]
          rfl
        · obtain ⟨inbuf, fd, used⟩ := rest.kept t tail
          exact ⟨inbuf, fd.trans sameFd, used.trans sameUsed⟩
  exact general _ _ s rfl (Nat.lt_succ_self _)

/-! ## A stream cut by `recv` -/

/-- Append what `recv` returned and call `process_message`, as the dispatch loop
does. -/
def receive (env : Env) (i : Slot) (chunk : Bytes) (s : Sys) : Sys :=
  processMessage env i (recvInto i chunk s)

/-- Receive chunk by chunk until the slot is emptied. -/
def receiveAll (env : Env) (i : Slot) : List Bytes → Sys → Sys
  | [], s => s
  | chunk :: chunks, s =>
      if (s.srv.clients i).used then receiveAll env i chunks (receive env i chunk s) else s

/-- Every chunk is of a size that `recv` can return for the room left when it is
called. -/
def ValidCuts (env : Env) (i : Slot) : List Bytes → Sys → Prop
  | [], _ => True
  | chunk :: chunks, s => (s.srv.clients i).used = true →
      1 ≤ chunk.length ∧ chunk.length ≤ (s.srv.clients i).inbuf.room ∧
        ValidCuts env i chunks (receive env i chunk s)

theorem framesFrom_recvInto (i j : Slot) (data : Bytes) (s : Sys) :
    framesFrom j (recvInto i data s).log = framesFrom j s.log := by
  have log : (recvInto i data s).log =
      s.log ++ [.recv (s.srv.clients i).fd (data.take (s.srv.clients i).inbuf.room)] := rfl
  rw [log, framesFrom_append]
  exact List.append_nil _

/-- What is received joins the buffered tail and is decoded with it. -/
theorem receive_parses (env : Env) {i : Slot} {chunk : Bytes} {s : Sys}
    (fits : chunk.length ≤ (s.srv.clients i).inbuf.room) :
    Processed env i (chatCodec.parse ((s.srv.clients i).inbuf.bytes ++ chunk)) s
      (receive env i chunk s) := by
  have self : (recvInto i chunk s).srv.clients i =
      (s.srv.clients i).setInbuf ((s.srv.clients i).inbuf.recv chunk) :=
    Sys.clients_setClient_self _ _ _
  have parsed := processMessage_parses env i (recvInto i chunk s)
  rw [self, Client.inbuf_setInbuf, Buf.bytes_recv_of_le fits] at parsed
  obtain ⟨frames, ⟨s'', handled, eq⟩, closed, kept⟩ := parsed
  refine ⟨?_, ⟨s'', .recv chunk handled, eq⟩, closed, fun t tail => ?_⟩
  · rw [← framesFrom_recvInto i i chunk s]
    exact frames
  · obtain ⟨inbuf, fd, used⟩ := kept t tail
    rw [self] at fd used
    exact ⟨inbuf, fd, used⟩

/-- Chunk by chunk, the stream behind the buffered tail is decoded as a whole. -/
theorem receiveAll_parses (env : Env) {i : Slot} {chunks : List Bytes} {s : Sys}
    (used : (s.srv.clients i).used = true)
    (waiting : scanFrame (s.srv.clients i).inbuf.bytes = .more)
    (valid : ValidCuts env i chunks s) :
    Processed env i (chatCodec.parse ((s.srv.clients i).inbuf.bytes ++ chunks.flatten)) s
      (receiveAll env i chunks s) := by
  induction chunks generalizing s with
  | nil =>
      rw [List.flatten_nil, List.append_nil, chatCodec.parse_of_more waiting]
      refine ⟨(List.append_nil _).symm, ⟨s, .done s, rfl⟩, nofun, fun t tail => ?_⟩
      cases tail
      exact ⟨rfl, rfl, rfl⟩
  | cons chunk chunks ih =>
      obtain ⟨-, fits, rest⟩ := valid used
      have step := receive_parses env fits
      simp only [receiveAll, used, if_true, List.flatten_cons, ← List.append_assoc]
      cases tail : (chatCodec.parse ((s.srv.clients i).inbuf.bytes ++ chunk)).tail with
      | none =>
          -- the slot was emptied: the remaining chunks are not read
          have free := step.closed tail
          have stop : receiveAll env i chunks (receive env i chunk s) = receive env i chunk s := by
            cases chunks with
            | nil => rfl
            | cons next chunks => simp only [receiveAll, free, Client.free, Client.zero,
                Bool.false_eq_true, if_false]
          rw [stop, chatCodec.parse_append_of_none tail]
          exact step
      | some t =>
          obtain ⟨inbuf, fd, sameUsed⟩ := step.kept t tail
          have more := chatCodec.scan_tail tail
          have all := ih (sameUsed.trans used) (inbuf ▸ more) rest
          rw [inbuf] at all
          obtain ⟨s₁, handled, stays⟩ := step.handled
          rw [settle, tail, if_neg (Option.some_ne_none t)] at stays
          obtain ⟨s₂, handled', eq⟩ := all.handled
          rw [← stays] at handled
          rw [chatCodec.parse_append_of_some tail]
          refine ⟨?_, ⟨s₂, handled.trans handled', eq⟩, all.closed, fun t' tail' => ?_⟩
          · rw [all.frames, step.frames, List.append_assoc]
          · obtain ⟨inbuf', fd', used'⟩ := all.kept t' tail'
            exact ⟨inbuf', fd'.trans fd, used'.trans sameUsed⟩

/-- **Reassembly.** However `recv` cuts the stream of a connection, the server
handles the frames of a one-shot parse of the stream, one after the other, empties the
slot exactly when that parse meets an invalid header, and otherwise keeps its undecoded
tail. -/
theorem receive_stream (env : Env) (i : Slot) (chunks : List Bytes) (s : Sys)
    (used : (s.srv.clients i).used = true)
    (start : (s.srv.clients i).inbuf.bytes = [])
    (valid : ValidCuts env i chunks s) :
    let whole := chatCodec.parse chunks.flatten
    let s' := receiveAll env i chunks s
    framesFrom i s'.log = framesFrom i s.log ++ whole.frames ∧
      (∃ s'', Handles env i whole.frames s s'' ∧ s' = settle i whole.tail s'') ∧
      ((s'.srv.clients i).used = false ↔ whole.tail = none) ∧
      (whole.tail = none → s'.srv.clients i = .free) ∧
      ∀ t, whole.tail = some t → (s'.srv.clients i).inbuf.bytes = t := by
  have all := receiveAll_parses env used (by rw [start]; rfl) valid
  rw [start, List.nil_append] at all
  refine ⟨all.frames, all.handled, ⟨fun gone => ?_, fun bad => ?_⟩, all.closed,
    fun t tail => (all.kept t tail).1⟩
  · cases tail : (chatCodec.parse chunks.flatten).tail with
    | none => rfl
    | some t =>
        have still := (all.kept t tail).2.2
        rw [gone, used] at still
        cases still
  · rw [all.closed bad]
    rfl

/-- A `LIST` request that arrives in two pieces. -/
theorem receive_stream_list :
    let s := acceptClient .smooth 4 .init
    let list : Frame := ⟨MsgType.list.code, []⟩
    framesFrom 0 (receiveAll .smooth 0 [list.encode.take 5, list.encode.drop 5] s).log =
      [list] := by
  intro s list
  have received := receive_stream .smooth 0 [list.encode.take 5, list.encode.drop 5] s
    (by decide +kernel) (by decide +kernel)
    (fun _ => ⟨by decide, by decide +kernel, fun _ => ⟨by decide, by decide +kernel, trivial⟩⟩)
  exact received.1.trans (by decide +kernel)

end Osisp.Chat
