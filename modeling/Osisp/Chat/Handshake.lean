import Osisp.Chat.Observer
import Osisp.Chat.Stream

/-!
# The handshake of a newcomer

The server greets a newcomer with `JOIN_ACK` and the history and sends it the
live traffic from then on (`join_stream`). `handshake_blocking` accepts no live
frame and ends only when its buffer happens to be empty, so whether it succeeds
depends on where `recv` cuts the stream: exactly when some chunk ends on a frame
boundary before the chunk that completes the first live frame (`handshake_iff`).
-/

namespace Osisp.Chat

open Lib

/-- A frame of the live traffic. -/
def Frame.isLive (f : Frame) : Bool :=
  f.type = MsgType.broadcast.code || f.type = MsgType.notify.code ||
    f.type = MsgType.privateMsg.code

/-- A `JOIN_ACK`, then history and live traffic: what a newcomer can be sent. -/
def Greeted (fs : List Frame) : Prop :=
  ∀ f rest, fs = f :: rest → f.type = MsgType.joinAck.code ∧
    ∀ g ∈ rest, g.type = MsgType.history.code ∨ g.isLive = true

/-! ## Decoding in the handshake -/

/-- What `handshake_blocking` makes of complete frames: its `got_join` behind
them, or `none` where it gives up. -/
def greets : Bool → List Frame → Option Bool
  | gotJoin, [] => some gotJoin
  | gotJoin, f :: fs =>
      match MsgType.ofCode f.type with
      | some .joinAck => greets true fs
      | some .history => if gotJoin then greets gotJoin fs else none
      | _ => none

theorem greets_append (gotJoin : Bool) (fs gs : List Frame) :
    greets gotJoin (fs ++ gs) = (greets gotJoin fs).bind fun gotJoin => greets gotJoin gs := by
  induction fs generalizing gotJoin with
  | nil => rfl
  | cons f fs ih =>
      simp only [List.cons_append, greets]
      split
      · exact ih true
      · split
        · exact ih gotJoin
        · rfl
      · rfl

theorem greets_true {fs : List Frame}
    (known : ∀ f ∈ fs, f.type = MsgType.history.code ∨ f.isLive = true) :
    greets true fs = if fs.any Frame.isLive then none else some true := by
  induction fs with
  | nil => rfl
  | cons f fs ih =>
      have rest := ih fun g mem => known g (List.mem_cons_of_mem f mem)
      rcases known f List.mem_cons_self with history | live
      · have notLive : f.isLive = false := by
          rw [Frame.isLive, history]
          decide
        simp only [greets, history, MsgType.ofCode_code, List.any_cons, notLive, Bool.false_or]
        exact rest
      · have refused : greets true (f :: fs) = none := by
          unfold greets
          rw [Frame.isLive, Bool.or_eq_true, Bool.or_eq_true, decide_eq_true_eq,
            decide_eq_true_eq, decide_eq_true_eq] at live
          rcases live with (type | type) | type <;> rw [type] <;> rfl
        rw [refused, List.any_cons, live]
        rfl

/-- The handshake gives up on the first live frame and on nothing else. -/
theorem greets_false {fs : List Frame} (greeted : Greeted fs) :
    greets false fs = if fs.any Frame.isLive then none else some (!fs.isEmpty) := by
  cases fs with
  | nil => rfl
  | cons f fs =>
      obtain ⟨ack, known⟩ := greeted f fs rfl
      have notLive : f.isLive = false := by
        rw [Frame.isLive, ack]
        decide
      simp only [greets, ack, MsgType.ofCode_code, List.any_cons, notLive, Bool.false_or]
      exact greets_true known

/-- The client has printed what is decoded of its stream, and holds the rest. -/
structure Printed (c : ClientSys) (p : Parsed UInt8 Frame) : Prop where
  out : c.out = p.frames.map .print
  rx : p.tail = some c.rx.bytes

section Loops

variable {fuel : Nat} {c : ClientSys} {gs : List Frame} {t : Bytes}

theorem serverLoop_parses (c : ClientSys)
    (parsed : chatCodec.parse c.rx.bytes = ⟨gs, some t⟩) (enough : c.rx.bytes.length < fuel) :
    (serverLoop fuel c).phase = c.phase ∧ (serverLoop fuel c).rx.bytes = t ∧
      (serverLoop fuel c).out = c.out ++ gs.map .print := by
  have all := serverLoop_hears c enough
  rwa [parsed, heard_some] at all

/-- `handshake_blocking` on a buffer that decodes to `gs` and `t`. -/
theorem handshakeLoop_parses (gotJoin : Bool) (c : ClientSys)
    (parsed : chatCodec.parse c.rx.bytes = ⟨gs, some t⟩) (enough : c.rx.bytes.length < fuel) :
    (greets gotJoin gs = none → (handshakeLoop fuel gotJoin c).phase = .stopped) ∧
    ∀ gotJoin', greets gotJoin gs = some gotJoin' →
      (handshakeLoop fuel gotJoin c).phase =
        (if gotJoin' && t = [] then .connected else .handshake gotJoin') ∧
      (handshakeLoop fuel gotJoin c).rx.bytes = t ∧
      (handshakeLoop fuel gotJoin c).out = c.out ++ gs.map .print := by
  generalize buf : c.rx.bytes = b at parsed enough
  induction b using chatCodec.parse_induction generalizing fuel c gs t gotJoin with
  | more b scan =>
      obtain ⟨fuel, rfl⟩ : ∃ k, fuel = k + 1 := ⟨fuel - 1, by omega⟩
      rw [chatCodec.parse_of_more scan] at parsed
      rw [chatCodec_scan] at scan
      cases parsed
      refine ⟨nofun, fun gotJoin' same => ?_⟩
      cases same
      simp only [handshakeLoop, buf, scan]
      split
      · exact ⟨rfl, buf, (List.append_nil _).symm⟩
      · exact ⟨rfl, buf, (List.append_nil _).symm⟩
  | bad b scan =>
      rw [chatCodec.parse_of_bad scan] at parsed
      cases parsed
  | frame b f need scan ih =>
      obtain ⟨fuel, rfl⟩ : ∃ k, fuel = k + 1 := ⟨fuel - 1, by omega⟩
      have shorter := chatCodec.length_drop_lt scan
      rw [chatCodec.parse_of_frame scan] at parsed
      rw [chatCodec_scan] at scan
      obtain ⟨rfl, tail⟩ := Parsed.mk.inj parsed
      have left : ((c.print f).consume need).rx.bytes = b.drop need := by
        rw [← buf]
        rfl
      -- the frames behind this one
      have rest (gotJoin : Bool) := ih gotJoin _ left
        (show chatCodec.parse (b.drop need) = ⟨_, some t⟩ by rw [← tail])
        (show (b.drop need).length < fuel by omega)
      have out (fs : List Frame) : ((c.print f).consume need).out ++ fs.map .print =
          c.out ++ (f :: fs).map .print := by
        rw [List.map_cons, ← List.singleton_append, ← List.append_assoc]
        rfl
      simp only [handshakeLoop, buf, scan, greets, ← out]
      cases type : MsgType.ofCode f.type with
      | none => exact ⟨fun _ => rfl, nofun⟩
      | some ty =>
          cases ty with
          | joinAck => exact rest true
          | history =>
              cases gotJoin with
              | false => exact ⟨fun _ => rfl, nofun⟩
              | true => exact rest true
          | _ => exact ⟨fun _ => rfl, nofun⟩

end Loops

/-! ## Chunk by chunk -/

/-- What the received chunks decode to. -/
def decoded (chunks : List Bytes) : Parsed UInt8 Frame := chatCodec.parse chunks.flatten

/-- The last chunk ends on a frame boundary. -/
def EndsOnFrame (chunks : List Bytes) : Prop :=
  (decoded chunks).frames ≠ [] ∧ (decoded chunks).tail = some []

/-- A live frame is complete. -/
def HasLive (chunks : List Bytes) : Prop := (decoded chunks).frames.any Frame.isLive = true

/-- Before the chunk that completes a live frame, some chunk ended on a frame
boundary. -/
def InTime (chunks : List Bytes) : Prop :=
  ∀ before, before <+: chunks → HasLive before →
    ∃ earlier, earlier <+: before ∧ earlier ≠ before ∧ EndsOnFrame earlier

/-- So far the stream is one that a newcomer can be sent. -/
def GoodStream (chunks : List Bytes) : Prop :=
  ∀ before, before <+: chunks → (∃ t, (decoded before).tail = some t) ∧
    Greeted (decoded before).frames

theorem Greeted.of_part {fs gs : List Frame} (h : Greeted fs) (part : gs <+: fs) :
    Greeted gs := by
  obtain ⟨rest, rfl⟩ := part
  rintro f gs rfl
  obtain ⟨ack, known⟩ := h f (gs ++ rest) rfl
  exact ⟨ack, fun g mem => known g (List.mem_append_left rest mem)⟩

theorem decoded_snoc {chunks : List Bytes} {t : Bytes} (tail : (decoded chunks).tail = some t)
    (chunk : Bytes) : decoded (chunks ++ [chunk]) =
      ⟨(decoded chunks).frames ++ (chatCodec.parse (t ++ chunk)).frames,
        (chatCodec.parse (t ++ chunk)).tail⟩ := by
  unfold decoded at tail ⊢
  rw [List.flatten_append, List.flatten_singleton, chatCodec.parse_append_of_some tail]

theorem inTime_snoc {chunks : List Bytes} {chunk : Bytes} :
    InTime (chunks ++ [chunk]) ↔ InTime chunks ∧
      (HasLive (chunks ++ [chunk]) → ∃ earlier, earlier <+: chunks ∧ EndsOnFrame earlier) := by
  constructor
  · intro inTime
    refine ⟨fun before part => inTime before (part.trans (List.prefix_append _ _)), fun live => ?_⟩
    obtain ⟨earlier, part, ne, ends⟩ := inTime _ List.prefix_rfl live
    exact ⟨earlier, (List.prefix_concat_iff.mp part).resolve_left ne, ends⟩
  · rintro ⟨inTime, last⟩ before part live
    rcases List.prefix_concat_iff.mp part with rfl | part
    · obtain ⟨earlier, part, ends⟩ := last live
      have ne : earlier ≠ chunks ++ [chunk] := by
        rintro rfl
        have len := part.length_le
        rw [List.length_append, List.length_singleton] at len
        omega
      exact ⟨earlier, part.trans (List.prefix_append _ _), ne, ends⟩
    · exact inTime before part live

theorem ClientSys.ValidCuts.snoc {c : ClientSys} {chunks : List Bytes} {chunk : Bytes}
    (valid : c.ValidCuts (chunks ++ [chunk])) : c.ValidCuts chunks ∧
      ((c.receiveAll chunks).phase ≠ .stopped →
        chunk.length ≤ (c.receiveAll chunks).rx.room) := by
  have stays (c : ClientSys) (stopped : c.phase = .stopped) (chunks : List Bytes) :
      (c.receiveAll chunks).phase = .stopped := by
    induction chunks generalizing c with
    | nil => exact stopped
    | cons chunk chunks ih =>
        refine ih (c.receive (.data chunk)) ?_
        simp only [receive, stopped]
  induction chunks generalizing c with
  | nil => exact ⟨trivial, fun running => (valid running).2.1⟩
  | cons first chunks ih =>
      by_cases stopped : c.phase = .stopped
      · exact ⟨fun running => absurd stopped running,
          fun running => absurd (stays c stopped (first :: chunks)) running⟩
      · obtain ⟨pos, fits, rest⟩ := valid stopped
        exact ⟨fun _ => ⟨pos, fits, (ih rest).1⟩, (ih rest).2⟩

/-- The state of the client after the chunks. -/
inductive Handshaken (chunks : List Bytes) (c : ClientSys) : Prop
  | waiting :
    c.phase = .handshake (!(decoded chunks).frames.isEmpty) → Printed c (decoded chunks) →
    ¬ HasLive chunks → InTime chunks → (∀ earlier, earlier <+: chunks → ¬ EndsOnFrame earlier) →
    Handshaken chunks c
  | connected :
    c.phase = .connected → Printed c (decoded chunks) → InTime chunks →
    (∃ earlier, earlier <+: chunks ∧ EndsOnFrame earlier) → Handshaken chunks c
  | failed : c.phase = .stopped → ¬ InTime chunks → Handshaken chunks c

section Chunk

variable {chunks : List Bytes} {chunk : Bytes} {c : ClientSys}

/-- One more chunk in the main loop. -/
theorem Handshaken.receive_connected (good : GoodStream (chunks ++ [chunk]))
    (fits : chunk.length ≤ c.rx.room) (phase : c.phase = .connected)
    (printed : Printed c (decoded chunks)) (inTime : InTime chunks)
    (ended : ∃ earlier, earlier <+: chunks ∧ EndsOnFrame earlier) :
    Handshaken (chunks ++ [chunk]) (c.receive (.data chunk)) := by
  obtain ⟨⟨t', tail'⟩, -⟩ := good _ List.prefix_rfl
  have whole := decoded_snoc printed.rx chunk
  rw [whole] at tail'
  have rx : (c.rx.recv chunk).bytes = c.rx.bytes ++ chunk := Buf.bytes_recv_of_le fits
  obtain ⟨phase', rx', out'⟩ := serverLoop_parses { c with rx := c.rx.recv chunk }
    (show chatCodec.parse (c.rx.recv chunk).bytes = ⟨_, some t'⟩ by rw [rx, ← tail'])
    (Nat.lt_succ_self _)
  have eq : c.receive (.data chunk) = processServer { c with rx := c.rx.recv chunk } := by
    simp only [ClientSys.receive, phase]
  rw [eq]
  obtain ⟨earlier, part, ends⟩ := ended
  refine .connected (phase'.trans phase) ⟨?_, ?_⟩
    (inTime_snoc.mpr ⟨inTime, fun _ => ⟨earlier, part, ends⟩⟩)
    ⟨earlier, part.trans (List.prefix_append _ _), ends⟩
  · rw [whole, List.map_append, ← printed.out]
    exact out'
  · rw [whole]
    exact tail'.trans (congrArg some rx'.symm)

/-- One more chunk in the handshake. -/
theorem Handshaken.receive_waiting (good : GoodStream (chunks ++ [chunk]))
    (fits : chunk.length ≤ c.rx.room)
    (phase : c.phase = .handshake (!(decoded chunks).frames.isEmpty))
    (printed : Printed c (decoded chunks)) (notLive : ¬ HasLive chunks) (inTime : InTime chunks)
    (never : ∀ earlier, earlier <+: chunks → ¬ EndsOnFrame earlier) :
    Handshaken (chunks ++ [chunk]) (c.receive (.data chunk)) := by
  obtain ⟨⟨t', tail'⟩, greeted'⟩ := good _ List.prefix_rfl
  have greeted := (good _ (List.prefix_append _ _)).2
  have whole := decoded_snoc printed.rx chunk
  have rx : (c.rx.recv chunk).bytes = c.rx.bytes ++ chunk := Buf.bytes_recv_of_le fits
  -- the verdict on all frames so far is the verdict on the new ones
  have before := (greets_false greeted).trans (if_neg notLive)
  have frames : (decoded (chunks ++ [chunk])).frames =
      (decoded chunks).frames ++ (chatCodec.parse (c.rx.bytes ++ chunk)).frames := by rw [whole]
  have verdict := greets_false greeted'
  nth_rewrite 1 [frames] at verdict
  rw [greets_append, before, Option.bind_some] at verdict
  rw [whole] at tail'
  obtain ⟨fails, goesOn⟩ := handshakeLoop_parses (!(decoded chunks).frames.isEmpty)
    { c with rx := c.rx.recv chunk }
    (show chatCodec.parse (c.rx.recv chunk).bytes = ⟨_, some t'⟩ by rw [rx, ← tail'])
    (Nat.lt_succ_self _)
  have eq : c.receive (.data chunk) = handshakeLoop ((c.rx.recv chunk).bytes.length + 1)
      (!(decoded chunks).frames.isEmpty) { c with rx := c.rx.recv chunk } := by
    simp only [ClientSys.receive, phase]
  rw [eq]
  by_cases live : HasLive (chunks ++ [chunk])
  · refine .failed (fails (verdict.trans (if_pos live))) fun inTime' => ?_
    obtain ⟨earlier, part, ends⟩ := (inTime_snoc.mp inTime').2 live
    exact never earlier part ends
  · obtain ⟨phase', rx', out'⟩ := goesOn _ (verdict.trans (if_neg live))
    have inTime' : InTime (chunks ++ [chunk]) :=
      inTime_snoc.mpr ⟨inTime, fun live' => absurd live' live⟩
    have printed' : Printed (handshakeLoop ((c.rx.recv chunk).bytes.length + 1)
        (!(decoded chunks).frames.isEmpty) { c with rx := c.rx.recv chunk })
        (decoded (chunks ++ [chunk])) := by
      constructor
      · rw [whole, List.map_append, ← printed.out]
        exact out'
      · rw [whole]
        exact tail'.trans (congrArg some rx'.symm)
    by_cases ends : EndsOnFrame (chunks ++ [chunk])
    · refine .connected (phase'.trans (if_pos ?_)) printed' inTime'
        ⟨_, List.prefix_rfl, ends⟩
      have empty := ends.2
      rw [whole] at empty
      cases tail'.symm.trans empty
      simpa using ends.1
    · refine .waiting (phase'.trans (if_neg ?_)) printed' live inTime' fun earlier part => ?_
      · intro both
        obtain ⟨some_frame, empty⟩ := Bool.and_eq_true_iff.mp both
        refine ends ⟨by simpa using some_frame, ?_⟩
        rw [whole]
        exact tail'.trans (congrArg some (of_decide_eq_true empty))
      · rcases List.prefix_concat_iff.mp part with rfl | part
        · exact ends
        · exact never earlier part

end Chunk

theorem receiveAll_handshaken {chunks : List Bytes} (good : GoodStream chunks)
    (valid : ClientSys.init.ValidCuts chunks) :
    Handshaken chunks (ClientSys.init.receiveAll chunks) := by
  induction chunks using List.reverseRecOn with
  | nil =>
      refine .waiting rfl ⟨rfl, rfl⟩ (fun live => by cases live) (fun before part live => ?_)
        fun earlier part ends => ?_
      · rw [List.prefix_nil.mp part] at live
        cases live
      · rw [List.prefix_nil.mp part] at ends
        exact ends.1 rfl
  | append_singleton chunks chunk ih =>
      obtain ⟨valid, fits⟩ := valid.snoc
      have before := ih (fun b part => good b (part.trans (List.prefix_append _ _))) valid
      have step : ClientSys.init.receiveAll (chunks ++ [chunk]) =
          (ClientSys.init.receiveAll chunks).receive (.data chunk) := by
        rw [ClientSys.receiveAll, List.foldl_append]
        rfl
      rw [step]
      cases before with
      | waiting phase printed notLive inTime never =>
          have room := fits (by simp [phase])
          exact .receive_waiting good room phase printed notLive inTime never
      | connected phase printed inTime ended =>
          have room := fits (by simp [phase])
          exact .receive_connected good room phase printed inTime ended
      | failed phase late =>
          refine .failed ?_ fun inTime => late (inTime_snoc.mp inTime).1
          simp only [ClientSys.receive, phase]

/-- The client's side: no error and everything printed, exactly in time. -/
theorem handshaken_iff {chunks : List Bytes} {c : ClientSys} (h : Handshaken chunks c) :
    (c.phase ≠ .stopped ∧ c.out = (decoded chunks).frames.map .print) ↔ InTime chunks := by
  cases h with
  | waiting phase printed _ inTime _ =>
      exact ⟨fun _ => inTime, fun _ => ⟨by rw [phase]; nofun, printed.out⟩⟩
  | connected phase printed inTime _ =>
      exact ⟨fun _ => inTime, fun _ => ⟨by rw [phase]; nofun, printed.out⟩⟩
  | failed phase late =>
      exact ⟨fun running => absurd phase running.1, fun inTime => absurd inTime late⟩

/-! ## What the server sends to a newcomer -/

/-- A message of the live traffic. -/
structure Message.Live (m : Message) : Prop where
  type : m.frame.isLive = true
  fits : m.body.length ≤ chatMaxBody

theorem Observed.live {env : Env} {o : Slot} {s s' : Sys} {a : Action}
    (h : Observed env o s a s') (other : a.slot ≠ some o) :
    ∃ ms lines, (∀ m ∈ ms, m.Live) ∧ Adds (s.srv.clients o).fd ms lines s.log s'.log := by
  have note (text : Bytes) : Message.Live ⟨.notify, noteBody text⟩ :=
    ⟨rfl, List.length_take_le _ _⟩
  cases h with
  | quiet ms _ _ replies adds =>
      refine ⟨ms, [], fun m mem => ?_, adds⟩
      rcases replies m mem with ⟨type, fits⟩ | ⟨own, -⟩
      · refine ⟨?_, fits⟩
        rw [Message.frame, type]
        rfl
      · exact absurd (congrArg Action.slot own) other
  | spoke _ _ _ adds =>
      refine ⟨_, _, fun m mem => ?_, adds⟩
      rw [List.mem_singleton.mp mem]
      exact ⟨rfl, List.length_take_le _ _⟩
  | joins _ _ _ _ _ _ _ verdict adds =>
      refine ⟨_, _, fun m mem => ?_, adds⟩
      rcases verdict with ⟨-, rfl⟩ | ⟨-, rfl⟩
      · rw [List.mem_singleton.mp mem]
        exact note _
      · cases mem
  | leaves _ _ _ _ _ verdict adds =>
      refine ⟨_, _, fun m mem => ?_, adds⟩
      rcases verdict with ⟨-, rfl⟩ | ⟨-, rfl⟩
      · rw [List.mem_singleton.mp mem]
        exact note _
      · cases mem

/-- While only others act, a joined client is sent live traffic. -/
theorem Run.live {env : Env} {c : Slot} {s s' : Sys} {as : List Action} (inv : Inv s)
    (run : Run env s as s') (others : ∀ a ∈ as, a.slot ≠ some c)
    (joined : (s.srv.clients c).joined = true) (ok : env.Delivers (s.srv.clients c).fd) :
    ∃ ms lines, (∀ m ∈ ms, m.Live) ∧ Adds (s.srv.clients c).fd ms lines s.log s'.log := by
  induction run with
  | nil s => exact ⟨[], [], nofun, .refl _ _⟩
  | @cons s s' a as enabled _ ih =>
      have other := others a List.mem_cons_self
      have same : (act env s a).srv.clients c = s.srv.clients c :=
        act_of_other (inv.used_of_joined joined) other
      obtain ⟨ms, lines, live, adds⟩ :=
        (act_observed inv enabled joined (by rw [same]; exact joined) ok).live other
      obtain ⟨ms', lines', live', adds'⟩ := ih (inv.act env enabled)
        (fun a mem => others a (List.mem_cons_of_mem _ mem)) (by rw [same]; exact joined)
        (by rw [same]; exact ok)
      rw [same] at adds'
      refine ⟨ms ++ ms', lines ++ lines', fun m mem => ?_, adds.trans adds'⟩
      exact (List.mem_append.mp mem).elim (live m) (live' m)

/-- **The stream to a newcomer** is its greeting, then live traffic. -/
theorem join_stream {env : Env} {c : Slot} {s₀ s : Sys} {as : List Action}
    (reach : Reachable env s₀) (joins : Enabled s₀ (.frame c))
    (before : (s₀.srv.clients c).joined = false)
    (joined : ((act env s₀ (.frame c)).srv.clients c).joined = true)
    (run : Run env (act env s₀ (.frame c)) as s) (others : ∀ a ∈ as, a.slot ≠ some c)
    (ok : env.Delivers (s₀.srv.clients c).fd) :
    ∃ fs, bytesTo (s₀.srv.clients c).fd (s.log.drop s₀.log.length) = chatCodec.encodeAll fs ∧
      Greeted fs ∧ ∀ f ∈ fs, chatCodec.Fits f := by
  have inv := reach.inv
  have next := inv.act env joins
  obtain ⟨used, f, need, scan⟩ := joins
  rw [act_frame scan] at joined run next
  obtain ⟨-, greeted⟩ := processFrame_joins inv used ok before joined
  have sameFd : ((processFrame env c f need s₀).srv.clients c).fd = (s₀.srv.clients c).fd :=
    (processFrame_sameConn env c f need s₀).1
  obtain ⟨ms, lines, live, adds⟩ := run.live next others joined (by rw [sameFd]; exact ok)
  rw [sameFd] at adds
  obtain ⟨added, log, -, -, bytes, -⟩ := greeted.trans adds
  refine ⟨_, by rw [log, List.drop_left]; exact bytes, ?_, fun f mem => ?_⟩
  · rintro f rest eq
    obtain ⟨rfl, rfl⟩ := List.cons.inj eq
    refine ⟨rfl, fun g mem => ?_⟩
    obtain ⟨m, sent, rfl⟩ := List.mem_map.mp mem
    rcases List.mem_append.mp sent with history | new
    · obtain ⟨line, -, rfl⟩ := List.mem_map.mp history
      exact Or.inl rfl
    · exact Or.inr (live m new).type
  · obtain ⟨m, sent, rfl⟩ := List.mem_map.mp mem
    rcases List.mem_append.mp sent with greeting | new
    · rcases List.mem_cons.mp greeting with rfl | history
      · exact le_trans (List.length_take_le _ _) (by decide)
      · obtain ⟨line, -, rfl⟩ := List.mem_map.mp history
        exact line.fits
    · exact (live m new).fits

/-- A part of such a stream is a good one. -/
theorem goodStream_of_part {fs : List Frame} (greeted : Greeted fs)
    (fit : ∀ f ∈ fs, chatCodec.Fits f) {chunks : List Bytes}
    (part : chunks.flatten <+: chatCodec.encodeAll fs) : GoodStream chunks := by
  rintro before ⟨rest, rfl⟩
  rw [List.flatten_append] at part
  obtain ⟨tail, frames⟩ :=
    chatCodec.parse_of_part fit ((List.prefix_append _ _).trans part)
  exact ⟨tail, greeted.of_part frames⟩

/-- **The handshake succeeds exactly in time.** Whatever the others do after a
`JOIN` was accepted and however `recv` cuts the stream, the client goes on and
prints every complete frame once and in order if and only if a chunk ended on a
frame boundary before the chunk that completes the first live frame. -/
theorem handshake_iff (env : Env) (c : Slot) (s₀ s : Sys) (as : List Action)
    (chunks : List Bytes) (reach : Reachable env s₀) (joins : Enabled s₀ (.frame c))
    (before : (s₀.srv.clients c).joined = false)
    (joined : ((act env s₀ (.frame c)).srv.clients c).joined = true)
    (run : Run env (act env s₀ (.frame c)) as s) (others : ∀ a ∈ as, a.slot ≠ some c)
    (ok : env.Delivers (s₀.srv.clients c).fd)
    (part : chunks.flatten <+: bytesTo (s₀.srv.clients c).fd (s.log.drop s₀.log.length))
    (valid : ClientSys.init.ValidCuts chunks) :
    let client := ClientSys.init.receiveAll chunks
    (client.phase ≠ .stopped ∧ client.out = (decoded chunks).frames.map .print) ↔
      InTime chunks := by
  obtain ⟨fs, stream, greeted, fit⟩ := join_stream reach joins before joined run others ok
  rw [stream] at part
  exact handshaken_iff (receiveAll_handshaken (goodStream_of_part greeted fit part) valid)

/-- Ann is there, and Bob's `JOIN` is about to be accepted. -/
def bobJoins : List Action :=
  arrival 0 4 "ann" ++ [.accept 5, .recv 1 (Message.frame ⟨.join, ascii "bob"⟩).encode]

/-- Ann has said something before Bob joins, and says more afterwards. The second of four
chunks ends on the frame boundary in front of her second line. -/
theorem handshake_iff_alone :
    let line (text : String) := (Message.frame ⟨.broadcast, ascii text⟩).encode
    let s₀ := (arrival 0 4 "ann" ++ [Action.recv 0 (line "hi"), .frame 0, .accept 5,
      .recv 1 (Message.frame ⟨.join, ascii "bob"⟩).encode]).foldl (act .smooth) .init
    let live := [Action.recv 0 (line "hi, bob"), .frame 0]
    let s := live.foldl (act .smooth) (act .smooth s₀ (.frame 1))
    let stream := bytesTo 5 (s.log.drop s₀.log.length)
    let chunks := [stream.take 7, (stream.take 53).drop 7, (stream.take 60).drop 53,
      stream.drop 60]
    let client := ClientSys.init.receiveAll chunks
    chunks.flatten = stream ∧ HasLive chunks ∧ client.phase ≠ .stopped ∧
      client.out = (decoded chunks).frames.map .print := by
  intro line s₀ live s stream chunks client
  have reach : Reachable .smooth s₀ := ⟨_, .of_enabled (by decide +kernel)⟩
  have fd : (s₀.srv.clients 1).fd = 5 := by decide +kernel
  have whole : chunks.flatten = stream := by decide +kernel
  have hasLive : HasLive chunks := by
    unfold HasLive
    decide +kernel
  have valid : ClientSys.init.ValidCuts chunks :=
    fun _ => ⟨by decide +kernel, by decide +kernel, fun _ => ⟨by decide +kernel, by decide +kernel,
      fun _ => ⟨by decide +kernel, by decide +kernel,
        fun _ => ⟨by decide +kernel, by decide +kernel, trivial⟩⟩⟩⟩
  -- no line before the last chunk, and the second ends on a frame boundary
  have quiet (n : Nat) (few : n < 4) : ¬ HasLive (chunks.take n) := by
    unfold HasLive
    rw [Bool.not_eq_true]
    interval_cases n <;> decide +kernel
  have ends : EndsOnFrame (chunks.take 2) := by
    unfold EndsOnFrame
    decide +kernel
  have inTime : InTime chunks := by
    intro before part spoken
    obtain ⟨n, rfl⟩ : ∃ n, before = chunks.take n := ⟨_, List.prefix_iff_eq_take.mp part⟩
    have many : 4 ≤ n := Nat.le_of_not_lt fun few => quiet n few spoken
    refine ⟨chunks.take 2, (List.take_prefix_take_left (by omega)), fun same => ?_, ends⟩
    exact quiet 2 (by decide) (same ▸ spoken)
  exact ⟨whole, hasLive, (handshake_iff .smooth 1 s₀ s live chunks reach (by decide +kernel)
    (by decide +kernel) (by decide +kernel) (.of_enabled (by decide +kernel))
    (by decide +kernel) (Env.smooth_delivers _) (by rw [fd, whole]) valid).mpr inTime⟩

/-- Ann speaks right after Bob has joined, and Bob receives the `JOIN_ACK` and her
line in one chunk. -/
theorem handshake_too_late :
    let s₀ := bobJoins.foldl (act .smooth) .init
    let speaks := [Action.recv 0 (Message.frame ⟨.broadcast, ascii "hi"⟩).encode, .frame 0]
    let s := speaks.foldl (act .smooth) (act .smooth s₀ (.frame 1))
    let chunk := bytesTo 5 (s.log.drop s₀.log.length)
    Reachable .smooth s₀ ∧ ((act .smooth s₀ (.frame 1)).srv.clients 1).joined = true ∧
      Run .smooth (act .smooth s₀ (.frame 1)) speaks s ∧ ClientSys.init.ValidCuts [chunk] ∧
      (decoded [chunk]).frames = [⟨MsgType.joinAck.code, joinAckText 2 (ascii "bob")⟩,
        ⟨MsgType.broadcast.code, ascii "ann: hi"⟩] ∧
      (ClientSys.init.receiveAll [chunk]).phase = .stopped ∧
      (ClientSys.init.receiveAll [chunk]).out =
        [.print ⟨MsgType.joinAck.code, joinAckText 2 (ascii "bob")⟩, .diag (unexpected 3)] := by
  intro s₀ speaks s chunk
  exact ⟨⟨_, .of_enabled (by decide +kernel)⟩, by decide +kernel, .of_enabled (by decide +kernel),
    fun _ => ⟨by decide +kernel, by decide +kernel, trivial⟩, by decide +kernel,
    by decide +kernel, by decide +kernel⟩

end Osisp.Chat
