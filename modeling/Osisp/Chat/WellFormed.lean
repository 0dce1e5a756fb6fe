import Osisp.Lib.CArray
import Osisp.Chat.Invariant
import Osisp.Chat.UserLine

/-!
# Every frame written is well formed

`ServerSite` and `ClientSite` list the places of the two programs that call
`send_frame`, each with the array its body is sent from and what was stored
there. Whatever the server or the client does, it writes frames of these places
only (`act_writes`, `typeBytes_writes`), so that every header passes the check of
the other side and every body byte is one that was stored
(`frames_well_formed`).
-/

namespace Osisp.Chat

open Lib

/-! ## Writing frames -/

/-- The trace grew by frames that `P` allows, and by events that write nothing.
`unchecked` is the refusal of a full server, which writes the body whatever became
of the header. -/
inductive Writes (env : Env) (P : Fd → Message → Prop) : Log → Log → Prop
  | refl (l : Log) : Writes env P l l
  | other {l l' : Log} {e : Event} :
    Writes env P l l' → (∀ fd, e.isWrite fd = false) → Writes env P l (l' ++ [e])
  | frame {l l' : Log} {fd : Fd} {m : Message} :
    Writes env P l l' → P fd m → Writes env P l (sendFrame env fd m.type m.body l').2
  | unchecked {l l' : Log} {fd : Fd} {m : Message} :
    Writes env P l l' → P fd m → m.body ≠ [] →
    Writes env P l (writeFd env fd m.body
      (writeFd env fd (chatHeaderToWire (frameHeader m.type.code m.body.length)) l').2).2

namespace Writes

variable {env : Env} {P Q : Fd → Message → Prop} {l l' l'' : Log}

theorem trans (first : Writes env P l l') (second : Writes env P l' l'') :
    Writes env P l l'' := by
  induction second with
  | refl => exact first
  | other _ silent ih => exact .other ih silent
  | frame _ allowed ih => exact .frame ih allowed
  | unchecked _ allowed nonempty ih => exact .unchecked ih allowed nonempty

theorem one {fd : Fd} {type : MsgType} {body : Bytes} (allowed : P fd ⟨type, body⟩) (l : Log) :
    Writes env P l (sendFrame env fd type body l).2 :=
  .frame (m := ⟨type, body⟩) (.refl l) allowed

theorem note {e : Event} (silent : ∀ fd, e.isWrite fd = false) (l : Log) :
    Writes env P l (l ++ [e]) := .other (.refl l) silent

/-- The trace only grows. -/
theorem grows (h : Writes env P l l') : l <+: l' := by
  induction h with
  | refl => exact List.prefix_rfl
  | other _ _ ih => exact ih.trans (List.prefix_append _ _)
  | frame _ _ ih =>
      obtain ⟨added, eq, -⟩ := sendFrame_appends env _ _ _ _
      rw [eq]
      exact ih.trans (List.prefix_append _ _)
  | unchecked _ _ _ ih =>
      exact (ih.trans (List.prefix_append _ _)).trans (List.prefix_append _ _)

theorem of_sends (h : Sends env Q l l') (allowed : ∀ fd m, Q fd m → P fd m) :
    Writes env P l l' := by
  induction h with
  | refl => exact .refl _
  | send _ sent ih => exact .frame ih (allowed _ _ sent)

end Writes

/-- The stream on `fd` grew by frames that `P` allows. -/
def Carries (P : Fd → Message → Prop) (fd : Fd) (l l' : Log) : Prop :=
  ∃ ms : List Message, (∀ m ∈ ms, P fd m) ∧
    bytesTo fd l' = bytesTo fd l ++ chatCodec.encodeAll (ms.map Message.frame)

theorem Carries.send {P : Fd → Message → Prop} {fd fd' : Fd} {m : Message} {l l' l'' : Log}
    (h : Carries P fd l l') (allowed : P fd' m)
    (here : fd = fd' → bytesTo fd l'' = bytesTo fd l' ++ m.frame.encode)
    (elsewhere : fd ≠ fd' → bytesTo fd l'' = bytesTo fd l') : Carries P fd l l'' := by
  obtain ⟨ms, all, bytes⟩ := h
  rcases eq_or_ne fd fd' with rfl | ne
  · refine ⟨ms ++ [m], fun m' mem => ?_, ?_⟩
    · rcases List.mem_append.mp mem with old | new
      · exact all m' old
      · rw [List.mem_singleton.mp new]
        exact allowed
    · rw [here rfl, bytes, List.map_append, Codec.encodeAll_append, List.append_assoc]
      simp
  · exact ⟨ms, all, (elsewhere ne).trans bytes⟩

/-- Where writes get through, the stream is that of the frames written. -/
theorem Writes.carries {env : Env} {P : Fd → Message → Prop} {l l' : Log}
    (h : Writes env P l l') {fd : Fd} (ok : env.Delivers fd) : Carries P fd l l' := by
  induction h with
  | refl => exact ⟨[], by simp⟩
  | @other l' e _ silent ih =>
      obtain ⟨ms, all, bytes⟩ := ih
      refine ⟨ms, all, ?_⟩
      have nothing : bytesTo fd [e] = [] := by
        have quiet := silent fd
        cases e with
        | write fd' data out =>
            have ne : fd' ≠ fd := of_decide_eq_false quiet
            simp [bytesTo, Event.bytesTo, ne]
        | _ => rfl
      rw [bytesTo_append, nothing, List.append_nil]
      exact bytes
  | @frame l' fd' m _ allowed ih =>
      refine ih.send allowed ?_ (bytesTo_of_other (sendFrame_appends env fd' m.type m.body l'))
      rintro rfl
      exact bytesTo_sendFrame ok m.type m.body l'
  | @unchecked l' fd' m _ allowed _ ih =>
      refine ih.send allowed ?_ ?_
      · rintro rfl
        simp only [writeFd_of_delivers ok, bytesTo_append, List.append_assoc]
        simp [bytesTo, Event.bytesTo, Message.frame, Frame.encode]
      · intro ne
        simp only [writeFd, bytesTo_append]
        simp [bytesTo, Event.bytesTo, ne.symm]

/-! ## The send sites of the server -/

/-- The texts of the server's `ERROR` messages. -/
def errorTexts : List String :=
  ["Invalid nickname length", "Empty nickname", "Nickname already in use", "Already joined",
    "Malformed private message (need target\\0text)", "Invalid private message", "User not found",
    "Server full"]

/-- `ack` of `handle_join`. -/
def ackBuffer (id : UInt32) (nick : CStr chatMaxNick) : CArray 128 :=
  (CArray.fresh 128).snprintf 0
    (ascii "id=" ++ decimal id.toNat ++ ascii "\nnick=" ++ nick.bytes ++ ascii "\n") (by decide)

/-- `note` of `handle_join` and `remove_client_index`. -/
def noteBuffer (text : Bytes) : CArray (chatMaxBody + 1) :=
  (CArray.fresh _).snprintf 0 text (by decide)

/-- `line` of `handle_broadcast`. -/
def broadcastBuffer (nick : CStr chatMaxNick) (body : Bytes) :
    CArray (chatMaxBody + chatMaxNick + 8) :=
  (CArray.fresh _).snprintf 0 (nick.bytes ++ ascii ": " ++ cstr body) (by decide)

/-- `line` of `handle_private`. -/
def privateBuffer (nick : CStr chatMaxNick) (target msg : Bytes) :
    CArray (chatMaxBody + chatMaxNick * 2 + 16) :=
  (CArray.fresh _).snprintf 0
    (ascii "(pm " ++ nick.bytes ++ ascii " -> " ++ target ++ ascii ") " ++ cstr msg) (by decide)

/-- The loop of `handle_list` over `buf` and `pos`. -/
def listFill (t : Table) : List Slot → Nat → CArray (chatMaxBody + 1) →
    Nat × CArray (chatMaxBody + 1)
  | [], pos, buf => (pos, buf)
  | i :: is, pos, buf =>
      if room : pos + 1 < chatMaxBody + 1 then
        if !(t i).active then listFill t is pos buf
        else
          let n := (listEntry (t i)).length
          let buf := buf.snprintf pos (listEntry (t i)) (Nat.lt_of_succ_lt room)
          if n ≥ chatMaxBody + 1 - pos then (pos, buf) else listFill t is (pos + n) buf
      else (pos, buf)

/-- `buf` of `handle_list` when it is sent. -/
def listBuffer (t : Table) : CArray (chatMaxBody + 1) :=
  let (pos, buf) := listFill t slots 0 ((CArray.fresh _).write 0 [0] (by decide))
  if pos = 0 then buf.snprintf 0 (ascii "(no users)\n") (by decide) else buf

/-- The text of `handle_list`. -/
def listText (t : Table) : Bytes :=
  let buf := listLoop t slots []
  if buf.length = 0 then ascii "(no users)\n" else buf

/-- `m` is what some `send_frame` of the server sends, with `buf` as the array its
body lies in. -/
inductive ServerSite : Message → {size : Nat} → CArray size → Prop
  | error {text : String} :
    text ∈ errorTexts → ServerSite ⟨.error, ascii text⟩ (CArray.literal (ascii text))
  | joinAck (id : UInt32) (nick : CStr chatMaxNick) :
    ServerSite ⟨.joinAck, joinAckText id nick.bytes⟩ (ackBuffer id nick)
  | history (line : CStr chatMaxBody) : ServerSite ⟨.history, line.bytes⟩ line.array
  | joinNote (nick : CStr chatMaxNick) :
    ServerSite ⟨.notify, noteBody (joinNote nick.bytes)⟩
      (noteBuffer (ascii "[JOIN] " ++ nick.bytes))
  | partNote (nick : CStr chatMaxNick) :
    ServerSite ⟨.notify, noteBody (partNote nick.bytes)⟩
      (noteBuffer (ascii "[PART] " ++ nick.bytes))
  | broadcast (nick : CStr chatMaxNick) (body : Bytes) :
    ServerSite ⟨.broadcast, (broadcastLine nick.bytes body).take chatMaxBody⟩
      (broadcastBuffer nick body)
  | privateMsg (nick : CStr chatMaxNick) (target msg : Bytes) :
    ServerSite ⟨.privateMsg, (privateLine nick.bytes target msg).take chatMaxBody⟩
      (privateBuffer nick target msg)
  | listReply (t : Table) : ServerSite ⟨.listReply, listText t⟩ (listBuffer t)

/-- The array of `handle_list` holds the text, whatever a last entry that did not
fit has left behind it. -/
theorem holds_listFill (t : Table) (is : List Slot) {front : Bytes}
    {buf : CArray (chatMaxBody + 1)} (holds : buf.Holds front) :
    (listFill t is front.length buf).1 = (listLoop t is front).length ∧
      (listFill t is front.length buf).2.Holds (listLoop t is front) := by
  induction is generalizing front buf with
  | nil => exact ⟨rfl, holds⟩
  | cons i is ih =>
      unfold listFill listLoop
      split
      · rename_i room
        split
        · exact ih holds
        · dsimp only
          split
          · exact ⟨rfl, holds.snprintf_behind _ (Nat.lt_of_succ_lt room)⟩
          · rename_i short
            have whole : (listEntry (t i)).take (chatMaxBody + 1 - front.length - 1) =
                listEntry (t i) := List.take_of_length_le (by omega)
            have filled := holds.snprintf (listEntry (t i)) (Nat.lt_of_succ_lt room)
            rw [whole] at filled
            have rest := ih filled
            rwa [List.length_append] at rest
      · exact ⟨rfl, holds⟩

theorem length_listLoop_le (t : Table) (is : List Slot) {front : Bytes}
    (fits : front.length ≤ chatMaxBody) : (listLoop t is front).length ≤ chatMaxBody := by
  induction is generalizing front with
  | nil => exact fits
  | cons i is ih =>
      unfold listLoop
      split
      · split
        · exact ih fits
        · split
          · exact fits
          · refine ih ?_
            rw [List.length_append]
            omega
      · exact fits

theorem holds_listBuffer (t : Table) : (listBuffer t).Holds (listText t) := by
  obtain ⟨pos, holds⟩ := holds_listFill t slots
    (CArray.Holds.nil ((CArray.fresh _).write 0 [0] (by decide)))
  unfold listBuffer listText
  dsimp only
  rw [List.length_nil] at pos holds
  rw [pos]
  split
  · exact CArray.holds_snprintf _ _ _
  · exact holds

/-- The bytes of a site are stored, and inside the array. -/
theorem ServerSite.holds {m : Message} {size : Nat} {buf : CArray size} (site : ServerSite m buf) :
    buf.Holds m.body := by
  cases site with
  | error _ => exact CArray.holds_literal _
  | joinAck id nick => exact CArray.holds_snprintf _ _ _
  | history line => exact line.holds_array
  | joinNote nick => exact ((CArray.holds_snprintf _ _ _).of_part (cstr_part _)).take _
  | partNote nick => exact ((CArray.holds_snprintf _ _ _).of_part (cstr_part _)).take _
  | broadcast nick body => exact (CArray.holds_snprintf _ _ _).take _
  | privateMsg nick target msg => exact (CArray.holds_snprintf _ _ _).take _
  | listReply t => exact holds_listBuffer t

theorem ServerSite.fits {m : Message} {size : Nat} {buf : CArray size} (site : ServerSite m buf) :
    m.body.length ≤ chatMaxBody := by
  cases site with
  | error text =>
      have all : ∀ text ∈ errorTexts, (ascii text).length ≤ chatMaxBody := by decide
      exact all _ text
  | joinAck id nick => exact le_trans (List.length_take_le _ _) (by decide)
  | history line => exact line.fits
  | joinNote nick => exact List.length_take_le _ _
  | partNote nick => exact List.length_take_le _ _
  | broadcast nick body => exact List.length_take_le _ _
  | privateMsg nick target msg => exact List.length_take_le _ _
  | listReply t =>
      have fits := length_listLoop_le t slots (show ([] : Bytes).length ≤ _ from Nat.zero_le _)
      unfold listText
      dsimp only
      split
      · decide
      · exact fits

/-! ## What a frame has to be -/

/-- The header of the frame, as the other side reads it, is accepted and announces
the body as it is. -/
structure Message.WellFormed (m : Message) : Prop where
  accepted : chatHeaderValid (chatHeaderFromWire
    (chatHeaderToWire (frameHeader m.type.code m.body.length))) = true
  bodyLen : (frameHeader m.type.code m.body.length).bodyLen.toNat = m.body.length
  fits : m.body.length ≤ chatMaxBody

theorem Message.wellFormed {m : Message} (fits : m.body.length ≤ chatMaxBody) : m.WellFormed :=
  ⟨by rw [chatHeaderFromWire_toWire]; exact chatHeaderValid_frameHeader fits,
    toNat_ofNat_bodyLen fits, fits⟩

/-- A well-formed frame from a place of the server. -/
def ServerFrame (m : Message) : Prop :=
  m.WellFormed ∧ ∃ (size : Nat) (buf : CArray size), ServerSite m buf ∧ buf.Holds m.body

theorem ServerSite.frame {m : Message} {size : Nat} {buf : CArray size}
    (site : ServerSite m buf) : ServerFrame m :=
  ⟨Message.wellFormed site.fits, size, buf, site, site.holds⟩

/-! ## What the server writes -/

/-- Frames of the server, on whatever descriptors. -/
abbrev ServerWrites (env : Env) : Log → Log → Prop := Writes env fun _ m => ServerFrame m

section Server

variable (env : Env) (c : Slot) (s : Sys)

theorem sendError_writes {text : String} (known : text ∈ errorTexts) :
    ServerWrites env s.log (sendError env c text s).log :=
  Writes.one (ServerSite.error known).frame s.log

theorem checkJoin_error {t : Table} {body : Bytes} {text : String}
    (h : checkJoin t c body = .error text) : text ∈ errorTexts := by
  unfold checkJoin at h
  split at h
  · cases h
    decide
  · dsimp only at h
    split at h
    · cases h
      decide
    · split at h
      · cases h
        decide
      · cases h

theorem checkPrivate_error {t : Table} {body : Bytes} {text : String}
    (h : checkPrivate t body = .error text) : text ∈ errorTexts := by
  unfold checkPrivate at h
  split at h
  · cases h
    decide
  · dsimp only at h
    split at h
    · cases h
      decide
    · split at h
      · cases h
        decide
      · cases h

theorem AcceptJoinCase.writes {env : Env} {c : Slot} {nick : Bytes} {s s' : Sys}
    (h : AcceptJoinCase env c nick s s') : ServerWrites env s.log s'.log := by
  have ack : ServerWrites env s.log (sendAck env c nick s).2 := by
    unfold sendAck
    rw [joinAs_self]
    exact Writes.one (ServerSite.joinAck _ (CStr.strncpy chatMaxNick nick)).frame s.log
  cases h with
  | ackLost => exact ack
  | admitted =>
      refine ack.trans (Writes.trans (.of_sends (sendLines_sends _ _ _ _) ?_)
        (.of_sends (sendAll_sends _ _ _ _ _ _) ?_))
      · intro fd m sent
        rcases m with ⟨type, body⟩
        rcases sent with ⟨-, rfl, line, -, rfl⟩
        exact (ServerSite.history line).frame
      · intro fd m sent
        rcases sent with ⟨rfl, -⟩
        exact (ServerSite.joinNote _).frame

theorem handlePrivate_writes (body : Bytes) :
    ServerWrites env s.log (handlePrivate env c body s).log := by
  unfold handlePrivate
  split
  · exact .refl _
  · split
    · rename_i refused
      exact sendError_writes env c s (checkPrivate_error refused)
    · refine .of_sends (sendPrivate_sends _ _ _ _ _ _) ?_
      intro fd m sent
      rcases sent with ⟨rfl, -⟩
      exact (ServerSite.privateMsg _ _ _).frame

theorem handleBroadcast_writes (body : Bytes) :
    ServerWrites env s.log (handleBroadcast env c body s).log := by
  unfold handleBroadcast
  split
  · exact .refl _
  · have line (text : Bytes) : ServerWrites env s.log (s.log ++ [.line text]) :=
      Writes.note (fun _ => rfl) s.log
    refine (line _).trans (.of_sends (sendAll_sends _ _ _ _ _ _) ?_)
    intro fd m sent
    rcases sent with ⟨rfl, -⟩
    exact (ServerSite.broadcast _ _).frame

/-- The handlers write frames of their own places. -/
theorem handleFrame_writes (f : Frame) :
    ServerWrites env s.log (handleFrame env c f s).log := by
  unfold handleFrame
  split
  · split
    · exact sendError_writes env c s (by decide)
    · unfold handleJoin
      split
      · rename_i refused
        exact sendError_writes env c s (checkJoin_error c refused)
      · exact (acceptJoin_case env c _ s).writes
  · exact handleBroadcast_writes env c s f.body
  · exact handlePrivate_writes env c s f.body
  · exact Writes.one (ServerSite.listReply _).frame s.log
  · exact .refl _

theorem closeSlot_writes : ServerWrites env s.log (closeSlot c s).log := by
  rw [log_closeSlot]
  split
  · exact Writes.note (fun _ => rfl) _
  · exact .refl _

theorem acceptClient_writes (fd : Fd) : ServerWrites env s.log (acceptClient env fd s).log := by
  have accepted : ServerWrites env s.log (s.log ++ [.accept fd]) :=
    Writes.note (fun _ => rfl) s.log
  rcases acceptClient_cases env fd s with ⟨i, added, eq⟩ | ⟨-, eq⟩
  · obtain ⟨-, -, -, log, -⟩ := addClient_some added
    rw [eq, log]
    exact accepted
  · rw [eq]
    -- `main` refuses the connection itself
    have known : "Server full" ∈ errorTexts := by decide
    have refusal := @Writes.unchecked env _ s.log _ fd _ accepted
      (ServerSite.error known).frame (by decide)
    exact refusal.trans (Writes.note (fun _ => rfl) _)

theorem removeClientIndex_writes : ServerWrites env s.log (removeClientIndex env c s).log := by
  unfold removeClientIndex
  refine Writes.trans ?_ (closeSlot_writes env c _)
  split
  · refine .of_sends (sendAll_sends _ _ _ _ _ _) ?_
    intro fd m sent
    rcases sent with ⟨rfl, -⟩
    exact (ServerSite.partNote _).frame
  · exact .refl _

/-- **One action** writes frames of the server's places and nothing else. -/
theorem act_writes (a : Action) : ServerWrites env s.log (act env s a).log := by
  cases a with
  | accept fd => exact acceptClient_writes env s fd
  | recv i data => exact Writes.note (fun _ => rfl) s.log
  | frame i =>
      cases scan : scanFrame (s.srv.clients i).inbuf.bytes with
      | more =>
          simp only [act, scan]
          exact .refl _
      | bad =>
          simp only [act, scan]
          exact .refl _
      | frame f need =>
          rw [act_frame scan]
          have noted : ServerWrites env s.log (s.log ++ [.frame i f]) :=
            Writes.note (fun _ => rfl) s.log
          exact noted.trans (handleFrame_writes env i (s.note (.frame i f)) f)
  | invalid i => exact closeSlot_writes env i s
  | remove i => exact removeClientIndex_writes env i s

end Server

theorem Run.writes {env : Env} {s s' : Sys} {as : List Action} (run : Run env s as s') :
    ServerWrites env s.log s'.log := by
  induction run with
  | nil s => exact .refl _
  | cons _ _ ih => exact (act_writes env _ _).trans ih

/-! ## What the client writes -/

/-- `linebuf` when its line is sent: the line ends that were trimmed off are
overwritten. -/
def lineBuffer (line : Buf (lineCap - 1)) : CArray lineCap :=
  let kept := line.bytes.rdropWhile isNewline
  ((CArray.fresh lineCap).write 0 (line.bytes ++ [0]) (by
    have fits := line.fits
    rw [List.length_append, List.length_singleton]
    unfold lineCap at fits ⊢
    omega)).write kept.length (List.replicate (line.bytes.length - kept.length) 0) (by
    have fits := line.fits
    have shorter : kept.length ≤ line.bytes.length := (List.rdropWhile_prefix isNewline _).length_le
    rw [List.length_replicate]
    unfold lineCap at fits ⊢
    omega)

/-- `body` of `handle_user_line`. -/
def userBody (target msg : Bytes) (fits : target.length + 1 + msg.length ≤ chatMaxBody) :
    CArray chatMaxBody :=
  (((CArray.fresh chatMaxBody).write 0 target (by omega)).write target.length [0]
    (by rw [List.length_singleton]; omega)).write (target.length + 1) msg fits

/-- `m` is what some `send_frame` of the client sends, with `buf` as the array its
body lies in; the body of a `LIST` is `NULL`. -/
inductive ClientSite : Message → {size : Nat} → CArray size → Prop
  | join (nick : CStr chatMaxNick) : ClientSite ⟨.join, nick.bytes⟩ (CArray.literal nick.bytes)
  | list : ClientSite ⟨.list, []⟩ (CArray.fresh 0)
  | privateMsg {target msg : Bytes} (fits : target.length + 1 + msg.length ≤ chatMaxBody) :
    ClientSite ⟨.privateMsg, target ++ 0 :: msg⟩ (userBody target msg fits)
  | broadcast {line : Buf (lineCap - 1)} :
    (line.bytes.rdropWhile isNewline).length ≤ chatMaxBody →
    ClientSite ⟨.broadcast, line.bytes.rdropWhile isNewline⟩ (lineBuffer line)

section Site

variable {m : Message} {size : Nat} {buf : CArray size}

theorem ClientSite.holds (site : ClientSite m buf) : buf.Holds m.body := by
  cases site with
  | join nick => exact CArray.holds_literal _
  | list => exact CArray.Holds.nil _
  | @privateMsg target msg fits =>
      have name := CArray.holds_write (CArray.fresh chatMaxBody) target (by omega)
      have ended : CArray.Holds _ (target ++ [0]) :=
        name.write rfl (by rw [List.length_singleton]; omega)
      have whole : CArray.Holds _ (target ++ [0] ++ msg) := ended.write (by simp) fits
      rwa [List.append_assoc] at whole
  | @broadcast line _ =>
      unfold lineBuffer
      refine CArray.Holds.write_behind ?_ (Nat.le_refl _) _
      exact (CArray.holds_write _ _ _).of_part
        ((List.rdropWhile_prefix isNewline _).trans (List.prefix_append _ _))

theorem ClientSite.fits (site : ClientSite m buf) : m.body.length ≤ chatMaxBody := by
  cases site with
  | join nick => exact le_trans nick.fits (by decide)
  | list => exact Nat.zero_le _
  | privateMsg fits =>
      rw [List.length_append, List.length_cons]
      omega
  | broadcast fits => exact fits

end Site

/-- A well-formed frame from a place of the client. -/
def ClientFrame (m : Message) : Prop :=
  m.WellFormed ∧ ∃ (size : Nat) (buf : CArray size), ClientSite m buf ∧ buf.Holds m.body

theorem ClientSite.frame {m : Message} {size : Nat} {buf : CArray size}
    (site : ClientSite m buf) : ClientFrame m :=
  ⟨Message.wellFormed site.fits, size, buf, site, site.holds⟩

/-- Frames of the client, on its own socket. -/
abbrev ClientWrites (env : Env) (sock : Fd) : Log → Log → Prop :=
  Writes env fun fd m => fd = sock ∧ ClientFrame m

section Client

variable (env : Env) (sock : Fd)

theorem sendUser_writes {type : MsgType} {body : Bytes} {size : Nat} {buf : CArray size}
    (site : ClientSite ⟨type, body⟩ buf) (log : Log) :
    ClientWrites env sock log (sendUser env sock type body log).2.2 := by
  have sent : ClientWrites env sock log (sendFrame env sock type body log).2 :=
    Writes.one ⟨rfl, site.frame⟩ log
  unfold sendUser
  dsimp only
  split
  · exact sent
  · exact sent

/-- A line becomes at most one frame. -/
theorem LineCase.writes {line : Buf (lineCap - 1)} {log : Log}
    {r : UserResult × List UserOutput × Log}
    (h : LineCase env sock (line.bytes.rdropWhile isNewline) log r) :
    ClientWrites env sock log r.2.2 := by
  cases h with
  | silent result out => exact .refl log
  | sends sent =>
      cases sent with
      | list _ => exact sendUser_writes env sock .list log
      | privateMsg _ fits => exact sendUser_writes env sock (.privateMsg fits) log
      | broadcast _ fits => exact sendUser_writes env sock (.broadcast fits) log

theorem typeByte_writes (u : UserSys) (c : UInt8) :
    ClientWrites env sock u.log (typeByte env sock u c).log := by
  unfold typeByte
  split
  · exact .refl _
  · split
    · have line := (handleUserLine_case env sock u.line.bytes u.log).writes
      dsimp only
      split
      · exact line.trans (Writes.note (fun _ => rfl) _)
      · exact line
    · exact .refl _

theorem typeBytes_writes (u : UserSys) (typed : Bytes) :
    ClientWrites env sock u.log (typeBytes env sock u typed).log := by
  induction typed generalizing u with
  | nil => exact .refl _
  | cons c typed ih => exact (typeByte_writes env sock u c).trans (ih _)

/-- **A session** of the client writes frames of its own places. -/
theorem session_writes (nick : CStr chatMaxNick) (typed : Bytes) :
    ClientWrites env sock [] (typeBytes env sock (userJoin env sock nick) typed).log := by
  refine Writes.trans ?_ (typeBytes_writes env sock _ typed)
  have sent : ClientWrites env sock [] (sendFrame env sock .join nick.bytes []).2 :=
    Writes.one ⟨rfl, (ClientSite.join nick).frame⟩ []
  unfold userJoin
  dsimp only
  split
  · exact sent.trans (Writes.note (fun _ => rfl) _)
  · exact sent

end Client

/-! ## No frame is rejected -/

/-- A `write_full` that reports success has written everything. -/
theorem writeFull_of_done {rets : List WriteRet} {buf : Bytes}
    (done : (writeFull rets buf).1 = .done) : (writeFull rets buf).2 = buf := by
  induction rets generalizing buf with
  | nil => cases buf <;> rfl
  | cons r rets ih =>
      cases buf with
      | nil => rfl
      | cons x buf =>
          cases r with
          | short k =>
              simp only [writeFull] at done ⊢
              rw [ih done, List.take_append_drop]
          | eintr => exact ih done
          | error => cases done
          | epipe => cases done

theorem bytesTo_of_written {env : Env} {fd : Fd} {buf : Bytes} {log : Log}
    (done : (writeFd env fd buf log).1 = .done) :
    bytesTo fd (writeFd env fd buf log).2 = bytesTo fd log ++ buf := by
  unfold writeFd at done ⊢
  rw [bytesTo_append, writeFull_of_done done]
  simp [bytesTo, Event.bytesTo]

/-- A `send_frame` that reports success has written the header and the body. -/
theorem bytesTo_of_sent {env : Env} {fd : Fd} {type : MsgType} {body : Bytes} {log : Log}
    (sent : (sendFrame env fd type body log).1 = true) :
    bytesTo fd (sendFrame env fd type body log).2 = bytesTo fd log ++
      (chatHeaderToWire (frameHeader type.code body.length) ++ body) := by
  have reported (l : Log) : bytesTo fd (l ++ [.sent fd type body true]) = bytesTo fd l := by
    rw [bytesTo_append]
    exact List.append_nil _
  unfold sendFrame at sent ⊢
  dsimp only at sent ⊢
  split at sent
  · cases sent
  · rename_i header
    rw [if_neg header]
    have wire := bytesTo_of_written (not_not.mp header)
    split at sent
    · rename_i nonempty
      split at sent
      · cases sent
      · rename_i rest
        rw [if_pos nonempty, if_neg rest]
        dsimp only
        rw [reported, bytesTo_of_written (not_not.mp rest), wire, List.append_assoc]
    · rename_i none
      have nil : body = [] := List.length_eq_zero_iff.mp (Nat.eq_zero_of_not_pos none)
      rw [if_neg none]
      dsimp only
      rw [reported, wire, nil, List.append_nil]

/-- No part of a stream of well-formed frames ends in an invalid header. -/
theorem Carries.accepted {P : Fd → Message → Prop} {fd : Fd} {l : Log} {added part : Bytes}
    {l' : Log} (h : Carries P fd l l') (fits : ∀ m, P fd m → m.WellFormed)
    (stream : bytesTo fd l' = bytesTo fd l ++ added) (begins : part <+: added) :
    (chatCodec.parse part).tail ≠ none := by
  obtain ⟨ms, all, bytes⟩ := h
  have same : added = chatCodec.encodeAll (ms.map Message.frame) :=
    List.append_cancel_left (stream.symm.trans bytes)
  rw [same] at begins
  have fit : ∀ f ∈ ms.map Message.frame, chatCodec.Fits f := by
    intro f mem
    obtain ⟨m, sent, rfl⟩ := List.mem_map.mp mem
    exact (fits m (all m sent)).fits
  obtain ⟨⟨t, tail⟩, -⟩ := chatCodec.parse_of_part fit begins
  rw [tail]
  nofun

/-- **Every frame written is well formed.** From any reachable state the server
writes well-formed frames of its own places, whatever it does next, and so does
the client, whatever is typed. A frame whose writes succeed is its header and
exactly its body. So neither side ever finds an invalid header in the stream of
the other. -/
theorem frames_well_formed (env : Env) :
    (∀ s, Reachable env s → ∀ a, Enabled s a →
      Writes env (fun _ m => ServerFrame m) s.log (act env s a).log) ∧
    (∀ sock nick typed, Writes env (fun fd m => fd = sock ∧ ClientFrame m) []
      (typeBytes env sock (userJoin env sock nick) typed).log) ∧
    (∀ fd type body log, (sendFrame env fd type body log).1 = true →
      bytesTo fd (sendFrame env fd type body log).2 = bytesTo fd log ++
        (chatHeaderToWire (frameHeader type.code body.length) ++ body)) ∧
    (∀ s₀ s as, Reachable env s₀ → Run env s₀ as s → ∀ fd, env.Delivers fd →
      ∀ received, received <+: bytesTo fd (s.log.drop s₀.log.length) →
        (chatCodec.parse received).tail ≠ none) ∧
    (∀ sock nick typed, env.Delivers sock →
      ∀ received, received <+:
          bytesTo sock (typeBytes env sock (userJoin env sock nick) typed).log →
        (chatCodec.parse received).tail ≠ none) := by
  refine ⟨fun s _ a _ => act_writes env s a, session_writes env,
    fun _ _ _ _ => bytesTo_of_sent, ?_, ?_⟩
  · intro s₀ s as _ run fd ok received begins
    have grown : s.log = s₀.log ++ s.log.drop s₀.log.length := by
      obtain ⟨added, eq⟩ := run.writes.grows
      rw [← eq, List.drop_left]
    refine (run.writes.carries ok).accepted (fun m frame => frame.1) ?_ begins
    rw [← bytesTo_append, ← grown]
  · intro sock nick typed ok received begins
    exact ((session_writes env sock nick typed).carries ok).accepted (fun m frame => frame.2.1)
      rfl begins

/-- A `/w` line and a chat line, typed after the `JOIN`. -/
theorem frames_well_formed_typed :
    let nick : CStr chatMaxNick := .strncpy _ (ascii "ann")
    let typed := ascii "/w  bob hi\nhello\n"
    (chatCodec.parse (bytesTo 3
      (typeBytes .smooth 3 (userJoin .smooth 3 nick) typed).log)).tail ≠ none := by
  intro nick typed
  exact (frames_well_formed .smooth).2.2.2.2 3 nick typed (Env.smooth_delivers 3) _
    List.prefix_rfl

end Osisp.Chat
