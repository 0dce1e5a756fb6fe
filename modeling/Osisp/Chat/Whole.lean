import Osisp.Chat.Observer
import Osisp.Chat.UserLine

/-!
# From the keyboard to the others

A typed text passes four limits on its way: `linebuf` keeps the first 4095 bytes
of a line, the client refuses what does not fit a body, the server puts a prefix
in front, and cuts the result to the size of a body. A text that is sent reaches
everyone it is for, cut to 2048 bytes together with its prefix; `reaches_whole`
says exactly when that leaves it whole.
-/

namespace Osisp.Chat

open Lib

/-! ## Lines as typed -/

section Typed

variable {a args target msg : Bytes}

/-- More text behind the arguments belongs to the message. -/
theorem splitArgs_append (split : splitArgs args = some (target, msg)) (b : Bytes) :
    splitArgs (args ++ b) = some (target, msg ++ b) := by
  unfold splitArgs at split ⊢
  dsimp only at split ⊢
  split at split
  · cases split
  · rename_i spaced
    have mem : 32 ∈ args.dropWhile isBlank := not_not.mp spaced
    have nonempty : (args.dropWhile isBlank).isEmpty = false :=
      List.isEmpty_eq_false_iff.mpr (List.ne_nil_of_mem mem)
    have more : (args ++ b).dropWhile isBlank = args.dropWhile isBlank ++ b := by
      rw [List.dropWhile_append, nonempty]
      rfl
    generalize args.dropWhile isBlank = p at mem more split
    have parts := split_at_first mem
    cases split
    rw [more, if_neg (not_not.mpr (List.mem_append_left b mem))]
    have noSpace : (32 : UInt8) ∉ p.takeWhile (· ≠ 32) := by
      intro inside
      simpa using List.mem_takeWhile_imp inside
    have first : (p ++ b).takeWhile (· ≠ 32) = p.takeWhile (· ≠ 32) := by
      nth_rewrite 1 [parts]
      rw [List.append_assoc, List.cons_append, takeWhile_ne_append noSpace]
    have enough : (p.takeWhile (· ≠ 32)).length + 1 ≤ p.length := by
      have len := congrArg List.length parts
      rw [List.length_append, List.length_cons] at len
      omega
    rw [first, List.drop_append_of_le_length enough]

theorem privateArgs_append (split : privateArgs a = some (target, msg)) (b : Bytes) :
    privateArgs (a ++ b) = some (target, msg ++ b) := by
  unfold privateArgs at split
  split at split
  · rename_i command
    obtain ⟨rest, rfl⟩ := List.isPrefixOf_iff_prefix.mp command
    exact splitArgs_append split b
  · split at split
    · rename_i command
      obtain ⟨rest, rfl⟩ := List.isPrefixOf_iff_prefix.mp command
      exact splitArgs_append split b
    · cases split

/-- The message is part of the line. -/
theorem mem_of_privateArgs (split : privateArgs a = some (target, msg)) {x : UInt8}
    (mem : x ∈ msg) : x ∈ a := by
  have inArgs {args : Bytes} (parts : splitArgs args = some (target, msg)) : x ∈ args := by
    unfold splitArgs at parts
    dsimp only at parts
    split at parts
    · cases parts
    · cases parts
      exact (List.dropWhile_suffix _).subset (List.mem_of_mem_drop mem)
  unfold privateArgs at split
  split at split
  · exact List.mem_of_mem_drop (inArgs split)
  · split at split
    · exact List.mem_of_mem_drop (inArgs split)
    · cases split

theorem isPrivate_of_args (split : privateArgs a = some (target, msg)) : isPrivate a = true := by
  unfold privateArgs at split
  unfold isPrivate
  split at split
  · rename_i command
    rw [command]
    rfl
  · split at split
    · rename_i command
      rw [command, Bool.or_true]
    · cases split

end Typed

/-! ## What the server makes of a text -/

/-- The slot is sent exactly `m`. -/
def Receives (s s' : Sys) (i : Slot) (m : Message) : Prop :=
  messagesTo (s.srv.clients i).fd s'.log = messagesTo (s.srv.clients i).fd s.log ++ [m]

section Server

variable {env : Env} {s : Sys} {c i dest : Slot} {need : Nat}

theorem log_act_frame {f : Frame} (scan : scanFrame (s.srv.clients c).inbuf.bytes = .frame f need) :
    (act env s (.frame c)).log = (handleFrame env c f (s.note (.frame c f))).log := by
  rw [act_frame scan]
  rfl

/-- Every joined client is sent the line of a broadcast. -/
theorem broadcast_receives (inv : Inv s) (joined : (s.srv.clients c).joined = true)
    (there : (s.srv.clients i).joined = true) (ok : env.Delivers (s.srv.clients i).fd)
    {body : Bytes} (scan : scanFrame (s.srv.clients c).inbuf.bytes =
      .frame (Message.frame ⟨.broadcast, body⟩) need) :
    Receives s (act env s (.frame c)) i
      ⟨.broadcast, (broadcastLine (s.srv.clients c).nick.bytes body).take chatMaxBody⟩ := by
  have handled : handleFrame env c (Message.frame ⟨.broadcast, body⟩)
      (s.note (.frame c (Message.frame ⟨.broadcast, body⟩))) =
        handleBroadcast env c body (s.note (.frame c (Message.frame ⟨.broadcast, body⟩))) := by
    unfold handleFrame Message.frame
    rw [MsgType.ofCode_code]
  unfold Receives
  rw [log_act_frame scan, handled, handleBroadcast_of_joined env (s := s.note _) joined]
  refine (sendAll_adds inv there ok (fun _ => ⟨rfl, rfl, rfl, rfl⟩) there _ _ none nofun
    _).messagesTo_eq.trans ?_
  simp only [histPush, Sys.log_note, messagesTo_append]
  simp [messagesTo, Event.messagesTo]

theorem findByNick_eq (inv : Inv s) (there : (s.srv.clients dest).joined = true)
    {target : Bytes} (named : (s.srv.clients dest).nick.bytes = target) :
    findByNick s.srv.clients target = some dest := by
  have noNul : (0 : UInt8) ∉ target := named ▸ (s.srv.clients dest).nick.noNul
  cases found : findByNick s.srv.clients target with
  | none =>
      have missed := List.find?_eq_none.mp found dest (mem_slots dest)
      have active := inv.active_iff.mpr there
      simp [active, Client.hasNick, named, cstr_eq_self noNul] at missed
  | some j =>
      have hit := List.find?_some found
      simp only [Client.hasNick, cstr_eq_self noNul, Bool.and_eq_true, decide_eq_true_eq] at hit
      rw [inv.nicks j dest (inv.active_iff.mp hit.1) there (hit.2.trans named.symm)]

/-- What was joined with a NUL is read as it was; at most nobody has the name. -/
theorem checkPrivate_nul (t : Table) {target msg : Bytes} (noNul : (0 : UInt8) ∉ target)
    (long : 0 < target.length) (short : target.length ≤ chatMaxNick) (nonempty : 0 < msg.length) :
    checkPrivate t (target ++ 0 :: msg) = match findByNick t target with
      | none => .error "User not found"
      | some dest => .ok (dest, target, msg) := by
  have sep : (0 : UInt8) ∈ target ++ 0 :: msg := List.mem_append_right _ List.mem_cons_self
  have rest : (target ++ 0 :: msg).drop (target.length + 1) = msg := by
    rw [List.drop_length_add_append, List.drop_succ_cons, List.drop_zero]
  have sizes : ¬ (decide (target.length = 0) || decide (target.length > chatMaxNick) ||
      decide (msg.length = 0)) = true := by
    simp only [Bool.or_eq_true, decide_eq_true_eq, not_or, not_lt]
    omega
  unfold checkPrivate
  rw [if_neg (not_not.mpr sep)]
  simp only [cstr_append_nul noNul, rest]
  exact if_neg sizes

theorem checkPrivate_eq (inv : Inv s) (there : (s.srv.clients dest).joined = true)
    {target msg : Bytes} (named : (s.srv.clients dest).nick.bytes = target)
    (long : 0 < target.length) (short : target.length ≤ chatMaxNick) (nonempty : 0 < msg.length) :
    checkPrivate s.srv.clients (target ++ 0 :: msg) = .ok (dest, target, msg) := by
  have noNul : (0 : UInt8) ∉ target := named ▸ (s.srv.clients dest).nick.noNul
  rw [checkPrivate_nul _ noNul long short nonempty, findByNick_eq inv there named]

/-- A private message that passes the checks is sent to its two readers. -/
theorem handleFrame_private (env : Env) (joined : (s.srv.clients c).joined = true)
    {body target msg : Bytes}
    (check : checkPrivate s.srv.clients body = .ok (dest, target, msg)) :
    handleFrame env c (Message.frame ⟨.privateMsg, body⟩) s =
      s.withLog (sendPrivate env s.srv.clients c dest
        ((privateLine (s.srv.clients c).nick.bytes target msg).take chatMaxBody) s.log) := by
  unfold handleFrame Message.frame
  rw [MsgType.ofCode_code]
  simp only [handlePrivate, joined, Bool.not_true, Bool.false_eq_true, if_false, check]

/-- The recipient of a private message and its sender are sent the line. -/
theorem privateMsg_receives (inv : Inv s) (joined : (s.srv.clients c).joined = true)
    (there : (s.srv.clients dest).joined = true) (okDest : env.Delivers (s.srv.clients dest).fd)
    (okC : env.Delivers (s.srv.clients c).fd) {body target msg : Bytes}
    (scan : scanFrame (s.srv.clients c).inbuf.bytes =
      .frame (Message.frame ⟨.privateMsg, body⟩) need)
    (check : checkPrivate s.srv.clients body = .ok (dest, target, msg)) (who : i = dest ∨ i = c) :
    Receives s (act env s (.frame c)) i
      ⟨.privateMsg, (privateLine (s.srv.clients c).nick.bytes target msg).take chatMaxBody⟩ := by
  have handled := handleFrame_private env
    (s := s.note (.frame c (Message.frame ⟨.privateMsg, body⟩))) joined check
  have noted (fd : Fd) (f : Frame) :
      messagesTo fd (s.log ++ [.frame c f]) = messagesTo fd s.log := by
    rw [messagesTo_append]
    exact List.append_nil _
  unfold Receives
  rw [log_act_frame scan, handled, Sys.log_withLog, Sys.srv_note, Sys.log_note]
  unfold sendPrivate
  simp only [sendFrame_ok okDest, Bool.not_true, Bool.false_eq_true, if_false]
  split
  · rename_i ne
    have apart := inv.ne_fd (o := c) joined (inv.used_of_joined there) ne
    rcases who with rfl | rfl
    · rw [messagesTo_of_other (sendFrame_appends env _ _ _ _) apart.symm,
        messagesTo_sendFrame okDest, noted]
    · rw [messagesTo_sendFrame okC, messagesTo_of_other (sendFrame_appends env _ _ _ _) apart,
        noted]
  · rename_i same
    have eq : i = dest := by
      rcases who with here | self
      · exact here
      · rw [self, not_not.mp same]
    rw [eq, messagesTo_sendFrame okDest, noted]

end Server

/-! ## What the client makes of a line -/

/-- `linebuf` after the line, without its end. -/
def keptLine (typed : Bytes) : Bytes := typed.take (lineCap - 1)

/-- A line without NUL, CR and LF. -/
structure PlainLine (typed : Bytes) : Prop where
  noNul : (0 : UInt8) ∉ typed
  noCr : (13 : UInt8) ∉ typed
  noLf : (10 : UInt8) ∉ typed

/-- The client between two lines. -/
structure UserSys.Ready (u : UserSys) : Prop where
  running : u.done = false
  start : u.line.bytes = []

/-- Typing the line makes the client send `m` and nothing else. -/
def SentAs (env : Env) (sock : Fd) (u : UserSys) (typed : Bytes) (m : Message) : Prop :=
  messagesTo sock (typeBytes env sock u (typed ++ [10])).log = messagesTo sock u.log ++ [m]

/-- The lines that `handle_user_line` answers itself or sends as `LIST`. -/
def commands : List Bytes :=
  [ascii "/quit", ascii "/q", ascii "/help", ascii "/?", ascii "/list"]

/-- The line is a text for the others: chat text, or a private message. -/
inductive IsText (line : Bytes) : Prop
  | chat : line ≠ [] → line ∉ commands → isPrivate line = false → IsText line
  | privateMsg {target msg : Bytes} : PrivateText line target msg → IsText line

/-- The texts with which the client refuses a text. -/
def tooLong : List String := ["Message too long\n", "Message too long (max 2048)\n"]

/-- A private text is refused or sent to its target. -/
theorem handleUserLine_private {env : Env} {sock : Fd} {line target msg : Bytes}
    (text : PrivateText (cstr (line.rdropWhile isNewline)) target msg) (log : Log) :
    handleUserLine env sock line log =
      if target.length + 1 + msg.length > chatMaxBody then
        (.nothing, [.refused "Message too long\n"], log)
      else sendUser env sock .privateMsg (target ++ 0 :: msg) log := by
  have other : cstr (line.rdropWhile isNewline) ∉ commands := by
    intro mem
    have all : ∀ line ∈ commands, isPrivate line = false := by decide
    have command := isPrivate_of_args text.args
    rw [all _ mem] at command
    cases command
  simp only [commands, List.mem_cons, List.not_mem_nil, or_false, not_or] at other
  have filled : ¬ (line.rdropWhile isNewline).length = 0 := by
    intro zero
    have args := text.args
    rw [List.length_eq_zero_iff.mp zero] at args
    cases args
  have checks : (target.length = 0 || msg.length = 0) = false := by
    have named := text.named
    have nonempty := text.nonempty
    simp only [Bool.or_eq_false_iff, decide_eq_false_iff_not]
    omega
  -- behind either command the same arguments are parsed
  have parsed (args : Bytes) (split : splitArgs args = some (target, msg)) :
      userPrivate env sock args log =
        if target.length + 1 + msg.length > chatMaxBody then
          (.nothing, [.refused "Message too long\n"], log)
        else sendUser env sock .privateMsg (target ++ 0 :: msg) log := by
    rw [userPrivate_eq env sock split, checks, if_neg Bool.false_ne_true,
      if_neg (not_lt.mpr text.short)]
  unfold handleUserLine
  simp only [if_neg filled, other, decide_false, Bool.or_self, Bool.false_eq_true, if_false]
  have args := text.args
  unfold privateArgs at args
  split
  · rename_i command
    rw [if_pos command] at args
    exact parsed _ args
  · rename_i notW
    rw [if_neg notW] at args
    split
    · rename_i command
      rw [if_pos command] at args
      exact parsed _ args
    · rename_i notMsg
      rw [if_neg notMsg] at args
      cases args

section Typed

variable {typed : Bytes} (plain : PlainLine typed)
include plain

theorem PlainLine.kept : (keptLine typed).rdropWhile isNewline = keptLine typed ∧
    cstr (keptLine typed) = keptLine typed := by
  constructor
  · refine List.rdropWhile_eq_self_iff.mpr fun nonempty newline => ?_
    have mem := List.mem_of_mem_take (List.getLast_mem nonempty)
    unfold isNewline at newline
    rw [Bool.or_eq_true, decide_eq_true_eq, decide_eq_true_eq] at newline
    rcases newline with lf | cr
    · exact plain.noLf (lf ▸ mem)
    · exact plain.noCr (cr ▸ mem)
  · exact cstr_eq_self fun mem => plain.noNul (List.mem_of_mem_take mem)

variable {env : Env} {sock : Fd} {u : UserSys} (ready : u.Ready)
include ready

variable (env sock) in
/-- A typed line adds to the messages what `handle_user_line` adds. -/
theorem messagesTo_typed :
    messagesTo sock (typeBytes env sock u (typed ++ [10])).log =
      messagesTo sock (handleUserLine env sock (keptLine typed) u.log).2.2 ∧
    (typeBytes env sock u (typed ++ [10])).out =
      u.out ++ (handleUserLine env sock (keptLine typed) u.log).2.1 := by
  obtain ⟨-, -, -, out⟩ := typeBytes_newline env sock ready.running ready.start plain.noLf
  exact ⟨messagesTo_newline env sock ready.running ready.start plain.noLf, out⟩

variable (ok : env.Delivers sock)
include ok

omit plain ready in
theorem sendUser_of_delivers (type : MsgType) (body : Bytes) (log : Log) :
    (sendUser env sock type body log).2.1 = [] ∧
      messagesTo sock (sendUser env sock type body log).2.2 =
        messagesTo sock log ++ [⟨type, body⟩] := by
  constructor
  · unfold sendUser
    simp only [sendFrame_ok ok, Bool.not_true, Bool.false_eq_true, if_false]
  · rw [sendUser_log]
    exact messagesTo_sendFrame ok type body log

/-- What a line is sent as is one of the three cases of `handle_user_line`. -/
theorem SentAs.line {m : Message} (sent : SentAs env sock u typed m) :
    LineSends (keptLine typed) m := by
  have same := (messagesTo_typed plain env sock ready).1
  unfold SentAs at sent
  rw [same] at sent
  have lineCase := handleUserLine_case env sock (keptLine typed) u.log
  rw [plain.kept.1] at lineCase
  generalize handleUserLine env sock (keptLine typed) u.log = r at lineCase sent
  cases lineCase with
  | silent result out =>
      have len : (messagesTo sock u.log).length = _ := congrArg List.length sent
      rw [List.length_append, List.length_singleton] at len
      omega
  | @sends type body sends =>
      rw [(sendUser_of_delivers ok type body u.log).2] at sent
      have eq : [(⟨type, body⟩ : Message)] = [m] := List.append_cancel_left sent
      rwa [← List.singleton_inj.mp eq]

omit ready ok in
variable (env sock) in
/-- Chat text is refused or broadcast. -/
theorem handleUserLine_chat (nonempty : keptLine typed ≠ []) (other : keptLine typed ∉ commands)
    (chat : isPrivate (keptLine typed) = false) (log : Log) :
    handleUserLine env sock (keptLine typed) log =
      if (keptLine typed).length > chatMaxBody then
        (.nothing, [.refused "Message too long (max 2048)\n"], log)
      else sendUser env sock .broadcast (keptLine typed) log := by
  simp only [commands, List.mem_cons, List.not_mem_nil, or_false, not_or] at other
  unfold isPrivate at chat
  rw [Bool.or_eq_false_iff] at chat
  have filled : ¬ (keptLine typed).length = 0 := fun zero =>
    nonempty (List.length_eq_zero_iff.mp zero)
  unfold handleUserLine
  simp only [plain.kept.1, plain.kept.2, if_neg filled, other, decide_false, Bool.or_self,
    Bool.false_eq_true, if_false, chat]

/-- **A text is refused or sent.** -/
theorem refused_or_sent (text : IsText (keptLine typed)) :
    (∃ t ∈ tooLong, (typeBytes env sock u (typed ++ [10])).out = u.out ++ [.refused t] ∧
      messagesTo sock (typeBytes env sock u (typed ++ [10])).log = messagesTo sock u.log) ∨
    ∃ m, SentAs env sock u typed m ∧ (m.type = .broadcast ∨ m.type = .privateMsg) := by
  obtain ⟨log, out⟩ := messagesTo_typed plain env sock ready
  unfold SentAs
  rw [log, out]
  cases text with
  | chat nonempty other chat =>
      rw [handleUserLine_chat plain env sock nonempty other chat]
      split
      · exact Or.inl ⟨_, by simp [tooLong], rfl, rfl⟩
      · exact Or.inr ⟨_, (sendUser_of_delivers ok _ _ _).2, Or.inl rfl⟩
  | @privateMsg target msg text =>
      have kept : PrivateText (cstr ((keptLine typed).rdropWhile isNewline)) target msg := by
        rw [plain.kept.1, plain.kept.2]
        exact text
      rw [handleUserLine_private kept]
      split
      · exact Or.inl ⟨_, by simp [tooLong], rfl, rfl⟩
      · exact Or.inr ⟨_, (sendUser_of_delivers ok _ _ _).2, Or.inr rfl⟩

end Typed

/-! ## Everyone a text is for -/

/-- The prefix of a broadcast. -/
def chatPrefix (nick : Bytes) : Bytes := nick ++ ascii ": "

/-- The prefix of a private message. -/
def pmPrefix (nick target : Bytes) : Bytes :=
  ascii "(pm " ++ nick ++ ascii " -> " ++ target ++ ascii ") "

/-- Everyone the line of the client in slot `c` is for is sent prefix and text, as
`cut` leaves them: every joined client, or the target and the sender. -/
def Reaches (cut : Bytes → Bytes) (s s' : Sys) (c : Slot) (line : Bytes) : Prop :=
  if isPrivate line then
    ∀ target msg, privateArgs line = some (target, msg) →
      ∀ dest, (s.srv.clients dest).joined = true → (s.srv.clients dest).nick.bytes = target →
        ∀ i, i = dest ∨ i = c → Receives s s' i
          ⟨.privateMsg, cut (pmPrefix (s.srv.clients c).nick.bytes target ++ msg)⟩
  else
    ∀ i, (s.srv.clients i).joined = true → Receives s s' i
      ⟨.broadcast, cut (chatPrefix (s.srv.clients c).nick.bytes ++ line)⟩

/-- Prefix and text fit a body, and for a private line with a recipient the line
fits `linebuf`. -/
def FitsWhole (s : Sys) (c : Slot) (typed : Bytes) : Prop :=
  if isPrivate typed then
    ∀ target msg, privateArgs typed = some (target, msg) →
      ∀ dest, (s.srv.clients dest).joined = true → (s.srv.clients dest).nick.bytes = target →
        typed.length < lineCap ∧
          (s.srv.clients c).nick.bytes.length + target.length + 10 + msg.length ≤ chatMaxBody
  else (s.srv.clients c).nick.bytes.length + 2 + typed.length ≤ chatMaxBody

theorem length_pmPrefix (nick target : Bytes) :
    (pmPrefix nick target).length = nick.length + target.length + 10 := by
  simp only [pmPrefix, List.length_append]
  have parts : (ascii "(pm ").length = 4 ∧ (ascii " -> ").length = 4 ∧ (ascii ") ").length = 2 := by
    decide
  omega

theorem length_chatPrefix (nick : Bytes) : (chatPrefix nick).length = nick.length + 2 := by
  rw [chatPrefix, List.length_append]
  rfl

/-- The array of `handle_broadcast` has room for the whole line. -/
theorem broadcastLine_eq (nick : CStr chatMaxNick) {body : Bytes} (noNul : (0 : UInt8) ∉ body)
    (fits : body.length ≤ chatMaxBody) :
    broadcastLine nick.bytes body = chatPrefix nick.bytes ++ body := by
  have short := nick.fits
  unfold broadcastLine snprintf
  rw [cstr_eq_self noNul]
  refine List.take_of_length_le ?_
  have len := length_chatPrefix nick.bytes
  unfold chatPrefix at len
  rw [List.length_append, len]
  omega

/-- The array of `handle_private` has room for the whole line. -/
theorem privateLine_eq (nick : CStr chatMaxNick) {target msg : Bytes}
    (noNul : (0 : UInt8) ∉ msg) (fits : target.length + 1 + msg.length ≤ chatMaxBody) :
    privateLine nick.bytes target msg = pmPrefix nick.bytes target ++ msg := by
  have short := nick.fits
  unfold privateLine snprintf
  rw [cstr_eq_self noNul]
  refine List.take_of_length_le ?_
  have len := length_pmPrefix nick.bytes target
  unfold pmPrefix at len
  rw [List.length_append, len]
  unfold chatMaxNick at short ⊢
  omega

/-- Cutting `a` to `n` bytes yields `a` and the lost text `b` only where nothing was
lost. -/
theorem take_eq_append_iff {a b : Bytes} {n : Nat} :
    a.take n = a ++ b ↔ b = [] ∧ a.length ≤ n := by
  constructor
  · intro eq
    have len := congrArg List.length eq
    rw [List.length_take, List.length_append] at len
    exact ⟨List.length_eq_zero_iff.mp (by omega), by omega⟩
  · rintro ⟨rfl, fits⟩
    rw [List.append_nil, List.take_of_length_le fits]

theorem receives_inj {s s' : Sys} {i : Slot} {m m' : Message} (h : Receives s s' i m)
    (h' : Receives s s' i m') : m = m' :=
  List.singleton_inj.mp (List.append_cancel_left (h.symm.trans h'))

section Sent

variable {env : Env} {s : Sys} {c : Slot} {need : Nat} {typed : Bytes} (plain : PlainLine typed)
  (inv : Inv s) (joined : (s.srv.clients c).joined = true)
  (ok : ∀ i, (s.srv.clients i).joined = true → env.Delivers (s.srv.clients i).fd)
include plain inv joined ok

/-- The limits on chat text. -/
theorem chat_reaches (chat : isPrivate (keptLine typed) = false)
    (fits : (keptLine typed).length ≤ chatMaxBody)
    (scan : scanFrame (s.srv.clients c).inbuf.bytes =
      .frame (Message.frame ⟨.broadcast, keptLine typed⟩) need) :
    Reaches (·.take chatMaxBody) s (act env s (.frame c)) c (keptLine typed) ∧
      (Reaches id s (act env s (.frame c)) c typed ↔ FitsWhole s c typed) := by
  have whole : keptLine typed = typed := by
    refine List.take_of_length_le ?_
    have len := fits
    unfold keptLine at len
    rw [List.length_take] at len
    unfold lineCap chatMaxBody at *
    omega
  rw [whole] at chat scan fits ⊢
  have line := broadcastLine_eq (s.srv.clients c).nick plain.noNul fits
  have received (i : Slot) (there : (s.srv.clients i).joined = true) :=
    broadcast_receives inv joined there (ok i there) scan
  rw [line] at received
  unfold Reaches FitsWhole
  simp only [chat, Bool.false_eq_true, if_false]
  refine ⟨received, fun all => ?_, fun short i there => ?_⟩
  · have same := congrArg Message.body (receives_inj (received c joined) (all c joined))
    have short := (take_eq_append_iff.mp (same.trans (List.append_nil _).symm)).2
    rwa [List.length_append, length_chatPrefix] at short
  · have uncut := received i there
    rwa [List.take_of_length_le (by rwa [List.length_append, length_chatPrefix])] at uncut

/-- The limits on a private text. -/
theorem private_reaches {target msg : Bytes} (text : PrivateText (keptLine typed) target msg)
    (fits : target.length + 1 + msg.length ≤ chatMaxBody)
    (scan : scanFrame (s.srv.clients c).inbuf.bytes =
      .frame (Message.frame ⟨.privateMsg, target ++ 0 :: msg⟩) need) :
    Reaches (·.take chatMaxBody) s (act env s (.frame c)) c (keptLine typed) ∧
      (Reaches id s (act env s (.frame c)) c typed ↔ FitsWhole s c typed) := by
  have lost : typed = keptLine typed ++ typed.drop (lineCap - 1) :=
    (List.take_append_drop _ _).symm
  have args : privateArgs typed = some (target, msg ++ typed.drop (lineCap - 1)) := by
    have more := privateArgs_append text.args (typed.drop (lineCap - 1))
    rwa [← lost] at more
  have noNul : (0 : UInt8) ∉ msg := fun mem =>
    plain.noNul (List.mem_of_mem_take (mem_of_privateArgs text.args mem))
  have line := privateLine_eq (s.srv.clients c).nick noNul fits
  have received (dest : Slot) (there : (s.srv.clients dest).joined = true)
      (named : (s.srv.clients dest).nick.bytes = target) (i : Slot) (who : i = dest ∨ i = c) :=
    privateMsg_receives inv joined there (ok dest there) (ok c joined) scan
      (checkPrivate_eq inv there named text.named text.short text.nonempty) who
  rw [line] at received
  unfold Reaches FitsWhole
  simp only [isPrivate_of_args text.args, isPrivate_of_args args, if_true, text.args, args,
    Option.some.injEq, Prod.mk.injEq, and_imp]
  refine ⟨?_, fun all => ?_, fun short => ?_⟩
  · rintro _ _ rfl rfl
    exact received
  · rintro _ _ rfl rfl dest there named
    have same := congrArg Message.body (receives_inj (received dest there named dest (Or.inl rfl))
      (all _ _ rfl rfl dest there named dest (Or.inl rfl)))
    rw [id, ← List.append_assoc] at same
    obtain ⟨nothing, short⟩ := take_eq_append_iff.mp same
    rw [List.length_append, length_pmPrefix] at short
    have len := List.drop_eq_nil_iff.mp nothing
    refine ⟨by unfold lineCap at len ⊢; omega, ?_⟩
    rw [List.length_append, nothing]
    exact short
  · rintro _ _ rfl rfl dest there named i who
    obtain ⟨kept, short⟩ := short _ _ rfl rfl dest there named
    have nothing : typed.drop (lineCap - 1) = [] := List.drop_eq_nil_iff.mpr (by omega)
    rw [nothing, List.append_nil] at short ⊢
    have uncut := received dest there named i who
    rwa [List.take_of_length_le (by rwa [List.length_append, length_pmPrefix])] at uncut

end Sent

/-- **How a typed text reaches the others.** A text is refused as too long or sent.
If it is sent, everyone it is for is sent the server's prefix and the text as
`linebuf` kept it, cut to 2048 bytes together; and that is the whole text as typed
exactly when prefix and text fit, and the line of a private text fits `linebuf`. -/
theorem texts_reach (userEnv : Env) (sock : Fd) (u : UserSys) (ready : u.Ready)
    (userOk : userEnv.Delivers sock) (typed : Bytes) (plain : PlainLine typed) :
    (IsText (keptLine typed) →
      (∃ t ∈ tooLong, (typeBytes userEnv sock u (typed ++ [10])).out = u.out ++ [.refused t] ∧
        messagesTo sock (typeBytes userEnv sock u (typed ++ [10])).log =
          messagesTo sock u.log) ∨
      ∃ m, SentAs userEnv sock u typed m ∧ (m.type = .broadcast ∨ m.type = .privateMsg)) ∧
    ∀ m, SentAs userEnv sock u typed m → (m.type = .broadcast ∨ m.type = .privateMsg) →
      ∀ env s c need, Reachable env s → (s.srv.clients c).joined = true →
        (∀ i, (s.srv.clients i).joined = true → env.Delivers (s.srv.clients i).fd) →
        scanFrame (s.srv.clients c).inbuf.bytes = .frame m.frame need →
        Reaches (·.take chatMaxBody) s (act env s (.frame c)) c (keptLine typed) ∧
          (Reaches id s (act env s (.frame c)) c typed ↔ FitsWhole s c typed) := by
  refine ⟨refused_or_sent plain ready userOk, ?_⟩
  intro m sent chat env s c need reach joined ok scan
  cases sent.line plain ready userOk with
  | list _ => rcases chat with type | type <;> cases type
  | broadcast notPrivate fits =>
      rw [plain.kept.2] at notPrivate
      exact chat_reaches plain reach.inv joined ok notPrivate fits scan
  | privateMsg text fits =>
      rw [plain.kept.2] at text
      exact private_reaches plain reach.inv joined ok text fits scan

/-- Ann, who has joined, has sent the message. -/
def annSent (m : Message) : Sys :=
  recvInto 0 m.frame.encode ((arrival 0 4 "ann").foldl (act .smooth) .init)

theorem annSent_reachable (m : Message) : Reachable .smooth (annSent m) := by
  refine ⟨arrival 0 4 "ann" ++ [.recv 0 m.frame.encode], ?_⟩
  have joins : Run .smooth Sys.init (arrival 0 4 "ann")
      ((arrival 0 4 "ann").foldl (act .smooth) .init) := .of_enabled (by decide +kernel)
  have used : (((arrival 0 4 "ann").foldl (act .smooth) .init).srv.clients 0).used = true := by
    decide +kernel
  exact joins.append (.one used)

theorem annSent_self (m : Message) : (annSent m).srv.clients 0 =
    (((arrival 0 4 "ann").foldl (act .smooth) .init).srv.clients 0).setInbuf
      ((((arrival 0 4 "ann").foldl (act .smooth) .init).srv.clients 0).inbuf.recv
        m.frame.encode) := Sys.clients_setClient_self _ _ _

theorem annSent_scan {m : Message} (fits : m.body.length ≤ chatMaxBody) :
    scanFrame ((annSent m).srv.clients 0).inbuf.bytes = .frame m.frame m.frame.encode.length := by
  have empty : (((arrival 0 4 "ann").foldl (act .smooth) .init).srv.clients 0).inbuf = .empty := by
    decide +kernel
  have len : m.frame.encode.length = chatHeaderSize + m.body.length := by
    rw [Frame.encode, List.length_append, length_chatHeaderToWire]
    rfl
  rw [annSent_self, Client.inbuf_setInbuf, empty, Buf.bytes_recv_of_le]
  · have scan := chatCodec.scan_encode (f := m.frame) [] fits
    rwa [List.append_nil] at scan
  · rw [len]
    exact Nat.add_le_add_left fits _

/-- A short text arrives whole. -/
theorem texts_reach_short :
    Reaches id (annSent ⟨.broadcast, ascii "hi"⟩)
      (act .smooth (annSent ⟨.broadcast, ascii "hi"⟩) (.frame 0)) 0 (ascii "hi") := by
  have plain : PlainLine (ascii "hi") := ⟨by decide, by decide, by decide⟩
  have sent : SentAs .smooth 3 ⟨.empty, [], [], false⟩ (ascii "hi") ⟨.broadcast, ascii "hi"⟩ := by
    unfold SentAs
    decide +kernel
  refine ((texts_reach .smooth 3 ⟨.empty, [], [], false⟩ ⟨rfl, rfl⟩ (Env.smooth_delivers 3)
    (ascii "hi") plain).2 ⟨.broadcast, ascii "hi"⟩ sent (Or.inl rfl) .smooth
    (annSent ⟨.broadcast, ascii "hi"⟩) 0 _ (annSent_reachable _) (by decide +kernel)
    (fun _ _ => Env.smooth_delivers _) (annSent_scan (by decide))).2.mpr ?_
  rw [FitsWhole, if_neg (by decide)]
  decide +kernel

/-- The longest text the client sends does not arrive whole: Ann types 2048 bytes
of chat text, and the server cuts off the last five. -/
theorem texts_reach_cut :
    let typed : Bytes := List.replicate 2048 97
    let m : Message := ⟨.broadcast, typed⟩
    SentAs .smooth 3 ⟨.empty, [], [], false⟩ typed m ∧ Reachable .smooth (annSent m) ∧
      ((annSent m).srv.clients 0).joined = true ∧
      scanFrame ((annSent m).srv.clients 0).inbuf.bytes = .frame m.frame m.frame.encode.length ∧
      ¬ Reaches id (annSent m) (act .smooth (annSent m) (.frame 0)) 0 typed := by
  intro typed m
  have only (x : UInt8) (mem : x ∈ typed) : x = 97 := List.eq_of_mem_replicate mem
  have plain : PlainLine typed :=
    ⟨fun mem => absurd (only 0 mem) (by decide), fun mem => absurd (only 13 mem) (by decide),
      fun mem => absurd (only 10 mem) (by decide)⟩
  have len : typed.length = 2048 := List.length_replicate
  have kept : keptLine typed = typed := List.take_of_length_le (by rw [len]; decide)
  have chat : isPrivate typed = false := by decide +kernel
  have fits : m.body.length ≤ chatMaxBody := Nat.le_of_eq len
  have scan := annSent_scan fits
  have joined : ((annSent m).srv.clients 0).joined = true := by decide +kernel
  refine ⟨?_, annSent_reachable m, joined, scan, fun whole => ?_⟩
  · have ready : UserSys.Ready ⟨.empty, [], [], false⟩ := ⟨rfl, rfl⟩
    have handled := handleUserLine_chat plain .smooth 3
      (by rw [kept]; decide +kernel) (by rw [kept]; decide +kernel) (by rw [kept]; exact chat) []
    rw [if_neg (by rw [kept]; exact not_lt.mpr fits)] at handled
    unfold SentAs
    rw [(messagesTo_typed plain _ _ ready).1, handled, kept]
    exact (sendUser_of_delivers (Env.smooth_delivers 3) .broadcast typed []).2
  · unfold Reaches at whole
    rw [chat, if_neg Bool.false_ne_true] at whole
    have sent := broadcast_receives (annSent_reachable m).inv joined joined
      (Env.smooth_delivers _) scan
    have same := congrArg List.length (congrArg Message.body
      (receives_inj sent (whole 0 joined)))
    have nick : ((annSent m).srv.clients 0).nick.bytes.length = 3 := by decide +kernel
    have prefixed := length_chatPrefix ((annSent m).srv.clients 0).nick.bytes
    have short : chatMaxBody = 2048 := rfl
    rw [List.length_take, id, List.length_append, prefixed, nick, len, short] at same
    omega

end Osisp.Chat
