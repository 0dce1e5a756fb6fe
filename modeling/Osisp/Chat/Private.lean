import Osisp.Chat.Isolation
import Osisp.Chat.Whole

/-!
# Private messages from the keyboard to the target

`handle_user_line` splits a `/w` or `/msg` line at a space and joins the parts with
a NUL; `handle_private` splits at the NUL. What the one sends the other reads as it
was meant (`private_decodes`). But the client can only name a nick without spaces,
and the server also admits others: a line reaches the client it is typed for exactly
if the nick of that client can be named (`whisper_iff`).
-/

namespace Osisp.Chat

open Lib

/-! ## What the server reads -/

/-- `handle_private` takes the target and the text from the body, and refuses it at
most because nobody has the name. -/
structure DecodesTo (body target msg : Bytes) : Prop where
  front : cstr body = target
  rest : body.drop (target.length + 1) = msg
  check : ∀ t, checkPrivate t body = match findByNick t target with
    | none => .error "User not found"
    | some dest => .ok (dest, target, msg)

section Parse

variable {text target msg : Bytes}

/-- What the client parses is part of the line. -/
theorem target_subset (split : privateArgs text = some (target, msg)) : target ⊆ text := by
  have inArgs {args : Bytes} (parts : splitArgs args = some (target, msg)) : target ⊆ args := by
    unfold splitArgs at parts
    dsimp only at parts
    split at parts
    · cases parts
    · cases parts
      exact fun _ mem => (List.dropWhile_suffix _).subset ((List.takeWhile_prefix _).subset mem)
  unfold privateArgs at split
  split at split
  · exact fun _ mem => List.mem_of_mem_drop (inArgs split mem)
  · split at split
    · exact fun _ mem => List.mem_of_mem_drop (inArgs split mem)
    · cases split

/-- What passes the client's checks passes the server's. -/
theorem PrivateText.decodes (h : PrivateText text target msg) (noNul : (0 : UInt8) ∉ text) :
    DecodesTo (target ++ 0 :: msg) target msg := by
  have plain : (0 : UInt8) ∉ target := fun mem => noNul (target_subset h.args mem)
  refine ⟨cstr_append_nul plain msg, ?_,
    fun t => checkPrivate_nul t plain h.named h.short h.nonempty⟩
  rw [List.drop_length_add_append, List.drop_succ_cons, List.drop_zero]

/-- Arguments that begin with a name are split behind it. -/
theorem splitArgs_named {nick : Bytes} (named : nick ≠ []) (noSpace : (32 : UInt8) ∉ nick)
    (noTab : nick.head? ≠ some 9) : splitArgs (nick ++ 32 :: text) = some (nick, text) := by
  have kept : (nick ++ 32 :: text).dropWhile isBlank = nick ++ 32 :: text := by
    cases nick with
    | nil => exact absurd rfl named
    | cons x xs =>
        refine List.dropWhile_cons_of_neg ?_
        simp only [isBlank, Bool.or_eq_true, decide_eq_true_eq, not_or]
        refine ⟨fun space => noSpace (space ▸ List.mem_cons_self), fun tab => noTab ?_⟩
        rw [tab]
        rfl
  have spaced : (32 : UInt8) ∈ nick ++ 32 :: text := List.mem_append_right _ List.mem_cons_self
  unfold splitArgs
  dsimp only
  rw [kept, if_neg (not_not.mpr spaced), takeWhile_ne_append noSpace,
    List.drop_length_add_append, List.drop_succ_cons, List.drop_zero]

/-- Only arguments that begin with a name are split behind it: nothing in front of the
name is skipped, and there is no space in it. -/
theorem named_of_splitArgs {nick : Bytes}
    (split : splitArgs (nick ++ 32 :: text) = some (target, msg))
    (same : target ++ ascii ") " ++ msg = nick ++ ascii ") " ++ text) :
    nick ≠ [] ∧ (32 : UInt8) ∉ nick ∧ nick.head? ≠ some 9 := by
  unfold splitArgs at split
  dsimp only at split
  split at split
  · cases split
  · rename_i spaced
    have parts := split_at_first (not_not.mp spaced)
    -- the parts together are as long as the arguments, so nothing was skipped
    have whole : (nick ++ 32 :: text).dropWhile isBlank = nick ++ 32 :: text := by
      refine (List.dropWhile_suffix _).eq_of_length ?_
      have lengths := congrArg List.length parts
      have lengths' := congrArg List.length same
      cases split
      simp only [List.length_append, List.length_cons] at lengths lengths' ⊢
      omega
    have first : ∀ x rest, nick ++ 32 :: text = x :: rest → isBlank x = false := by
      intro x rest eq
      refine Bool.eq_false_of_not_eq_true fun blank => ?_
      rw [eq, List.dropWhile_cons_of_pos blank] at whole
      have shorter := (List.dropWhile_suffix isBlank (l := rest)).length_le
      rw [whole, List.length_cons] at shorter
      omega
    rw [whole] at split
    refine ⟨?_, fun mem => ?_, ?_⟩
    · rintro rfl
      exact absurd (first 32 text rfl) (by decide)
    · obtain ⟨front, rest, rfl, noSpace⟩ := List.eq_append_cons_of_mem mem
      rw [List.append_assoc, List.cons_append, takeWhile_ne_append noSpace] at split
      cases split
      simp only [List.append_assoc, List.cons_append] at same
      have clash := List.append_cancel_left same
      exact absurd (List.cons.inj clash).1 (by decide)
    · intro tab
      obtain ⟨rest, eq⟩ := List.head?_eq_some_iff.mp tab
      rw [eq] at first
      exact absurd (first 9 _ rfl) (by decide)

end Parse

/-- The two commands. -/
def privateCommands : List Bytes := [ascii "/w ", ascii "/msg "]

theorem privateArgs_command {command : Bytes} (mem : command ∈ privateCommands) (args : Bytes) :
    privateArgs (command ++ args) = splitArgs args := by
  simp only [privateCommands, List.mem_cons, List.not_mem_nil, or_false] at mem
  rcases mem with rfl | rfl
  · rfl
  · rfl

/-! ## What a line is sent as -/

/-- A line reports at most the frame it is sent as. -/
theorem LineCase.reports {env : Env} {sock : Fd} {kept : Bytes} {log : Log}
    {r : UserResult × List UserOutput × Log} (h : LineCase env sock kept log r) :
    Sends env (fun _ m => LineSends kept m) log r.2.2 := by
  cases h with
  | silent _ _ => exact .refl log
  | @sends type body sends =>
      have sent : Sends env (fun _ m => LineSends kept m) log
          (sendFrame env sock type body log).2 := Sends.one sends log
      unfold sendUser
      dsimp only
      split
      · exact sent
      · exact sent

/-- A name and a text as the client accepts them. -/
structure Sendable (nick text : Bytes) : Prop where
  named : nick ≠ []
  short : nick.length ≤ chatMaxNick
  plain : ∀ x ∈ nick, x ∉ ([32, 9, 13, 10, 0] : Bytes)
  nonempty : text ≠ []
  noNul : (0 : UInt8) ∉ text
  noLf : (10 : UInt8) ∉ text
  ended : text.getLast? ≠ some 13
  fits : nick.length + 1 + text.length ≤ chatMaxBody

/-- A line of this shape is handled as it stands. -/
theorem kept_command {command nick text : Bytes} (mem : command ∈ privateCommands)
    (nickNul : (0 : UInt8) ∉ nick) (nonempty : text ≠ []) (textNul : (0 : UInt8) ∉ text)
    (ended : ∀ x ∈ text.getLast?, isNewline x = false) :
    cstr ((command ++ (nick ++ 32 :: text)).rdropWhile isNewline) =
      command ++ (nick ++ 32 :: text) := by
  have trimmed : (command ++ (nick ++ 32 :: text)).rdropWhile isNewline =
      command ++ (nick ++ 32 :: text) := by
    refine List.rdropWhile_eq_self_iff.mpr fun filled newline => ?_
    have last : (command ++ (nick ++ 32 :: text)).getLast filled = text.getLast nonempty := by
      rw [List.getLast_append_of_ne_nil _ (by simp), List.getLast_append_of_ne_nil _ (by simp),
        List.getLast_cons nonempty]
    rw [last, ended _ (List.getLast?_eq_some_getLast nonempty)] at newline
    cases newline
  have plain : (0 : UInt8) ∉ command ++ (nick ++ 32 :: text) := by
    have all : ∀ c ∈ privateCommands, (0 : UInt8) ∉ c := by decide
    simp only [List.mem_append, List.mem_cons, not_or]
    exact ⟨all command mem, nickNul, by decide, textNul⟩
  rw [trimmed, cstr_eq_self plain]

/-- A name and a text behind a command are parsed as they stand. -/
theorem privateText_command {command nick text : Bytes} (mem : command ∈ privateCommands)
    (named : nick ≠ []) (noSpace : (32 : UInt8) ∉ nick) (noTab : nick.head? ≠ some 9)
    (short : nick.length ≤ chatMaxNick) (nickNul : (0 : UInt8) ∉ nick) (nonempty : text ≠ [])
    (textNul : (0 : UInt8) ∉ text) (ended : ∀ x ∈ text.getLast?, isNewline x = false) :
    PrivateText (cstr ((command ++ (nick ++ 32 :: text)).rdropWhile isNewline)) nick text := by
  rw [kept_command mem nickNul nonempty textNul ended]
  exact ⟨(privateArgs_command mem _).trans (splitArgs_named named noSpace noTab),
    List.length_pos_iff.mpr named, short, List.length_pos_iff.mpr nonempty⟩

/-- **What the client sends the server reads.** A `PRIVATE` frame that a line is sent
as fits a body and decodes to the target and the text of the line; and every proper
name and text, behind either command, is sent as such a frame, and as nothing else where
the writes get through. -/
theorem private_decodes (env : Env) (sock : Fd) :
    (∀ line log added body ok, (handleUserLine env sock line log).2.2 = log ++ added →
      .sent sock .privateMsg body ok ∈ added →
      body.length ≤ chatMaxBody ∧ ∃ target msg,
        privateArgs (cstr (line.rdropWhile isNewline)) = some (target, msg) ∧
        body = target ++ 0 :: msg ∧ DecodesTo body target msg) ∧
    ∀ nick text, Sendable nick text → ∀ command ∈ privateCommands,
      (command ++ (nick ++ 32 :: text)).length < lineCap ∧
      (∀ log, handleUserLine env sock (command ++ (nick ++ 32 :: text)) log =
        sendUser env sock .privateMsg (nick ++ 0 :: text) log) ∧
      (env.Delivers sock → ∀ log,
        messagesTo sock (handleUserLine env sock (command ++ (nick ++ 32 :: text)) log).2.2 =
          messagesTo sock log ++ [⟨.privateMsg, nick ++ 0 :: text⟩]) ∧
      DecodesTo (nick ++ 0 :: text) nick text := by
  refine ⟨fun line log added body ok eq mem => ?_, fun nick text sendable command known => ?_⟩
  · obtain ⟨added', eq', all⟩ := (handleUserLine_case env sock line log).reports.reports
    obtain rfl : added' = added := List.append_cancel_left (eq'.symm.trans eq)
    have sends : LineSends (line.rdropWhile isNewline) ⟨.privateMsg, body⟩ := all _ mem
    cases sends with
    | @privateMsg target msg text fits =>
        refine ⟨?_, target, msg, text.args, rfl, text.decodes (zero_not_mem_cstr _)⟩
        rw [List.length_append, List.length_cons]
        omega
  · have nickNul : (0 : UInt8) ∉ nick := fun mem => sendable.plain 0 mem (by decide)
    have noTab : nick.head? ≠ some 9 :=
      fun tab => sendable.plain 9 (List.mem_of_mem_head? tab) (by decide)
    have ended : ∀ x ∈ text.getLast?, isNewline x = false := by
      intro x last
      simp only [isNewline, Bool.or_eq_false_iff, decide_eq_false_iff_not]
      refine ⟨fun lf => sendable.noLf (lf ▸ List.mem_of_getLast? last), fun cr => ?_⟩
      exact sendable.ended (cr ▸ last)
    have parsed := privateText_command known sendable.named
      (fun mem => sendable.plain 32 mem (by decide)) noTab sendable.short nickNul
      sendable.nonempty sendable.noNul ended
    have fits := sendable.fits
    have sent (log : Log) : handleUserLine env sock (command ++ (nick ++ 32 :: text)) log =
        sendUser env sock .privateMsg (nick ++ 0 :: text) log := by
      rw [handleUserLine_private parsed, if_neg (not_lt.mpr fits)]
    refine ⟨?_, sent, fun ok log => ?_, parsed.decodes (zero_not_mem_cstr _)⟩
    · have all : ∀ c ∈ privateCommands, c.length ≤ 5 := by decide
      have len := all command known
      rw [List.length_append, List.length_append, List.length_cons]
      unfold chatMaxBody at fits
      unfold lineCap
      omega
    · rw [sent, (sendUser_of_delivers ok _ _ log).2]

/-- "hi" for Bob. -/
theorem private_decodes_bob :
    DecodesTo (ascii "bob\x00hi") (ascii "bob") (ascii "hi") ∧
      messagesTo 3 (handleUserLine .smooth 3 (ascii "/w bob hi") []).2.2 =
        [⟨.privateMsg, ascii "bob\x00hi"⟩] ∧
      ∃ target msg, privateArgs (ascii "/w bob hi") = some (target, msg) ∧
        ascii "bob\x00hi" = target ++ 0 :: msg := by
  have sendable : Sendable (ascii "bob") (ascii "hi") :=
    ⟨by decide, by decide, by simp [ascii], by decide, by decide, by decide, by decide, by decide⟩
  have second := (private_decodes .smooth 3).2 _ _ sendable (ascii "/w ") (by decide)
  obtain ⟨-, target, msg, args, body, -⟩ := (private_decodes .smooth 3).1 (ascii "/w bob hi") []
    (handleUserLine .smooth 3 (ascii "/w bob hi") []).2.2 (ascii "bob\x00hi") true rfl
    (by decide +kernel)
  exact ⟨second.2.2.2, second.2.2.1 (Env.smooth_delivers 3) [], target, msg, args, body⟩

/-! ## Whom a line reaches -/

/-- The messages that typing `typed` makes the client send. -/
def typedMessages (env : Env) (sock : Fd) (u : UserSys) (typed : Bytes) : List Message :=
  (messagesTo sock (typeBytes env sock u typed).log).drop (messagesTo sock u.log).length

/-- The server handles messages of the client in slot `c`, one after the other. -/
def handleMessages (env : Env) (c : Slot) (ms : List Message) (s : Sys) : Sys :=
  ms.foldl (fun s m => handleFrame env c m.frame (s.note (.frame c m.frame))) s

/-- The private text `t` of the client in slot `a` goes to the one in slot `b`, and
nothing at all goes to a third. -/
structure Whispered (env : Env) (s s' : Sys) (a b : Slot) (t : Bytes) : Prop where
  told : ∃ added ok, s'.log = s.log ++ added ∧
    .sent (s.srv.clients b).fd .privateMsg
      (pmPrefix (s.srv.clients a).nick.bytes (s.srv.clients b).nick.bytes ++ t) ok ∈ added ∧
    (env.Delivers (s.srv.clients b).fd → ok = true)
  others : ∀ i, (s.srv.clients i).used = true → i ≠ a → i ≠ b →
    onFd (s.srv.clients i).fd s'.log = onFd (s.srv.clients i).fd s.log

/-- A nick that a `/w` line can name. -/
structure Nameable (nick : Bytes) : Prop where
  named : nick ≠ []
  noSpace : (32 : UInt8) ∉ nick
  noNewline : (10 : UInt8) ∉ nick
  noTab : nick.head? ≠ some 9

instance decidableNameable (nick : Bytes) : Decidable (Nameable nick) :=
  decidable_of_iff (nick ≠ [] ∧ (32 : UInt8) ∉ nick ∧ (10 : UInt8) ∉ nick ∧ nick.head? ≠ some 9)
    ⟨fun ⟨named, noSpace, noNewline, noTab⟩ => ⟨named, noSpace, noNewline, noTab⟩,
      fun h => ⟨h.named, h.noSpace, h.noNewline, h.noTab⟩⟩

/-- `/w`, the nick, a space and the text. -/
def whisperLine (nick text : Bytes) : Bytes := ascii "/w " ++ (nick ++ 32 :: text)

/-! ### What the client sends -/

section Client

variable {env : Env} {sock : Fd} {u : UserSys}

/-- What one line, of those that standard input is cut in, is sent as. -/
def FromLine (m : Message) : Prop :=
  ∃ line : Bytes, (10 : UInt8) ∉ line ∧ LineSends (line.rdropWhile isNewline) m

/-- The messages of one line. -/
theorem LineCase.messages {kept : Bytes} {log : Log} {r : UserResult × List UserOutput × Log}
    (h : LineCase env sock kept log r) :
    ∃ ms, messagesTo sock r.2.2 = messagesTo sock log ++ ms ∧ ∀ m ∈ ms, LineSends kept m := by
  cases h with
  | silent _ _ => exact ⟨[], (List.append_nil _).symm, nofun⟩
  | @sends type body sends =>
      have sent := messagesTo_sendFrame_eq env sock type body log
      rw [← sendUser_log] at sent
      refine ⟨_, sent, fun m mem => ?_⟩
      split at mem
      · rw [List.mem_singleton.mp mem]
        exact sends
      · cases mem

variable (env sock) in
/-- Every message comes from a line without newlines. -/
theorem typeBytes_messages (start : (10 : UInt8) ∉ u.line.bytes) (typed : Bytes) :
    ∃ ms, messagesTo sock (typeBytes env sock u typed).log = messagesTo sock u.log ++ ms ∧
      ∀ m ∈ ms, FromLine m := by
  induction typed generalizing u with
  | nil => exact ⟨[], (List.append_nil _).symm, nofun⟩
  | cons c typed ih =>
      have step : typeBytes env sock u (c :: typed) =
          typeBytes env sock (typeByte env sock u c) typed := rfl
      rw [step]
      have first : (10 : UInt8) ∉ (typeByte env sock u c).line.bytes ∧
          ∃ ms, messagesTo sock (typeByte env sock u c).log = messagesTo sock u.log ++ ms ∧
            ∀ m ∈ ms, FromLine m := by
        unfold typeByte
        split
        · exact ⟨start, [], (List.append_nil _).symm, nofun⟩
        · split
          · obtain ⟨ms, sent, all⟩ := (handleUserLine_case env sock u.line.bytes u.log).messages
            have each : ∀ m ∈ ms, FromLine m := fun m mem => ⟨_, start, all m mem⟩
            dsimp only
            split
            · refine ⟨start, ms, ?_, each⟩
              rw [messagesTo_append, sent]
              exact List.append_nil _
            · exact ⟨List.not_mem_nil, ms, sent, each⟩
          · rename_i other
            refine ⟨?_, [], (List.append_nil _).symm, nofun⟩
            rw [bytes_pushChar]
            intro mem
            rcases List.mem_append.mp (List.mem_of_mem_take mem) with old | new
            · exact start old
            · exact other (List.mem_singleton.mp new).symm
      obtain ⟨plain, ms, sent, all⟩ := first
      obtain ⟨ms', sent', all'⟩ := ih plain
      refine ⟨ms ++ ms', by rw [sent', sent, List.append_assoc], fun m mem => ?_⟩
      rcases List.mem_append.mp mem with old | new
      · exact all m old
      · exact all' m new

/-- The client sends what the line is sent as. -/
theorem typedMessages_eq (ready : u.Ready) {typed : Bytes} (noNewline : (10 : UInt8) ∉ typed)
    (fits : typed.length < lineCap) :
    typedMessages env sock u (typed ++ [10]) =
      (messagesTo sock (handleUserLine env sock typed u.log).2.2).drop
        (messagesTo sock u.log).length := by
  rw [typedMessages, messagesTo_newline env sock ready.running ready.start noNewline,
    List.take_of_length_le (Nat.le_sub_one_of_lt fits)]

end Client

/-! ### What the server does with it -/

section Server

variable {env : Env} {s : Sys} {a b : Slot}

/-- A frame of a joined client leaves everybody under their nicks. -/
theorem FrameCase.sameNicks {f : Frame} {s' : Sys} (h : FrameCase env a f s s')
    (joined : (s.srv.clients a).joined = true) (i : Slot) :
    (s'.srv.clients i).joined = (s.srv.clients i).joined ∧
      (s'.srv.clients i).nick = (s.srv.clients i).nick := by
  rcases h.identity with same | ⟨nick, accepted, -⟩
  · exact same i
  · have fresh := accepted.fresh
    rw [joined] at fresh
    cases fresh

/-- If it is private, the message is one of these, as the server passes it on. -/
def PassedOn (nick : Bytes) (ms : List Message) (m : Message) : Prop :=
  m.type = .privateMsg → ∃ body, ⟨.privateMsg, body⟩ ∈ ms ∧
    m.body = (privateLine nick (cstr body) (body.drop ((cstr body).length + 1))).take chatMaxBody

theorem PassedOn.mono {nick : Bytes} {ms ms' : List Message} {m : Message}
    (h : PassedOn nick ms m) (sub : ms ⊆ ms') : PassedOn nick ms' m := by
  intro type
  obtain ⟨body, mem, passed⟩ := h type
  exact ⟨body, sub mem, passed⟩

variable (env) in
theorem handleFrame_reports (joined : (s.srv.clients a).joined = true) (m : Message) :
    Appends (Event.Reports fun _ => PassedOn (s.srv.clients a).nick.bytes [m]) s.log
      (handleFrame env a m.frame s).log := by
  have never {Q : Fd → Message → Prop} {l l' : Log} (sends : Sends env Q l l')
      (other : ∀ fd m, Q fd m → m.type ≠ .privateMsg) :
      Appends (Event.Reports fun _ => PassedOn (s.srv.clients a).nick.bytes [m]) l l' :=
    (sends.mono fun fd m' allowed same => absurd same (other fd m' allowed)).reports
  have frameCase := handleFrame_case env a m.frame s
  generalize handleFrame env a m.frame s = s' at frameCase ⊢
  cases frameCase with
  | quiet sends =>
      refine never sends fun fd m' allowed same => ?_
      have answer := allowed.2
      rw [same] at answer
      cases answer
  | join accepted =>
      have fresh := accepted.fresh
      rw [joined] at fresh
      cases fresh
  | broadcast _ _ =>
      rw [handleBroadcast_of_joined env joined]
      have built : Appends (Event.Reports fun _ => PassedOn (s.srv.clients a).nick.bytes [m])
          s.log (s.log ++ [.line (broadcastLine (s.srv.clients a).nick.bytes m.frame.body)]) :=
        .single trivial
      refine built.trans (never (sendAll_sends _ _ _ _ _ _) fun fd m' allowed same => ?_)
      rw [allowed.1] at same
      cases same
  | @privateMsg dest target msg accepted =>
      have type : m.type = .privateMsg := by
        have codes : m.type.code = MsgType.privateMsg.code := accepted.type
        have known := congrArg MsgType.ofCode codes
        rw [MsgType.ofCode_code, MsgType.ofCode_code] at known
        exact Option.some.inj known
      obtain ⟨rfl, rfl, -⟩ := checkPrivate_ok accepted.check
      refine ((sendPrivate_sends env _ a dest _ s.log).mono fun fd m' allowed _ => ?_).reports
      refine ⟨m.body, List.mem_singleton.mpr ?_, ?_⟩
      · rw [← type]
      · rw [allowed.1]
        rfl

variable (env) in
theorem handleMessages_reports (joined : (s.srv.clients a).joined = true) (ms : List Message) :
    Appends (Event.Reports fun _ => PassedOn (s.srv.clients a).nick.bytes ms) s.log
      (handleMessages env a ms s).log := by
  induction ms generalizing s with
  | nil => exact .refl _
  | cons m ms ih =>
      let s₁ := s.note (.frame a m.frame)
      have noted : Appends (Event.Reports fun _ => PassedOn (s.srv.clients a).nick.bytes (m :: ms))
          s.log s₁.log := .single trivial
      have joined₁ : (s₁.srv.clients a).joined = true := joined
      have first := handleFrame_reports env joined₁ m
      have same := (handleFrame_case env a m.frame s₁).sameNicks joined a
      have rest := ih (s := handleFrame env a m.frame s₁) (same.1.trans joined)
      rw [same.2] at rest
      refine noted.trans ((first.mono fun e => ?_).trans (rest.mono fun e => ?_))
      · exact Event.Reports.mono fun _ _ passed => passed.mono (by simp)
      · exact Event.Reports.mono fun _ _ passed => passed.mono (List.subset_cons_self m ms)

end Server

/-! ### Who can be named -/

section Whisper

variable {userEnv env : Env} {sock : Fd} {u : UserSys} {s : Sys} {a b : Slot} {t : Bytes}

theorem length_whisperLine (nick : CStr chatMaxNick) (short : t.length ≤ 1000) :
    (whisperLine nick.bytes t).length < lineCap := by
  have fits := nick.fits
  have command : (ascii "/w ").length = 3 := rfl
  rw [whisperLine, List.length_append, List.length_append, List.length_cons, command]
  unfold chatMaxNick at fits
  unfold lineCap
  omega

theorem PlainLine.ended (plain : PlainLine t) : ∀ x ∈ t.getLast?, isNewline x = false := by
  intro x last
  have mem := List.mem_of_getLast? last
  simp only [isNewline, Bool.or_eq_false_iff, decide_eq_false_iff_not]
  exact ⟨fun lf => plain.noLf (lf ▸ mem), fun cr => plain.noCr (cr ▸ mem)⟩

theorem plain_whisperLine {nick : Bytes} (noNewline : (10 : UInt8) ∉ nick) (plain : PlainLine t) :
    (10 : UInt8) ∉ whisperLine nick t := by
  simp only [whisperLine, List.mem_append, List.mem_cons, not_or]
  exact ⟨by decide, noNewline, by decide, plain.noLf⟩

/-- A line that names a nick is sent to it. -/
theorem typedMessages_whisper (ready : u.Ready) (plain : PlainLine t) (long : 1 ≤ t.length)
    (short : t.length ≤ 1000) {nick : CStr chatMaxNick} (nameable : Nameable nick.bytes) :
    typedMessages env sock u (whisperLine nick.bytes t ++ [10]) =
      if (sendFrame env sock .privateMsg (nick.bytes ++ 0 :: t) u.log).1 then
        [⟨.privateMsg, nick.bytes ++ 0 :: t⟩] else [] := by
  have command : ascii "/w " ∈ privateCommands := by decide
  have parsed := privateText_command command nameable.named
    nameable.noSpace nameable.noTab nick.fits nick.noNul (List.ne_nil_of_length_pos long)
    plain.noNul plain.ended
  have fits : ¬ nick.bytes.length + 1 + t.length > chatMaxBody := by
    have nickFits := nick.fits
    unfold chatMaxNick at nickFits
    unfold chatMaxBody
    omega
  rw [typedMessages_eq ready (plain_whisperLine nameable.noNewline plain)
    (length_whisperLine nick short), whisperLine, handleUserLine_private parsed, if_neg fits,
    sendUser_log, messagesTo_sendFrame_eq, List.drop_left]

/-- If the text that is passed on is the one that was typed, what the client parsed
is, up to where the name ends. -/
theorem parts_of_passed {kept body nickB : Bytes} {nickA : CStr chatMaxNick}
    (sends : LineSends kept ⟨.privateMsg, body⟩) (shortB : nickB.length ≤ chatMaxNick)
    (short : t.length ≤ 1000) (passed : pmPrefix nickA.bytes nickB ++ t =
      (privateLine nickA.bytes (cstr body) (body.drop ((cstr body).length + 1))).take
        chatMaxBody) :
    ∃ target msg, privateArgs (cstr kept) = some (target, msg) ∧
      target ++ ascii ") " ++ msg = nickB ++ ascii ") " ++ t := by
  cases sends with
  | @privateMsg target msg text fits =>
      refine ⟨target, msg, text.args, ?_⟩
      have decodes := text.decodes (zero_not_mem_cstr kept)
      have noNul : (0 : UInt8) ∉ msg := fun mem =>
        zero_not_mem_cstr kept (mem_of_privateArgs text.args mem)
      rw [decodes.front, decodes.rest, privateLine_eq nickA noNul fits] at passed
      -- the text is too short to be a line that was cut
      have uncut : (pmPrefix nickA.bytes target ++ msg).length ≤ chatMaxBody := by
        have lengths := congrArg List.length passed
        have shortA := nickA.fits
        rw [List.length_take, List.length_append, length_pmPrefix] at lengths
        unfold chatMaxNick at shortA shortB
        unfold chatMaxBody at lengths ⊢
        omega
      rw [List.take_of_length_le uncut] at passed
      simp only [pmPrefix, List.append_assoc] at passed ⊢
      have rest := List.append_cancel_left (List.append_cancel_left
        (List.append_cancel_left passed))
      exact rest.symm

/-- The recipient is told first. -/
theorem sendPrivate_told (env : Env) (table : Table) (c dest : Slot) (out : Bytes) (log : Log) :
    ∃ added ok, sendPrivate env table c dest out log = log ++ added ∧
      .sent (table dest).fd .privateMsg out ok ∈ added ∧
      (env.Delivers (table dest).fd → ok = true) := by
  obtain ⟨writes, -, eq⟩ := sendFrame_log env (table dest).fd .privateMsg out log
  have more : Appends (fun _ => True) (sendFrame env (table dest).fd .privateMsg out log).2
      (sendPrivate env table c dest out log) := by
    unfold sendPrivate
    dsimp only
    split
    · exact .refl _
    · split
      · exact (sendFrame_appends env _ _ _ _).mono fun _ _ => trivial
      · exact .refl _
  obtain ⟨copy, eq', -⟩ := more
  rw [eq, List.append_assoc, List.append_assoc] at eq'
  refine ⟨_, _, eq', ?_, fun delivers => sendFrame_ok delivers .privateMsg out log⟩
  exact List.mem_append_right _ (List.mem_append_left _ (List.mem_singleton.mpr rfl))

/-- A nick that can be named gets a text whose frame is written. -/
theorem whispered_of_nameable (ready : u.Ready) (inv : Inv s)
    (joinedA : (s.srv.clients a).joined = true) (joinedB : (s.srv.clients b).joined = true)
    (plain : PlainLine t) (long : 1 ≤ t.length) (short : t.length ≤ 1000)
    (nameable : Nameable (s.srv.clients b).nick.bytes)
    (taken : userEnv.Takes sock .privateMsg ((s.srv.clients b).nick.bytes ++ 0 :: t) u.log) :
    Whispered env s (handleMessages env a (typedMessages userEnv sock u
      (whisperLine (s.srv.clients b).nick.bytes t ++ [10])) s) a b t := by
  have shortA := (s.srv.clients a).nick.fits
  have shortB := (s.srv.clients b).nick.fits
  have check := checkPrivate_eq inv joinedB rfl (List.length_pos_iff.mpr nameable.named) shortB
    long
  have fits : (s.srv.clients b).nick.bytes.length + 1 + t.length ≤ chatMaxBody := by
    unfold chatMaxNick at shortB
    unfold chatMaxBody
    omega
  have line : (privateLine (s.srv.clients a).nick.bytes (s.srv.clients b).nick.bytes t).take
      chatMaxBody = pmPrefix (s.srv.clients a).nick.bytes (s.srv.clients b).nick.bytes ++ t := by
    rw [privateLine_eq _ plain.noNul fits]
    refine List.take_of_length_le ?_
    rw [List.length_append, length_pmPrefix]
    unfold chatMaxNick at shortA shortB
    unfold chatMaxBody
    omega
  let m : Message := ⟨.privateMsg, (s.srv.clients b).nick.bytes ++ 0 :: t⟩
  have handled : (handleMessages env a [m] s).log =
      sendPrivate env s.srv.clients a b
        (pmPrefix (s.srv.clients a).nick.bytes (s.srv.clients b).nick.bytes ++ t)
        (s.log ++ [.frame a m.frame]) := by
    have one : handleMessages env a [m] s = handleFrame env a m.frame (s.note (.frame a m.frame)) :=
      rfl
    rw [one, handleFrame_private env (s := s.note (.frame a m.frame)) joinedA check, ← line]
    rfl
  rw [typedMessages_whisper ready plain long short nameable,
    if_pos (sendFrame_iff_takes.mpr taken)]
  refine ⟨?_, fun i used notA notB => ?_⟩
  · obtain ⟨added, ok, eq, mem, delivered⟩ := sendPrivate_told env s.srv.clients a b
      (pmPrefix (s.srv.clients a).nick.bytes (s.srv.clients b).nick.bytes ++ t)
      (s.log ++ [.frame a m.frame])
    rw [← handled, List.append_assoc] at eq
    exact ⟨_, ok, eq, List.mem_append_right _ mem, delivered⟩
  · have apart (j : Slot) (joined : (s.srv.clients j).joined = true) (ne : i ≠ j) :
        (s.srv.clients i).fd ≠ (s.srv.clients j).fd :=
      fun same => ne (inv.distinct i j used (inv.used_of_joined joined) same)
    rw [handled, (sendPrivate_sends env s.srv.clients a b _ _).onFd_eq fun _ allowed =>
      allowed.2.elim (apart b joinedB notB) (apart a joinedA notA)]
    exact onFd_snoc_frame _ s.log a m.frame

/-- Only such a nick does. -/
theorem nameable_of_whispered (ready : u.Ready) (joinedA : (s.srv.clients a).joined = true)
    (plain : PlainLine t) (long : 1 ≤ t.length) (short : t.length ≤ 1000)
    (whispered : Whispered env s (handleMessages env a (typedMessages userEnv sock u
      (whisperLine (s.srv.clients b).nick.bytes t ++ [10])) s) a b t) :
    Nameable (s.srv.clients b).nick.bytes ∧
      userEnv.Takes sock .privateMsg ((s.srv.clients b).nick.bytes ++ 0 :: t) u.log := by
  obtain ⟨⟨added, ok, log, mem, -⟩, -⟩ := whispered
  obtain ⟨added', log', all⟩ := handleMessages_reports env joinedA
    (typedMessages userEnv sock u (whisperLine (s.srv.clients b).nick.bytes t ++ [10]))
  obtain rfl : added' = added := List.append_cancel_left (log'.symm.trans log)
  obtain ⟨body, typed, passed⟩ := all _ mem rfl
  have parts {kept : Bytes} (sends : LineSends kept ⟨.privateMsg, body⟩) :=
    parts_of_passed sends (s.srv.clients b).nick.fits short passed
  -- the message is of one line, so no newline was typed before the text
  have noNewline : (10 : UInt8) ∉ (s.srv.clients b).nick.bytes := by
    intro newline
    have start : (10 : UInt8) ∉ u.line.bytes := by
      rw [ready.start]
      exact List.not_mem_nil
    obtain ⟨ms, sent, lines⟩ := typeBytes_messages userEnv sock start
      (whisperLine (s.srv.clients b).nick.bytes t ++ [10])
    rw [typedMessages, sent, List.drop_left] at typed
    obtain ⟨line, oneLine, sends⟩ := lines _ typed
    obtain ⟨target, msg, args, same⟩ := parts sends
    have inLine : (10 : UInt8) ∈ cstr (line.rdropWhile isNewline) := by
      have there : (10 : UInt8) ∈ target ++ ascii ") " ++ msg := by
        rw [same]
        exact List.mem_append_left _ (List.mem_append_left _ newline)
      simp only [List.mem_append] at there
      rcases there with (inTarget | inside) | inMsg
      · exact target_subset args inTarget
      · exact absurd inside (by decide)
      · exact mem_of_privateArgs args inMsg
    exact oneLine ((List.rdropWhile_prefix _ _).subset ((cstr_part _).subset inLine))
  -- so it is of the whole line
  have nameable : Nameable (s.srv.clients b).nick.bytes := by
    obtain ⟨ms, sent, lines⟩ := (handleUserLine_case userEnv sock
      (whisperLine (s.srv.clients b).nick.bytes t) u.log).messages
    rw [typedMessages_eq ready (plain_whisperLine noNewline plain)
      (length_whisperLine _ short), sent, List.drop_left] at typed
    obtain ⟨target, msg, args, same⟩ := parts (lines _ typed)
    rw [whisperLine, kept_command (by decide) (s.srv.clients b).nick.noNul
      (List.ne_nil_of_length_pos long) plain.noNul plain.ended,
      privateArgs_command (by decide)] at args
    obtain ⟨named, noSpace, noTab⟩ := named_of_splitArgs args same
    exact ⟨named, noSpace, noNewline, noTab⟩
  refine ⟨nameable, sendFrame_iff_takes.mp ?_⟩
  rw [typedMessages_whisper ready plain long short nameable] at typed
  split at typed
  · assumption
  · cases typed

end Whisper

/-- **Who can be whispered to.** A `/w` line with the nick of a joined client and a
text reaches this client, and no third one, exactly if the nick is not empty, has no
space and no newline in it and no tab in front, and the client's write gets through. -/
theorem whisper_iff (userEnv env : Env) (sock : Fd) (u : UserSys) (ready : u.Ready) (s : Sys)
    (reach : Reachable env s) (a b : Slot) (joinedA : (s.srv.clients a).joined = true)
    (joinedB : (s.srv.clients b).joined = true) (t : Bytes) (plain : PlainLine t)
    (long : 1 ≤ t.length) (short : t.length ≤ 1000) :
    Whispered env s (handleMessages env a (typedMessages userEnv sock u
      (whisperLine (s.srv.clients b).nick.bytes t ++ [10])) s) a b t ↔
    Nameable (s.srv.clients b).nick.bytes ∧
      userEnv.Takes sock .privateMsg ((s.srv.clients b).nick.bytes ++ 0 :: t) u.log := by
  constructor
  · exact nameable_of_whispered ready joinedA plain long short
  · rintro ⟨nameable, taken⟩
    exact whispered_of_nameable ready reach.inv joinedA joinedB plain long short nameable taken

/-- The client of a user who has typed nothing yet. -/
def silentUser : UserSys := ⟨.empty, [], [], false⟩

/-- Ann whispers to Bob. -/
theorem whisper_iff_bob :
    let s := (arrival 0 4 "ann" ++ arrival 1 5 "bob").foldl (act .smooth) .init
    Whispered .smooth s (handleMessages .smooth 0 (typedMessages .smooth 3 silentUser
      (whisperLine (s.srv.clients 1).nick.bytes (ascii "hi") ++ [10])) s) 0 1 (ascii "hi") := by
  intro s
  have run : Run .smooth Sys.init (arrival 0 4 "ann" ++ arrival 1 5 "bob") s :=
    .of_enabled (by decide +kernel)
  exact (whisper_iff .smooth .smooth 3 silentUser ⟨rfl, rfl⟩ s ⟨_, run⟩ 0 1 (by decide +kernel)
    (by decide +kernel) (ascii "hi") ⟨by decide, by decide, by decide⟩ (by decide)
    (by decide)).mpr ⟨by decide +kernel, Env.smooth_takes _ _ _ _⟩

/-- What Ann whispers to "a b" is sent to "a". -/
theorem whisper_misread :
    let s := (arrival 0 4 "ann" ++ arrival 1 5 "a b" ++ arrival 2 6 "a").foldl
      (act .smooth) .init
    let s' := handleMessages .smooth 0 (typedMessages .smooth 3 silentUser
      (whisperLine (ascii "a b") (ascii "hi") ++ [10])) s
    Reachable .smooth s ∧ (s.srv.clients 0).joined = true ∧ (s.srv.clients 1).joined = true ∧
      (s.srv.clients 1).nick.bytes = ascii "a b" ∧ ¬ Whispered .smooth s s' 0 1 (ascii "hi") ∧
      messagesTo (s.srv.clients 2).fd s'.log = messagesTo (s.srv.clients 2).fd s.log ++
        [⟨.privateMsg, ascii "(pm ann -> a) b hi"⟩] := by
  intro s s'
  have run : Run .smooth Sys.init (arrival 0 4 "ann" ++ arrival 1 5 "a b" ++ arrival 2 6 "a") s :=
    .of_enabled (by decide +kernel)
  refine ⟨⟨_, run⟩, by decide +kernel, by decide +kernel, by decide +kernel, ?_,
    by decide +kernel⟩
  intro whispered
  have same := whispered.others 2 (by decide +kernel) (by decide) (by decide)
  exact absurd same (by decide +kernel)

end Osisp.Chat
