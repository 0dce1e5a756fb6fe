import Osisp.Chat.Server

/-!
# What the user types (`client.c`)

The main loop of the client collects the bytes of standard input in `linebuf`
and hands each line to `handle_user_line`, which answers it on the spot, refuses
it, or sends one frame. `UserSys` is this half of the client; the other half is
`ClientSys`.
-/

namespace Osisp.Chat

open Lib

/-- `LINE_CAP`. -/
def lineCap : Nat := 4096

/-- What `handle_user_line` does besides sending. -/
inductive UserOutput
  | help
  /-- A text on `stderr`. -/
  | refused (text : String)
  /-- `perror ("send")`. -/
  | sendFailed
  deriving DecidableEq

/-- The return value of `handle_user_line`. -/
inductive UserResult
  | nothing
  | sent
  | quit
  deriving DecidableEq

/-- Send one frame; a failed send ends the session. -/
def sendUser (env : Env) (sock : Fd) (type : MsgType) (body : Bytes) (log : Log) :
    UserResult × List UserOutput × Log :=
  let (ok, log) := sendFrame env sock type body log
  if !ok then (.quit, [.sendFailed], log) else (.sent, [], log)

def isBlank (x : UInt8) : Bool := x = 32 || x = 9

/-- The part of `handle_user_line` for `/w` and `/msg`, behind the command. -/
def userPrivate (env : Env) (sock : Fd) (args : Bytes) (log : Log) :
    UserResult × List UserOutput × Log :=
  let p := args.dropWhile isBlank
  if 32 ∉ p then (.nothing, [.refused "Usage: /w <nick> message\n"], log)
  else
    let target := p.takeWhile (· ≠ 32)
    let msg := p.drop (target.length + 1)
    if target.length = 0 || msg.length = 0 then
      (.nothing, [.refused "Usage: /w <nick> message\n"], log)
    else if target.length > chatMaxNick then (.nothing, [.refused "Nickname too long\n"], log)
    else if target.length + 1 + msg.length > chatMaxBody then
      (.nothing, [.refused "Message too long\n"], log)
    else sendUser env sock .privateMsg (target ++ 0 :: msg) log

/-- `handle_user_line`. The comparisons see the line up to its first NUL, the chat
text is all of it. -/
def handleUserLine (env : Env) (sock : Fd) (line : Bytes) (log : Log) :
    UserResult × List UserOutput × Log :=
  let line := line.rdropWhile isNewline
  let text := cstr line
  if line.length = 0 then (.nothing, [], log)
  else if text = ascii "/quit" || text = ascii "/q" then (.quit, [], log)
  else if text = ascii "/help" || text = ascii "/?" then (.nothing, [.help], log)
  else if text = ascii "/list" then sendUser env sock .list [] log
  else if (ascii "/w ").isPrefixOf text then userPrivate env sock (text.drop 3) log
  else if (ascii "/msg ").isPrefixOf text then userPrivate env sock (text.drop 5) log
  else if line.length > chatMaxBody then
    (.nothing, [.refused "Message too long (max 2048)\n"], log)
  else sendUser env sock .broadcast line log

/-- `linebuf` with `line_pos`, the output, the trace of the socket, and whether
`main` has returned. -/
structure UserSys where
  line : Buf (lineCap - 1)
  out : List UserOutput
  log : Log
  done : Bool

/-- `linebuf[line_pos++] = c`, if there is room for it and a terminator. -/
def pushChar (line : Buf (lineCap - 1)) (c : UInt8) : Buf (lineCap - 1) :=
  if room : line.bytes.length + 1 < lineCap then
    ⟨line.bytes ++ [c], by
      rw [List.length_append, List.length_singleton]
      omega⟩
  else line

/-- One byte of standard input. -/
def typeByte (env : Env) (sock : Fd) (u : UserSys) (c : UInt8) : UserSys :=
  if u.done then u
  else if c = 10 then
    let (result, out, log) := handleUserLine env sock u.line.bytes u.log
    if result = .quit then ⟨u.line, u.out ++ out, log ++ [.close sock], true⟩
    else ⟨.empty, u.out ++ out, log, false⟩
  else { u with line := pushChar u.line c }

/-- The bytes of standard input in order, however `read` cuts them. -/
def typeBytes (env : Env) (sock : Fd) (u : UserSys) (typed : Bytes) : UserSys :=
  typed.foldl (typeByte env sock) u

/-- The client behind `connect`: the `JOIN` frame. The nick is `argv[optind]`, of
1 to 31 bytes. -/
def userJoin (env : Env) (sock : Fd) (nick : CStr chatMaxNick) : UserSys :=
  let (ok, log) := sendFrame env sock .join nick.bytes []
  if !ok then ⟨.empty, [.sendFailed], log ++ [.close sock], true⟩ else ⟨.empty, [], log, false⟩

/-! ## What a line is sent as -/

/-- Is the line a `/w` or `/msg` command? -/
def isPrivate (text : Bytes) : Bool :=
  (ascii "/w ").isPrefixOf text || (ascii "/msg ").isPrefixOf text

/-- The target and the text behind a command, if a space ends the target. -/
def splitArgs (args : Bytes) : Option (Bytes × Bytes) :=
  let p := args.dropWhile isBlank
  if 32 ∉ p then none
  else some (p.takeWhile (· ≠ 32), p.drop ((p.takeWhile (· ≠ 32)).length + 1))

/-- The target and the text of a private line. -/
def privateArgs (text : Bytes) : Option (Bytes × Bytes) :=
  if (ascii "/w ").isPrefixOf text then splitArgs (text.drop 3)
  else if (ascii "/msg ").isPrefixOf text then splitArgs (text.drop 5)
  else none

/-- The target and the text fit the checks of `handle_user_line` but, maybe, the
last. -/
structure PrivateText (text target msg : Bytes) : Prop where
  args : privateArgs text = some (target, msg)
  named : 0 < target.length
  short : target.length ≤ chatMaxNick
  nonempty : 0 < msg.length

/-- `m` is what the trimmed line `kept` is sent as. -/
inductive LineSends (kept : Bytes) : Message → Prop
  | list : cstr kept = ascii "/list" → LineSends kept ⟨.list, []⟩
  | privateMsg {target msg : Bytes} :
    PrivateText (cstr kept) target msg → target.length + 1 + msg.length ≤ chatMaxBody →
    LineSends kept ⟨.privateMsg, target ++ 0 :: msg⟩
  | broadcast :
    isPrivate (cstr kept) = false → kept.length ≤ chatMaxBody → LineSends kept ⟨.broadcast, kept⟩

/-- A line is answered on the spot or sent as one frame. -/
inductive LineCase (env : Env) (sock : Fd) (kept : Bytes) (log : Log) :
    UserResult × List UserOutput × Log → Prop
  | silent (result : UserResult) (out : List UserOutput) :
    LineCase env sock kept log (result, out, log)
  | sends {type : MsgType} {body : Bytes} :
    LineSends kept ⟨type, body⟩ → LineCase env sock kept log (sendUser env sock type body log)

section Line

variable (env : Env) (sock : Fd)

theorem sendUser_log (type : MsgType) (body : Bytes) (log : Log) :
    (sendUser env sock type body log).2.2 = (sendFrame env sock type body log).2 := by
  unfold sendUser
  dsimp only
  split <;> rfl

theorem userPrivate_eq {args target msg : Bytes} (split : splitArgs args = some (target, msg))
    (log : Log) : userPrivate env sock args log =
      if target.length = 0 || msg.length = 0 then
        (.nothing, [.refused "Usage: /w <nick> message\n"], log)
      else if target.length > chatMaxNick then (.nothing, [.refused "Nickname too long\n"], log)
      else if target.length + 1 + msg.length > chatMaxBody then
        (.nothing, [.refused "Message too long\n"], log)
      else sendUser env sock .privateMsg (target ++ 0 :: msg) log := by
  unfold splitArgs at split
  dsimp only at split
  unfold userPrivate
  dsimp only
  split at split
  · cases split
  · rename_i spaced
    cases split
    rw [if_neg spaced]

theorem userPrivate_case {kept args : Bytes} (log : Log)
    (command : privateArgs (cstr kept) = splitArgs args) :
    LineCase env sock kept log (userPrivate env sock args log) := by
  cases split : splitArgs args with
  | none =>
      have spaceless : 32 ∉ args.dropWhile isBlank := by
        unfold splitArgs at split
        dsimp only at split
        split at split
        · assumption
        · cases split
      unfold userPrivate
      dsimp only
      rw [if_pos spaceless]
      exact .silent _ _
  | some parts =>
      obtain ⟨target, msg⟩ := parts
      rw [userPrivate_eq env sock split]
      split
      · exact .silent _ _
      · rename_i filled
        simp only [Bool.or_eq_true, decide_eq_true_eq, not_or] at filled
        split
        · exact .silent _ _
        · rename_i short
          split
          · exact .silent _ _
          · rename_i fits
            exact .sends (.privateMsg ⟨command.trans split, Nat.pos_of_ne_zero filled.1,
              not_lt.mp short, Nat.pos_of_ne_zero filled.2⟩ (not_lt.mp fits))

/-- **Inversion of `handle_user_line`.** -/
theorem handleUserLine_case (line : Bytes) (log : Log) :
    LineCase env sock (line.rdropWhile isNewline) log (handleUserLine env sock line log) := by
  unfold handleUserLine
  dsimp only
  split
  · exact .silent _ _
  · split
    · exact .silent _ _
    · split
      · exact .silent _ _
      · split
        · rename_i list
          exact .sends (.list list)
        · split
          · rename_i command
            exact userPrivate_case env sock log (by rw [privateArgs, if_pos command])
          · rename_i notW
            split
            · rename_i command
              exact userPrivate_case env sock log
                (by rw [privateArgs, if_neg notW, if_pos command])
            · rename_i notMsg
              split
              · exact .silent _ _
              · rename_i fits
                have chat : isPrivate (cstr (line.rdropWhile isNewline)) = false := by
                  rw [isPrivate, Bool.eq_false_of_not_eq_true notW,
                    Bool.eq_false_of_not_eq_true notMsg]
                  rfl
                exact .sends (.broadcast chat (not_lt.mp fits))

/-! ## A whole line -/

theorem bytes_pushChar (line : Buf (lineCap - 1)) (c : UInt8) :
    (pushChar line c).bytes = (line.bytes ++ [c]).take (lineCap - 1) := by
  have fits := line.fits
  unfold pushChar
  split
  · refine (List.take_of_length_le ?_).symm
    rw [List.length_append, List.length_singleton]
    omega
  · have full : lineCap - 1 = line.bytes.length := by omega
    exact (List.take_left' full.symm).symm

/-- `linebuf` keeps the first 4095 bytes of a line. -/
theorem typeBytes_line {u : UserSys} (running : u.done = false) {typed : Bytes}
    (noNewline : (10 : UInt8) ∉ typed) :
    (typeBytes env sock u typed).line.bytes = (u.line.bytes ++ typed).take (lineCap - 1) ∧
      (typeBytes env sock u typed).out = u.out ∧ (typeBytes env sock u typed).log = u.log ∧
      (typeBytes env sock u typed).done = false := by
  induction typed generalizing u with
  | nil =>
      rw [List.append_nil, List.take_of_length_le u.line.fits]
      exact ⟨rfl, rfl, rfl, running⟩
  | cons c typed ih =>
      have other : c ≠ 10 := fun eq => noNewline (eq ▸ List.mem_cons_self)
      have step : typeByte env sock u c = { u with line := pushChar u.line c } := by
        simp only [typeByte, running, Bool.false_eq_true, if_false, if_neg other]
      have rest : typeBytes env sock u (c :: typed) =
          typeBytes env sock { u with line := pushChar u.line c } typed :=
        congrArg (typeBytes env sock · typed) step
      rw [rest]
      obtain ⟨line, out, log, done⟩ := ih (u := { u with line := pushChar u.line c }) running
        fun mem => noNewline (List.mem_cons_of_mem c mem)
      refine ⟨line.trans ?_, out, log, done⟩
      rw [bytes_pushChar, List.append_cons u.line.bytes c typed]
      exact take_take_append _ _ _

/-- A line of its own is handled as far as `linebuf` keeps it. -/
theorem typeBytes_newline {u : UserSys} (running : u.done = false) (start : u.line.bytes = [])
    {typed : Bytes} (noNewline : (10 : UInt8) ∉ typed) :
    ∃ closed : Log, (∀ e ∈ closed, e = .close sock) ∧
      (typeBytes env sock u (typed ++ [10])).log =
        (handleUserLine env sock (typed.take (lineCap - 1)) u.log).2.2 ++ closed ∧
      (typeBytes env sock u (typed ++ [10])).out =
        u.out ++ (handleUserLine env sock (typed.take (lineCap - 1)) u.log).2.1 := by
  obtain ⟨line, out, log, done⟩ := typeBytes_line env sock running noNewline
  rw [start, List.nil_append] at line
  have last : typeBytes env sock u (typed ++ [10]) =
      typeByte env sock (typeBytes env sock u typed) 10 := by
    rw [typeBytes, List.foldl_append]
    rfl
  rw [last]
  simp only [typeByte, done, Bool.false_eq_true, if_false, if_true, line, out, log]
  split
  · exact ⟨[.close sock], by simp, rfl, rfl⟩
  · exact ⟨[], nofun, (List.append_nil _).symm, rfl⟩

/-- The messages of a line are those that `handle_user_line` sends. -/
theorem messagesTo_newline {u : UserSys} (running : u.done = false) (start : u.line.bytes = [])
    {typed : Bytes} (noNewline : (10 : UInt8) ∉ typed) :
    messagesTo sock (typeBytes env sock u (typed ++ [10])).log =
      messagesTo sock (handleUserLine env sock (typed.take (lineCap - 1)) u.log).2.2 := by
  obtain ⟨closed, onlyClose, log, -⟩ := typeBytes_newline env sock running start noNewline
  have appends : Appends (· = .close sock)
      (handleUserLine env sock (typed.take (lineCap - 1)) u.log).2.2
      (typeBytes env sock u (typed ++ [10])).log := ⟨closed, log, onlyClose⟩
  refine appends.flatMap_eq fun e close => ?_
  rw [close]
  rfl

end Line

end Osisp.Chat
