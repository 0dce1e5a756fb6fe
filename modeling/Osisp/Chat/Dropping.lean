import Osisp.Chat.ClientMain

/-!
# What is read before a connection is dropped

Server and client drop a connection at an error bit, with what is still to be read on it.
The client also drops it where it leaves by standard input: at the end of the input, at
`/quit`, or where a line cannot be sent. In such an iteration it has called `recv` once,
and again behind each line that it did send, so that nothing is lost only if these calls
took every complete frame (`read_before_drop_iff`).
-/

namespace Osisp.Chat

open Lib

/-! ## An iteration of the client -/

/-- What can be read from the socket. -/
def ClientInput.readable (inp : ClientInput) : Bytes := inp.recv.getD []

section Taken

variable (env : Env) (sock : Fd)

/-- The client leaves by standard input: it ends or cannot be read, or one of its lines
is `/quit` or cannot be sent. -/
def ClientInput.leaves (inp : ClientInput) (u : UserSys) : Bool :=
  inp.stdin.listener &&
    match inp.read with
    | .eintr => false
    | .error => true
    | .data chunk => chunk.take 256 = [] || (typeBytes env sock u (chunk.take 256)).done

/-- What `recv` returns behind one byte of `tmp`. -/
def charChunks (pull : Nat → PullAnswer) (x : UInt8) (p : ClientProc) : List Bytes :=
  if x = 10 then
    match (handleUserLine env sock p.user.line.bytes p.user.log).1 with
    | .sent => pullChunks pull 128 0 0 p.rcv
    | _ => []
  else []

/-- What it returns behind the bytes from `k` on. -/
def charsChunks (pull : Nat → Nat → PullAnswer) : Bytes → Nat → ClientProc → List Bytes
  | [], _, _ => []
  | x :: xs, k, p =>
      let p' := readChar env sock (pull k) x p
      charChunks env sock (pull k) x p ++
        if p'.user.done then [] else charsChunks pull xs (k + 1) p'

def stdinChunks (inp : ClientInput) (p : ClientProc) : List Bytes :=
  if inp.stdin.listener then
    match inp.read with
    | .data chunk => charsChunks env sock inp.pull (chunk.take 256) 0 p
    | _ => []
  else []

/-- What it returns behind the lines of an iteration, where the main loop has received
what fits. -/
def ClientInput.answers (inp : ClientInput) (p : ClientProc) : Bytes :=
  (stdinChunks env sock inp
    ⟨p.rcv.receive (.data (inp.readable.take p.rcv.rx.room)), p.user⟩).flatten

/-- The complete frames that can be read are all in what fits into the buffer and what
`recv` returns behind the lines. -/
def ClientInput.TakesFrames (inp : ClientInput) (p : ClientProc) : Prop :=
  (chatCodec.parse (p.rcv.rx.bytes ++ inp.readable)).frames <+: (chatCodec.parse
    (p.rcv.rx.bytes ++ (inp.readable.take p.rcv.rx.room ++ inp.answers env sock p))).frames

/-- The bytes that the calls of `recv` return in an iteration. -/
def clientTaken (inp : ClientInput) (p : ClientProc) : Bytes :=
  let (c, chunk) := mainReceive inp.sock inp.recv p.rcv
  let p := p.setRcv sock c
  chunk ++ if p.user.done then [] else (stdinChunks env sock inp p).flatten

/-- `recv` hands out the bytes in their order: first those that can be read when `poll`
returns. -/
def ClientInput.Ordered (inp : ClientInput) (p : ClientProc) : Prop :=
  clientTaken env sock inp p <+: inp.readable ∨ inp.readable <+: clientTaken env sock inp p

/-- The states in which `main` calls `poll`. -/
def ClientPolling (p : ClientProc) : Prop :=
  p.rcv.phase = .connected ∧ ∃ nick recvs polls, clientMain env sock nick recvs polls = p

end Taken

/-- The readable bytes were read, as far as the buffer had room at first, and the
complete frames in them were printed. -/
structure ClientReadAll (p p' : ClientProc) (taken data : Bytes) : Prop where
  bytes : data.take p.rcv.rx.room <+: taken
  frames : ∃ later, p'.rcv.out =
    p.rcv.out ++ (chatCodec.parse (p.rcv.rx.bytes ++ data)).frames.map .print ++ later

/-- The client is still connected, or has left behind the readable bytes. -/
def ClientReadFirst (p p' : ClientProc) (taken data : Bytes) : Prop :=
  p'.user.done = false ∨ ClientReadAll p p' taken data

/-! ## What the sending half does -/

section HearsAll

variable {env : Env} {sock : Fd} {p p' p'' : ClientProc} {chunks chunks' : List Bytes}

/-- The client receives the chunks, and may end behind them. -/
structure HearsAll (p : ClientProc) (chunks : List Bytes) (p' : ClientProc) : Prop where
  valid : p.rcv.ValidCuts chunks
  out : p'.rcv.out = (p.rcv.receiveAll chunks).out
  same : p'.user.done = false → p'.rcv = p.rcv.receiveAll chunks

/-- Nothing is received. -/
theorem HearsAll.nothing (out : p'.rcv.out = p.rcv.out)
    (same : p'.user.done = false → p'.rcv = p.rcv) : HearsAll p [] p' := ⟨trivial, out, same⟩

theorem HearsAll.trans (first : HearsAll p chunks p') (running : p'.user.done = false)
    (second : HearsAll p' chunks' p'') : HearsAll p (chunks ++ chunks') p'' := by
  have here := first.same running
  have all := ClientSys.receiveAll_append p.rcv chunks chunks'
  rw [← here] at all
  refine ⟨first.valid.append ?_, ?_, fun going => ?_⟩
  · rw [← here]
    exact second.valid
  · rw [all]
    exact second.out
  · rw [all]
    exact second.same going

theorem typeBytes_of_done {u : UserSys} (done : u.done = true) (typed : Bytes) :
    typeBytes env sock u typed = u := by
  induction typed with
  | nil => rfl
  | cons x typed ih =>
      have same : typeByte env sock u x = u := if_pos done
      change typeBytes env sock (typeByte env sock u x) typed = u
      rw [same, ih]

theorem user_readChars (pull : Nat → Nat → PullAnswer) (xs : Bytes) (k : Nat)
    (running : p.user.done = false) :
    (readChars env sock pull xs k p).user = typeBytes env sock p.user xs := by
  induction xs generalizing k p with
  | nil => rfl
  | cons x xs ih =>
      have step : (readChar env sock (pull k) x p).user = typeByte env sock p.user x :=
        user_readChar (pull k) x running
      change _ = typeBytes env sock (typeByte env sock p.user x) xs
      rw [← step]
      unfold readChars
      dsimp only
      split
      · rename_i done
        exact (typeBytes_of_done done xs).symm
      · rename_i going
        exact ih (k + 1) (Bool.eq_false_iff.mpr going)

/-- The client leaves by standard input exactly if that makes it. -/
theorem done_stdinPhase (inp : ClientInput) (running : p.user.done = false) :
    (stdinPhase env sock inp p).user.done = inp.leaves env sock p.user := by
  unfold stdinPhase ClientInput.leaves
  cases inp.stdin.listener with
  | false => exact running
  | true =>
      cases inp.read with
      | eintr => exact running
      | error => rfl
      | data chunk =>
          simp only [if_true, Bool.true_and]
          by_cases ends : chunk.take 256 = []
          · rw [if_pos ends, decide_eq_true ends, Bool.true_or]
            rfl
          · rw [if_neg ends, decide_eq_false ends, Bool.false_or, user_readChars _ _ 0 running]

/-! ## What the receiving half does -/

theorem readChar_hears (pull : Nat → PullAnswer) (x : UInt8)
    (connected : p.rcv.phase = .connected) :
    HearsAll p (charChunks env sock pull x p) (readChar env sock pull x p) := by
  unfold readChar charChunks
  split
  · obtain ⟨result, out, log⟩ := handleUserLine env sock p.user.line.bytes p.user.log
    cases result with
    | quit => exact .nothing rfl fun going => by cases going
    | sent =>
        obtain ⟨valid, pulled⟩ := pullLoop_receives pull 128 0 0 p.rcv connected
        exact ⟨valid, congrArg ClientSys.out pulled, fun _ => pulled⟩
    | nothing => exact .nothing rfl fun _ => rfl
  · exact .nothing rfl fun _ => rfl

theorem readChars_hears (pull : Nat → Nat → PullAnswer) (xs : Bytes) (k : Nat)
    (connected : p.rcv.phase = .connected) (running : p.user.done = false) :
    HearsAll p (charsChunks env sock pull xs k p) (readChars env sock pull xs k p) := by
  induction xs generalizing k p with
  | nil => exact .nothing rfl fun _ => rfl
  | cons x xs ih =>
      have first : HearsAll p (charChunks env sock (pull k) x p)
          (readChar env sock (pull k) x p) := readChar_hears (pull k) x connected
      have still : (readChar env sock (pull k) x p).user.done = false →
          (readChar env sock (pull k) x p).rcv.phase = .connected :=
        (readChar_leads (pull k) x connected running).2
      unfold readChars charsChunks
      dsimp only
      split
      · rw [List.append_nil]
        exact first
      · rename_i going
        have running' := Bool.eq_false_iff.mpr going
        exact first.trans running' (ih (k + 1) (still running') running')

theorem stdinPhase_hears (inp : ClientInput) (connected : p.rcv.phase = .connected)
    (running : p.user.done = false) :
    HearsAll p (stdinChunks env sock inp p) (stdinPhase env sock inp p) := by
  have leaves : HearsAll p [] (p.leave sock) := .nothing rfl fun going => by cases going
  unfold stdinPhase stdinChunks
  split
  · cases inp.read with
    | eintr => exact .nothing rfl fun _ => rfl
    | error => exact leaves
    | data chunk =>
        dsimp only
        split
        · rename_i ends
          rw [ends]
          exact leaves
        · exact readChars_hears inp.pull _ 0 connected running
  · exact .nothing rfl fun _ => rfl

end HearsAll

/-! ## What is lost -/

section Lost

variable {env : Env} {sock : Fd} {inp : ClientInput} {p : ClientProc} {c : ClientSys}

/-- What the receiving half does where `poll` reports `POLLIN`. -/
inductive MainCase (rev : Revents) (data : Bytes) (c : ClientSys) : ClientSys × Bytes → Prop
  | dropped (text : String) : rev.failed = true → MainCase rev data c (c.quit text, [])
  | ended (text : String) : rev.failed = false → data.take c.rx.room = [] →
    MainCase rev data c (c.quit text, [])
  | round : rev.failed = false → data.take c.rx.room ≠ [] →
    MainCase rev data c (c.receive (.data (data.take c.rx.room)), data.take c.rx.room)

theorem mainReceive_case (connected : c.phase = .connected) {rev : Revents}
    (pollin : rev.pollin = true) (readable : Option Bytes) :
    MainCase rev (readable.getD []) c (mainReceive rev readable c) := by
  have bits : (rev.pollerr || rev.pollhup || rev.pollnval) = rev.failed := rfl
  unfold mainReceive
  rw [bits]
  cases failed : rev.failed with
  | true => exact .dropped _ failed
  | false =>
      rw [if_neg Bool.false_ne_true, if_pos pollin]
      cases readable with
      | none =>
          have quits : c.receive .error = c.quit "Disconnected.\n" := by
            simp only [ClientSys.receive, connected]
          dsimp only
          rw [quits]
          exact .ended _ failed List.take_nil
      | some data =>
          dsimp only [Option.getD_some]
          split
          · rename_i nothing
            have quits : c.receive .closed = c.quit "Disconnected.\n" := by
              simp only [ClientSys.receive, connected]
            rw [quits]
            exact .ended _ failed nothing
          · rename_i some
            exact .round failed some

/-- A client that gives up without reading loses what could be read. -/
theorem quit_readFirst_iff (more : scanFrame p.rcv.rx.bytes = .more) (text : String)
    (data : Bytes) : ClientReadFirst p (p.setRcv sock (p.rcv.quit text)) [] data ↔ data = [] := by
  constructor
  · rintro (still | read)
    · cases still
    · have nothing := List.prefix_nil.mp read.bytes
      exact (List.take_eq_nil_iff.mp nothing).resolve_left (Nat.ne_of_gt (room_of_more more))
  · rintro rfl
    refine .inr ⟨?_, [.diag (ascii text)], ?_⟩
    · rw [List.take_nil]
    · rw [List.append_nil, chatCodec.parse_of_more more]
      exact (congrArg (· ++ _) (List.append_nil p.rcv.out)).symm

/-- What is printed of the bytes `taken` begins with the frames of `data` exactly if these
frames are in it. -/
theorem heard_begins_iff {b taken data : Bytes} {later : List Output}
    (ordered : taken <+: data ∨ data <+: taken)
    (whole : ∀ t, (chatCodec.parse (b ++ taken)).tail = some t → later = []) :
    (chatCodec.parse (b ++ data)).frames.map .print <+:
        heard (chatCodec.parse (b ++ taken)) ++ later ↔
      (chatCodec.parse (b ++ data)).frames <+: (chatCodec.parse (b ++ taken)).frames := by
  constructor
  · intro begins
    rcases ordered with short | long
    · cases tail : (chatCodec.parse (b ++ taken)).tail with
      | none =>
          -- behind an invalid header there is no frame
          obtain ⟨rest, rfl⟩ := short
          rw [← List.append_assoc, chatCodec.parse_append_of_none tail]
      | some t =>
          have plain : heard (chatCodec.parse (b ++ taken)) ++ later =
              (chatCodec.parse (b ++ taken)).frames.map .print := by
            rw [heard, tail, whole t tail, List.append_nil]
            exact List.append_nil _
          rw [plain] at begins
          exact (List.prefix_map_iff_of_injective fun f g eq => Output.print.inj eq).mp begins
    · exact chatCodec.frames_prefix ((List.prefix_append_right_inj b).mpr long)
  · intro covered
    refine (covered.map Output.print).trans ?_
    rw [heard, List.append_assoc]
    exact List.prefix_append _ _

/-- An iteration in which the client receives. -/
theorem round_readFirst_iff (connected : p.rcv.phase = .connected)
    (more : scanFrame p.rcv.rx.bytes = .more) (running : p.user.done = false)
    (some_ : inp.readable.take p.rcv.rx.room ≠ []) :
    let p₁ : ClientProc := ⟨p.rcv.receive (.data (inp.readable.take p.rcv.rx.room)), p.user⟩
    let taken := inp.readable.take p.rcv.rx.room ++ inp.answers env sock p
    (taken <+: inp.readable ∨ inp.readable <+: taken) →
      (ClientReadFirst p (stdinPhase env sock inp p₁) taken inp.readable ↔
        inp.leaves env sock p.user = false ∨ inp.TakesFrames env sock p) := by
  intro p₁ taken ordered
  have fits : (inp.readable.take p.rcv.rx.room).length ≤ p.rcv.rx.room :=
    List.length_take_le _ _
  have hears : HearsAll p₁ (stdinChunks env sock inp p₁) (stdinPhase env sock inp p₁) :=
    stdinPhase_hears inp (receive_take connected inp.readable).1 running
  have valid : p.rcv.ValidCuts
      (inp.readable.take p.rcv.rx.room :: stdinChunks env sock inp p₁) :=
    fun _ => ⟨List.length_pos_iff.mpr some_, fits, hears.valid⟩
  obtain ⟨-, -, later, out, whole, -⟩ := receiveAll_hears connected more valid
  have printed : (stdinPhase env sock inp p₁).rcv.out =
      p.rcv.out ++ (heard (chatCodec.parse (p.rcv.rx.bytes ++ taken)) ++ later) := by
    rw [← List.append_assoc]
    exact hears.out.trans out
  have begins := heard_begins_iff ordered fun t tail => (whole t tail).1
  have done : (stdinPhase env sock inp p₁).user.done = inp.leaves env sock p.user :=
    done_stdinPhase inp running
  unfold ClientReadFirst ClientInput.TakesFrames
  rw [done, ← begins]
  refine or_congr Iff.rfl ⟨fun read => ?_, fun begins => ⟨List.prefix_append _ _, ?_⟩⟩
  · obtain ⟨others, eq⟩ := read.frames
    refine ⟨others, ?_⟩
    rw [printed, List.append_assoc] at eq
    exact (List.append_cancel_left eq).symm
  · obtain ⟨others, eq⟩ := begins
    refine ⟨others, ?_⟩
    rw [printed, ← eq, List.append_assoc]

/-- An iteration of the client's main loop loses nothing exactly if nothing can be read,
or there is no error bit and either the client stays or it has read every frame. -/
theorem clientIteration_readFirst_iff (connected : p.rcv.phase = .connected)
    (more : scanFrame p.rcv.rx.bytes = .more) (running : p.user.done = false)
    (pollin : inp.sock.pollin = true) (ordered : inp.Ordered env sock p) :
    ClientReadFirst p (clientIteration env sock inp p) (clientTaken env sock inp p)
        inp.readable ↔
      inp.readable = [] ∨ inp.sock.failed = false ∧
        (inp.leaves env sock p.user = false ∨ inp.TakesFrames env sock p) := by
  have received : MainCase inp.sock inp.readable p.rcv (mainReceive inp.sock inp.recv p.rcv) :=
    mainReceive_case connected pollin inp.recv
  unfold ClientInput.Ordered clientTaken at ordered
  unfold clientIteration clientTaken
  generalize mainReceive inp.sock inp.recv p.rcv = r at received ordered ⊢
  cases received with
  | dropped text failed =>
      refine (quit_readFirst_iff more text inp.readable).trans ?_
      rw [failed]
      exact (or_iff_left fun h => Bool.noConfusion h.1).symm
  | ended text clear nothing =>
      have empty : inp.readable = [] :=
        (List.take_eq_nil_iff.mp nothing).resolve_left (Nat.ne_of_gt (room_of_more more))
      exact iff_of_true ((quit_readFirst_iff more text inp.readable).mpr empty) (.inl empty)
  | round clear some_ =>
      have going : p.setRcv sock (p.rcv.receive (.data (inp.readable.take p.rcv.rx.room))) =
          ⟨p.rcv.receive (.data (inp.readable.take p.rcv.rx.room)), p.user⟩ := by
        refine if_neg ?_
        rw [(receive_take connected inp.readable).1]
        exact Phase.noConfusion
      have readable : inp.readable ≠ [] := fun empty => some_ (by rw [empty, List.take_nil])
      have stays := ne_true_of_eq_false running
      dsimp only at ordered ⊢
      rw [going] at ordered ⊢
      rw [if_neg stays] at ordered ⊢
      rw [if_neg stays]
      refine (round_readFirst_iff connected more running some_ ordered).trans ?_
      rw [clear, or_iff_right readable, eq_self, true_and]

end Lost

theorem ClientProc.start_waits (env : Env) (sock : Fd) (nick : CStr chatMaxNick) :
    (ClientProc.start sock env nick).rcv.Waits := by
  unfold ClientProc.start
  dsimp only
  split
  · exact .of_stopped rfl
  · exact fun _ => rfl

/-- At each call of `poll` the client runs, and its buffer waits. -/
theorem ClientPolling.sound {env : Env} {sock : Fd} {p : ClientProc}
    (polling : ClientPolling env sock p) :
    scanFrame p.rcv.rx.bytes = .more ∧ p.user.done = false := by
  obtain ⟨connected, nick, recvs, polls, rfl⟩ := polling
  obtain ⟨as, run⟩ := clientMain_runs env sock nick recvs polls
  obtain ⟨joint, waits⟩ := run.preserves (P := fun p => p.Joint ∧ p.rcv.Waits)
    ⟨ClientProc.start_joint env sock nick, ClientProc.start_waits env sock nick⟩
    fun h enabled => ⟨h.1.act enabled, h.2.act _⟩
  have going : (clientMain env sock nick recvs polls).rcv.phase ≠ .stopped := by
    rw [connected]
    exact Phase.noConfusion
  exact ⟨waits going, Bool.eq_false_iff.mpr fun done => going (joint.mp done)⟩

/-- **Reading before dropping.** Where `POLLIN` is reported for a connection, what is
readable is read and decoded before the connection is dropped exactly if nothing is
readable, or there is no error bit next to it: in the server, in the entry that the
dispatch pass reads for the slot. The client must also stay in its loop, or have read
every frame by the time standard input makes it leave. -/
theorem read_before_drop_iff (env : Env) (listenFd : Fd) :
    (∀ inp s i, Polling env listenFd s → inp.FreshFd s →
      (s.srv.clients i).used = true → (inp.revents (pollIndex s.srv.clients i)).pollin = true →
      (ReadFirst s (iteration env listenFd inp s).1 i (inp.readable i) ↔ inp.readable i = [] ∨
        ∀ p, entryRead env listenFd inp s i = some p → p.revents.failed = false)) ∧
    ∀ sock inp p, ClientPolling env sock p → inp.sock.pollin = true → inp.Ordered env sock p →
      (ClientReadFirst p (clientIteration env sock inp p) (clientTaken env sock inp p)
          inp.readable ↔
        inp.readable = [] ∨ inp.sock.failed = false ∧
          (inp.leaves env sock p.user = false ∨ inp.TakesFrames env sock p)) :=
  ⟨fun _ _ _ polling fresh used _ => iteration_readFirst_iff polling fresh used,
    fun _ _ _ polling pollin ordered => clientIteration_readFirst_iff polling.1
      polling.sound.1 polling.sound.2 pollin ordered⟩

/-! ### A server that says two things and closes -/

/-- The client behind its handshake. -/
def greetedProc : ClientProc :=
  clientMain .smooth 3 ⟨ascii "eve", by decide, by decide⟩
    [some (Message.frame ⟨.joinAck, ascii "id=1"⟩).encode] []

theorem greetedProc_polling : ClientPolling .smooth 3 greetedProc :=
  ⟨by decide +kernel, _, _, _, rfl⟩

/-- Two messages, the first of which fills the buffer. -/
def lastWords : List Frame :=
  [Message.frame ⟨.notify, List.replicate chatMaxBody 97⟩, Message.frame ⟨.notify, ascii "bye"⟩]

/-- They can be read, next to standard input; with `hup` the server has closed. -/
def partingInput (hup : Bool) (typed : Bytes) : ClientInput where
  sock := ⟨true, false, hup, false⟩
  stdin := ⟨true, false, false, false⟩
  recv := some (chatCodec.encodeAll lastWords)
  read := .data typed
  pull _ sp :=
    if sp = 0 then .ready (.data (Message.frame ⟨.notify, ascii "bye"⟩).encode) else .quiet

theorem frames_lastWords :
    (chatCodec.parse (chatCodec.encodeAll lastWords)).frames = lastWords := by
  have fit : ∀ f ∈ lastWords, f.body.length ≤ chatMaxBody := by decide +kernel
  rw [chatCodec.parse_encodeAll fit]

/-- Without the hang-up the `JOIN` is read, and so are both messages where a line is sent
before `/quit`. -/
theorem read_before_drop_iff_join :
    let inp := partingInput false (ascii "hi\n/quit\n")
    ReadFirst connectedState (iteration .smooth 3 (joinInput false) connectedState).1 0
        ((joinInput false).readable 0) ∧
      (clientIteration .smooth 3 inp greetedProc).user.done = true ∧
      ClientReadFirst greetedProc (clientIteration .smooth 3 inp greetedProc)
        (clientTaken .smooth 3 inp greetedProc) inp.readable := by
  intro inp
  refine ⟨((read_before_drop_iff .smooth 3).1 (joinInput false) connectedState 0
    connectedState_polling (fun listener => ?_) (by decide +kernel) (by decide +kernel)).mpr
      (.inr fun p entry => ?_), by decide +kernel, ?_⟩
  · cases listener
  · have read : entryRead .smooth 3 (joinInput false) connectedState 0 =
        some ⟨4, true, false, false, false⟩ := by decide +kernel
    rw [read] at entry
    cases entry
    rfl
  · have taken : clientTaken .smooth 3 inp greetedProc = inp.readable := by decide +kernel
    have answered : inp.readable.take greetedProc.rcv.rx.room ++
        inp.answers .smooth 3 greetedProc = inp.readable := by decide +kernel
    refine ((read_before_drop_iff .smooth 3).2 3 inp greetedProc greetedProc_polling rfl
      (.inl ?_)).mpr (.inr ⟨rfl, .inr ?_⟩)
    · rw [taken]
    · rw [ClientInput.TakesFrames, answered]

/-- With the hang-up the `JOIN` is lost, and so is what the server says last; where
standard input ends, the second message is. -/
theorem join_lost :
    (Polling .smooth 3 connectedState ∧ (joinInput true).FreshFd connectedState ∧
      (connectedState.srv.clients 0).used = true ∧
      ((joinInput true).revents (pollIndex connectedState.srv.clients 0)).pollin = true ∧
      ¬ ReadFirst connectedState (iteration .smooth 3 (joinInput true) connectedState).1 0
        ((joinInput true).readable 0)) ∧
    ∀ hup : Bool, ClientPolling .smooth 3 greetedProc ∧
      let inp := partingInput hup []
      inp.sock.pollin = true ∧ inp.Ordered .smooth 3 greetedProc ∧
        ¬ ClientReadFirst greetedProc (clientIteration .smooth 3 inp greetedProc)
          (clientTaken .smooth 3 inp greetedProc) inp.readable := by
  refine ⟨⟨connectedState_polling, fun listener => ?_, by decide +kernel, by decide +kernel, ?_⟩,
    fun hup => ⟨greetedProc_polling, rfl, .inl ?_, ?_⟩⟩
  · cases listener
  · rintro (still | ⟨bytes, -⟩)
    · exact absurd still (by decide +kernel)
    · exact absurd bytes (by decide +kernel)
  · cases hup <;> decide +kernel
  · have printed : (clientIteration .smooth 3 (partingInput hup []) greetedProc).rcv.out.length ≤
        greetedProc.rcv.out.length + 1 := by cases hup <;> decide +kernel
    rintro (still | ⟨-, later, out⟩)
    · cases hup <;> exact absurd still (by decide +kernel)
    · have empty : greetedProc.rcv.rx.bytes = [] := by decide +kernel
      have data : (partingInput hup []).readable = chatCodec.encodeAll lastWords := rfl
      rw [data, empty, List.nil_append, frames_lastWords] at out
      rw [out, List.length_append, List.length_append, List.length_map] at printed
      simp only [lastWords, List.length_cons, List.length_nil] at printed
      omega

end Osisp.Chat
