import Osisp.Chat.Observer

/-!
# The history and the live traffic

The ring buffer holds the last lines of the chat, cut as `hist_push` cuts them;
`handle_broadcast` cuts the line it sends by a second rule. Both rules give the
first `CHAT_MAX_BODY` bytes, so what a newcomer reads from the history continues
in what it is sent afterwards: `history_then_live`.
-/

namespace Osisp.Chat

open Lib

/-- The lines of the chat, cut to the size of a message body. -/
def cutLines (log : Log) : List Bytes := (linesOf log).map (·.take chatMaxBody)

/-- A message that carries a line of the chat. -/
def Message.isLine (m : Message) : Bool := m.type = .history || m.type = .broadcast

/-- The trace since `fd` was last accepted. -/
def sinceAccept (fd : Fd) (log : Log) : Log := log.rtakeWhile (· ≠ .accept fd)

/-- What is sent on `fd` over its present connection. -/
def received (fd : Fd) (log : Log) : List Message := messagesTo fd (sinceAccept fd log)

/-- The payloads of one type among them. -/
def payloads (type : MsgType) (ms : List Message) : List Bytes :=
  (ms.filter (·.type = type)).map Message.body

/-! ## The present connection -/

theorem sinceAccept_append {fd : Fd} (log : Log) {added : Log} (fresh : .accept fd ∉ added) :
    sinceAccept fd (log ++ added) = sinceAccept fd log ++ added := by
  induction added using List.reverseRecOn with
  | nil => rw [List.append_nil, List.append_nil]
  | append_singleton added e ih =>
      have old : .accept fd ∉ added := fun mem => fresh (List.mem_append_left _ mem)
      have last : e ≠ .accept fd := fun eq => fresh (by simp [eq])
      rw [← List.append_assoc, sinceAccept, List.rtakeWhile_concat_pos _ _ _ (by simpa using last),
        ← sinceAccept, ih old, List.append_assoc]

theorem received_accept (fd : Fd) (log : Log) : received fd (log ++ [.accept fd]) = [] := by
  rw [received, sinceAccept, List.rtakeWhile_concat_neg _ _ _ (by simp)]
  rfl

theorem Adds.received_eq {fd : Fd} {ms : List Message} {lines : List Bytes} {l l' : Log}
    (h : Adds fd ms lines l l') : received fd l' = received fd l ++ ms := by
  obtain ⟨added, rfl, rfl, -, -, fresh⟩ := h
  rw [received, sinceAccept_append l fresh, messagesTo_append]
  rfl

/-! ## The ring and the lines -/

theorem linesOf_snoc (log : Log) {e : Event} (none : e.lines = []) :
    linesOf (log ++ [e]) = linesOf log :=
  (Appends.single (P := fun e => e.lines = []) none).flatMap_eq fun _ none => none

/-- The ring holds the last lines, and lines are strings. -/
structure HistoryInv (s : Sys) : Prop where
  keeps : s.srv.history.Keeps ((linesOf s.log).map (.strncpy chatMaxBody))
  strings : ∀ line ∈ linesOf s.log, 0 ∉ line

namespace HistoryInv

variable {s s' : Sys}

theorem init : HistoryInv Sys.init := ⟨Ring.Keeps.nil rfl, nofun⟩

theorem of_same (h : HistoryInv s) (history : s'.srv.history = s.srv.history)
    (lines : linesOf s'.log = linesOf s.log) : HistoryInv s' := by
  constructor
  · rw [history, lines]
    exact h.keeps
  · rw [lines]
    exact h.strings

theorem processFrame (h : HistoryInv s) (env : Env) (c : Slot) (f : Frame) (need : Nat) :
    HistoryInv (Chat.processFrame env c f need s) := by
  obtain ⟨s', handled, eq⟩ := processFrame_case env c f need s
  have history : (Chat.processFrame env c f need s).srv.history = s'.srv.history := by
    rw [eq]
    rfl
  have lines : linesOf (Chat.processFrame env c f need s).log = linesOf s'.log := by
    rw [eq]
    rfl
  have noted : linesOf (s.log ++ [.frame c f]) = linesOf s.log := linesOf_snoc _ rfl
  cases handled with
  | quiet sends =>
      exact h.of_same history (lines.trans ((linesOf_of_sending sends.appends_sending).trans noted))
  | @join nick accepted =>
      have admitted := acceptJoin_case env c nick (s.note (.frame c f))
      refine h.of_same (history.trans (by rw [admitted.srv]; rfl)) (lines.trans ?_)
      exact (linesOf_of_sending admitted.sends.appends_sending).trans noted
  | privateMsg _ =>
      exact h.of_same history (lines.trans
        ((linesOf_of_sending (sendPrivate_sends _ _ _ _ _ _).appends_sending).trans noted))
  | broadcast _ joined =>
      rw [handleBroadcast_of_joined env joined] at history lines
      have built : linesOf (Chat.processFrame env c f need s).log =
          linesOf s.log ++ [broadcastLine (s.srv.clients c).nick.bytes f.body] := by
        rw [lines, Sys.log_withLog,
          linesOf_of_sending (sendAll_sends _ _ _ _ _ _).appends_sending]
        exact (linesOf_append _ _).trans (congrArg (· ++ _) noted)
      constructor
      · rw [built, history, List.map_append]
        exact h.keeps.push _
      · rw [built]
        intro line mem
        rcases List.mem_append.mp mem with old | new
        · exact h.strings line old
        · rw [List.mem_singleton.mp new]
          exact zero_not_mem_broadcastLine _ _

theorem closeSlot (h : HistoryInv s) (c : Slot) : HistoryInv (Chat.closeSlot c s) :=
  h.of_same (closeSlot_history c s) (by
    obtain ⟨added, eq, -, lines, -, -⟩ := closeSlot_silent 0 c s
    rw [eq, linesOf_append, lines, List.append_nil])

theorem act (h : HistoryInv s) (env : Env) {a : Action} (enabled : Enabled s a) :
    HistoryInv (Chat.act env s a) := by
  cases a with
  | accept fd =>
      have accepted : HistoryInv (s.note (.accept fd)) :=
        h.of_same rfl (linesOf_snoc _ rfl)
      rcases acceptClient_cases env fd s with ⟨i, added, eq⟩ | ⟨-, eq⟩
      · obtain ⟨-, -, -, log, history⟩ := addClient_some added
        rw [Chat.act, eq]
        exact accepted.of_same history (congrArg linesOf log)
      · obtain ⟨d, d', out, out', told⟩ := turnAway_eq env fd (s.note (.accept fd))
        rw [Chat.act, eq, told]
        refine accepted.of_same rfl ?_
        rw [Sys.log_withLog, linesOf_snoc _ rfl, linesOf_snoc _ rfl, linesOf_snoc _ rfl]
  | recv i data => exact h.of_same rfl (linesOf_snoc _ rfl)
  | frame c =>
      obtain ⟨-, f, need, scan⟩ := enabled
      rw [act_frame scan]
      exact h.processFrame env c f need
  | invalid c => exact h.closeSlot c
  | remove c =>
      rw [Chat.act, removeClientIndex]
      split
      · refine HistoryInv.closeSlot ?_ c
        exact h.of_same rfl (linesOf_of_sending (sendAll_sends _ _ _ _ _ _).appends_sending)
      · exact h.closeSlot c

end HistoryInv

theorem Reachable.historyInv {env : Env} {s : Sys} (reach : Reachable env s) : HistoryInv s := by
  obtain ⟨as, run⟩ := reach
  exact run.preserves HistoryInv.init fun h enabled => h.act env enabled

/-! ## A newcomer -/

theorem filter_isLine_answers {ms : List Message} (answers : ∀ m ∈ ms, m.type.isAnswer = true) :
    ms.filter Message.isLine = [] := by
  refine List.filter_eq_nil_iff.mpr fun m mem => ?_
  have answer := answers m mem
  unfold Message.isLine
  cases type : m.type <;> first | decide | (rw [type] at answer; cases answer)

/-- Clients that have not joined were sent no line of the chat. -/
structure UnjoinedInv (env : Env) (s : Sys) : Prop where
  inv : Inv s
  silent : ∀ i, (s.srv.clients i).used = true → (s.srv.clients i).joined = false →
    env.Delivers (s.srv.clients i).fd →
    (received (s.srv.clients i).fd s.log).filter Message.isLine = []

theorem UnjoinedInv.act {env : Env} {s : Sys} {a : Action} (h : UnjoinedInv env s)
    (enabled : Enabled s a) : UnjoinedInv env (Chat.act env s a) := by
  refine ⟨h.inv.act env enabled, fun i used fresh ok => ?_⟩
  cases before : (s.srv.clients i).used with
  | false =>
      rw [act_opens enabled before used, received_accept]
      rfl
  | true =>
      obtain ⟨fd, keeps⟩ := act_stays enabled before used
      rw [fd] at ok ⊢
      cases joined : (s.srv.clients i).joined with
      | true =>
          rw [keeps joined] at fresh
          cases fresh
      | false =>
          obtain ⟨ms, lines, answers, adds⟩ := act_unjoined h.inv enabled before joined fresh ok
          rw [adds.received_eq, List.filter_append, h.silent i before joined ok,
            filter_isLine_answers answers]
          rfl

theorem Reachable.unjoinedInv {env : Env} {s : Sys} (reach : Reachable env s) :
    UnjoinedInv env s := by
  obtain ⟨as, run⟩ := reach
  exact run.preserves ⟨.init, fun _ used => by cases used⟩ fun h enabled => h.act enabled

/-! ## Live traffic -/

def historyMessage (line : Bytes) : Message := ⟨.history, line.take chatMaxBody⟩

def broadcastMessage (line : Bytes) : Message := ⟨.broadcast, line.take chatMaxBody⟩

/-- The lines `new` are built and broadcast to `fd`, which is sent no other line. -/
def Hears (fd : Fd) (new : List Bytes) (l l' : Log) : Prop :=
  linesOf l' = linesOf l ++ new ∧ (received fd l').filter Message.isLine =
    (received fd l).filter Message.isLine ++ new.map broadcastMessage

theorem Hears.of_adds {fd : Fd} {ms : List Message} {new : List Bytes} {l l' : Log}
    (h : Adds fd ms new l l') (heard : ms.filter Message.isLine = new.map broadcastMessage) :
    Hears fd new l l' :=
  ⟨h.linesOf_eq, by rw [h.received_eq, List.filter_append, heard]⟩

/-- Of the messages of an action, the lines are those that it builds. -/
theorem Observed.adds {env : Env} {o : Slot} {s s' : Sys} {a : Action}
    (h : Observed env o s a s') : ∃ ms new, Adds (s.srv.clients o).fd ms new s.log s'.log ∧
      ms.filter Message.isLine = new.map broadcastMessage := by
  cases h with
  | quiet ms _ _ replies adds =>
      refine ⟨ms, [], adds, List.filter_eq_nil_iff.mpr fun m mem => ?_⟩
      unfold Message.isLine
      rcases replies m mem with ⟨type, -⟩ | ⟨-, answer⟩
      · rw [type]
        decide
      · cases type : m.type <;> first | decide | (rw [type] at answer; cases answer)
  | @spoke line _ _ _ adds => exact ⟨_, [line], adds, rfl⟩
  | joins _ _ _ _ _ _ _ verdict adds =>
      refine ⟨_, [], adds, ?_⟩
      rcases verdict with ⟨-, rfl⟩ | ⟨-, rfl⟩ <;> rfl
  | leaves _ _ _ _ _ verdict adds =>
      refine ⟨_, [], adds, ?_⟩
      rcases verdict with ⟨-, rfl⟩ | ⟨-, rfl⟩ <;> rfl

/-- A joined client hears the lines of an action. -/
theorem Observed.hears {env : Env} {o : Slot} {s s' : Sys} {a : Action}
    (h : Observed env o s a s') : ∃ new, Hears (s.srv.clients o).fd new s.log s'.log := by
  obtain ⟨ms, new, adds, heard⟩ := h.adds
  exact ⟨new, .of_adds adds heard⟩

/-- Over a run in which it stays joined, a client hears all lines in order. -/
theorem Run.hears {env : Env} {i : Slot} {s s' : Sys} {as : List Action} (inv : Inv s)
    (run : Run env s as s') (ok : env.Delivers (s.srv.clients i).fd)
    (stays : Throughout env (fun s => (s.srv.clients i).joined = true) s as) :
    (s'.srv.clients i).fd = (s.srv.clients i).fd ∧
      ∃ new, Hears (s.srv.clients i).fd new s.log s'.log := by
  induction run with
  | nil s => exact ⟨rfl, [], by simp [Hears]⟩
  | @cons s s' a as enabled _ ih =>
      have next := inv.act env enabled
      have joined := stays.1
      have still := stays.2.head
      have fd := (act_stays enabled (inv.used_of_joined joined) (next.used_of_joined still)).1
      obtain ⟨new, lines, heard⟩ := (act_observed inv enabled joined still ok).hears
      obtain ⟨fd', new', lines', heard'⟩ := ih next (fd ▸ ok) stays.2
      rw [fd] at fd' heard'
      refine ⟨fd', new ++ new', ?_, ?_⟩
      · rw [lines', lines, List.append_assoc]
      · rw [heard', heard, List.map_append, List.append_assoc]

/-! ## Both together -/

/-- The greeting repeats the last lines of the chat. -/
theorem greeting_lines {s : Sys} (h : HistoryInv s) (c : Client) :
    (greeting c s.srv.history.toList).filter Message.isLine =
      (lastN historyLines (linesOf s.log)).map historyMessage := by
  have cut : ∀ line ∈ linesOf s.log,
      (⟨.history, (CStr.strncpy chatMaxBody line).bytes⟩ : Message) = historyMessage line := by
    intro line mem
    rw [CStr.bytes_strncpy, cstr_eq_self (h.strings line mem)]
    rfl
  have all : s.srv.history.toList.map (fun line => (⟨.history, line.bytes⟩ : Message)) =
      (lastN historyLines (linesOf s.log)).map historyMessage := by
    rw [h.keeps, lastN, List.length_map, ← List.map_drop, List.map_map]
    exact List.map_congr_left fun line mem => cut line (List.mem_of_mem_drop mem)
  rw [greeting, List.filter_cons_of_neg (by simp [Message.isLine]), all]
  exact List.filter_eq_self.mpr fun m mem => by
    obtain ⟨line, -, rfl⟩ := List.mem_map.mp mem
    rfl

theorem payloads_filter_isLine {type : MsgType} (line : type = .history ∨ type = .broadcast)
    (ms : List Message) : payloads type (ms.filter Message.isLine) = payloads type ms := by
  rw [payloads, payloads, List.filter_filter]
  congr 1
  refine List.filter_congr fun m _ => ?_
  by_cases same : m.type = type
  · rcases line with rfl | rfl <;> simp [same, Message.isLine]
  · simp [same]

theorem payloads_append (type : MsgType) (ms ms' : List Message) :
    payloads type (ms ++ ms') = payloads type ms ++ payloads type ms' := by
  rw [payloads, List.filter_append, List.map_append]
  rfl

/-- Messages of one type are picked out all or not at all. -/
theorem payloads_map (type type' : MsgType) (lines : List Bytes) :
    payloads type (lines.map fun line => ⟨type', line.take chatMaxBody⟩) =
      if type' = type then lines.map (·.take chatMaxBody) else [] := by
  induction lines with
  | nil => split <;> rfl
  | cons line lines ih =>
      rw [List.map_cons, ← List.singleton_append, payloads_append, ih]
      by_cases same : type' = type <;> simp [payloads, same]

/-- **History, then live traffic.** A client that joined when the chat had `n`
lines and is still joined has been sent, history first, exactly the lines of the
chat from `min n 32` before its admission on. -/
theorem history_then_live (env : Env) (i : Slot) (s₀ s : Sys) (as : List Action)
    (reach : Reachable env s₀) (joins : Enabled s₀ (.frame i))
    (before : (s₀.srv.clients i).joined = false)
    (run : Run env (act env s₀ (.frame i)) as s)
    (stays : Throughout env (fun s => (s.srv.clients i).joined = true)
      (act env s₀ (.frame i)) as)
    (ok : ∀ fd, env.Delivers fd) :
    let n := (cutLines s₀.log).length
    let sent := received (s.srv.clients i).fd s.log
    payloads .history sent ++ payloads .broadcast sent =
        (cutLines s.log).drop (n - min n historyLines) ∧
      (sent.filter Message.isLine).map Message.body =
        (cutLines s.log).drop (n - min n historyLines) := by
  intro n sent
  obtain ⟨used, f, need, scan⟩ := joins
  have inv := reach.inv
  have next : Inv (act env s₀ (.frame i)) := inv.act env ⟨used, f, need, scan⟩
  rw [act_frame scan] at run stays next
  have joined := stays.head
  obtain ⟨-, greeted⟩ := processFrame_joins inv used (ok _) before joined
  have sameFd : ((processFrame env i f need s₀).srv.clients i).fd = (s₀.srv.clients i).fd :=
    (processFrame_sameConn env i f need s₀).1
  obtain ⟨fd, new, lines, heard⟩ := run.hears next (ok _) stays
  -- all chat lines on the connection, in the order they were sent
  have all : sent.filter Message.isLine =
      (lastN historyLines (linesOf s₀.log)).map historyMessage ++ new.map broadcastMessage := by
    rw [show sent = received (s₀.srv.clients i).fd s.log from by rw [← sameFd, ← fd], ← sameFd,
      heard, sameFd, greeted.received_eq, List.filter_append,
      reach.unjoinedInv.silent i used before (ok _), greeting_lines reach.historyInv]
    rfl
  have whole : (lastN historyLines (linesOf s₀.log)).map (·.take chatMaxBody) ++
      new.map (·.take chatMaxBody) = (cutLines s.log).drop (n - min n historyLines) := by
    have len : n = (linesOf s₀.log).length := List.length_map _
    rw [cutLines, lines, greeted.linesOf_eq, List.append_nil, List.map_append,
      List.drop_append_of_le_length (by rw [List.length_map]; omega), lastN, ← List.map_drop]
    congr 3
    omega
  constructor
  · rw [← payloads_filter_isLine (Or.inl rfl), ← payloads_filter_isLine (Or.inr rfl), all, ← whole]
    unfold historyMessage broadcastMessage
    rw [payloads_append, payloads_append, payloads_map, payloads_map, payloads_map, payloads_map,
      if_pos rfl, if_neg (by decide), if_neg (by decide), if_pos rfl, List.append_nil,
      List.nil_append]
  · rw [all, ← whole, List.map_append, List.map_map, List.map_map]
    rfl

/-- Ann says two things, Bob joins, and both say one more. -/
theorem history_then_live_first :
    let line (text : String) := (Message.frame ⟨.broadcast, ascii text⟩).encode
    let s₀ := (arrival 0 4 "ann" ++ [Action.recv 0 (line "hi" ++ line "anyone?"), .frame 0,
      .frame 0, .accept 5, .recv 1 (Message.frame ⟨.join, ascii "bob"⟩).encode]).foldl
      (act .smooth) .init
    let live := [Action.recv 1 (line "me"), .frame 1, .recv 0 (line "bob!"), .frame 0]
    let s := live.foldl (act .smooth) (act .smooth s₀ (.frame 1))
    let sent := received (s.srv.clients 1).fd s.log
    payloads .history sent = [ascii "ann: hi", ascii "ann: anyone?"] ∧
      payloads .history sent ++ payloads .broadcast sent =
        [ascii "ann: hi", ascii "ann: anyone?", ascii "bob: me", ascii "ann: bob!"] := by
  intro line s₀ live s sent
  have reach : Reachable .smooth s₀ := ⟨_, .of_enabled (by decide +kernel)⟩
  have run : Run .smooth (act .smooth s₀ (.frame 1)) live s := .of_enabled (by decide +kernel)
  have stays : Throughout .smooth (fun s => (s.srv.clients 1).joined = true)
      (act .smooth s₀ (.frame 1)) live := by decide +kernel
  have all := history_then_live .smooth 1 s₀ s _ reach (by decide +kernel) (by decide +kernel)
    run stays Env.smooth_delivers
  exact ⟨by decide +kernel, all.1.trans (by decide +kernel)⟩

end Osisp.Chat
