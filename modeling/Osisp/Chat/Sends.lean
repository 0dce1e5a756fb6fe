import Osisp.Chat.Server

/-!
# What the server's functions send

`Sends env P l l'` says that the trace grew from `l` to `l'` by calls of
`send_frame` alone, each to a descriptor and with a message allowed by `P`. It
is the one fact about the network effect of a loop or a handler from which the
rest follows: which descriptors are touched (`Sends.appends`) and, where writes
get through, that the byte stream is the encoding of the messages
(`Sends.stream`).
-/

namespace Osisp.Chat

open Lib

/-- `l'` comes from `l` by `send_frame` calls that satisfy `P`. -/
inductive Sends (env : Env) (P : Fd → Message → Prop) : Log → Log → Prop
  | refl (l : Log) : Sends env P l l
  | send {l l' : Log} {fd : Fd} {m : Message} :
      Sends env P l l' → P fd m → Sends env P l (sendFrame env fd m.type m.body l').2

/-- A message that the event reports, sent or not, is one that `P` allows. -/
def Event.Reports (P : Fd → Message → Prop) : Event → Prop
  | .sent fd type body _ => P fd ⟨type, body⟩
  | _ => True

theorem Event.Reports.mono {P Q : Fd → Message → Prop} (imp : ∀ fd m, P fd m → Q fd m)
    {e : Event} (h : e.Reports P) : e.Reports Q := by
  cases e with
  | sent fd type body ok => exact imp fd ⟨type, body⟩ h
  | _ => trivial

namespace Sends

variable {env : Env} {P Q : Fd → Message → Prop} {l l' l'' : Log}

theorem one {fd : Fd} {type : MsgType} {body : Bytes} (h : P fd ⟨type, body⟩) (l : Log) :
    Sends env P l (sendFrame env fd type body l).2 :=
  .send (m := ⟨type, body⟩) (.refl l) h

theorem trans (first : Sends env P l l') (second : Sends env P l' l'') : Sends env P l l'' := by
  induction second with
  | refl => exact first
  | send _ allowed ih => exact .send ih allowed

theorem mono (h : Sends env P l l') (imp : ∀ fd m, P fd m → Q fd m) : Sends env Q l l' := by
  induction h with
  | refl => exact .refl _
  | send _ allowed ih => exact .send ih (imp _ _ allowed)

/-- Only allowed descriptors are touched. -/
theorem appends (h : Sends env P l l') :
    Appends (fun e => ∃ fd m, P fd m ∧ e.ToFd fd) l l' := by
  induction h with
  | refl => exact .refl _
  | send _ allowed ih =>
      exact ih.trans ((sendFrame_appends env _ _ _ _).mono fun e toFd => ⟨_, _, allowed, toFd⟩)

theorem appends_sending (h : Sends env P l l') : Appends Event.Sending l l' :=
  h.appends.mono fun _ ⟨_, _, _, toFd⟩ => toFd.sending

/-- Nothing is sent on a descriptor that `P` does not allow. -/
theorem onFd_eq (h : Sends env P l l') {fd : Fd} (never : ∀ m, ¬ P fd m) :
    onFd fd l' = onFd fd l := by
  induction h with
  | refl => rfl
  | @send l' fd' m _ allowed ih =>
      have ne : fd ≠ fd' := fun eq => never m (eq ▸ allowed)
      rw [onFd_of_other (sendFrame_appends env fd' m.type m.body l') ne, ih]

theorem messagesTo_eq (h : Sends env P l l') (fd : Fd) (never : ∀ m, ¬ P fd m) :
    messagesTo fd l' = messagesTo fd l := by
  induction h with
  | refl => rfl
  | @send l' fd' m _ allowed ih =>
      have ne : fd ≠ fd' := fun eq => never m (eq ▸ allowed)
      rw [messagesTo_of_other (sendFrame_appends env fd' m.type m.body l') ne, ih]

/-- Where writes get through, the stream grows by the encodings of the messages
sent, all of them allowed. -/
theorem stream (h : Sends env P l l') {fd : Fd} (ok : env.Delivers fd) :
    ∃ ms, messagesTo fd l' = messagesTo fd l ++ ms ∧
      bytesTo fd l' = bytesTo fd l ++ chatCodec.encodeAll (ms.map Message.frame) ∧
        ∀ m ∈ ms, P fd m := by
  induction h with
  | refl => exact ⟨[], by simp⟩
  | @send l' fd' m _ allowed ih =>
      obtain ⟨ms, messages, bytes, all⟩ := ih
      by_cases eq : fd = fd'
      · subst eq
        refine ⟨ms ++ [m], ?_, ?_, ?_⟩
        · rw [messagesTo_sendFrame ok, messages, List.append_assoc]
        · rw [bytesTo_sendFrame ok, bytes, List.map_append, Codec.encodeAll_append,
            List.append_assoc]
          simp
        · intro m' mem
          rcases List.mem_append.mp mem with old | new
          · exact all m' old
          · rw [List.mem_singleton.mp new]
            exact allowed
      · refine ⟨ms, ?_, ?_, all⟩
        · rw [messagesTo_of_other (sendFrame_appends env fd' m.type m.body l') eq, messages]
        · rw [bytesTo_of_other (sendFrame_appends env fd' m.type m.body l') eq, bytes]

/-- What is reported as sent is allowed. -/
theorem reports (h : Sends env P l l') : Appends (Event.Reports P) l l' := by
  induction h with
  | refl => exact .refl _
  | @send l' fd m _ allowed ih =>
      obtain ⟨writes, only, eq⟩ := sendFrame_log env fd m.type m.body l'
      rw [eq, List.append_assoc]
      refine ih.trans ⟨_, rfl, fun e mem => ?_⟩
      rcases List.mem_append.mp mem with write | sent
      · obtain ⟨data, out, rfl⟩ := only e write
        trivial
      · rw [List.mem_singleton.mp sent]
        exact allowed

end Sends

/-! ## The loops over the slots and over the history -/

theorem mem_slots (i : Slot) : i ∈ slots := List.mem_finRange i

theorem nodup_slots : slots.Nodup := List.nodup_finRange maxClients

/-- Concatenating over the slots where only one contributes. -/
theorem flatMap_slots {β : Type} {g : Slot → List β} (c : Slot) (others : ∀ j, j ≠ c → g j = []) :
    slots.flatMap g = g c := by
  obtain ⟨below, above, split⟩ := List.append_of_mem (mem_slots c)
  have nodup := nodup_slots
  rw [split, List.nodup_append] at nodup
  obtain ⟨-, right, apart⟩ := nodup
  have none_below : below.flatMap g = [] :=
    List.flatMap_eq_nil_iff.mpr fun j mem => others j fun eq =>
      apart j mem c List.mem_cons_self eq
  have none_above : above.flatMap g = [] :=
    List.flatMap_eq_nil_iff.mpr fun j mem => others j fun eq =>
      (List.nodup_cons.mp right).1 (eq ▸ mem)
  rw [split, List.flatMap_append, List.flatMap_cons, none_below, none_above, List.append_nil,
    List.nil_append]

section SendAll

variable (env : Env) (t : Table) (type : MsgType) (body : Bytes) (skip : Option Slot) (log : Log)

/-- One round of `sendAll`. -/
def sendAllStep (log : Log) (i : Slot) : Log :=
  if !(t i).active then log
  else if skip = some i then log
  else (sendFrame env (t i).fd type body log).2

theorem sendAll_sends :
    Sends env (fun fd m => m = ⟨type, body⟩ ∧
      ∃ i, (t i).active ∧ skip ≠ some i ∧ (t i).fd = fd) log
      (sendAll env t type body skip log) := by
  unfold sendAll
  generalize slots = is
  induction is generalizing log with
  | nil => exact .refl _
  | cons i is ih =>
      rw [List.foldl_cons]
      refine Sends.trans ?_ (ih _)
      cases active : (t i).active with
      | false => exact .refl _
      | true =>
          by_cases skipped : skip = some i
          · simp only [if_pos skipped]
            exact .refl _
          · simp only [if_neg skipped]
            exact Sends.one ⟨rfl, i, active, skipped, rfl⟩ log

variable {env t skip} {i : Slot}

/-- Each joined client but the skipped one gets the message exactly once. -/
theorem messagesTo_sendAll (ok : env.Delivers (t i).fd) (active : (t i).active = true)
    (skipped : skip ≠ some i)
    (own : ∀ j, (t j).active = true → (t j).fd = (t i).fd → j = i) :
    messagesTo (t i).fd (sendAll env t type body skip log) =
      messagesTo (t i).fd log ++ [⟨type, body⟩] := by
  have general : ∀ (is : List Slot) (log : Log), is.Nodup →
      messagesTo (t i).fd (is.foldl (sendAllStep env t type body skip) log) =
        messagesTo (t i).fd log ++ if i ∈ is then [⟨type, body⟩] else [] := by
    intro is
    induction is with
    | nil => simp
    | cons j is ih =>
        intro log nodup
        obtain ⟨fresh, nodup⟩ := List.nodup_cons.mp nodup
        rw [List.foldl_cons, ih _ nodup]
        by_cases eq : j = i
        · subst eq
          have step : sendAllStep env t type body skip log j =
              (sendFrame env (t j).fd type body log).2 := by
            simp only [sendAllStep, active, Bool.not_true, Bool.false_eq_true, if_false,
              if_neg skipped]
          rw [step, messagesTo_sendFrame ok, if_neg fresh, if_pos List.mem_cons_self,
            List.append_nil]
        · have silent : messagesTo (t i).fd (sendAllStep env t type body skip log j) =
              messagesTo (t i).fd log := by
            unfold sendAllStep
            split
            · rfl
            · split
              · rfl
              · rename_i joined _
                have ne : (t i).fd ≠ (t j).fd := fun same =>
                  eq (own j (by simpa using joined) same.symm)
                exact messagesTo_of_other (sendFrame_appends env _ _ _ _) ne
          have mem : i ∈ j :: is ↔ i ∈ is := by
            rw [List.mem_cons, or_iff_right fun same => eq same.symm]
          simp only [silent, mem]
  have all := general slots log nodup_slots
  rwa [if_pos (mem_slots i)] at all

end SendAll

theorem sendLines_sends (env : Env) (fd : Fd) (lines : List (CStr chatMaxBody)) (log : Log) :
    Sends env (fun fd' m => fd' = fd ∧ m.type = .history ∧ ∃ line ∈ lines, m.body = line.bytes)
      log (sendLines env fd lines log) := by
  induction lines generalizing log with
  | nil => exact .refl _
  | cons line lines ih =>
      have body : (cstr line.bytes).take chatMaxBody = line.bytes := by
        rw [line.cstr_bytes, List.take_of_length_le line.fits]
      have first : Sends env (fun fd' m => fd' = fd ∧ m.type = .history ∧
          ∃ l ∈ line :: lines, m.body = l.bytes) log
          (sendFrame env fd .history line.bytes log).2 :=
        Sends.one ⟨rfl, rfl, line, List.mem_cons_self, rfl⟩ log
      unfold sendLines
      rw [body]
      dsimp only
      split
      · exact first
      · refine first.trans ((ih _).mono ?_)
        intro fd' m target
        rcases target with ⟨same, type, l, mem, eq⟩
        exact ⟨same, type, l, List.mem_cons_of_mem line mem, eq⟩

/-- The history goes out line by line while writes get through. -/
theorem messagesTo_sendLines {env : Env} {fd : Fd} (ok : env.Delivers fd)
    (lines : List (CStr chatMaxBody)) (log : Log) :
    messagesTo fd (sendLines env fd lines log) =
      messagesTo fd log ++ lines.map fun line => ⟨.history, line.bytes⟩ := by
  induction lines generalizing log with
  | nil => simp [sendLines]
  | cons line lines ih =>
      have body : (cstr line.bytes).take chatMaxBody = line.bytes := by
        rw [line.cstr_bytes, List.take_of_length_le line.fits]
      unfold sendLines
      rw [body]
      simp only [sendFrame_ok ok, Bool.not_true, Bool.false_eq_true, if_false]
      rw [ih, messagesTo_sendFrame ok, List.append_assoc]
      rfl

end Osisp.Chat
