import Osisp.Lib.Wire
import Osisp.Chat.ClientMain
import Osisp.Chat.History

/-!
# The server and its clients

The two programs together: one server and a client for each `k : ι`, with a connection
between them in which bytes are on their way. The server does what `Action` lists, each
client what `ClientAction` lists, and the connections deliver what was written, in
order, in pieces and with any delay. Nobody waits for anybody, so a run of the network
is any interleaving of all of these. A client that wants to come back is another `k`.

A connection may break at any time: either side may find it closed while bytes are
still on their way.
-/

namespace Osisp.Chat

open Lib

/-- What is given from outside: how the writes of the server and of the clients return,
and the nick that each client is started with. -/
structure Setting (ι : Type) where
  env : Env
  sock : ι → Fd
  nick : ι → CStr chatMaxNick
  userEnv : ι → Env

/-- How a connection stands with the server. -/
inductive Status
  | idle
  | linked
  | closed
  deriving DecidableEq

/-- A client and its connection to the server. -/
structure Link where
  status : Status
  proc : ClientProc
  /-- The server's descriptor, and the slot it is in unless the server is full. -/
  fd : Fd
  slot : Option Slot
  up : Wire UInt8
  down : Wire UInt8
  /-- The trace of the server while it held the connection. -/
  served : Log

namespace Link

/-- A client that has not been started. -/
def idle : Link where
  status := .idle
  proc := ⟨{ ClientSys.init with phase := .stopped }, ⟨.empty, [], [], true⟩⟩
  fd := -1
  slot := none
  up := .empty
  down := .empty
  served := []

/-- A client that has connected and sent its `JOIN`, before the server does anything. -/
def start (env : Env) (sock : Fd) (nick : CStr chatMaxNick) (fd : Fd) (slot : Option Slot) :
    Link where
  status := .linked
  proc := .start sock env nick
  fd := fd
  slot := slot
  up := Wire.empty.put (bytesTo sock (ClientProc.start sock env nick).user.log)
  down := .empty
  served := []

/-- The server has added `added` to its trace. -/
def hear (added : Log) (l : Link) : Link :=
  if l.status = .linked then
    { l with
      down := l.down.put (bytesTo l.fd added)
      served := l.served ++ added
      status := if .close l.fd ∈ added then .closed else .linked }
  else l

/-- The client acts, and what it writes is sent. -/
def act (env : Env) (sock : Fd) (a : ClientAction) (l : Link) : Link :=
  let p := clientAct env sock l.proc a
  { l with
    proc := p
    up := l.up.put (bytesTo sock (p.user.log.drop l.proc.user.log.length)) }

/-- The frames that the server has handled of this client. -/
def handled (l : Link) : List Frame :=
  match l.slot with
  | none => []
  | some i => framesFrom i l.served

/-- The frames that the client has printed. -/
def shown (l : Link) : List Frame := l.proc.rcv.out.filterMap Output.message

end Link

structure Net (ι : Type) where
  srv : Sys
  links : ι → Link

/-- What happens next in the network. -/
inductive NetAction (ι : Type)
  /-- Client `k` is started, and its connection is accepted as `fd`. -/
  | connect (k : ι) (fd : Fd)
  /-- The server receives `n` bytes from client `k`, in slot `i`. -/
  | upload (k : ι) (i : Slot) (n : Nat)
  /-- The server handles a frame, or drops a client. -/
  | serve (a : Action)
  /-- Client `k` receives `n` bytes. -/
  | download (k : ι) (n : Nat)
  /-- Client `k` does something else. -/
  | client (k : ι) (a : ClientAction)

/-- The actions by which nothing enters the server. -/
def Action.isInner : Action → Bool
  | .frame _ | .invalid _ | .remove _ => true
  | .accept _ | .recv _ _ => false

/-- The actions by which nothing enters the client. -/
def ClientAction.isOwn : ClientAction → Bool
  | .receive (.data _) => false
  | _ => true

namespace Net

variable {ι : Type}

def init : Net ι := ⟨.init, fun _ => .idle⟩

/-- The server acts, and what it writes is sent. -/
def serve (env : Env) (a : Action) (n : Net ι) : Net ι :=
  let srv := Chat.act env n.srv a
  ⟨srv, fun k => (n.links k).hear (srv.log.drop n.srv.log.length)⟩

variable [DecidableEq ι]

def setLink (k : ι) (l : Link) (n : Net ι) : Net ι :=
  ⟨n.srv, Function.update n.links k l⟩

end Net

section Actions

variable {ι : Type}

def NetEnabled (st : Setting ι) (n : Net ι) : NetAction ι → Prop
  | .connect k fd =>
      (n.links k).status = .idle ∧ 0 < (st.nick k).bytes.length ∧ Enabled n.srv (.accept fd)
  | .upload k i m =>
      (n.links k).status = .linked ∧ (n.links k).slot = some i ∧ 1 ≤ m ∧
        m ≤ (n.links k).up.pending.length ∧ m ≤ (n.srv.srv.clients i).inbuf.room
  | .serve a => a.isInner = true ∧ Enabled n.srv a
  | .download k m =>
      (n.links k).proc.rcv.phase ≠ .stopped ∧ 1 ≤ m ∧
        m ≤ (n.links k).down.pending.length ∧ m ≤ (n.links k).proc.rcv.rx.room
  | .client k a => a.isOwn = true ∧ ClientEnabled (n.links k).proc a

instance decidableNetEnabled (st : Setting ι) (n : Net ι) (x : NetAction ι) :
    Decidable (NetEnabled st n x) := by
  induction x using NetAction.casesOn <;> unfold NetEnabled <;> infer_instance

variable [DecidableEq ι]

def netAct (st : Setting ι) (n : Net ι) : NetAction ι → Net ι
  | .connect k fd =>
      let slot := (addClient fd (n.srv.note (.accept fd))).1
      (n.setLink k (.start (st.userEnv k) (st.sock k) (st.nick k) fd slot)).serve st.env
        (.accept fd)
  | .upload k i m =>
      let l := n.links k
      (n.setLink k { l with up := l.up.get m }).serve st.env (.recv i (l.up.pending.take m))
  | .serve a => n.serve st.env a
  | .download k m =>
      let l := n.links k
      let chunk := l.down.pending.take m
      n.setLink k
        { l.act (st.userEnv k) (st.sock k) (.receive (.data chunk)) with down := l.down.get m }
  | .client k a => n.setLink k ((n.links k).act (st.userEnv k) (st.sock k) a)

/-- `as` leads from `n` to `n'`. -/
abbrev NetRun (st : Setting ι) : Net ι → List (NetAction ι) → Net ι → Prop :=
  Lib.Run (NetEnabled st) (netAct st)

/-- The states of the network. -/
def NetReachable (st : Setting ι) (n : Net ι) : Prop := ∃ as, NetRun st .init as n

end Actions

/-! ## What an action adds to the trace of the server -/

/-- An event that the action `a` can add. -/
inductive Event.Of (s : Sys) (a : Action) : Event → Prop
  | handler {e : Event} : e.OfHandler → Event.Of s a e
  | accept {fd : Fd} : a = .accept fd → Event.Of s a (.accept fd)
  | recv {i : Slot} {data : Bytes} (fd : Fd) (taken : Bytes) :
    a = .recv i data → Event.Of s a (.recv fd taken)
  | frame {i : Slot} (f : Frame) : a = .frame i → Event.Of s a (.frame i f)
  | close {i : Slot} {fd : Fd} :
    a = .invalid i ∨ a = .remove i → fd = (s.srv.clients i).fd → Event.Of s a (.close fd)
  /-- A connection that is turned away. -/
  | refused {fd : Fd} : a = .accept fd → Event.Of s a (.close fd)

section Added

variable (env : Env) (s : Sys)

theorem log_removeClientIndex (i : Slot) :
    ∃ sends : Log, (∀ e ∈ sends, e.Sending) ∧
      (removeClientIndex env i s).log = (closeSlot i (s.withLog (s.log ++ sends))).log := by
  unfold removeClientIndex
  dsimp only
  split
  · obtain ⟨sends, eq, sending⟩ := (sendAll_sends env s.srv.clients .notify
      ((cstr (partNote (s.srv.clients i).nick.bytes)).take chatMaxBody) (some i)
      s.log).appends_sending
    refine ⟨sends, sending, ?_⟩
    rw [← eq]
    rfl
  · refine ⟨[], List.forall_mem_nil _, ?_⟩
    rw [List.append_nil]
    rfl

theorem act_events (a : Action) : Appends (Event.Of s a) s.log (act env s a).log := by
  have handlers : ∀ {l l' : Log}, Appends Event.OfHandler l l' → Appends (Event.Of s a) l l' :=
    fun h => h.mono fun _ => .handler
  cases a with
  | accept fd =>
      have accepted : Appends (Event.Of s (.accept fd)) s.log (s.log ++ [.accept fd]) :=
        .single (.accept rfl)
      change Appends _ s.log (acceptClient env fd s).log
      rcases acceptClient_cases env fd s with ⟨i, added, eq⟩ | ⟨-, eq⟩
      · obtain ⟨-, -, -, log, -⟩ := addClient_some added
        rw [eq, log]
        exact accepted
      · obtain ⟨d, d', out, out', away⟩ := turnAway_eq env fd (s.note (.accept fd))
        rw [eq, away]
        refine accepted.trans ((Appends.trans (.single ?_) (.single ?_)).trans (.single ?_))
        · exact .handler (.inl trivial)
        · exact .handler (.inl trivial)
        · exact .refused rfl
  | recv i data => exact .single (.recv _ _ rfl)
  | frame i =>
      cases scan : scanFrame (s.srv.clients i).inbuf.bytes with
      | more =>
          simp only [act, scan]
          exact .refl _
      | bad =>
          simp only [act, scan]
          exact .refl _
      | frame f need =>
          rw [act_frame scan]
          exact Appends.trans (.single (.frame f rfl)) (handlers (log_processFrame env i f need s))
  | invalid i =>
      change Appends _ s.log (closeSlot i s).log
      rw [log_closeSlot]
      split
      · exact .single (.close (.inl rfl) rfl)
      · exact .refl _
  | remove i =>
      obtain ⟨sends, sending, eq⟩ := log_removeClientIndex env s i
      change Appends _ s.log (removeClientIndex env i s).log
      rw [eq, log_closeSlot]
      have sent : Appends (Event.Of s (.remove i)) s.log (s.log ++ sends) :=
        ⟨sends, rfl, fun e mem => .handler (.inl (sending e mem))⟩
      split
      · exact sent.trans (.single (.close (.inr rfl) rfl))
      · exact sent

/-- What the action adds. -/
def addedBy (a : Action) : Log := (act env s a).log.drop s.log.length

variable {a : Action}

theorem log_act (a : Action) : (act env s a).log = s.log ++ addedBy env s a := by
  obtain ⟨added, eq, -⟩ := act_events env s a
  rw [addedBy, eq, List.drop_left]

variable {env s}

theorem of_mem_addedBy {e : Event} (mem : e ∈ addedBy env s a) : Event.Of s a e := by
  obtain ⟨added, eq, all⟩ := act_events env s a
  rw [addedBy, eq, List.drop_left] at mem
  exact all e mem

/-- The frames of a slot are its own action. -/
theorem framesFrom_addedBy {i : Slot} (other : a ≠ .frame i) :
    framesFrom i (addedBy env s a) = [] := by
  refine List.flatMap_eq_nil_iff.mpr fun e mem => ?_
  cases of_mem_addedBy mem with
  | handler h =>
      rcases h with sending | ⟨text, rfl⟩
      · cases e <;> first | rfl | cases sending
      · rfl
  | accept => rfl
  | recv => rfl
  | close => rfl
  | refused => rfl
  | frame f eq =>
      refine if_neg fun same => other ?_
      rw [eq, same]

end Added

/-! ## Which connection is in which slot -/

/-- The action ends the connection in slot `i`. -/
def Action.Ends (i : Slot) (a : Action) : Prop := a = .invalid i ∨ a = .remove i

section Slots

variable {env : Env} {s : Sys} {a : Action} {i : Slot}

/-- A connection is closed by the actions that end it. -/
theorem close_mem_iff (inv : Inv s) (enabled : Enabled s a)
    (used : (s.srv.clients i).used = true) :
    .close (s.srv.clients i).fd ∈ addedBy env s a ↔ a.Ends i := by
  constructor
  · intro mem
    cases of_mem_addedBy mem with
    | handler h =>
        rcases h with sending | ⟨text, eq⟩
        · cases sending
        · cases eq
    | refused eq =>
        rw [eq] at enabled
        exact absurd ((inv.opened _).mpr ⟨i, used, rfl⟩) enabled.2
    | @close j fd ends same =>
        have usedJ : (s.srv.clients j).used = true := by
          rcases ends with rfl | rfl
          · exact enabled.1
          · exact enabled
        rw [inv.distinct i j used usedJ same]
        exact ends
  · have nonneg := inv.nonneg i used
    rintro (rfl | rfl)
    · have log : (act env s (.invalid i)).log = s.log ++ [.close (s.srv.clients i).fd] := by
        change (closeSlot i s).log = _
        rw [log_closeSlot, if_pos nonneg]
      rw [addedBy, log, List.drop_left]
      exact List.mem_singleton_self _
    · obtain ⟨sends, -, eq⟩ := log_removeClientIndex env s i
      have log : (act env s (.remove i)).log =
          s.log ++ (sends ++ [.close (s.srv.clients i).fd]) := by
        change (removeClientIndex env i s).log = _
        rw [eq, log_closeSlot]
        exact (if_pos nonneg).trans (List.append_assoc _ _ _)
      rw [addedBy, log, List.drop_left]
      exact List.mem_append_right _ (List.mem_singleton_self _)

/-- Such an action frees the slot. -/
theorem act_ends (ends : a.Ends i) : ((act env s a).srv.clients i).used = false := by
  rcases ends with rfl | rfl
  · exact congrArg Client.used (closeSlot_self i s)
  · change ((removeClientIndex env i s).srv.clients i).used = false
    rw [srv_removeClientIndex]
    exact congrArg Client.used (Sys.clients_setClient_self s i .free)

/-- Any other leaves the slot its connection. -/
theorem act_keeps (enabled : Enabled s a) (used : (s.srv.clients i).used = true)
    (goes : ¬ a.Ends i) : ((act env s a).srv.clients i).used = true ∧
      ((act env s a).srv.clients i).fd = (s.srv.clients i).fd := by
  have still : ((act env s a).srv.clients i).used = true := by
    by_cases own : a.slot = some i
    · cases a with
      | accept fd => cases own
      | recv j data =>
          cases own
          change ((recvInto i data s).srv.clients i).used = true
          unfold recvInto
          rw [Sys.clients_setClient_self]
          exact used
      | frame j =>
          cases own
          obtain ⟨-, f, need, scan⟩ := enabled
          rw [act_frame scan]
          exact (processFrame_sameConn env i f need s).2.1.trans used
      | invalid j =>
          cases own
          exact absurd (.inl rfl) goes
      | remove j =>
          cases own
          exact absurd (.inr rfl) goes
    · rw [act_of_other used own]
      exact used
  exact ⟨still, (act_stays enabled used still).1⟩

/-- Only an accepted connection fills a free slot. -/
theorem act_fills (enabled : Enabled s a) (free : (s.srv.clients i).used = false)
    (used : ((act env s a).srv.clients i).used = true) :
    ∃ fd, a = .accept fd ∧ (addClient fd (s.note (.accept fd))).1 = some i := by
  obtain ⟨fd, new⟩ : ∃ fd, Event.accept fd ∈ addedBy env s a := by
    refine ⟨((act env s a).srv.clients i).fd, ?_⟩
    rw [addedBy, act_opens enabled free used, List.drop_left]
    exact List.mem_singleton_self _
  cases of_mem_addedBy new with
  | handler h =>
      rcases h with sending | ⟨text, eq⟩
      · cases sending
      · cases eq
  | accept eq =>
      refine ⟨fd, eq, ?_⟩
      subst eq
      change ((acceptClient env fd s).srv.clients i).used = true at used
      rcases acceptClient_cases env fd s with ⟨j, added, same⟩ | ⟨full, -⟩
      · rw [added]
        by_cases own : i = j
        · rw [own]
        · obtain ⟨-, -, others, -⟩ := addClient_some added
          rw [same, others i own] at used
          cases free.symm.trans used
      · cases free.symm.trans (full i)

/-- What is added when a connection is accepted into a slot. -/
theorem addedBy_accept {fd : Fd} (added : (addClient fd (s.note (.accept fd))).1 = some i) :
    addedBy env s (.accept fd) = [.accept fd] ∧
      ((act env s (.accept fd)).srv.clients i).used = true ∧
      ((act env s (.accept fd)).srv.clients i).fd = fd := by
  have same : act env s (.accept fd) = (addClient fd (s.note (.accept fd))).2 := by
    rcases acceptClient_cases env fd s with ⟨j, -, same⟩ | ⟨full, -⟩
    · exact same
    · exact absurd (full i) (ne_true_of_eq_false (addClient_some added).1)
  obtain ⟨-, new, -, log, -⟩ := addClient_some added
  refine ⟨?_, ?_, ?_⟩
  · rw [addedBy, same, log]
    exact List.drop_left
  · rw [same, new]
  · rw [same, new]

/-- It has not joined. -/
theorem joined_accept {fd : Fd} (added : (addClient fd (s.note (.accept fd))).1 = some i) :
    ((act env s (.accept fd)).srv.clients i).joined = false := by
  change ((acceptClient env fd s).srv.clients i).joined = false
  obtain ⟨free, new, -⟩ := addClient_some added
  rcases acceptClient_cases env fd s with ⟨k, -, same⟩ | ⟨full, -⟩
  · rw [same, new]
    rfl
  · exact absurd (full i) (ne_true_of_eq_false free)

/-- A connection that finds no slot is closed again. -/
theorem addedBy_refuse {fd : Fd} (none : (addClient fd (s.note (.accept fd))).1 = none) :
    .close fd ∈ addedBy env s (.accept fd) ∧ (act env s (.accept fd)).srv = s.srv := by
  rcases acceptClient_cases env fd s with ⟨j, added, -⟩ | ⟨-, same⟩
  · cases none.symm.trans added
  · obtain ⟨d, d', out, out', away⟩ := turnAway_eq env fd (s.note (.accept fd))
    have log : (act env s (.accept fd)).log =
        s.log ++ ([.accept fd, .write fd d out, .write fd d' out', .close fd]) := by
      change (acceptClient env fd s).log = _
      rw [same, away]
      simp only [Sys.log_withLog, Sys.log_note, List.append_assoc, List.cons_append,
        List.nil_append]
    refine ⟨?_, ?_⟩
    · rw [addedBy, log, List.drop_left]
      simp only [List.mem_cons, true_or, or_true]
    · change (acceptClient env fd s).srv = s.srv
      rw [same, away]
      rfl

end Slots

/-! ## The links that the server holds -/

section Hear

variable {added : Log} {l : Link}

theorem Link.hear_of_linked (linked : l.status = .linked) : l.hear added =
    { l with
      down := l.down.put (bytesTo l.fd added)
      served := l.served ++ added
      status := if .close l.fd ∈ added then .closed else .linked } := if_pos linked

theorem Link.hear_of_not_linked (other : l.status ≠ .linked) : l.hear added = l := if_neg other

@[simp] theorem Link.slot_hear : (l.hear added).slot = l.slot := by
  unfold hear
  split <;> rfl

@[simp] theorem Link.fd_hear : (l.hear added).fd = l.fd := by
  unfold hear
  split <;> rfl

@[simp] theorem Link.proc_hear : (l.hear added).proc = l.proc := by
  unfold hear
  split <;> rfl

@[simp] theorem Link.up_hear : (l.hear added).up = l.up := by
  unfold hear
  split <;> rfl

theorem Link.hear_withUp (added : Log) (l : Link) (up : Wire UInt8) :
    Link.hear added { l with up := up } = { l.hear added with up := up } := by
  unfold Link.hear
  split <;> rfl

theorem Link.hear_linked_iff : (l.hear added).status = .linked ↔
    l.status = .linked ∧ .close l.fd ∉ added := by
  by_cases linked : l.status = .linked
  · rw [hear_of_linked linked]
    dsimp only
    split
    · rename_i closes
      exact iff_of_false (fun h => by cases h) fun h => h.2 closes
    · rename_i stays
      exact iff_of_true rfl ⟨linked, stays⟩
  · rw [hear_of_not_linked linked]
    exact iff_of_false linked fun h => linked h.1

end Hear

/-- The server holds link `l` in slot `i`. -/
structure Link.At (l : Link) (s : Sys) (i : Slot) : Prop where
  linked : l.status = .linked
  slot : l.slot = some i
  used : (s.srv.clients i).used = true
  fd : (s.srv.clients i).fd = l.fd

namespace Link.At

variable {env : Env} {s : Sys} {a : Action} {l : Link} {i j : Slot}

theorem slot_unique (h : l.At s i) (h' : l.At s j) : i = j :=
  Option.some.inj (h.slot.symm.trans h'.slot)

/-- The link is held on unless the action ends it. -/
theorem hear_iff (h : l.At s i) (inv : Inv s) (enabled : Enabled s a) :
    (l.hear (addedBy env s a)).status = .linked ↔ ¬ a.Ends i := by
  rw [hear_linked_iff, ← h.fd, close_mem_iff inv enabled h.used]
  exact and_iff_right h.linked

theorem hear (h : l.At s i) (inv : Inv s) (enabled : Enabled s a) (goes : ¬ a.Ends i) :
    (l.hear (addedBy env s a)).At (Chat.act env s a) i := by
  obtain ⟨used, fd⟩ := act_keeps enabled h.used goes
  exact ⟨(h.hear_iff inv enabled).mpr goes, slot_hear.trans h.slot, used,
    fd.trans (h.fd.trans fd_hear.symm)⟩

/-- The links held afterwards. -/
theorem hear_at_iff (inv : Inv s) (enabled : Enabled s a)
    (held : l.status = .linked → ∃ i, l.At s i) :
    (l.hear (addedBy env s a)).At (Chat.act env s a) j ↔ l.At s j ∧ ¬ a.Ends j := by
  constructor
  · intro after
    obtain ⟨i, before⟩ := held (hear_linked_iff.mp after.linked).1
    cases before.slot.symm.trans (slot_hear.symm.trans after.slot)
    exact ⟨before, (before.hear_iff inv enabled).mp after.linked⟩
  · exact fun h => h.1.hear inv enabled h.2

end Link.At

/-- The slots of the server and the links that it holds belong together. -/
structure Wired {ι : Type} (n : Net ι) : Prop where
  held : ∀ k, (n.links k).status = .linked → ∃ i, (n.links k).At n.srv i
  own : ∀ i, (n.srv.srv.clients i).used = true → ∃ k, (n.links k).At n.srv i
  one : ∀ k k' i, (n.links k).At n.srv i → (n.links k').At n.srv i → k = k'

namespace Wired

variable {ι : Type} {env : Env} {n : Net ι}

theorem init : Wired (Net.init : Net ι) where
  held _ linked := by cases linked
  own _ used := by cases used
  one _ _ _ held := by cases held.linked

/-- An action of the server by which nobody connects. -/
theorem serve (h : Wired n) (inv : Inv n.srv) {a : Action} (enabled : Enabled n.srv a)
    (old : ∀ fd, a ≠ .accept fd) : Wired (n.serve env a) where
  held k linked := by
    obtain ⟨i, at_⟩ := h.held k (Link.hear_linked_iff.mp linked).1
    exact ⟨i, at_.hear inv enabled ((at_.hear_iff inv enabled).mp linked)⟩
  own i used := by
    have goes : ¬ a.Ends i := fun ends => ne_true_of_eq_false (act_ends ends) used
    have used' : (n.srv.srv.clients i).used = true := by
      by_contra free
      obtain ⟨fd, eq, -⟩ := act_fills enabled (Bool.eq_false_iff.mpr free) used
      exact old fd eq
    obtain ⟨k, at_⟩ := h.own i used'
    exact ⟨k, at_.hear inv enabled goes⟩
  one k k' i at_ at_' :=
    h.one k k' i ((Link.At.hear_at_iff inv enabled (h.held k)).mp at_).1
      ((Link.At.hear_at_iff inv enabled (h.held k')).mp at_').1

variable [DecidableEq ι]

/-- A link whose client does something stays where it is. -/
theorem setLink (h : Wired n) {k : ι} {l : Link}
    (same : ∀ i, l.At n.srv i ↔ (n.links k).At n.srv i)
    (status : l.status = (n.links k).status) : Wired (n.setLink k l) := by
  have same' : ∀ k' i, ((n.setLink k l).links k').At n.srv i ↔ (n.links k').At n.srv i := by
    intro k' i
    by_cases own : k' = k
    · subst own
      rw [show (n.setLink k' l).links k' = l from Function.update_self ..]
      exact same i
    · rw [show (n.setLink k l).links k' = n.links k' from Function.update_of_ne own ..]
  refine ⟨fun k' linked => ?_, fun i used => ?_, fun k₁ k₂ i at₁ at₂ => ?_⟩
  · have linked' : (n.links k').status = .linked := by
      by_cases own : k' = k
      · subst own
        rw [← status]
        rwa [show (n.setLink k' l).links k' = l from Function.update_self ..] at linked
      · rwa [show (n.setLink k l).links k' = n.links k' from Function.update_of_ne own ..]
          at linked
    obtain ⟨i, at_⟩ := h.held k' linked'
    exact ⟨i, (same' k' i).mpr at_⟩
  · obtain ⟨k', at_⟩ := h.own i used
    exact ⟨k', (same' k' i).mpr at_⟩
  · exact h.one k₁ k₂ i ((same' k₁ i).mp at₁) ((same' k₂ i).mp at₂)

/-- A client connects. -/
theorem connect (h : Wired n) (inv : Inv n.srv) {k : ι} (idle : (n.links k).status = .idle)
    {fd : Fd} (enabled : Enabled n.srv (.accept fd)) {l : Link} (linked : l.status = .linked)
    (slot : l.slot = (addClient fd (n.srv.note (.accept fd))).1) (same : l.fd = fd) :
    Wired ((n.setLink k l).serve env (.accept fd)) := by
  have goes : ∀ i, ¬ (Action.accept fd).Ends i := by
    rintro i (eq | eq) <;> cases eq
  have new : ((n.setLink k l).serve env (.accept fd)).links k =
      l.hear (addedBy env n.srv (.accept fd)) :=
    congrArg (Link.hear _) (Function.update_self ..)
  have old : ∀ k', k' ≠ k → ((n.setLink k l).serve env (.accept fd)).links k' =
      (n.links k').hear (addedBy env n.srv (.accept fd)) := fun k' ne =>
    congrArg (Link.hear _) (Function.update_of_ne ne ..)
  -- the links of the others stay where they are
  have others : ∀ k', k' ≠ k → ∀ i,
      (((n.setLink k l).serve env (.accept fd)).links k').At (Chat.act env n.srv (.accept fd)) i ↔
        (n.links k').At n.srv i := by
    intro k' ne i
    rw [old k' ne, Link.At.hear_at_iff inv enabled (h.held k')]
    exact and_iff_left (goes i)
  -- the new one is where the server has put it
  have own : ∀ i,
      (((n.setLink k l).serve env (.accept fd)).links k).At (Chat.act env n.srv (.accept fd)) i ↔
        (addClient fd (n.srv.note (.accept fd))).1 = some i := by
    intro i
    rw [new]
    constructor
    · intro at_
      rw [← slot, ← Link.slot_hear]
      exact at_.slot
    · intro added
      obtain ⟨log, used, fdNew⟩ : addedBy env n.srv (.accept fd) = [.accept fd] ∧ _ :=
        addedBy_accept added
      refine ⟨Link.hear_linked_iff.mpr ⟨linked, ?_⟩, ?_, used, ?_⟩
      · rw [log, List.mem_singleton]
        exact fun eq => by cases eq
      · rw [Link.slot_hear, slot, added]
      · rw [Link.fd_hear, same]
        exact fdNew
  have free : ∀ i, (addClient fd (n.srv.note (.accept fd))).1 = some i →
      ∀ k', ¬ (n.links k').At n.srv i := by
    intro i added k' at_
    exact ne_true_of_eq_false (addClient_some added).1 at_.used
  refine ⟨fun k' linked' => ?_, fun i used => ?_, fun k₁ k₂ i at₁ at₂ => ?_⟩
  · by_cases ne : k' = k
    · subst ne
      cases added : (addClient fd (n.srv.note (.accept fd))).1 with
      | some i => exact ⟨i, (own i).mpr added⟩
      | none =>
          rw [new, Link.hear_linked_iff, same] at linked'
          exact absurd (addedBy_refuse added).1 linked'.2
    · rw [old k' ne] at linked'
      obtain ⟨i, at_⟩ := h.held k' (Link.hear_linked_iff.mp linked').1
      exact ⟨i, (others k' ne i).mpr at_⟩
  · by_cases used' : (n.srv.srv.clients i).used = true
    · obtain ⟨k', at_⟩ := h.own i used'
      have ne : k' ≠ k := by
        rintro rfl
        cases idle.symm.trans at_.linked
      exact ⟨k', (others k' ne i).mpr at_⟩
    · obtain ⟨fd', eq, added⟩ := act_fills enabled (Bool.eq_false_iff.mpr used') used
      cases eq
      exact ⟨k, (own i).mpr added⟩
  · by_cases ne₁ : k₁ = k <;> by_cases ne₂ : k₂ = k
    · rw [ne₁, ne₂]
    · subst ne₁
      exact absurd ((others k₂ ne₂ i).mp at₂) (free i ((own i).mp at₁) k₂)
    · subst ne₂
      exact absurd ((others k₁ ne₁ i).mp at₁) (free i ((own i).mp at₂) k₁)
    · exact h.one k₁ k₂ i ((others k₁ ne₁ i).mp at₁) ((others k₂ ne₂ i).mp at₂)

end Wired

end Osisp.Chat
