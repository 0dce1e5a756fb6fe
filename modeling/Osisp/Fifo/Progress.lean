import Osisp.Fifo.Replies

/-!
# When the server is stuck

The server opens the FIFO of the client it answers, and that `open` waits for the
client to open it too. A client that dies after its request is written and before
it opens its FIFO leaves the FIFO behind, and the server waits for good
(`abandoned_blocks`). Nothing else stops it: as long as no client dies in that
window, every request is on its way (`server_progress`).
-/

namespace Osisp.Fifo

open Lib

/-! ## Blocked states -/

/-- The server waits in the `open` of the FIFO of a client that is gone. -/
def BlockedOnDead (s : Sys) : Prop :=
  ∃ req resp, s.server = .serving req ∧ processRequest req = .answer resp ∧
    s.client req.clientPid = .dead ∧ s.inbox req.clientPid ≠ none

/-- A call of the server, or of a client that is in `send_request`. -/
def Proceeds : Action → Prop
  | .mkfifo _ _ _ | .crash _ => False
  | _ => True

/-- The unread requests. -/
def Sys.unread (s : Sys) : List Request := s.pipe.records Request.decode Request.sizeof

/-- The request whose client's FIFO is opened next. -/
def ServerPc.opens : ServerPc → Option Request
  | .serving req => some req
  | _ => none

/-- A client dies and leaves a request behind that the server is going to answer. -/
def Abandons (s : Sys) : Action → Prop
  | .crash p => ∃ req ∈ s.server.opens.toList ++ s.unread,
      req.clientPid = p ∧ processRequest req ≠ .silent
  | _ => False

instance (s : Sys) (a : Action) : Decidable (Abandons s a) := by
  induction a using Action.casesOn <;> unfold Abandons <;> infer_instance

variable {s s' : Sys} {a : Action} {as : List Action} {queue out : List Request}
  {p : Pid} {req : Request} {capacity : Nat}

theorem unread_eq (holds : s.pipe.Holds Request.encode queue) : s.unread = queue :=
  holds.records Request.length_encode sizeof_pos Request.decode_encode

/-- Nobody removes the FIFO of a dead client. -/
theorem inbox_act_dead (enabled : Enabled capacity s a) (dead : s.client p = .dead)
    (fifo : s.inbox p ≠ none) : (act s a).inbox p ≠ none := by
  cases a with
  | mkfifo q type text =>
      have idle : s.client q = .idle := enabled
      have other : p ≠ q := by
        rintro rfl
        exact absurd (idle.symm.trans dead) (by simp)
      exact (Function.update_of_ne other _ _).trans_ne fifo
  | readOwn req =>
      have other : p ≠ req.clientPid := by
        rintro rfl
        exact absurd (enabled.1.symm.trans dead) (by simp)
      exact (Function.update_of_ne other _ _).trans_ne fifo
  | serverWrite req resp =>
      simp only [act]
      split
      · by_cases other : p = req.clientPid
        · rw [other]
          exact (Function.update_self _ _ _).trans_ne (Option.some_ne_none _)
        · exact (Function.update_of_ne other _ _).trans_ne fifo
      · exact fifo
  | openServer | write | serverOpen | serverRead =>
      simp only [act]
      split <;> exact fifo
  | closeServer | crash | serverClose | serverSkip | serverNoFifo | rendezvous
  | serverCloseClient => exact fifo

/-- The server does not get out of a blocked state, whatever the clients do. -/
theorem BlockedOnDead.act (blocked : BlockedOnDead s) (enabled : Enabled capacity s a) :
    BlockedOnDead (act s a) := by
  obtain ⟨req, resp, serving, answered, dead, fifo⟩ := blocked
  refine ⟨req, resp, ?_, answered, client_act_dead enabled dead, inbox_act_dead enabled dead fifo⟩
  rcases server_act enabled with same | move
  · exact same.trans serving
  · rw [serving] at move
    generalize (Fifo.act s a).server = pc at move ⊢
    cases move with
    | skip own call =>
        subst call
        exact absurd (answered.symm.trans enabled.2) (by simp)
    | noFifo own call =>
        subst call
        exact absurd enabled.2.2.2 fifo
    | rendezvous own other resp' call =>
        subst call
        exact absurd (dead.symm.trans enabled.2.2) (by simp)

theorem BlockedOnDead.run (blocked : BlockedOnDead s) (run : Run capacity s as s') :
    BlockedOnDead s' :=
  Run.preserves run blocked fun blocked enabled => blocked.act enabled

/-- In a blocked state, clients that wait for an answer wait for good. -/
theorem BlockedOnDead.stuck (blocked : BlockedOnDead s)
    (clients : ∀ p, s.client p = .idle ∨ s.client p = .dead ∨ ∃ req, s.client p = .waiting req)
    (proceeds : Proceeds a) : ¬ Enabled capacity s a := by
  obtain ⟨req, resp, serving, answered, dead, fifo⟩ := blocked
  intro enabled
  cases a with
  | mkfifo | crash => exact proceeds
  | openServer own =>
      rcases clients own.clientPid with pc | pc | ⟨own', pc⟩ <;>
        exact absurd (enabled.1.symm.trans pc) (by simp)
  | write own =>
      rcases clients own.clientPid with pc | pc | ⟨own', pc⟩ <;>
        exact absurd (enabled.1.symm.trans pc) (by simp)
  | closeServer own =>
      have written : s.client own.clientPid = .written own := enabled
      rcases clients own.clientPid with pc | pc | ⟨own', pc⟩ <;>
        exact absurd (written.symm.trans pc) (by simp)
  | readOwn own =>
      rcases clients own.clientPid with pc | pc | ⟨own', pc⟩ <;>
        exact absurd (enabled.1.symm.trans pc) (by simp)
  | serverOpen =>
      have closed : s.server = .closed := enabled
      exact absurd (serving.symm.trans closed) (by simp)
  | serverRead => exact absurd (serving.symm.trans enabled.1) (by simp)
  | serverClose =>
      have eof : s.server = .sawEof := enabled
      exact absurd (serving.symm.trans eof) (by simp)
  | serverSkip own =>
      obtain rfl : req = own := ServerPc.serving.inj (serving.symm.trans enabled.1)
      exact absurd (answered.symm.trans enabled.2) (by simp)
  | serverNoFifo own =>
      obtain rfl : req = own := ServerPc.serving.inj (serving.symm.trans enabled.1)
      exact fifo enabled.2.2.2
  | rendezvous own resp' other =>
      obtain rfl : req = own := ServerPc.serving.inj (serving.symm.trans enabled.1)
      exact absurd (dead.symm.trans enabled.2.2) (by simp)
  | serverWrite own resp' =>
      have answering : s.server = .answering own resp' := enabled
      exact absurd (serving.symm.trans answering) (by simp)
  | serverCloseClient own =>
      have answered : s.server = .answered own := enabled
      exact absurd (serving.symm.trans answered) (by simp)

/-! ## Without an abandoned request -/

/-- The server holds no descriptor of `SERVER_FIFO` before its `open` returns, and
waits in it for the first writer only. -/
structure OpenOk (s : Sys) : Prop where
  noReader : s.server = .closed ∨ s.server = .opening → s.pipe.reader = false
  noWriter : s.server = .opening → s.pipe.writers = ∅

/-- Once `open` has returned there is nothing to say. -/
theorem OpenOk.of_open (closed : s.server ≠ .closed) (opening : s.server ≠ .opening) :
    OpenOk s where
  noReader now := by
    rcases now with before | blocked
    · exact absurd before closed
    · exact absurd blocked opening
  noWriter now := absurd now opening

theorem openOk_act (ok : OpenOk s) (enabled : Enabled capacity s a) : OpenOk (act s a) := by
  cases a with
  | openServer req =>
      by_cases opening : s.server = .opening
      · have after : (act s (.openServer req)).server = .reading := by
          simp [act, opening, Sys.setClient]
        exact .of_open (by simp [after]) (by simp [after])
      · have after : act s (.openServer req) = { s.setClient req.clientPid (.opened req) with
            pipe := s.pipe.openWrite req.clientPid } := if_neg opening
        rw [after]
        exact ⟨ok.noReader, fun now => absurd now opening⟩
  | write req =>
      cases reader : s.pipe.reader with
      | true =>
          have after : act s (.write req) = { s.setClient req.clientPid (.written req) with
              pipe := s.pipe.write req.encode, written := s.written ++ [req] } := if_pos reader
          rw [after]
          exact ⟨ok.noReader, ok.noWriter⟩
      | false =>
          have after : act s (.write req) = s.die req.clientPid := if_neg (by simp [reader])
          rw [after]
          exact ⟨ok.noReader, fun opening => by
            simp [Sys.die, Pipe.closeWrite, Pipe.settle, ok.noWriter opening]⟩
  | closeServer req =>
      exact ⟨ok.noReader, fun opening => by
        simp [act, Pipe.closeWrite, Pipe.settle, ok.noWriter opening]⟩
  | crash p =>
      exact ⟨ok.noReader, fun opening => by
        simp [act, Sys.die, Pipe.closeWrite, Pipe.settle, ok.noWriter opening]⟩
  | serverOpen =>
      have closed : s.server = .closed := enabled
      by_cases none : s.pipe.writers = ∅
      · have after : act s .serverOpen = { s with server := .opening } := if_pos none
        rw [after]
        exact ⟨fun _ => ok.noReader (.inl closed), fun _ => none⟩
      · have after : act s .serverOpen = { s with server := .reading, pipe := s.pipe.openRead } :=
          if_neg none
        rw [after]
        exact .of_open (by simp) (by simp)
  | serverClose => exact ⟨fun _ => rfl, fun opening => by cases opening⟩
  | serverRead =>
      have notOpening : (act s .serverRead).server ≠ .closed ∧
          (act s .serverRead).server ≠ .opening := by
        simp only [act]
        split
        · simp
        · split <;> simp
      exact .of_open notOpening.1 notOpening.2
  | serverWrite req resp =>
      have after : (act s (.serverWrite req resp)).server = .answered req := by
        simp only [act]
        split <;> rfl
      exact .of_open (by simp [after]) (by simp [after])
  | serverSkip | serverNoFifo | rendezvous | serverCloseClient =>
      exact .of_open (by simp [act]) (by simp [act])
  | mkfifo | readOwn => exact ⟨ok.noReader, ok.noWriter⟩

theorem openOk_run (run : Run capacity init as s) : OpenOk s :=
  Run.preserves run ⟨fun _ => rfl, nofun⟩ openOk_act

/-- Who is to be answered is alive. -/
def Alive (s : Sys) (queue : List Request) : Prop :=
  ∀ req ∈ s.server.opens.toList ++ queue, processRequest req ≠ .silent →
    s.client req.clientPid ≠ .dead

theorem hand_opens : Hand ServerPc.opens where
  serving _ := rfl
  answering _ _ _ := nofun
  free pc free := by
    cases pc with
    | serving | answering => cases free
    | closed | opening | reading | sawEof | answered => rfl

theorem opens_outstanding (mem : req ∈ s.server.opens.toList ++ queue) :
    req ∈ outstanding s queue := by
  rcases List.mem_append.mp mem with now | queued
  · cases pc : s.server with
    | serving own =>
        rw [pc] at now
        exact List.mem_append_left _ (by rw [pc]; exact now)
    | _ =>
        rw [pc] at now
        exact absurd now List.not_mem_nil
  · exact List.mem_append_right _ queued

/-- A call that abandons nobody leaves no request to a dead client. -/
theorem alive_act (holds : s.pipe.Holds Request.encode queue)
    (routed : Routed s (outstanding s queue)) (alive : Alive s queue)
    (attended : ¬ Abandons s a) (enabled : Enabled capacity s a) :
    Alive (act s a) (queueAfter s queue a) := by
  intro req mem answered dead
  rcases hand_opens.mem_act holds enabled mem with before | ⟨rfl, reader⟩
  · rcases client_act enabled req.clientPid with same | move
    · exact alive req before answered (same.symm.trans dead)
    · have route := routed.clients req.clientPid
      have outstanding := opens_outstanding before
      generalize pc : s.client req.clientPid = now at move route
      rw [dead] at move
      cases move with
      | sigpipe own call pid => exact not_mem_of_outOf_nil route.2.2 outstanding rfl
      | crash _ call =>
          subst call
          exact attended ⟨req, (unread_eq holds).symm ▸ before, rfl, answered⟩
  · have after : (act s (.write req)).client req.clientPid = .written req := by
      simp [act, reader, Sys.setClient]
    exact absurd (after.symm.trans dead) (by simp)

/-- A run that abandons nobody. -/
theorem alive_run (run : Run capacity init as s)
    (attended : EachStep (fun s a => ¬ Abandons s a) init as) :
    ∃ queue, s.pipe.Holds Request.encode queue ∧ Routed s (outstanding s queue) ∧
      Alive s queue := by
  refine Run.preserves_each (P := fun s => ∃ queue, s.pipe.Holds Request.encode queue ∧
    Routed s (outstanding s queue) ∧ Alive s queue) run
    ⟨[], .fresh, routed_init, fun _ mem => absurd mem List.not_mem_nil⟩ attended ?_
  intro s a before attended enabled
  rcases before with ⟨queue, holds, routed, alive⟩
  obtain ⟨queue', holds', fewer⟩ := holds_after a holds
  refine ⟨queue', holds', (routed_act holds routed enabled).mono (fewer.append_left _), ?_⟩
  intro req mem
  exact alive_act holds routed alive attended enabled req ((fewer.append_left _).subset mem)

/-- The requests of the clients are well formed. -/
theorem Called.served (called : Called as req) :
    processRequest req = .silent ∨ ∃ resp, processRequest req = .answer resp := by
  obtain ⟨type, text, -, eq⟩ := called
  rw [eq]
  cases type with
  | quit => exact .inl (processRequest_quit _ _)
  | echo | upper | lower | length | reverse =>
      exact .inr (processRequest_fill _ _ (by simp))

theorem Alive.not_blocked (alive : Alive s queue) : ¬ BlockedOnDead s := by
  intro blocked
  obtain ⟨req, resp, serving, answered, dead, -⟩ := blocked
  refine alive req (List.mem_append_left _ ?_) (by simp [answered]) dead
  rw [serving]
  exact List.mem_singleton.mpr rfl

/-- The client being served is about to close `SERVER_FIFO` or to open its own FIFO. -/
theorem proceeds_serving (routed : Routed s (outstanding s queue)) (alive : Alive s queue)
    (serving : s.server = .serving req)
    (served : processRequest req = .silent ∨ ∃ resp, processRequest req = .answer resp) :
    ∃ a, Proceeds a ∧ Enabled capacity s a := by
  rcases served with silent | ⟨resp, answered⟩
  · exact ⟨.serverSkip req, trivial, serving, silent⟩
  have first : req ∈ outstanding s queue := processing_outstanding (by rw [serving]; rfl)
  have living : s.client req.clientPid ≠ .dead := by
    refine alive req (List.mem_append_left _ ?_) (by simp [answered])
    rw [serving]
    exact List.mem_singleton.mpr rfl
  have route := routed.clients req.clientPid
  cases pc : s.client req.clientPid with
  | idle =>
      rw [pc] at route
      exact absurd rfl (not_mem_of_outOf_nil route first)
  | ready own | opened own =>
      rw [pc] at route
      exact absurd rfl (not_mem_of_outOf_nil route.2.2 first)
  | written own =>
      rw [pc] at route
      refine ⟨.closeServer own, trivial, ?_⟩
      change s.client own.clientPid = _
      rw [route.1, pc]
  | waiting own => exact ⟨.rendezvous req resp own, trivial, serving, answered, pc⟩
  | reading own =>
      rw [pc] at route
      obtain ⟨-, ⟨-, ⟨resp', answering⟩, -⟩ | ⟨none, -⟩⟩ := route
      · exact absurd (serving.symm.trans answering) (by simp)
      · exact absurd rfl (not_mem_of_outOf_nil none first)
  | dead => exact absurd pc living

/-- An outstanding request leaves the server something to do, or its client. -/
theorem proceeds_outstanding (holds : s.pipe.Holds Request.encode queue) (ok : OpenOk s)
    (routed : Routed s (outstanding s queue)) (alive : Alive s queue)
    (served : ∀ req ∈ outstanding s queue,
      processRequest req = .silent ∨ ∃ resp, processRequest req = .answer resp)
    (mem : req ∈ outstanding s queue) : ∃ a, Proceeds a ∧ Enabled capacity s a := by
  cases pc : s.server with
  | closed => exact ⟨.serverOpen, trivial, pc⟩
  | opening =>
      have empty := s.pipe.kept (ok.noReader (.inr pc)) (ok.noWriter pc)
      rw [outstanding, pc, holds.eq_nil Request.length_encode sizeof_pos empty] at mem
      exact absurd mem List.not_mem_nil
  | reading =>
      refine ⟨.serverRead, trivial, pc, .inl fun empty => ?_⟩
      rw [outstanding, pc, holds.eq_nil Request.length_encode sizeof_pos empty] at mem
      exact absurd mem List.not_mem_nil
  | sawEof => exact ⟨.serverClose, trivial, pc⟩
  | serving own =>
      exact proceeds_serving routed alive pc
        (served own (processing_outstanding (by rw [pc]; rfl)))
  | answering own resp => exact ⟨.serverWrite own resp, trivial, pc⟩
  | answered own => exact ⟨.serverCloseClient own, trivial, pc⟩

/-! ## Without a discarded request -/

/-- What a client waits for is outstanding until the server has its FIFO open. -/
structure Owed (s : Sys) (out : List Request) : Prop where
  sent : ∀ p req, s.client p = .written req ∨ s.client p = .waiting req → req ∈ out
  reads : ∀ req resp, s.server = .answering req resp →
    s.client req.clientPid = .reading req ∨ s.client req.clientPid = .dead

/-- A request stays outstanding until it is answered, skipped or given up. -/
theorem outstanding_stays (holds : s.pipe.Holds Request.encode queue)
    (enabled : Enabled capacity s a) (mem : req ∈ outstanding s queue) :
    req ∈ outstanding (act s a) (queueAfter s queue a) ∨ a = .serverSkip req ∨
      a = .serverNoFifo req ∨ ∃ resp, a = .serverWrite req resp := by
  have kept : (act s a).server.processing = s.server.processing → queueAfter s queue a = queue →
      req ∈ outstanding (act s a) (queueAfter s queue a) := by
    intro server same
    rwa [outstanding, server, same]
  -- Without a request in hand, everything outstanding is in the pipe.
  have queued : s.server.processing = none → req ∈ queue := by
    intro free
    rwa [outstanding, free] at mem
  cases a with
  | openServer own =>
      refine .inl (kept ?_ rfl)
      by_cases opening : s.server = .opening
      · simp [act, opening, Sys.setClient, ServerPc.processing]
      · simp [act, opening, Sys.setClient]
  | write own =>
      refine .inl ?_
      have server : (act s (.write own)).server = s.server := by
        simp only [act]
        split <;> rfl
      rw [outstanding, server]
      simp only [queueAfter]
      split
      · rw [← List.append_assoc]
        exact List.mem_append_left _ mem
      · exact mem
  | serverOpen =>
      have closed : s.server = .closed := enabled
      exact .inl (List.mem_append_right _ (queued (by rw [closed]; rfl)))
  | serverRead =>
      have inPipe := queued (by rw [enabled.1]; rfl)
      by_cases empty : s.pipe.bytes = []
      · rw [(serverRead_empty holds empty).1] at inPipe
        exact absurd inPipe List.not_mem_nil
      · obtain ⟨first, rest, rfl, -, eq⟩ := serverRead_takes holds empty
        rw [eq]
        exact .inl inPipe
  | serverClose =>
      have eof : s.server = .sawEof := enabled
      exact .inl (List.mem_append_right _ (queued (by rw [eof]; rfl)))
  | serverCloseClient own =>
      have answered : s.server = .answered own := enabled
      exact .inl (List.mem_append_right _ (queued (by rw [answered]; rfl)))
  | serverSkip own =>
      rw [outstanding, enabled.1] at mem
      rcases List.mem_cons.mp mem with rfl | inPipe
      · exact .inr (.inl rfl)
      · exact .inl (List.mem_append_right _ inPipe)
  | serverNoFifo own =>
      rw [outstanding, enabled.1] at mem
      rcases List.mem_cons.mp mem with rfl | inPipe
      · exact .inr (.inr (.inl rfl))
      · exact .inl (List.mem_append_right _ inPipe)
  | serverWrite own resp =>
      have answering : s.server = .answering own resp := enabled
      rw [outstanding, answering] at mem
      rcases List.mem_cons.mp mem with rfl | inPipe
      · exact .inr (.inr (.inr ⟨resp, rfl⟩))
      · exact .inl (List.mem_append_right _ inPipe)
  | rendezvous own resp other =>
      rw [outstanding, enabled.1] at mem
      exact .inl mem
  | mkfifo | closeServer | readOwn | crash => exact .inl (kept rfl rfl)

theorem owed_init : Owed init [] where
  sent _ _ pc := by
    rcases pc with written | waiting
    · cases written
    · cases waiting
  reads := nofun

/-- What a client has sent and waits for stays owed. -/
theorem Owed.sent_act (holds : s.pipe.Holds Request.encode queue)
    (routed : Routed s (outstanding s queue)) (owed : Owed s (outstanding s queue))
    (answered : ∀ req ∈ outstanding s queue, ∃ resp, processRequest req = .answer resp)
    (enabled : Enabled capacity s a) {p : Pid}
    (pc : (act s a).client p = .written req ∨ (act s a).client p = .waiting req) :
    req ∈ outstanding (act s a) (queueAfter s queue a) := by
  -- What the client sent before the call is still owed to it.
  have stays : s.client p = .written req ∨ s.client p = .waiting req →
      req ∈ outstanding (act s a) (queueAfter s queue a) := by
    intro before
    have route := routed.clients p
    have own : req.clientPid = p ∧ s.inbox p = some [] := by
      rcases before with now | now <;> rw [now] at route <;> exact ⟨route.1, route.2.1⟩
    have mem := owed.sent p req before
    rcases outstanding_stays holds enabled mem with after | rfl | rfl | ⟨resp, rfl⟩
    · exact after
    · obtain ⟨resp, answer⟩ := answered req mem
      exact absurd (answer.symm.trans enabled.2) (by simp)
    · exact absurd ((own.1 ▸ own.2).symm.trans enabled.2.2.2) (Option.some_ne_none _)
    · rcases owed.reads req resp enabled with now | now <;> rw [own.1] at now <;>
        rcases before with old | old <;> exact absurd (old.symm.trans now) (by simp)
  rcases client_act enabled p with same | move
  · exact stays (same ▸ pc)
  · generalize before : s.client p = old at move stays
    generalize after : (act s a).client p = new at move pc
    cases move with
    | write own call pid =>
        subst call
        obtain rfl : own = req := by
          rcases pc with now | now
          · exact ClientPc.written.inj now
          · cases now
        cases reader : s.pipe.reader with
        | true =>
            rw [show queueAfter s queue (.write own) = queue ++ [own] from if_pos reader]
            simp [outstanding]
        | false =>
            have dead : (act s (.write own)).client p = .dead := by
              simp [act, reader, Sys.die, Sys.setClient, pid]
            exact absurd (after.symm.trans dead) (by simp)
    | closeServer own call pid =>
        rcases pc with now | now
        · cases now
        · cases now
          exact stays (.inl rfl)
    | mkfifo | openServer | sigpipe | rendezvous | readOwn | crash =>
        rcases pc with now | now <;> cases now

/-- Who the server answers reads, or is dead. -/
theorem Owed.reads_act (routed : Routed s (outstanding s queue))
    (owed : Owed s (outstanding s queue)) (enabled : Enabled capacity s a) {resp : Response}
    (answering : (act s a).server = .answering req resp) :
    (act s a).client req.clientPid = .reading req ∨ (act s a).client req.clientPid = .dead := by
  rcases server_act enabled with same | move
  · rw [same] at answering
    rcases owed.reads req resp answering with reading | dead
    · rcases client_act enabled req.clientPid with still | move
      · exact .inl (still.trans reading)
      · rw [reading] at move
        generalize (act s a).client req.clientPid = new at move ⊢
        cases move with
        | readOwn own call pid =>
            subst call
            have route := routed.clients req.clientPid
            rw [reading] at route
            have first : req ∈ outstanding s queue :=
              processing_outstanding (by rw [answering]; rfl)
            obtain ⟨-, ⟨empty, -⟩ | ⟨none, -⟩⟩ := route
            · rcases enabled.2 with some | released
              · exact absurd empty some
              · rw [answering] at released
                exact absurd rfl released
            · exact absurd rfl (not_mem_of_outOf_nil none first)
        | crash => exact .inr rfl
    · exact .inr (client_act_dead enabled dead)
  · generalize s.server = old at move
    generalize after : (act s a).server = new at move answering
    cases move with
    | rendezvous own other resp' call =>
        subst call
        cases answering
        have route := routed.clients req.clientPid
        rw [enabled.2.2] at route
        have first : req ∈ outstanding s queue :=
          processing_outstanding (by rw [enabled.1]; rfl)
        obtain rfl : req = other :=
          eq_of_outOf_sublist (route.1 ▸ route.2.2) first route.1.symm
        exact .inl (Function.update_self _ _ _)
    | enters pc call either =>
        rcases either with rfl | rfl <;> cases answering
    | opened | eof | took | close | skip | noFifo | write | closeClient => cases answering

theorem owed_act (holds : s.pipe.Holds Request.encode queue)
    (routed : Routed s (outstanding s queue)) (owed : Owed s (outstanding s queue))
    (answered : ∀ req ∈ outstanding s queue, ∃ resp, processRequest req = .answer resp)
    (enabled : Enabled capacity s a) :
    Owed (act s a) (outstanding (act s a) (queueAfter s queue a)) where
  sent _ _ pc := owed.sent_act holds routed answered enabled pc
  reads _ _ answering := owed.reads_act routed enabled answering

/-- Nothing unread is discarded, and no client asks to quit. -/
def Lasting (s : Sys) (a : Action) : Prop :=
  Kept s a ∧
    match a with
    | .mkfifo _ type _ => type ≠ .quit
    | _ => True

instance (s : Sys) (a : Action) : Decidable (Lasting s a) := by
  induction a using Action.casesOn <;> unfold Lasting <;> infer_instance

/-- Requests that the server answers. -/
def Answerable (req : Request) : Prop := ∃ resp, processRequest req = .answer resp

theorem owed_run (run : Run capacity init as s) (lasting : EachStep Lasting init as) :
    ∃ queue, Routed s (outstanding s queue) ∧ Owed s (outstanding s queue) ∧
      s.pipe.Holds Request.encode queue := by
  obtain ⟨queue, holds, routed, owed, -⟩ := Run.preserves_each (P := fun s => ∃ queue,
    s.pipe.Holds Request.encode queue ∧ Routed s (outstanding s queue) ∧
      Owed s (outstanding s queue) ∧ Asked Answerable s (outstanding s queue)) run
    ⟨[], .fresh, routed_init, owed_init, nofun, fun _ mem => absurd mem List.not_mem_nil,
      fun _ mem => absurd mem List.not_mem_nil⟩
    lasting fun {s a} ⟨queue, holds, routed, owed, asked⟩ lasting enabled =>
      ⟨queueAfter s queue a, holds_act lasting.1 holds, routed_act holds routed enabled,
        owed_act holds routed owed asked.out enabled,
        asked_act holds asked enabled fun p type text call => by
          subst call
          exact processRequest_fill p text lasting.2⟩
  exact ⟨queue, routed, owed, holds⟩

/-! ## Progress -/

/-- **Main.** In a run in which no client dies and leaves a request behind that
the server is going to answer, the server is never blocked on a dead client, and a
request that is unread or being processed leaves a call to make. When nothing
unread is discarded and no client asks to quit, so does every request that is
waited for. -/
theorem server_progress (capacity : Nat) (as : List Action) (s : Sys)
    (run : Run capacity init as s) (attended : EachStep (fun s a => ¬ Abandons s a) init as) :
    ¬ BlockedOnDead s ∧
    (∀ req, req ∈ s.unread ∨ s.server.processing = some req →
      ∃ a, Proceeds a ∧ Enabled capacity s a) ∧
    (EachStep Lasting init as → ∀ p req, (s.client p).awaited = some req →
      ∃ a, Proceeds a ∧ Enabled capacity s a) := by
  obtain ⟨queue, holds, routed, alive⟩ := alive_run run attended
  obtain ⟨queue', holds', asked⟩ := asked_run run
  obtain rfl : queue' = queue := (unread_eq holds').symm.trans (unread_eq holds)
  have moves : ∀ {req}, req ∈ outstanding s queue' → ∃ a, Proceeds a ∧ Enabled capacity s a :=
    proceeds_outstanding holds (openOk_run run) routed alive
      fun req mem => (asked.out req mem).served
  refine ⟨alive.not_blocked, fun req pending => ?_, fun lasting p req awaited => ?_⟩
  · rcases pending with unread | processing
    · rw [unread_eq holds] at unread
      exact moves (List.mem_append_right _ unread)
    · exact moves (processing_outstanding processing)
  · obtain ⟨queue'', -, owed, holds''⟩ := owed_run run lasting
    obtain rfl : queue'' = queue' := (unread_eq holds'').symm.trans (unread_eq holds)
    have route := routed.clients p
    cases pc : s.client p with
    | idle | ready _ | opened _ | dead =>
        rw [pc] at awaited
        cases awaited
    | written own => exact moves (owed.sent p own (.inl pc))
    | waiting own => exact moves (owed.sent p own (.inr pc))
    | reading own =>
        rw [pc] at route
        obtain ⟨rfl, ⟨-, ⟨resp, answering⟩, -⟩ | ⟨-, resp, full, -⟩⟩ := route
        · exact ⟨.serverWrite own resp, trivial, answering⟩
        · exact ⟨.readOwn own, trivial, pc, .inl (by rw [full]; simp)⟩

/-- Two clients have sent their requests. A third dies before it sends one, and the first
while the server is answering it. -/
def busyRun : List Action :=
  .serverOpen :: sends 1 ++ sends 2 ++ [.mkfifo 3 .echo (ascii "hi"), .crash 3, .serverRead,
    .rendezvous (echoHi 1) echoedHi (echoHi 1), .crash 1]

theorem server_progress_two :
    let s := busyRun.foldl act init
    s.client 1 = .dead ∧ s.client 3 = .dead ∧ echoHi 2 ∈ s.unread ∧ ¬ BlockedOnDead s ∧
      ∃ a, Proceeds a ∧ Enabled 65536 s a := by
  intro s
  have unread : echoHi 2 ∈ s.unread := by decide +kernel
  obtain ⟨free, moves, -⟩ := server_progress 65536 busyRun s (.of_enabled (by decide +kernel))
    (by decide +kernel)
  exact ⟨by decide +kernel, by decide +kernel, unread, free, moves (echoHi 2) (.inl unread)⟩

/-- The first client sends its request and dies; the second sends its own; the
server takes the first request. -/
def abandonedRun : List Action :=
  .serverOpen :: sends 1 ++ .crash 1 :: sends 2 ++ [.serverRead]

/-- Clients that take no part in a run stay idle. -/
theorem idle_run (run : Run capacity s as s') (idle : s.client p = .idle)
    (apart : ∀ a ∈ as, a ≠ .crash p ∧ ∀ type text, a ≠ .mkfifo p type text) :
    s'.client p = .idle := by
  induction run with
  | nil => exact idle
  | @cons s _ a _ enabled _ ih =>
      refine ih ?_ fun b mem => apart b (List.mem_cons_of_mem _ mem)
      obtain ⟨notCrash, notStart⟩ := apart a (List.mem_cons_self ..)
      rcases client_act enabled p with same | move
      · exact same.trans idle
      · rw [idle] at move
        generalize (act s a).client p = new at move ⊢
        cases move with
        | mkfifo type text call => exact absurd call (notStart type text)
        | crash _ call => exact absurd call notCrash

/-- The second client waits for good: its request is unread, the server is blocked
on the first, nobody can proceed, and no run leads out of it. -/
theorem abandoned_blocks :
    ∃ s, Run 65536 init abandonedRun s ∧ s.client 2 = .waiting (echoHi 2) ∧
      echoHi 2 ∈ s.unread ∧ BlockedOnDead s ∧ (∀ a, Proceeds a → ¬ Enabled 65536 s a) ∧
      ∀ as s', Run 65536 s as s' → BlockedOnDead s' := by
  have run : Run 65536 init abandonedRun (abandonedRun.foldl act init) :=
    .of_enabled (by decide +kernel)
  have waits : (abandonedRun.foldl act init).client 2 = .waiting (echoHi 2) := by decide +kernel
  have gone : (abandonedRun.foldl act init).client 1 = .dead := by decide +kernel
  have blocked : BlockedOnDead (abandonedRun.foldl act init) :=
    ⟨echoHi 1, echoedHi, by decide +kernel, by decide +kernel, gone, by decide +kernel⟩
  refine ⟨_, run, waits, by decide +kernel, blocked, fun a => blocked.stuck fun p => ?_,
    fun _ _ => blocked.run⟩
  by_cases first : p = 1
  · exact .inr (.inl (first ▸ gone))
  · by_cases second : p = 2
    · exact .inr (.inr ⟨_, second ▸ waits⟩)
    · refine .inl (idle_run run rfl ?_)
      simp [abandonedRun, sends, Ne.symm first, Ne.symm second]

end Osisp.Fifo
