import Mathlib
import Osisp.Fifo.Delivery

/-!
# Every request is answered once

A client waits for an answer between the close of `SERVER_FIFO` and the read of
its own FIFO. As long as no request is discarded and none is a `REQ_QUIT`, what a
client waits for is in the pipe, or is being processed, or was answered into its
FIFO. `Inv` is the invariant: it relates each client's program counter to the
requests that are outstanding. A client that sends `REQ_QUIT` waits for good
(`quit_unanswered`).
-/

namespace Osisp.Fifo

open Lib

/-! ## The invariant -/

/-- The requests written and not answered, the one being processed first. -/
def outstanding (s : Sys) (queue : List Request) : List Request :=
  s.server.processing.toList ++ queue

/-- No request of `p` is outstanding. -/
def Absent (out : List Request) (p : Pid) : Prop := ∀ req ∈ out, req.clientPid ≠ p

/-- A request of `p` that the server answers. -/
def Own (p : Pid) (req : Request) : Prop :=
  req.clientPid = p ∧ ∃ resp, processRequest req = .answer resp

/-- What the program counter of client `p` says about its FIFO and about the
outstanding requests. -/
def PcOk (s : Sys) (out : List Request) (p : Pid) : ClientPc → Prop
  | .idle | .dead => Absent out p
  | .ready req | .opened req => Own p req ∧ s.inbox p = some [] ∧ Absent out p
  | .written req | .waiting req => Own p req ∧ s.inbox p = some [] ∧ req ∈ out
  | .reading req => Own p req ∧
      ((∃ resp, s.server = .answering req resp ∧ s.inbox p = some []) ∨
        (Absent out p ∧ ∃ resp, s.inbox p = some [resp] ∧ (req, resp) ∈ s.answers))

structure Inv (s : Sys) (queue : List Request) : Prop where
  holds : s.pipe.Holds Request.encode queue
  /-- What was read is answered or is being processed. -/
  reads : s.reads = (s.answers.map Prod.fst ++ s.server.processing.toList).map Request.encode
  /-- At most one request of each client is outstanding. -/
  pids : ((outstanding s queue).map Request.clientPid).Nodup
  clients : ∀ p, PcOk s (outstanding s queue) p (s.client p)
  answering : ∀ req resp, s.server = .answering req resp →
    processRequest req = .answer resp ∧ s.client req.clientPid = .reading req
  answers : ∀ e ∈ s.answers, processRequest e.1 = .answer e.2

variable {s s' : Sys} {a : Action} {as : List Action} {queue queue' out out' : List Request}
  {p : Pid} {req own : Request} {resp : Response} {capacity : Nat}

theorem processing_outstanding (h : s.server.processing = some req) :
    req ∈ outstanding s queue :=
  List.mem_append_left queue (Option.mem_toList.mpr h)

theorem inv_init : Inv init [] where
  holds := .fresh
  reads := rfl
  pids := List.nodup_nil
  clients _ := fun _ mem => absurd mem List.not_mem_nil
  answering := nofun
  answers := fun _ mem => absurd mem List.not_mem_nil

/-- The outstanding request of a client is one. -/
theorem Inv.unique (inv : Inv s queue) (mem : req ∈ outstanding s queue)
    (mem' : own ∈ outstanding s queue) (same : req.clientPid = own.clientPid) : req = own :=
  List.inj_on_of_nodup_map inv.pids mem mem' same

/-- An outstanding request is answerable, and the FIFO of its client is there and
empty. -/
theorem Inv.answerable (inv : Inv s queue) (mem : req ∈ outstanding s queue) :
    (∃ resp, processRequest req = .answer resp) ∧ s.inbox req.clientPid = some [] := by
  have ok := inv.clients req.clientPid
  cases pc : s.client req.clientPid with
  | idle | dead =>
      rw [pc] at ok
      exact absurd rfl (ok req mem)
  | ready _ | opened _ =>
      rw [pc] at ok
      exact absurd rfl (ok.2.2 req mem)
  | written own | waiting own =>
      rw [pc] at ok
      obtain ⟨⟨pid, answered⟩, empty, sent⟩ := ok
      rw [inv.unique mem sent pid.symm] at empty ⊢
      exact ⟨answered, empty⟩
  | reading own =>
      rw [pc] at ok
      obtain ⟨⟨pid, answered⟩, ⟨resp, answering, empty⟩ | ⟨absent, -⟩⟩ := ok
      · have first : own ∈ outstanding s queue :=
          processing_outstanding (by rw [answering]; rfl)
        rw [inv.unique mem first pid.symm] at empty ⊢
        exact ⟨answered, empty⟩
      · exact absurd rfl (absent req mem)

/-! ## Frames -/

/-- Only the client `p` differs. -/
structure Others (p : Pid) (s s' : Sys) : Prop where
  client : ∀ q, q ≠ p → s'.client q = s.client q
  inbox : ∀ q, q ≠ p → s'.inbox q = s.inbox q

theorem PcOk.frame {pc : ClientPc} (ok : PcOk s out p pc) (inbox : s'.inbox p = s.inbox p)
    (answers : s.answers ⊆ s'.answers)
    (server : ∀ req resp, req.clientPid = p → s.server = .answering req resp →
      s'.server = .answering req resp)
    (same : ∀ req, req.clientPid = p → (req ∈ out' ↔ req ∈ out)) : PcOk s' out' p pc := by
  have absent : Absent out p → Absent out' p :=
    fun absent req mem pid => absent req ((same req pid).mp mem) pid
  cases pc with
  | idle | dead => exact absent ok
  | ready req | opened req => exact ⟨ok.1, inbox.trans ok.2.1, absent ok.2.2⟩
  | written req | waiting req =>
      exact ⟨ok.1, inbox.trans ok.2.1, (same req ok.1.1).mpr ok.2.2⟩
  | reading req =>
      refine ⟨ok.1, ok.2.imp ?_ ?_⟩
      · intro before
        rcases before with ⟨resp, answering, empty⟩
        exact ⟨resp, server req resp ok.1.1 answering, inbox.trans empty⟩
      · intro before
        rcases before with ⟨none, resp, full, mem⟩
        exact ⟨absent none, resp, inbox.trans full, answers mem⟩

/-- A call of client `p` that neither reads nor writes a request. -/
theorem Inv.client_call (inv : Inv s queue) (others : Others p s s')
    (holds : s'.pipe.Holds Request.encode queue)
    (processing : s'.server.processing = s.server.processing)
    (server : ∀ req resp, s'.server = .answering req resp ↔ s.server = .answering req resp)
    (free : ∀ req resp, s.server = .answering req resp → req.clientPid ≠ p)
    (reads : s'.reads = s.reads) (answers : s'.answers = s.answers)
    (own : PcOk s' (outstanding s queue) p (s'.client p)) : Inv s' queue := by
  have out : outstanding s' queue = outstanding s queue := by
    rw [outstanding, processing, outstanding]
  refine ⟨holds, ?_, ?_, fun q => ?_, fun req resp answering => ?_, ?_⟩
  · rw [reads, answers, processing, inv.reads]
  · rw [out]
    exact inv.pids
  · rw [out]
    by_cases other : q = p
    · rw [other]
      exact own
    · rw [others.client q other]
      exact (inv.clients q).frame (others.inbox q other) (by rw [answers]; exact fun _ mem => mem)
        (fun req resp _ => (server req resp).mpr) fun _ _ => Iff.rfl
  · have before := (server req resp).mp answering
    rw [others.client _ (free req resp before)]
    exact inv.answering req resp before
  · rw [answers]
    exact inv.answers

/-- A call of the server while it has no request in hand. -/
theorem Inv.server_call (inv : Inv s queue) (holds : s'.pipe.Holds Request.encode queue)
    (before : s.server.processing = none) (after : s'.server.processing = none)
    (client : s'.client = s.client) (inbox : s'.inbox = s.inbox) (reads : s'.reads = s.reads)
    (answers : s'.answers = s.answers) : Inv s' queue := by
  have out : outstanding s' queue = outstanding s queue := by
    rw [outstanding, after, outstanding, before]
  have notAnswering : ∀ req resp, s.server ≠ .answering req resp := by
    intro req resp answering
    rw [answering] at before
    exact Option.some_ne_none _ before
  refine ⟨holds, ?_, ?_, fun q => ?_, fun req resp answering => ?_, ?_⟩
  · rw [reads, answers, after, inv.reads, before]
  · rw [out]
    exact inv.pids
  · rw [out, client]
    exact (inv.clients q).frame (by rw [inbox]) (by rw [answers]; exact fun _ mem => mem)
      (fun req resp _ answering => absurd answering (notAnswering req resp)) fun _ _ => Iff.rfl
  · rw [answering] at after
    exact absurd after (Option.some_ne_none _)
  · rw [answers]
    exact inv.answers

/-- The request being answered belongs to a client that reads. -/
theorem Inv.free (inv : Inv s queue) (notReading : ∀ own, s.client p ≠ .reading own)
    (req : Request) (resp : Response) (answering : s.server = .answering req resp) :
    req.clientPid ≠ p := by
  intro pid
  have reads := (inv.answering req resp answering).2
  rw [pid] at reads
  exact notReading req reads

theorem others_setClient (s : Sys) (p : Pid) (pc : ClientPc) : Others p s (s.setClient p pc) :=
  ⟨fun _ other => Function.update_of_ne other _ _, fun _ _ => rfl⟩

/-! ## The calls of a client -/

theorem inv_mkfifo (inv : Inv s queue) {type : RequestType} {text : Bytes}
    (idle : s.client p = .idle) (notQuit : type ≠ .quit) :
    Inv (act s (.mkfifo p type text)) queue := by
  have absent : PcOk s (outstanding s queue) p .idle := idle ▸ inv.clients p
  refine inv.client_call (p := p) ⟨fun q other => ?_, fun q other => ?_⟩ inv.holds rfl
    (fun _ _ => Iff.rfl) (inv.free fun own => by rw [idle]; nofun) rfl rfl ?_
  · exact Function.update_of_ne other _ _
  · exact Function.update_of_ne other _ _
  · have pc : (act s (.mkfifo p type text)).client p = .ready (.fill p type text) :=
      Function.update_self _ _ _
    rw [pc]
    exact ⟨⟨rfl, processRequest_fill p text notQuit⟩, Function.update_self _ _ _, absent⟩

theorem inv_openServer (inv : Inv s queue) (ready : s.client req.clientPid = .ready req) :
    Inv (act s (.openServer req)) queue := by
  have ok : PcOk s (outstanding s queue) req.clientPid (.ready req) := ready ▸ inv.clients _
  have holds : (act s (.openServer req)).pipe.Holds Request.encode queue :=
    holds_act (a := .openServer req) (fun last => last.elim) inv.holds
  have free := inv.free (p := req.clientPid) fun own => by rw [ready]; nofun
  have others := others_setClient s req.clientPid (.opened req)
  have pc : (s.setClient req.clientPid (.opened req)).client req.clientPid = .opened req :=
    Function.update_self _ _ _
  by_cases opening : s.server = .opening
  · have eq : act s (.openServer req) = { s.setClient req.clientPid (.opened req) with
        server := .reading, pipe := s.pipe.openRead.openWrite req.clientPid } := if_pos opening
    rw [eq] at holds ⊢
    refine inv.client_call (p := req.clientPid) ⟨others.client, others.inbox⟩ holds ?_ ?_ free
      rfl rfl ?_
    · rw [opening]
      rfl
    · intro r resp
      rw [opening]
      exact ⟨nofun, nofun⟩
    · rw [pc]
      exact ok
  · have eq : act s (.openServer req) = { s.setClient req.clientPid (.opened req) with
        pipe := s.pipe.openWrite req.clientPid } := if_neg opening
    rw [eq] at holds ⊢
    refine inv.client_call (p := req.clientPid) ⟨others.client, others.inbox⟩ holds rfl
      (fun _ _ => Iff.rfl) free rfl rfl ?_
    rw [pc]
    exact ok

/-- A client without a reader dies of `SIGPIPE`; its request was not written. -/
theorem inv_write_closed (inv : Inv s queue) (opened : s.client req.clientPid = .opened req)
    (holds : (s.die req.clientPid).pipe.Holds Request.encode queue) :
    Inv (s.die req.clientPid) queue := by
  have ok : PcOk s (outstanding s queue) req.clientPid (.opened req) := opened ▸ inv.clients _
  have others := others_setClient s req.clientPid .dead
  have pc : (s.die req.clientPid).client req.clientPid = .dead := Function.update_self _ _ _
  refine inv.client_call (p := req.clientPid) ⟨others.client, others.inbox⟩ holds rfl
    (fun _ _ => Iff.rfl) (inv.free fun own => by rw [opened]; nofun) rfl rfl ?_
  rw [pc]
  exact ok.2.2

/-- The written request is the only one of its client. -/
theorem inv_write_open (inv : Inv s queue) (opened : s.client req.clientPid = .opened req)
    (reader : s.pipe.reader = true) : Inv (act s (.write req)) (queue ++ [req]) := by
  have ok : PcOk s (outstanding s queue) req.clientPid (.opened req) := opened ▸ inv.clients _
  obtain ⟨own, empty, absent⟩ := ok
  have eq : act s (.write req) = { s.setClient req.clientPid (.written req) with
      pipe := s.pipe.write req.encode, written := s.written ++ [req] } := if_pos reader
  have out : outstanding (act s (.write req)) (queue ++ [req]) = outstanding s queue ++ [req] := by
    rw [eq, outstanding, outstanding, List.append_assoc]
    rfl
  have others := others_setClient s req.clientPid (.written req)
  refine ⟨?_, ?_, ?_, fun q => ?_, fun r resp answering => ?_, ?_⟩
  · rw [eq]
    exact inv.holds.write reader req
  · rw [eq]
    exact inv.reads
  · rw [out, List.map_append, List.nodup_append]
    refine ⟨inv.pids, List.nodup_singleton _, fun pid mem pid' last same => ?_⟩
    obtain ⟨r, before, rfl⟩ := List.mem_map.mp mem
    rw [List.map_singleton, List.mem_singleton] at last
    exact absent r before (same.trans last)
  · rw [out, eq]
    by_cases other : q = req.clientPid
    · rw [other]
      have pc : (s.setClient req.clientPid (.written req)).client req.clientPid = .written req :=
        Function.update_self _ _ _
      rw [pc]
      exact ⟨own, empty, List.mem_append_right _ (List.mem_singleton.mpr rfl)⟩
    · rw [others.client q other]
      refine (inv.clients q).frame rfl (fun _ mem => mem) (fun _ _ _ answering => answering)
        fun r pid => ?_
      rw [List.mem_append, List.mem_singleton, or_iff_left]
      rintro rfl
      exact other pid.symm
  · rw [eq] at answering ⊢
    have ne := inv.free (p := req.clientPid) (fun own => by rw [opened]; nofun) r resp answering
    rw [others.client _ ne]
    exact inv.answering r resp answering
  · rw [eq]
    exact inv.answers

theorem inv_closeServer (inv : Inv s queue) (written : s.client req.clientPid = .written req)
    (holds : (act s (.closeServer req)).pipe.Holds Request.encode queue) :
    Inv (act s (.closeServer req)) queue := by
  have ok : PcOk s (outstanding s queue) req.clientPid (.written req) := written ▸ inv.clients _
  have others := others_setClient s req.clientPid (.waiting req)
  have pc : (act s (.closeServer req)).client req.clientPid = .waiting req :=
    Function.update_self _ _ _
  refine inv.client_call (p := req.clientPid) ⟨others.client, others.inbox⟩ holds rfl
    (fun _ _ => Iff.rfl) (inv.free fun own => by rw [written]; nofun) rfl rfl ?_
  rw [pc]
  exact ok

/-- A client reads when the server has answered. -/
theorem inv_readOwn (inv : Inv s queue) (reading : s.client req.clientPid = .reading req)
    (unblocked : s.inbox req.clientPid ≠ some [] ∨ ¬ s.server.Holding req.clientPid) :
    Inv (act s (.readOwn req)) queue := by
  have ok : PcOk s (outstanding s queue) req.clientPid (.reading req) := reading ▸ inv.clients _
  obtain ⟨-, ⟨resp, answering, empty⟩ | ⟨absent, -⟩⟩ := ok
  · rcases unblocked with full | released
    · exact absurd empty full
    · rw [answering] at released
      exact absurd rfl released
  · have pc : (act s (.readOwn req)).client req.clientPid = .idle := Function.update_self _ _ _
    refine inv.client_call (p := req.clientPid) ⟨fun q other => ?_, fun q other => ?_⟩ inv.holds
      rfl (fun _ _ => Iff.rfl) (fun r resp answering pid => ?_) rfl rfl ?_
    · exact Function.update_of_ne other _ _
    · exact Function.update_of_ne other _ _
    · exact absent r (processing_outstanding (by rw [answering]; rfl)) pid
    · rw [pc]
      exact absent

/-! ## The calls of the server -/

/-- The server takes the first request of the queue. -/
theorem inv_serverRead (inv : Inv s queue) (reading : s.server = .reading) :
    Inv (act s .serverRead) queue.tail := by
  have before : s.server.processing = none := by rw [reading]; rfl
  by_cases empty : s.pipe.bytes = []
  · obtain ⟨rfl, eq⟩ := serverRead_empty inv.holds empty
    rw [eq]
    exact inv.server_call inv.holds before rfl rfl rfl rfl rfl
  · obtain ⟨req, rest, rfl, holds, eq⟩ := serverRead_takes inv.holds empty
    have out : outstanding (act s .serverRead) rest = outstanding s (req :: rest) := by
      rw [eq, outstanding, outstanding, before]
      rfl
    refine ⟨?_, ?_, ?_, fun p => ?_, ?_, ?_⟩
    · rw [eq]
      exact holds
    · rw [eq]
      change s.reads ++ [req.encode] = _
      rw [inv.reads, before]
      simp [ServerPc.processing]
    · rw [List.tail_cons, out]
      exact inv.pids
    · rw [List.tail_cons, out, eq]
      refine (inv.clients p).frame rfl (fun _ mem => mem) (fun r resp _ answering => ?_)
        fun _ _ => Iff.rfl
      rw [reading] at answering
      cases answering
    · rw [eq]
      nofun
    · rw [eq]
      exact inv.answers

/-- The client that opens its FIFO is the one whose request is being processed. -/
theorem inv_rendezvous (inv : Inv s queue) (serving : s.server = .serving req)
    (answered : processRequest req = .answer resp)
    (waiting : s.client req.clientPid = .waiting own) :
    Inv (act s (.rendezvous req resp own)) queue := by
  have ok : PcOk s (outstanding s queue) req.clientPid (.waiting own) := waiting ▸ inv.clients _
  obtain ⟨mine, empty, sent⟩ := ok
  have first : req ∈ outstanding s queue := processing_outstanding (by rw [serving]; rfl)
  obtain rfl : own = req := inv.unique sent first mine.1
  have out : outstanding (act s (.rendezvous own resp own)) queue = outstanding s queue := by
    rw [outstanding, outstanding, serving]
    rfl
  have others := others_setClient s own.clientPid (.reading own)
  have pc : (act s (.rendezvous own resp own)).client own.clientPid = .reading own :=
    Function.update_self _ _ _
  refine ⟨inv.holds, ?_, ?_, fun q => ?_, fun r resp' answering => ?_, inv.answers⟩
  · change s.reads = _
    rw [inv.reads, serving]
    rfl
  · rw [out]
    exact inv.pids
  · rw [out]
    by_cases other : q = own.clientPid
    · rw [other, pc]
      exact ⟨mine, .inl ⟨resp, rfl, empty⟩⟩
    · change PcOk _ _ _ ((s.setClient own.clientPid (.reading own)).client q)
      rw [others.client q other]
      refine (inv.clients q).frame rfl (fun _ mem => mem) (fun r resp _ answering => ?_)
        fun _ _ => Iff.rfl
      rw [serving] at answering
      cases answering
  · cases answering
    exact ⟨answered, pc⟩

/-- The answer goes into the FIFO of the client that waits for it. -/
theorem inv_serverWrite (inv : Inv s queue) (answering : s.server = .answering req resp) :
    Inv (act s (.serverWrite req resp)) queue := by
  obtain ⟨answered, reading⟩ := inv.answering req resp answering
  have ok : PcOk s (outstanding s queue) req.clientPid (.reading req) := reading ▸ inv.clients _
  have out : outstanding s queue = req :: queue := by
    rw [outstanding, answering]
    rfl
  obtain ⟨mine, ⟨resp', -, empty⟩ | ⟨absent, -⟩⟩ := ok
  swap
  · exact absurd rfl (absent req (by simp [out]))
  have eq : act s (.serverWrite req resp) = { s with
      server := .answered req
      inbox := Function.update s.inbox req.clientPid (some [resp])
      answers := s.answers ++ [(req, resp)] } := by
    simp only [act, reading, empty, List.nil_append]
  have out' : outstanding (act s (.serverWrite req resp)) queue = queue := by
    rw [eq, outstanding]
    rfl
  have pids := inv.pids
  rw [out, List.map_cons, List.nodup_cons] at pids
  refine ⟨?_, ?_, ?_, fun q => ?_, ?_, ?_⟩
  · rw [eq]
    exact inv.holds
  · rw [eq]
    simp [inv.reads, answering, ServerPc.processing]
  · rw [out']
    exact pids.2
  · rw [out', eq]
    by_cases other : q = req.clientPid
    · rw [other, reading]
      refine ⟨mine, .inr ⟨fun r mem pid => pids.1 (List.mem_map.mpr ⟨r, mem, pid⟩), resp,
        Function.update_self _ _ _, List.mem_append_right _ (List.mem_singleton.mpr rfl)⟩⟩
    · refine (inv.clients q).frame (Function.update_of_ne other _ _)
        (List.subset_append_left _ _) (fun r resp' pid now => ?_) fun r pid => ?_
      · rw [answering] at now
        cases now
        exact absurd pid.symm other
      · rw [out, List.mem_cons, or_iff_right]
        rintro rfl
        exact other pid.symm
  · rw [eq]
    intro r resp' now
    cases now
  · rw [eq]
    intro e mem
    rcases List.mem_append.mp mem with before | last
    · exact inv.answers e before
    · rw [List.mem_singleton] at last
      rw [last]
      exact answered

/-! ## Runs -/

/-- The client lives on and does not ask to quit, and nothing unread is discarded. -/
def Orderly (s : Sys) (a : Action) : Prop :=
  Kept s a ∧
    match a with
    | .mkfifo _ type _ => type ≠ .quit
    | .crash _ => False
    | _ => True

instance (s : Sys) (a : Action) : Decidable (Orderly s a) := by
  induction a using Action.casesOn <;> unfold Orderly <;> infer_instance

/-- The invariant survives every orderly call. -/
theorem inv_act (inv : Inv s queue) (orderly : Orderly s a) (enabled : Enabled capacity s a) :
    Inv (act s a) (queueAfter s queue a) := by
  have holds := holds_act orderly.1 inv.holds
  cases a with
  | mkfifo p type text => exact inv_mkfifo inv enabled orderly.2
  | openServer req => exact inv_openServer inv enabled.1
  | write req =>
      cases reader : s.pipe.reader with
      | true =>
          have after : queueAfter s queue (.write req) = queue ++ [req] := if_pos reader
          rw [after]
          exact inv_write_open inv enabled.1 reader
      | false =>
          have closed : ¬ s.pipe.reader = true := by simp [reader]
          have after : queueAfter s queue (.write req) = queue := if_neg closed
          have eq : act s (.write req) = s.die req.clientPid := if_neg closed
          rw [after, eq] at holds ⊢
          exact inv_write_closed inv enabled.1 holds
  | closeServer req => exact inv_closeServer inv enabled holds
  | readOwn req => exact inv_readOwn inv enabled.1 enabled.2
  | crash p => exact orderly.2.elim
  | serverOpen =>
      have closed : s.server = .closed := enabled
      have before : s.server.processing = none := by rw [closed]; rfl
      by_cases noWriter : s.pipe.writers = ∅
      · have eq : act s .serverOpen = { s with server := .opening } := if_pos noWriter
        rw [eq]
        exact inv.server_call inv.holds before rfl rfl rfl rfl rfl
      · have eq : act s .serverOpen = { s with server := .reading, pipe := s.pipe.openRead } :=
          if_neg noWriter
        rw [eq]
        exact inv.server_call inv.holds.openRead before rfl rfl rfl rfl rfl
  | serverRead => exact inv_serverRead inv enabled.1
  | serverClose =>
      have eof : s.server = .sawEof := enabled
      exact inv.server_call holds (by rw [eof]; rfl) rfl rfl rfl rfl rfl
  | serverSkip req =>
      have first : req ∈ outstanding s queue :=
        processing_outstanding (by rw [enabled.1]; rfl)
      obtain ⟨⟨resp, answered⟩, -⟩ := inv.answerable first
      rw [enabled.2] at answered
      cases answered
  | serverNoFifo req =>
      have first : req ∈ outstanding s queue :=
        processing_outstanding (by rw [enabled.1]; rfl)
      exact absurd ((inv.answerable first).2.symm.trans enabled.2.2.2) (Option.some_ne_none _)
  | rendezvous req resp own => exact inv_rendezvous inv enabled.1 enabled.2.1 enabled.2.2
  | serverWrite req resp => exact inv_serverWrite inv enabled
  | serverCloseClient req =>
      have answered : s.server = .answered req := enabled
      exact inv.server_call holds (by rw [answered]; rfl) rfl rfl rfl rfl rfl

/-- What the clients can count on: the request a client waits for an answer to is
in the pipe, or the server is processing it, or an answer to it is in the
client's FIFO; and what the server took is answered once each, in order,
up to the request it is processing. -/
structure Accounted (s : Sys) (queue : List Request) : Prop where
  holds : s.pipe.Holds Request.encode queue
  waits : ∀ p req, (s.client p).awaited = some req →
    req ∈ queue ∨ s.server.processing = some req ∨
      ∃ resp, s.inbox p = some [resp] ∧ (req, resp) ∈ s.answers
  reads : s.reads = (s.answers.map Prod.fst ++ s.server.processing.toList).map Request.encode
  answers : ∀ e ∈ s.answers, processRequest e.1 = .answer e.2

theorem Inv.accounted (inv : Inv s queue) : Accounted s queue := by
  refine ⟨inv.holds, fun p req awaited => ?_, inv.reads, inv.answers⟩
  have ok := inv.clients p
  cases pc : s.client p with
  | idle | ready _ | opened _ | dead =>
      rw [pc] at awaited
      cases awaited
  | written own | waiting own =>
      rw [pc] at awaited ok
      cases awaited
      rcases List.mem_append.mp ok.2.2 with processing | queued
      · exact .inr (.inl (Option.mem_toList.mp processing))
      · exact .inl queued
  | reading own =>
      rw [pc] at awaited ok
      cases awaited
      rcases ok.2 with ⟨resp, answering, -⟩ | ⟨-, resp, full, mem⟩
      · exact .inr (.inl (by rw [answering]; rfl))
      · exact .inr (.inr ⟨resp, full, mem⟩)

/-- **Main.** In every run in which no client dies or sends `REQ_QUIT` and no
request is discarded unread, every request is accounted for. -/
theorem requests_answered (capacity : Nat) (as : List Action) (s : Sys)
    (run : Run capacity init as s) (orderly : EachStep Orderly init as) :
    ∃ queue, Accounted s queue := by
  obtain ⟨queue, inv⟩ := Run.preserves_each (P := fun s => ∃ queue, Inv s queue) run
    ⟨[], inv_init⟩ orderly fun ⟨_, inv⟩ orderly enabled => ⟨_, inv_act inv orderly enabled⟩
  exact ⟨queue, inv.accounted⟩

theorem requests_answered_two :
    ∃ queue, Accounted ((.serverOpen :: sends 1 ++ sends 2 ++ serves 1).foldl act init) queue :=
  requests_answered 65536 _ _ (.of_enabled (by decide +kernel)) (by decide +kernel)

/-- `client quit`: the request the interactive client sends for `quit`. -/
def quitRun : List Action :=
  let req := Request.fill 1 .quit []
  [.serverOpen, .mkfifo 1 .quit [], .openServer req, .write req, .closeServer req, .serverRead,
    .serverSkip req]

/-- The client waits for an answer that nobody owes it: its request is neither in
the pipe nor being processed, and nothing is in its FIFO. -/
theorem quit_unanswered :
    ∃ s, Run 65536 init quitRun s ∧ s.client 1 = .waiting (.fill 1 .quit []) ∧
      s.pipe.bytes = [] ∧ s.server.processing = none ∧ s.inbox 1 = some [] ∧
      ¬ ∃ queue, Accounted s queue := by
  have waits : (quitRun.foldl act init).client 1 = .waiting (.fill 1 .quit []) := by
    decide +kernel
  have empty : (quitRun.foldl act init).pipe.bytes = [] := by decide +kernel
  have free : (quitRun.foldl act init).server.processing = none := by decide +kernel
  have inbox : (quitRun.foldl act init).inbox 1 = some [] := by decide +kernel
  refine ⟨_, .of_enabled (by decide +kernel), waits, empty, free, inbox, ?_⟩
  intro some
  rcases some with ⟨queue, accounted⟩
  have none : queue = [] := accounted.holds.eq_nil Request.length_encode sizeof_pos empty
  rcases accounted.waits 1 _ (by rw [waits]; rfl) with queued | processing | ⟨resp, full, -⟩
  · rw [none] at queued
    exact absurd queued List.not_mem_nil
  · rw [free] at processing
    cases processing
  · rw [inbox] at full
    cases full

end Osisp.Fifo
