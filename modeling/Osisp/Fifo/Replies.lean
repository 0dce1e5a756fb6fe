import Osisp.Fifo.Answers
import Osisp.Fifo.Specified

/-!
# Every client gets its own answer

Routing alone, with no assumption on what is lost: requests may be discarded with
the pipe, clients may die or send `REQ_QUIT`. `Route` relates the program counter
of a client to what is outstanding for it; the requests of a client that are left
are at most the one it waits for, so what the server writes into its FIFO answers
that one. `Asked` traces each request to the call of `send_request` it comes from.
-/

namespace Osisp.Fifo

open Lib

/-! ## The route of a client -/

/-- The outstanding requests of `p`. -/
def outOf (out : List Request) (p : Pid) : List Request := out.filter (·.clientPid = p)

/-- What the program counter of client `p` says about its FIFO and about the
outstanding requests that are its own. -/
def Route (s : Sys) (out : List Request) (p : Pid) : ClientPc → Prop
  | .idle => outOf out p = []
  | .ready req | .opened req => req.clientPid = p ∧ s.inbox p = some [] ∧ outOf out p = []
  | .written req | .waiting req =>
      req.clientPid = p ∧ s.inbox p = some [] ∧ (outOf out p).Sublist [req]
  | .reading req => req.clientPid = p ∧
      ((s.inbox p = some [] ∧ (∃ resp, s.server = .answering req resp) ∧
          (outOf out p).Sublist [req]) ∨
        (outOf out p = [] ∧ ∃ resp, s.inbox p = some [resp] ∧ processRequest req = .answer resp))
  | .dead => True

/-- Each client is on its route, and so is what the server has in hand. -/
structure Routed (s : Sys) (out : List Request) : Prop where
  clients : ∀ p, Route s out p (s.client p)
  answering : ∀ req resp, s.server = .answering req resp → processRequest req = .answer resp
  returned : ∀ req result, (req, some result) ∈ s.returned →
    ∃ resp, processRequest req = .answer resp ∧ sendRequestResult [resp] = some result

variable {s s' : Sys} {a : Action} {as : List Action} {queue queue' out out' : List Request}
  {p : Pid} {req own : Request} {resp : Response} {capacity : Nat}

theorem routed_init : Routed init [] where
  clients _ := rfl
  answering := nofun
  returned := fun _ _ mem => absurd mem List.not_mem_nil

theorem mem_outOf : req ∈ outOf out p ↔ req ∈ out ∧ req.clientPid = p := by
  simp [outOf]

theorem outOf_append_of_ne (other : req.clientPid ≠ p) : outOf (out ++ [req]) p = outOf out p := by
  simp [outOf, other]

/-- A client that has nothing outstanding is not being served. -/
theorem not_mem_of_outOf_nil (none : outOf out p = []) (mem : req ∈ out) : req.clientPid ≠ p := by
  intro pid
  have inside : req ∈ outOf out p := mem_outOf.mpr ⟨mem, pid⟩
  rw [none] at inside
  exact List.not_mem_nil inside

theorem eq_of_outOf_sublist (one : (outOf out own.clientPid).Sublist [own]) (mem : req ∈ out)
    (pid : req.clientPid = own.clientPid) : req = own :=
  List.mem_singleton.mp (one.subset (mem_outOf.mpr ⟨mem, pid⟩))

/-! ## Frames -/

/-- Losing requests leads no client astray. -/
theorem Route.frame {pc : ClientPc} (route : Route s out p pc) (inbox : s'.inbox p = s.inbox p)
    (fewer : (outOf out' p).Sublist (outOf out p))
    (server : ∀ req resp, pc = .reading req → req.clientPid = p →
      s.server = .answering req resp → s'.server = .answering req resp) : Route s' out' p pc := by
  have nil : outOf out p = [] → outOf out' p = [] := by
    intro none
    rw [none] at fewer
    exact List.sublist_nil.mp fewer
  cases pc with
  | idle => exact nil route
  | ready own | opened own => exact ⟨route.1, inbox.trans route.2.1, nil route.2.2⟩
  | written own | waiting own => exact ⟨route.1, inbox.trans route.2.1, fewer.trans route.2.2⟩
  | reading own =>
      refine ⟨route.1, route.2.imp ?_ ?_⟩
      · intro before
        rcases before with ⟨empty, ⟨resp, answering⟩, one⟩
        exact ⟨inbox.trans empty, ⟨resp, server own resp rfl route.1 answering⟩, fewer.trans one⟩
      · intro before
        rcases before with ⟨none, resp, full, answered⟩
        exact ⟨nil none, resp, inbox.trans full, answered⟩
  | dead => trivial

theorem Routed.mono (routed : Routed s out) (fewer : out'.Sublist out) : Routed s out' where
  clients p := (routed.clients p).frame rfl (fewer.filter _) fun _ _ _ _ answering => answering
  answering := routed.answering
  returned := routed.returned

/-- A call that concerns client `p` alone. -/
theorem Routed.client_call (routed : Routed s out) (others : Others p s s')
    (fewer : ∀ q, q ≠ p → (outOf out' q).Sublist (outOf out q))
    (server : ∀ req resp, req.clientPid ≠ p → s.server = .answering req resp →
      s'.server = .answering req resp)
    (own : Route s' out' p (s'.client p))
    (answering : ∀ req resp, s'.server = .answering req resp →
      processRequest req = .answer resp)
    (returned : ∀ req result, (req, some result) ∈ s'.returned →
      ∃ resp, processRequest req = .answer resp ∧ sendRequestResult [resp] = some result) :
    Routed s' out' := by
  refine ⟨fun q => ?_, answering, returned⟩
  by_cases other : q = p
  · rw [other]
    exact own
  · rw [others.client q other]
    exact (routed.clients q).frame (others.inbox q other) (fewer q other)
      fun req resp _ pid => server req resp fun same => other (pid.symm.trans same)

/-- A call of the server that leaves the clients alone and answers nobody. -/
theorem Routed.server_call (routed : Routed s out) (client : s'.client = s.client)
    (inbox : s'.inbox = s.inbox) (fewer : out'.Sublist out)
    (before : ∀ req resp, s.server ≠ .answering req resp)
    (after : ∀ req resp, s'.server ≠ .answering req resp)
    (returned : s'.returned = s.returned) : Routed s' out' := by
  refine ⟨fun q => ?_, fun req resp answering => absurd answering (after req resp), ?_⟩
  · rw [client]
    exact (routed.clients q).frame (by rw [inbox]) (fewer.filter _)
      fun req resp _ _ answering => absurd answering (before req resp)
  · rw [returned]
    exact routed.returned

/-! ## The calls of a client -/

theorem routed_mkfifo (routed : Routed s (outstanding s queue)) {type : RequestType} {text : Bytes}
    (idle : s.client p = .idle) :
    Routed (act s (.mkfifo p type text)) (outstanding (act s (.mkfifo p type text)) queue) := by
  have route : Route s (outstanding s queue) p .idle := idle ▸ routed.clients p
  have pc : (act s (.mkfifo p type text)).client p = .ready (.fill p type text) :=
    Function.update_self _ _ _
  refine routed.client_call (p := p) ⟨fun q other => ?_, fun q other => ?_⟩
    (fun _ _ => .refl _) (fun _ _ _ answering => answering) ?_ routed.answering routed.returned
  · exact Function.update_of_ne other _ _
  · exact Function.update_of_ne other _ _
  · rw [pc]
    exact ⟨rfl, Function.update_self _ _ _, route⟩

/-- A call of a client that only moves its program counter; the server, if it
moves at all, was not answering. -/
theorem routed_setClient (routed : Routed s out) {pc : ClientPc} {pipe : Pipe Pid}
    {server : ServerPc} (same : s.server = server ∨
      (∀ req resp, s.server ≠ .answering req resp) ∧ ∀ req resp, server ≠ .answering req resp)
    (own : Route { s with server } out p pc) :
    Routed { s.setClient p pc with pipe, server } out := by
  have others := others_setClient s p pc
  have now : (s.setClient p pc).client p = pc := Function.update_self _ _ _
  refine routed.client_call (p := p) ⟨others.client, others.inbox⟩ (fun _ _ => .refl _) ?_ ?_ ?_
    routed.returned
  · intro req resp _ answering
    rcases same with rfl | ⟨before, -⟩
    · exact answering
    · exact absurd answering (before req resp)
  · change Route _ out p ((s.setClient p pc).client p)
    rw [now]
    exact own.frame rfl (.refl _) fun _ _ _ _ answering => answering
  · intro req resp answering
    rcases same with rfl | ⟨-, after⟩
    · exact routed.answering req resp answering
    · exact absurd answering (after req resp)

/-- The written request is the only one of its client. -/
theorem routed_write_open (routed : Routed s (outstanding s queue))
    (opened : s.client req.clientPid = .opened req) (reader : s.pipe.reader = true) :
    Routed (act s (.write req)) (outstanding (act s (.write req)) (queue ++ [req])) := by
  have route : Route s (outstanding s queue) req.clientPid (.opened req) :=
    opened ▸ routed.clients _
  have eq : act s (.write req) = { s.setClient req.clientPid (.written req) with
      pipe := s.pipe.write req.encode, written := s.written ++ [req] } := if_pos reader
  have out : outstanding (act s (.write req)) (queue ++ [req]) = outstanding s queue ++ [req] := by
    rw [eq, outstanding, outstanding, List.append_assoc]
    rfl
  have others := others_setClient s req.clientPid (.written req)
  have pc : (s.setClient req.clientPid (.written req)).client req.clientPid = .written req :=
    Function.update_self _ _ _
  rw [out, eq]
  refine routed.client_call (p := req.clientPid) ⟨others.client, others.inbox⟩ (fun q other => ?_)
    (fun _ _ _ answering => answering) ?_ routed.answering routed.returned
  · rw [outOf_append_of_ne (Ne.symm other)]
  · rw [pc]
    refine ⟨rfl, route.2.1, ?_⟩
    have one : outOf (outstanding s queue ++ [req]) req.clientPid = [req] := by
      rw [outOf, List.filter_append, ← outOf, route.2.2]
      simp
    rw [one]

/-- What a client reads is the answer to the request it waited for. -/
theorem routed_readOwn (routed : Routed s (outstanding s queue))
    (reading : s.client req.clientPid = .reading req)
    (unblocked : s.inbox req.clientPid ≠ some [] ∨ ¬ s.server.Holding req.clientPid) :
    Routed (act s (.readOwn req)) (outstanding (act s (.readOwn req)) queue) := by
  have route : Route s (outstanding s queue) req.clientPid (.reading req) :=
    reading ▸ routed.clients _
  have pc : (act s (.readOwn req)).client req.clientPid = .idle := Function.update_self _ _ _
  obtain ⟨-, ⟨empty, ⟨resp, answering⟩, -⟩ | ⟨none, resp, full, answered⟩⟩ := route
  · rcases unblocked with some | released
    · exact absurd empty some
    · rw [answering] at released
      exact absurd rfl released
  · refine routed.client_call (p := req.clientPid) ⟨fun q other => ?_, fun q other => ?_⟩
      (fun _ _ => .refl _) (fun _ _ _ answering => answering) ?_ routed.answering ?_
    · exact Function.update_of_ne other _ _
    · exact Function.update_of_ne other _ _
    · rw [pc]
      exact none
    · intro r result mem
      rcases List.mem_append.mp mem with before | last
      · exact routed.returned r result before
      · rw [List.mem_singleton, full] at last
        obtain ⟨rfl, result⟩ := Prod.mk.inj last
        exact ⟨resp, answered, result.symm⟩

/-! ## The calls of the server -/

theorem routed_serverRead (routed : Routed s (outstanding s queue))
    (holds : s.pipe.Holds Request.encode queue) (reading : s.server = .reading) :
    Routed (act s .serverRead) (outstanding (act s .serverRead) queue.tail) := by
  have out : outstanding s queue = queue := by
    rw [outstanding, reading]
    rfl
  by_cases empty : s.pipe.bytes = []
  · obtain ⟨rfl, eq⟩ := serverRead_empty holds empty
    rw [eq]
    exact routed.server_call rfl rfl (List.nil_sublist _) (by simp [reading]) (by simp) rfl
  · obtain ⟨req, rest, rfl, -, eq⟩ := serverRead_takes holds empty
    rw [eq]
    refine routed.server_call rfl rfl ?_ (by simp [reading]) (by simp) rfl
    rw [out]
    exact .refl _

/-- The client that opens its FIFO waits for the answer the server has in hand. -/
theorem routed_rendezvous (routed : Routed s (outstanding s queue))
    (serving : s.server = .serving req) (answered : processRequest req = .answer resp)
    (waiting : s.client req.clientPid = .waiting own) :
    Routed (act s (.rendezvous req resp own))
      (outstanding (act s (.rendezvous req resp own)) queue) := by
  have route : Route s (outstanding s queue) req.clientPid (.waiting own) :=
    waiting ▸ routed.clients _
  have first : req ∈ outstanding s queue := processing_outstanding (by rw [serving]; rfl)
  obtain ⟨mine, empty, one⟩ := route
  obtain rfl : req = own := eq_of_outOf_sublist (mine ▸ one) first mine.symm
  have out : outstanding (act s (.rendezvous req resp req)) queue = outstanding s queue := by
    rw [outstanding, outstanding, serving]
    rfl
  have others := others_setClient s req.clientPid (.reading req)
  have pc : (act s (.rendezvous req resp req)).client req.clientPid = .reading req :=
    Function.update_self _ _ _
  rw [out]
  refine routed.client_call (p := req.clientPid) ⟨others.client, others.inbox⟩
    (fun _ _ => .refl _) (fun r resp' _ answering => ?_) ?_ (fun r resp' answering => ?_)
    routed.returned
  · rw [serving] at answering
    cases answering
  · rw [pc]
    exact ⟨rfl, .inl ⟨empty, ⟨resp, rfl⟩, one⟩⟩
  · cases answering
    exact answered

/-- The response goes into the FIFO of the client that asked, or nowhere. -/
theorem routed_serverWrite (routed : Routed s (outstanding s queue))
    (answering : s.server = .answering req resp) :
    Routed (act s (.serverWrite req resp)) (outstanding (act s (.serverWrite req resp)) queue) := by
  have answered := routed.answering req resp answering
  have out : outstanding s queue = req :: queue := by
    rw [outstanding, answering]
    rfl
  have first : req ∈ outstanding s queue := by simp [out]
  have fewer : queue.Sublist (outstanding s queue) := out ▸ List.sublist_cons_self _ _
  have noOther : ∀ r resp', r.clientPid ≠ req.clientPid → s.server ≠ .answering r resp' := by
    intro r resp' other now
    rw [answering] at now
    cases now
    exact other rfl
  have route := routed.clients req.clientPid
  cases pc : s.client req.clientPid with
  | reading own =>
      rw [pc] at route
      obtain ⟨mine, ⟨empty, -, one⟩ | ⟨none, -⟩⟩ := route
      · obtain rfl : req = own := eq_of_outOf_sublist (mine ▸ one) first mine.symm
        have eq : act s (.serverWrite req resp) = { s with
            server := .answered req
            inbox := Function.update s.inbox req.clientPid (some [resp])
            answers := s.answers ++ [(req, resp)] } := by
          simp only [act, pc, empty, List.nil_append]
        rw [eq]
        refine routed.client_call (p := req.clientPid)
          ⟨fun _ _ => rfl, fun q other => Function.update_of_ne other _ _⟩
          (fun q _ => fewer.filter _)
          (fun r resp' other now => absurd now (noOther r resp' other)) ?_
          (fun _ _ now => by cases now) routed.returned
        change Route _ _ _ (s.client req.clientPid)
        rw [pc]
        refine ⟨rfl, .inr ⟨?_, resp, Function.update_self _ _ _, answered⟩⟩
        rw [out, outOf, List.filter_cons_of_pos (by simp)] at one
        exact List.sublist_nil.mp (List.cons_sublist_cons.mp one)
      · exact absurd rfl (not_mem_of_outOf_nil none first)
  | idle | ready _ | opened _ | written _ | waiting _ | dead =>
      have eq : act s (.serverWrite req resp) = { s with server := .answered req } := by
        simp only [act, pc]
      rw [eq]
      refine routed.client_call (p := req.clientPid) ⟨fun _ _ => rfl, fun _ _ => rfl⟩
        (fun q _ => fewer.filter _)
        (fun r resp' other now => absurd now (noOther r resp' other)) ?_
        (fun _ _ now => by cases now) routed.returned
      rw [pc] at route
      change Route _ _ _ (s.client req.clientPid)
      rw [pc]
      exact route.frame rfl (fewer.filter _) fun _ _ reading => by cases reading

/-- No call leads a client astray. -/
theorem routed_act (holds : s.pipe.Holds Request.encode queue)
    (routed : Routed s (outstanding s queue)) (enabled : Enabled capacity s a) :
    Routed (act s a) (outstanding (act s a) (queueAfter s queue a)) := by
  cases a with
  | mkfifo p type text => exact routed_mkfifo routed enabled
  | openServer req =>
      have route : Route s (outstanding s queue) req.clientPid (.ready req) :=
        enabled.1 ▸ routed.clients _
      by_cases opening : s.server = .opening
      · have eq : act s (.openServer req) = { s.setClient req.clientPid (.opened req) with
            server := .reading, pipe := s.pipe.openRead.openWrite req.clientPid } := if_pos opening
        have out : outstanding (act s (.openServer req)) queue = outstanding s queue := by
          rw [eq, outstanding, outstanding, opening]
          rfl
        change Routed _ (outstanding _ queue)
        rw [out, eq]
        exact routed_setClient routed (.inr ⟨by simp [opening], by simp⟩) route
      · have eq : act s (.openServer req) = { s.setClient req.clientPid (.opened req) with
            pipe := s.pipe.openWrite req.clientPid } := if_neg opening
        change Routed _ (outstanding _ queue)
        rw [eq]
        exact routed_setClient routed (.inl rfl) route
  | write req =>
      cases reader : s.pipe.reader with
      | true =>
          have after : queueAfter s queue (.write req) = queue ++ [req] := if_pos reader
          rw [after]
          exact routed_write_open routed enabled.1 reader
      | false =>
          have closed : ¬ s.pipe.reader = true := by simp [reader]
          have after : queueAfter s queue (.write req) = queue := if_neg closed
          have eq : act s (.write req) = s.die req.clientPid := if_neg closed
          rw [after, eq]
          exact routed_setClient routed (.inl rfl) trivial
  | closeServer req =>
      have route : Route s (outstanding s queue) req.clientPid (.written req) :=
        enabled ▸ routed.clients _
      exact routed_setClient routed (.inl rfl) route
  | readOwn req => exact routed_readOwn routed enabled.1 enabled.2
  | crash p => exact routed_setClient routed (.inl rfl) trivial
  | serverOpen =>
      have closed : s.server = .closed := enabled
      have fewer : queue.Sublist (outstanding s queue) := List.sublist_append_right _ _
      by_cases noWriter : s.pipe.writers = ∅
      · have eq : act s .serverOpen = { s with server := .opening } := if_pos noWriter
        rw [eq]
        exact routed.server_call rfl rfl fewer (by simp [closed]) (by simp) rfl
      · have eq : act s .serverOpen = { s with server := .reading, pipe := s.pipe.openRead } :=
          if_neg noWriter
        rw [eq]
        exact routed.server_call rfl rfl fewer (by simp [closed]) (by simp) rfl
  | serverRead => exact routed_serverRead routed holds enabled.1
  | serverClose =>
      have eof : s.server = .sawEof := enabled
      exact routed.server_call rfl rfl (List.sublist_append_right _ _) (by simp [eof])
        (by simp [act]) rfl
  | serverSkip req =>
      exact routed.server_call rfl rfl (List.sublist_append_right _ _) (by simp [enabled.1])
        (by simp [act]) rfl
  | serverNoFifo req =>
      exact routed.server_call rfl rfl (List.sublist_append_right _ _) (by simp [enabled.1])
        (by simp [act]) rfl
  | rendezvous req resp own => exact routed_rendezvous routed enabled.1 enabled.2.1 enabled.2.2
  | serverWrite req resp => exact routed_serverWrite routed enabled
  | serverCloseClient req =>
      have answered : s.server = .answered req := enabled
      exact routed.server_call rfl rfl (List.sublist_append_right _ _) (by simp [answered])
        (by simp [act]) rfl

theorem routed_run (run : Run capacity init as s) :
    ∃ queue, s.pipe.Holds Request.encode queue ∧ Routed s (outstanding s queue) := by
  refine Run.preserves (P := fun s => ∃ queue, s.pipe.Holds Request.encode queue ∧
    Routed s (outstanding s queue)) run ⟨[], .fresh, routed_init⟩ ?_
  intro s a before enabled
  rcases before with ⟨queue, holds, routed⟩
  obtain ⟨queue', holds', fewer⟩ := holds_after a holds
  exact ⟨queue', holds', (routed_act holds routed enabled).mono (fewer.append_left _)⟩

/-! ## Where the requests come from -/

/-- The request of the call of `send_request` the client is in. -/
def ClientPc.request : ClientPc → Option Request
  | .ready req | .opened req | .written req | .waiting req | .reading req => some req
  | .idle | .dead => none

/-- Every request in the system is `asked` for. -/
structure Asked (asked : Request → Prop) (s : Sys) (out : List Request) : Prop where
  clients : ∀ p req, (s.client p).request = some req → asked req
  out : ∀ req ∈ out, asked req
  returned : ∀ e ∈ s.returned, asked e.1

/-- A client has the request it had, or the one of the call it enters. -/
theorem request_act {q : Pid} (enabled : Enabled capacity s a)
    (has : ((act s a).client q).request = some req) :
    (s.client q).request = some req ∨ ∃ type text, a = .mkfifo q type text ∧
      req = .fill q type text := by
  rcases client_act enabled q with same | move
  · rw [same] at has
    exact .inl has
  · generalize s.client q = pc at move ⊢
    generalize (act s a).client q = pc' at move has
    cases move with
    | mkfifo type text call =>
        cases has
        exact .inr ⟨type, text, call, rfl⟩
    | openServer | write | closeServer | rendezvous => exact .inl has
    | sigpipe | readOwn | crash => cases has

/-- What the server holds of the requests it took, told from its program counter:
all of it, or what it still has to open a FIFO for. -/
structure Hand (hand : ServerPc → Option Request) : Prop where
  serving : ∀ req, hand (.serving req) = some req
  answering : ∀ req resp own, hand (.answering req resp) = some own → own = req
  free : ∀ pc, pc.processing = none → hand pc = none

theorem hand_processing : Hand ServerPc.processing where
  serving _ := rfl
  answering _ _ _ h := (Option.some.inj h).symm
  free _ h := h

/-- What is in hand or in the pipe after a call was so before, or is written in it. -/
theorem Hand.mem_act {hand : ServerPc → Option Request} (h : Hand hand)
    (holds : s.pipe.Holds Request.encode queue) (enabled : Enabled capacity s a)
    (mem : req ∈ (hand (act s a).server).toList ++ queueAfter s queue a) :
    req ∈ (hand s.server).toList ++ queue ∨ a = .write req ∧ s.pipe.reader = true := by
  have released : (act s a).server.processing = none → queueAfter s queue a = queue →
      req ∈ (hand s.server).toList ++ queue := by
    intro free same
    rw [h.free _ free, same] at mem
    exact List.mem_append_right _ mem
  have unchanged : (act s a).server = s.server → queueAfter s queue a = queue →
      req ∈ (hand s.server).toList ++ queue := by
    intro server same
    rwa [server, same] at mem
  cases a with
  | write own =>
      cases reader : s.pipe.reader with
      | true =>
          have server : (act s (.write own)).server = s.server := by
            simp [act, reader, Sys.setClient]
          rw [server, show queueAfter s queue (.write own) = queue ++ [own] from if_pos reader,
            ← List.append_assoc, List.mem_append, List.mem_singleton] at mem
          rcases mem with before | rfl
          · exact .inl before
          · exact .inr ⟨rfl, rfl⟩
      | false =>
          refine .inl (unchanged ?_ (if_neg (by simp [reader])))
          simp [act, reader, Sys.die, Sys.setClient]
  | serverRead =>
      by_cases empty : s.pipe.bytes = []
      · obtain ⟨rfl, eq⟩ := serverRead_empty holds empty
        exact .inl (released (by rw [eq]; rfl) rfl)
      · obtain ⟨first, rest, rfl, -, eq⟩ := serverRead_takes holds empty
        rw [eq, h.serving] at mem
        exact .inl (List.mem_append_right _ mem)
  | openServer own =>
      by_cases opening : s.server = .opening
      · exact .inl (released (by simp [act, opening, Sys.setClient, ServerPc.processing]) rfl)
      · exact .inl (unchanged (by simp [act, opening, Sys.setClient]) rfl)
  | serverOpen =>
      refine .inl (released ?_ rfl)
      simp only [act]
      split <;> rfl
  | serverWrite own resp =>
      refine .inl (released ?_ rfl)
      simp only [act]
      split <;> rfl
  | rendezvous own resp other =>
      rcases List.mem_append.mp mem with now | queued
      · rw [h.answering own resp req (Option.mem_toList.mp now), enabled.1, h.serving]
        exact .inl (List.mem_append_left _ (List.mem_singleton.mpr rfl))
      · exact .inl (List.mem_append_right _ queued)
  | serverClose | serverSkip | serverNoFifo | serverCloseClient => exact .inl (released rfl rfl)
  | mkfifo | closeServer | readOwn | crash => exact .inl (unchanged rfl rfl)

/-- A call asks for what its client asks for. -/
theorem asked_act {asked : Request → Prop} (holds : s.pipe.Holds Request.encode queue)
    (before : Asked asked s (outstanding s queue)) (enabled : Enabled capacity s a)
    (calls : ∀ p type text, a = .mkfifo p type text → asked (.fill p type text)) :
    Asked asked (act s a) (outstanding (act s a) (queueAfter s queue a)) where
  clients p req has := by
    rcases request_act enabled has with kept | ⟨type, text, call, rfl⟩
    · exact before.clients p req kept
    · exact calls p type text call
  out req mem := by
    rcases hand_processing.mem_act holds enabled mem with kept | ⟨rfl, -⟩
    · exact before.out req kept
    · exact before.clients req.clientPid req (by rw [enabled.1]; rfl)
  returned e mem := by
    cases a with
    | readOwn req =>
        rcases List.mem_append.mp mem with kept | last
        · exact before.returned e kept
        · rw [List.mem_singleton] at last
          rw [last]
          exact before.clients req.clientPid req (by rw [enabled.1]; rfl)
    | openServer | write | serverOpen | serverRead | serverWrite =>
        simp only [act] at mem
        split at mem <;> exact before.returned e mem
    | mkfifo | closeServer | crash | serverClose | serverSkip | serverNoFifo | rendezvous
    | serverCloseClient => exact before.returned e mem

/-- A call of `send_request` in the run. -/
def Called (as : List Action) (req : Request) : Prop :=
  ∃ type text, Action.mkfifo req.clientPid type text ∈ as ∧
    req = .fill req.clientPid type text

theorem asked_run (run : Run capacity init as s) :
    ∃ queue, s.pipe.Holds Request.encode queue ∧ Asked (Called as) s (outstanding s queue) := by
  have members : EachStep (fun _ a => a ∈ as) init as := Lib.EachStep.mem fun _ mem => mem
  refine Run.preserves_each (P := fun s => ∃ queue, s.pipe.Holds Request.encode queue ∧
    Asked (Called as) s (outstanding s queue)) run
    ⟨[], .fresh, nofun, fun _ mem => absurd mem List.not_mem_nil,
      fun _ mem => absurd mem List.not_mem_nil⟩ members ?_
  intro s a before member enabled
  rcases before with ⟨queue, holds, asked⟩
  obtain ⟨queue', holds', fewer⟩ := holds_after a holds
  have after := asked_act holds asked enabled fun p type text call =>
    ⟨type, text, call ▸ member, rfl⟩
  exact ⟨queue', holds', after.clients,
    fun req mem => after.out req ((fewer.append_left _).subset mem), after.returned⟩

/-! ## The answers -/

/-- **Main.** In every run, each result that `send_request` returns is that of a
call of `send_request` in the run, and the one specified for the type and data of
that call; and what is in the FIFO a client reads from answers the request of
that client. -/
theorem own_replies (capacity : Nat) (as : List Action) (s : Sys) (run : Run capacity init as s) :
    (∀ req result, (req, some result) ∈ s.returned → Called as req) ∧
    (∀ pid type text result, (0 : UInt8) ∉ text → text.length ≤ msgSize - 1 →
      (.fill pid type text, some result) ∈ s.returned → specified type text = some result) ∧
    ∀ p req rs resp, s.client p = .reading req → s.inbox p = some rs → resp ∈ rs →
      req.clientPid = p ∧ processRequest req = .answer resp := by
  obtain ⟨queue, -, routed⟩ := routed_run run
  obtain ⟨_, -, asked⟩ := asked_run run
  refine ⟨fun req result mem => asked.returned _ mem, ?_, ?_⟩
  · intro pid type text result noNul fits mem
    obtain ⟨resp, answered, eq⟩ := routed.returned _ _ mem
    rw [← result_fill pid noNul fits answered, eq]
  · intro p req rs resp reading full mem
    have route : Route s (outstanding s queue) p (.reading req) := reading ▸ routed.clients p
    obtain ⟨mine, ⟨empty, -⟩ | ⟨-, resp', one, answered⟩⟩ := route
    · rw [full] at empty
      cases empty
      exact absurd mem List.not_mem_nil
    · rw [full] at one
      cases one
      rw [List.mem_singleton] at mem
      rw [mem]
      exact ⟨mine, answered⟩

/-- Two clients have asked, and both have their answers. -/
theorem own_replies_two :
    let s := (.serverOpen :: sends 1 ++ sends 2 ++ serves 1 ++ serves 2).foldl act init
    (echoHi 1, some (ascii "hi")) ∈ s.returned ∧ (echoHi 2, some (ascii "hi")) ∈ s.returned ∧
      specified .echo (ascii "hi") = some (ascii "hi") := by
  intro s
  have first : (echoHi 1, some (ascii "hi")) ∈ s.returned := by decide +kernel
  have second : (echoHi 2, some (ascii "hi")) ∈ s.returned := by decide +kernel
  exact ⟨first, second, (own_replies 65536
    (.serverOpen :: sends 1 ++ sends 2 ++ serves 1 ++ serves 2) s (.of_enabled
      (by decide +kernel))).2.1 1 .echo (ascii "hi") (ascii "hi") (by decide) (by decide) first⟩

end Osisp.Fifo
