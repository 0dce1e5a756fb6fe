import Osisp.Fifo.System

/-!
# Requests on their way to the server

`SERVER_FIFO` always holds whole requests, and what the server read is exactly
what was written before them, as long as no process closes the last descriptor
while something is unread. The server does close its descriptor on end of file
and opens the FIFO again; a client that came and went in between takes its
request with it (`closed_with_request`).
-/

namespace Osisp.Fifo

open Lib

/-! ## What a call does to the queue -/

/-- The call closes the last descriptor of `SERVER_FIFO`. -/
def ClosesLast (s : Sys) : Action → Prop
  | .write req => s.pipe.LastWriter req.clientPid
  | .closeServer req => s.pipe.LastWriter req.clientPid
  | .crash p => s.pipe.LastWriter p
  | .serverClose => s.pipe.writers = ∅
  | _ => False

instance (s : Sys) (a : Action) : Decidable (ClosesLast s a) := by
  induction a using Action.casesOn <;> unfold ClosesLast <;> infer_instance

/-- Nothing unread is discarded by the call. -/
def Kept (s : Sys) (a : Action) : Prop := ClosesLast s a → s.pipe.bytes = []

instance (s : Sys) (a : Action) : Decidable (Kept s a) :=
  inferInstanceAs (Decidable (_ → _))

/-- The requests in the pipe after the call. -/
def queueAfter (s : Sys) (queue : List Request) : Action → List Request
  | .write req => if s.pipe.reader then queue ++ [req] else queue
  | .serverRead => queue.tail
  | _ => queue

variable {s s' : Sys} {a : Action} {as : List Action} {queue : List Request} {capacity : Nat}

theorem sizeof_pos : 0 < Request.sizeof := by decide

/-- A read returns 0 only when no request is in the pipe. -/
theorem serverRead_empty (holds : s.pipe.Holds Request.encode queue)
    (empty : s.pipe.bytes = []) :
    queue = [] ∧ act s .serverRead = { s with server := .sawEof } :=
  ⟨holds.eq_nil Request.length_encode sizeof_pos empty, if_pos empty⟩

/-- Any other read takes the first request, whole. -/
theorem serverRead_takes (holds : s.pipe.Holds Request.encode queue)
    (unread : s.pipe.bytes ≠ []) :
    ∃ req rest, queue = req :: rest ∧
      (s.pipe.read Request.sizeof).Holds Request.encode rest ∧
      act s .serverRead =
        { s with
          pipe := s.pipe.read Request.sizeof
          reads := s.reads ++ [req.encode]
          server := .serving req } := by
  obtain ⟨req, rest, eq, taken, rest_holds⟩ := holds.read Request.length_encode unread
  refine ⟨req, rest, eq, rest_holds, ?_⟩
  simp only [act, if_neg unread, taken, Request.decode_encode]

/-- **The pipe holds whole requests**, call after call. -/
theorem holds_act (kept : Kept s a) (holds : s.pipe.Holds Request.encode queue) :
    (act s a).pipe.Holds Request.encode (queueAfter s queue a) := by
  cases a with
  | openServer req =>
      by_cases opening : s.server = .opening
      · simpa [act, opening, Sys.setClient, queueAfter] using holds.openRead.openWrite req.clientPid
      · simpa [act, opening, Sys.setClient, queueAfter] using holds.openWrite req.clientPid
  | write req =>
      cases reader : s.pipe.reader with
      | true => simpa [act, reader, queueAfter] using holds.write reader req
      | false => simpa [act, reader, queueAfter, Sys.die] using holds.closeWrite kept
  | closeServer req => exact holds.closeWrite kept
  | crash p => exact holds.closeWrite kept
  | serverOpen =>
      by_cases none : s.pipe.writers = ∅
      · simpa [act, none, queueAfter] using holds
      · simpa [act, none, queueAfter] using holds.openRead
  | serverRead =>
      by_cases empty : s.pipe.bytes = []
      · obtain ⟨rfl, eq⟩ := serverRead_empty holds empty
        rw [eq]
        exact holds
      · obtain ⟨req, rest, rfl, rest_holds, eq⟩ := serverRead_takes holds empty
        rw [eq]
        exact rest_holds
  | serverClose => exact holds.closeRead kept
  | serverWrite req resp =>
      simp only [act]
      split <;> exact holds
  | mkfifo | readOwn | serverSkip | serverNoFifo | rendezvous | serverCloseClient => exact holds

/-- Where the requests in the pipe went in a call. -/
inductive Moves (s : Sys) (a : Action) (queue : List Request) : List Request → Prop
  | quiet : Kept s a → (act s a).written = s.written → (act s a).reads = s.reads →
      Moves s a queue queue
  | wrote (req : Request) : Kept s a → (act s a).written = s.written ++ [req] →
      (act s a).reads = s.reads → Moves s a queue (queue ++ [req])
  | took (req : Request) (rest : List Request) : Kept s a → queue = req :: rest →
      (act s a).written = s.written → (act s a).reads = s.reads ++ [req.encode] →
      Moves s a queue rest
  | lost : ¬ Kept s a → queue ≠ [] → (act s a).written = s.written →
      (act s a).reads = s.reads → Moves s a queue []

/-- A call that keeps what is unread. -/
theorem moves_kept (holds : s.pipe.Holds Request.encode queue) (kept : Kept s a) :
    Moves s a queue (queueAfter s queue a) := by
  cases a with
  | write req =>
      cases reader : s.pipe.reader with
      | true =>
          have after : queueAfter s queue (.write req) = queue ++ [req] := if_pos reader
          rw [after]
          exact .wrote req kept (by simp [act, reader]) (by simp [act, reader, Sys.setClient])
      | false =>
          have after : queueAfter s queue (.write req) = queue := if_neg (by simp [reader])
          rw [after]
          exact .quiet kept (by simp [act, reader, Sys.die, Sys.setClient])
            (by simp [act, reader, Sys.die, Sys.setClient])
  | serverRead =>
      by_cases empty : s.pipe.bytes = []
      · obtain ⟨rfl, eq⟩ := serverRead_empty holds empty
        exact .quiet kept (by rw [eq]) (by rw [eq])
      · obtain ⟨req, rest, rfl, -, eq⟩ := serverRead_takes holds empty
        exact .took req rest kept rfl (by rw [eq]) (by rw [eq])
  | openServer req =>
      refine .quiet kept ?_ ?_ <;> simp only [act] <;> split <;> rfl
  | serverOpen =>
      refine .quiet kept ?_ ?_ <;> simp only [act] <;> split <;> rfl
  | serverWrite req resp =>
      refine .quiet kept ?_ ?_ <;> simp only [act] <;> split <;> rfl
  | mkfifo | closeServer | readOwn | crash | serverClose | serverSkip | serverNoFifo
  | rendezvous | serverCloseClient => exact .quiet kept rfl rfl

/-- A call that closes the last descriptor on unread requests. -/
theorem moves_lost (holds : s.pipe.Holds Request.encode queue) (lost : ¬ Kept s a) :
    (act s a).pipe.Holds Request.encode ([] : List Request) ∧ Moves s a queue [] := by
  obtain ⟨last, unread⟩ := Classical.not_imp.mp lost
  have some : queue ≠ [] := by
    intro none
    rw [none] at holds
    exact unread holds
  cases a with
  | write req =>
      have reader : s.pipe.reader = false := last.1
      have eq : act s (.write req) = s.die req.clientPid := by simp [act, reader]
      exact ⟨by rw [eq]; exact .closeWrite_last last, .lost lost some (by rw [eq]; rfl)
        (by rw [eq]; rfl)⟩
  | closeServer req => exact ⟨.closeWrite_last last, .lost lost some rfl rfl⟩
  | crash p => exact ⟨.closeWrite_last last, .lost lost some rfl rfl⟩
  | serverClose => exact ⟨.settled_last rfl last, .lost lost some rfl rfl⟩
  | mkfifo | openServer | readOwn | serverOpen | serverRead | serverSkip | serverNoFifo
  | rendezvous | serverWrite | serverCloseClient => exact last.elim

/-- Everything a call can do to the requests in the pipe. -/
theorem act_moves (a : Action) (holds : s.pipe.Holds Request.encode queue) :
    ∃ queue', (act s a).pipe.Holds Request.encode queue' ∧ Moves s a queue queue' := by
  by_cases kept : Kept s a
  · exact ⟨_, holds_act kept holds, moves_kept holds kept⟩
  · exact ⟨[], moves_lost holds kept⟩

/-- What is in the pipe after a call is part of `queueAfter`. -/
theorem holds_after (a : Action) (holds : s.pipe.Holds Request.encode queue) :
    ∃ queue', (act s a).pipe.Holds Request.encode queue' ∧
      queue'.Sublist (queueAfter s queue a) := by
  by_cases kept : Kept s a
  · exact ⟨_, holds_act kept holds, .refl _⟩
  · exact ⟨[], (moves_lost holds kept).1, List.nil_sublist _⟩

/-! ## Runs -/

/-- The server read the requests `taken`, each with one `read` that returned
exactly its bytes; `queue` is in the pipe; nothing else was written. -/
structure Delivered (s : Sys) (taken queue : List Request) : Prop where
  written : s.written = taken ++ queue
  reads : s.reads = taken.map Request.encode
  holds : s.pipe.Holds Request.encode queue

theorem delivered_init : Delivered init [] [] := ⟨rfl, rfl, .fresh⟩

theorem delivered_act {taken : List Request} (d : Delivered s taken queue) (kept : Kept s a) :
    ∃ taken' queue', Delivered (act s a) taken' queue' := by
  obtain ⟨queue', holds, moves⟩ := act_moves a d.holds
  cases moves with
  | quiet _ written reads =>
      exact ⟨taken, queue, written.trans d.written, reads.trans d.reads, holds⟩
  | wrote req _ written reads =>
      refine ⟨taken, queue ++ [req], ?_, reads.trans d.reads, holds⟩
      rw [written, d.written, List.append_assoc]
  | took req rest _ eq written reads =>
      refine ⟨taken ++ [req], queue', ?_, ?_, holds⟩
      · rw [written, d.written, eq, List.append_assoc, List.singleton_append]
      · rw [reads, d.reads, List.map_append, List.map_singleton]
  | lost notKept => exact absurd kept notKept

/-- `missing` requests were written that are neither read nor in the pipe. -/
def Missing (s : Sys) (missing : Nat) : Prop :=
  ∃ queue : List Request, s.pipe.Holds Request.encode queue ∧
    s.written.length = s.reads.length + queue.length + missing

/-- A call loses no request, or it is not `Kept` and loses some. -/
theorem missing_act {missing : Nat} (m : Missing s missing) (a : Action) :
    (Kept s a ∧ Missing (act s a) missing) ∨
      ∃ more, missing < more ∧ Missing (act s a) more := by
  obtain ⟨queue, holds, count⟩ := m
  obtain ⟨queue', holds', moves⟩ := act_moves a holds
  cases moves with
  | quiet kept written reads =>
      exact .inl ⟨kept, queue, holds', by rw [written, reads, count]⟩
  | wrote req kept written reads =>
      refine .inl ⟨kept, _, holds', ?_⟩
      rw [written, reads, List.length_append, List.length_append, count]
      omega
  | took req rest kept eq written reads =>
      refine .inl ⟨kept, _, holds', ?_⟩
      rw [written, reads, List.length_append, count, eq, List.length_cons, List.length_singleton]
      omega
  | lost _ some written reads =>
      have pos := List.length_pos_iff.mpr some
      refine .inr ⟨queue.length + missing, by omega, [], holds', ?_⟩
      rw [written, reads, count, List.length_nil]
      omega

/-- What is lost stays lost, and a run that lost nothing kept every step. -/
theorem missing_run (run : Run capacity s as s') {missing : Nat} (m : Missing s missing) :
    ∃ more, missing ≤ more ∧ Missing s' more ∧ (more = missing → EachStep Kept s as) := by
  induction run generalizing missing with
  | nil => exact ⟨missing, le_rfl, m, fun _ => trivial⟩
  | @cons s _ a _ _ _ ih =>
      rcases missing_act m a with ⟨kept, same⟩ | ⟨first, lt, lost⟩
      · obtain ⟨more, le, final, each⟩ := ih same
        exact ⟨more, le, final, fun eq => ⟨kept, each eq⟩⟩
      · obtain ⟨more, le, final, -⟩ := ih lost
        exact ⟨more, by omega, final, fun eq => absurd eq (by omega)⟩

/-- The pipe tells how many requests are missing. -/
theorem missing_unique {m n : Nat} (hm : Missing s m) (hn : Missing s n) : m = n := by
  obtain ⟨queue, holds, count⟩ := hm
  obtain ⟨queue', holds', count'⟩ := hn
  have same : queue.length * Request.sizeof = queue'.length * Request.sizeof :=
    (holds.length Request.length_encode).symm.trans (holds'.length Request.length_encode)
  have := Nat.eq_of_mul_eq_mul_right sizeof_pos same
  omega

/-- **Main.** The requests that were written are those the server read, each
with one `read` that returned exactly its bytes, followed by those that are whole
in the pipe, if and only if no call of the run closed the last descriptor of
`SERVER_FIFO` on unread requests. -/
theorem requests_delivered (capacity : Nat) (as : List Action) (s : Sys)
    (run : Run capacity init as s) :
    (∃ taken queue, Delivered s taken queue) ↔ EachStep Kept init as := by
  constructor
  · intro all
    rcases all with ⟨taken, queue, d⟩
    have start : Missing init 0 := ⟨[], .fresh, rfl⟩
    obtain ⟨more, -, final, each⟩ := missing_run run start
    have none : Missing s 0 := by
      refine ⟨queue, d.holds, ?_⟩
      rw [d.written, d.reads, List.length_append, List.length_map, Nat.add_zero]
    exact each (missing_unique final none)
  · intro kept
    exact Run.preserves_each (P := fun s => ∃ taken queue, Delivered s taken queue) run
      ⟨[], [], delivered_init⟩ kept fun ⟨_, _, d⟩ kept _ => delivered_act d kept

/-! ## Two clients -/

/-- `client echo hi`. -/
def echoHi (p : Pid) : Request := .fill p .echo (ascii "hi")

/-- What the server answers. -/
def echoedHi : Response := ⟨0, (echoHi 0).data⟩

/-- A client's part of `send_request` that concerns `SERVER_FIFO`. -/
def sends (p : Pid) : List Action :=
  [.mkfifo p .echo (ascii "hi"), .openServer (echoHi p), .write (echoHi p),
    .closeServer (echoHi p)]

/-- The server takes the request of `p` and answers it. -/
def serves (p : Pid) : List Action :=
  [.serverRead, .rendezvous (echoHi p) echoedHi (echoHi p), .serverWrite (echoHi p) echoedHi,
    .readOwn (echoHi p), .serverCloseClient (echoHi p)]

theorem requests_delivered_two :
    ∃ taken queue, Delivered ((.serverOpen :: sends 1 ++ sends 2 ++ serves 1).foldl act init)
      taken queue :=
  (requests_delivered 65536 _ _ (.of_enabled (by decide +kernel))).mpr (by decide +kernel)

/-- The first client is served; the server reads end of file; a second client
sends its request and closes the FIFO; then the server closes it to open it again. -/
def reopenRun : List Action :=
  .serverOpen :: sends 1 ++ serves 1 ++ .serverRead :: sends 2 ++ [.serverClose]

/-- The request of the second client was written and is neither read nor in the
pipe, and the client waits for its answer. -/
theorem closed_with_request :
    ∃ s, Run 65536 init reopenRun s ∧ s.written = [echoHi 1, echoHi 2] ∧
      s.reads = [(echoHi 1).encode] ∧ s.pipe.bytes = [] ∧ s.client 2 = .waiting (echoHi 2) ∧
      ¬ ∃ taken queue, Delivered s taken queue := by
  have written : (reopenRun.foldl act init).written = [echoHi 1, echoHi 2] := by decide +kernel
  have reads : (reopenRun.foldl act init).reads = [(echoHi 1).encode] := by decide +kernel
  have empty : (reopenRun.foldl act init).pipe.bytes = [] := by decide +kernel
  refine ⟨_, .of_enabled (by decide +kernel), written, reads, empty, by decide +kernel, ?_⟩
  intro all
  rcases all with ⟨taken, queue, d⟩
  have none : queue = [] := d.holds.eq_nil Request.length_encode sizeof_pos empty
  have two := congrArg List.length (written.symm.trans d.written)
  have one := congrArg List.length (reads.symm.trans d.reads)
  rw [none, List.append_nil] at two
  rw [List.length_map, ← two] at one
  exact absurd one (by decide)

end Osisp.Fifo
