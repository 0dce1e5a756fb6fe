import Osisp.Chat.TotalOrder

/-!
# What is said is heard

When nothing is on its way, the server has handled everything that was sent to it, and
everyone who is in the chat has been shown all of it from some line on (`settled_order`).
Such a state is always near: the network gets there from any other when what is on its
way is delivered and handled, and nobody does anything new (`network_settles`).
-/

namespace Osisp.Chat

open Lib

/-! ## Nothing is on its way -/

section Settled

variable {sock : Fd} {nick : CStr chatMaxNick} {s : Sys} {l : Link} {i : Slot}

/-- Everything that the client sent has been handled. -/
theorem Upward.settled (h : Upward sock nick s l) (at_ : l.At s i)
    (running : l.proc.user.done = false) (arrived : l.up.pending = [])
    (more : scanFrame (s.srv.clients i).inbuf.bytes = .more) : l.handled = l.sentUp sock := by
  obtain ⟨gs, split, received, part, fit⟩ := h.waits at_
  have whole : l.up.received = chatCodec.encodeAll (l.sentUp sock) := by
    have all := l.up.received_append_pending
    rw [arrived, List.append_nil, h.sent, (h.started at_).whole running] at all
    exact all
  rw [split, Codec.encodeAll_append, received] at whole
  rw [List.append_cancel_left whole] at more
  rw [split, chatCodec.eq_nil_of_scan fit more, List.append_nil]

/-- Everything that was sent to the client is shown. -/
theorem Downward.settled (h : Downward l) (waits : l.proc.rcv.Waits)
    (going : l.proc.rcv.phase ≠ .stopped) (arrived : l.down.pending = []) :
    l.shown = l.sentDown := by
  have first := h.shown_begins
  obtain ⟨gs, split⟩ := first
  obtain ⟨fs, reads⟩ := h.reads
  have shown : l.shown = fs := reads.messages
  have whole : l.down.received = chatCodec.encodeAll l.sentDown := by
    have all := l.down.received_append_pending
    rw [arrived, List.append_nil, h.stream] at all
    exact all
  rw [← split, Codec.encodeAll_append, reads.rest going, shown] at whole
  have more := waits going
  rw [List.append_cancel_left whole] at more
  have fit : ∀ f ∈ gs, chatCodec.Fits f := fun f mem => h.fit f (by
    rw [← split]
    exact List.mem_append_right _ mem)
  rw [← split, chatCodec.eq_nil_of_scan fit more, List.append_nil]

/-- A client behind its handshake is in the chat. -/
theorem Told.joined_of_connected (h : Told s l) (at_ : l.At s i)
    (connected : l.proc.rcv.phase = .connected) : (s.srv.clients i).joined = true := by
  obtain ⟨fs, reads⟩ := h.down.reads
  obtain ⟨f, mem, type⟩ := reads.acked (.inl connected)
  have sent : f ∈ l.sentDown := by
    refine h.down.shown_begins.subset ?_
    rw [Link.shown, reads.messages]
    exact mem
  cases here : (s.srv.clients i).joined with
  | true => rfl
  | false =>
      have answer := h.fresh i at_ here f sent
      rw [Frame.isAnswer, type] at answer
      cases answer

end Settled

section Net

variable {ι : Type}

/-- Nothing is on its way to the server. -/
structure Net.Heard (n : Net ι) : Prop where
  up : ∀ k, (n.links k).status = .linked → (n.links k).up.pending = []
  frames : ∀ i, ¬ Enabled n.srv (.frame i)

/-- Nothing is on its way at all. -/
structure Net.Quiet (n : Net ι) : Prop extends n.Heard where
  down : ∀ k, (n.links k).proc.rcv.phase ≠ .stopped → (n.links k).down.pending = []

variable [DecidableEq ι] {st : Setting ι} {n : Net ι}

/-- What holds of a client when it is started and survives what it does. -/
theorem NetReachable.proc {P : ClientProc → Prop} (reach : NetReachable st n)
    (idle : P Link.idle.proc)
    (start : ∀ k, P (.start (st.sock k) (st.userEnv k) (st.nick k)))
    (act : ∀ k {p a}, P p → P (clientAct (st.userEnv k) (st.sock k) p a)) (k : ι) :
    P (n.links k).proc := by
  obtain ⟨as, run⟩ := reach
  refine run.preserves (P := fun n => ∀ k, P (n.links k).proc) (fun _ => idle) ?_ k
  intro n x h _ k
  -- one link is changed, and all of them hear the server
  have changed : ∀ {k' : ι} {l : Link}, P l.proc → P ((n.setLink k' l).links k).proc := by
    intro k' l holds
    by_cases own : k = k'
    · subst own
      rwa [Net.links_setLink_self]
    · rw [Net.links_setLink_of_ne own]
      exact h k
  cases x with
  | connect k' fd =>
      change P (Link.hear _ ((n.setLink k' _).links k)).proc
      rw [Link.proc_hear]
      exact changed (start k')
  | upload k' i m =>
      change P (Link.hear _ ((n.setLink k' _).links k)).proc
      rw [Link.proc_hear]
      exact changed (h k')
  | serve a =>
      change P (Link.hear _ (n.links k)).proc
      rw [Link.proc_hear]
      exact h k
  | download k' m => exact changed (act k' (a := .receive _) (h k'))
  | client k' a => exact changed (act k' (h k'))

theorem NetReachable.waits (reach : NetReachable st n) (k : ι) : (n.links k).proc.rcv.Waits := by
  refine reach.proc (P := fun p => p.rcv.Waits) (.of_stopped rfl) (fun k => ?_)
    (fun k {_ a} h => h.act a) k
  unfold ClientProc.start
  dsimp only
  split
  · exact .of_stopped rfl
  · exact fun _ => rfl

/-- A buffer from which no frame can be taken waits for more. -/
theorem NetReachable.more (reach : NetReachable st n) (frames : ∀ i, ¬ Enabled n.srv (.frame i))
    {i : Slot} (used : (n.srv.srv.clients i).used = true) :
    scanFrame (n.srv.srv.clients i).inbuf.bytes = .more := by
  cases scan : scanFrame (n.srv.srv.clients i).inbuf.bytes with
  | more => rfl
  | bad => exact absurd scan (reach.sound.not_bad used)
  | frame f need => exact absurd ⟨used, f, need, scan⟩ (frames i)

/-- What client `k` has been shown is what has been said from some line on. -/
def ShowsAll (st : Setting ι) (n : Net ι) (said : List (ι × Bytes)) (k : ι) : Prop :=
  saidBy k said = broadcasts ((n.links k).sentUp (st.sock k)) ∧
    ∃ start ≤ said.length, chatLines (n.links k).shown = (said.map (sentLine st)).drop start

/-- **Nothing is lost.** When nothing is on its way, each client that is in the chat has said
all that it sent, and has been shown all that anybody has said, from some line on. -/
theorem settled_order (reach : NetReachable st n) (quiet : n.Quiet) :
    ∃ said, cutLines n.srv.log = said.map (sentLine st) ∧
      ∀ k, (n.links k).status = .linked → (n.links k).proc.rcv.phase = .connected →
        st.env.Delivers (n.links k).fd → ShowsAll st n said k := by
  obtain ⟨said, ordered⟩ := reach.ordered
  have lines : cutLines n.srv.log = said.map (sentLine st) := by
    rw [cutLines, ordered.spoken.lines, List.map_map]
    rfl
  refine ⟨said, lines, fun k linked connected ok => ?_⟩
  have sound := reach.sound
  have told := ordered.told k ok
  obtain ⟨i, at_⟩ := sound.wired.held k linked
  have going : (n.links k).proc.rcv.phase ≠ .stopped := by
    rw [connected]
    exact fun h => by cases h
  have running : (n.links k).proc.user.done = false :=
    Bool.eq_false_iff.mpr fun done => going ((sound.up k).joint.mp done)
  have joined := told.joined_of_connected at_ connected
  refine ⟨?_, ?_⟩
  · rw [(ordered.spoken.joined k i at_ joined).2,
      (sound.up k).settled at_ running (quiet.up k linked) (reach.more quiet.frames at_.used)]
  · obtain ⟨start, within, shown⟩ := told.joined i at_ joined
    refine ⟨start, ?_, ?_⟩
    · rwa [lines, List.length_map] at within
    · rw [told.down.settled (reach.waits k) going (quiet.down k going), shown, lines]

/-- Ann has spoken, and everything has arrived. -/
def annHeard : List (NetAction Bool) := annSpeaks ++ [.download false 23]

theorem annHeard_quiet : (annHeard.foldl (netAct duet) .init).Quiet :=
  ⟨⟨by decide +kernel, by decide +kernel⟩, by decide +kernel⟩

theorem settled_order_annHeard :
    let n := annHeard.foldl (netAct duet) .init
    ∃ said : List (Bool × Bytes), cutLines n.srv.log = said.map (sentLine duet) ∧
      ShowsAll duet n said false ∧ ShowsAll duet n said true := by
  intro n
  have reach : NetReachable duet n := ⟨_, .of_enabled (by decide +kernel)⟩
  obtain ⟨said, lines, all⟩ := settled_order reach annHeard_quiet
  exact ⟨said, lines,
    all false (by decide +kernel) (by decide +kernel) (Env.smooth_delivers _),
    all true (by decide +kernel) (by decide +kernel) (Env.smooth_delivers _)⟩

/-! ## What is on its way arrives -/

/-- The actions by which nobody does anything new. -/
def NetAction.isDelivery : NetAction ι → Bool
  | .upload _ _ _ | .serve (.frame _) | .download _ _ => true
  | _ => false

/-- Two sums that differ in one place. -/
theorem sum_moved {κ : Type} [Fintype κ] [DecidableEq κ] {f g : κ → Nat} (k : κ)
    (others : ∀ j, j ≠ k → g j = f j) : ∑ j, g j + f k = ∑ j, f j + g k := by
  have rest : ∑ j ∈ Finset.univ.erase k, g j = ∑ j ∈ Finset.univ.erase k, f j :=
    Finset.sum_congr rfl fun j mem => others j (Finset.ne_of_mem_erase mem)
  rw [← Finset.add_sum_erase _ f (Finset.mem_univ k),
    ← Finset.add_sum_erase _ g (Finset.mem_univ k), rest]
  omega

variable [Fintype ι]

/-- How much is on its way to the server, and how much of it is in its buffers. -/
def Net.coming (n : Net ι) : Nat := ∑ k, (n.links k).up.pending.length

def Net.buffered (n : Net ι) : Nat := ∑ i, (n.srv.srv.clients i).inbuf.bytes.length

/-- How much is on its way to the clients. -/
def Net.going (n : Net ι) : Nat := ∑ k, (n.links k).down.pending.length

/-- One byte arrives at the server. -/
theorem upload_less {k : ι} {i : Slot} (enabled : NetEnabled st n (.upload k i 1)) :
    2 * (netAct st n (.upload k i 1)).coming + (netAct st n (.upload k i 1)).buffered <
      2 * n.coming + n.buffered := by
  obtain ⟨-, -, -, some_, room⟩ := enabled
  have links : ∀ j, ((netAct st n (.upload k i 1)).links j).up.pending.length =
      if j = k then (n.links k).up.pending.length - 1 else (n.links j).up.pending.length := by
    intro j
    change (Link.hear _ ((n.setLink k _).links j)).up.pending.length = _
    rw [Link.up_hear]
    split
    · rename_i own
      rw [own, Net.links_setLink_self, Wire.pending_get, List.length_drop]
    · rename_i other
      rw [Net.links_setLink_of_ne other]
  have slots : ∀ j, ((netAct st n (.upload k i 1)).srv.srv.clients j).inbuf.bytes.length =
      if j = i then (n.srv.srv.clients i).inbuf.bytes.length + 1
      else (n.srv.srv.clients j).inbuf.bytes.length := by
    intro j
    change ((recvInto i ((n.links k).up.pending.take 1) n.srv).srv.clients j).inbuf.bytes.length = _
    have one : ((n.links k).up.pending.take 1).length = 1 := by
      rw [List.length_take, min_eq_left some_]
    unfold recvInto
    split
    · rename_i own
      subst own
      rw [Sys.clients_setClient_self]
      change ((n.srv.srv.clients j).inbuf.recv _).bytes.length = _
      rw [Buf.bytes_recv_of_le (one.trans_le room), List.length_append, one]
    · rename_i other
      rw [Sys.clients_setClient_of_ne _ _ other]
      rfl
  have up := sum_moved (f := fun j => (n.links j).up.pending.length) k
    fun j other => (links j).trans (if_neg other)
  have down := sum_moved (f := fun j => (n.srv.srv.clients j).inbuf.bytes.length) i
    fun j other => (slots j).trans (if_neg other)
  rw [(links k).trans (if_pos rfl)] at up
  rw [(slots i).trans (if_pos rfl)] at down
  unfold Net.coming Net.buffered
  omega

/-- A frame is handled. -/
theorem frame_less {i : Slot} (enabled : Enabled n.srv (.frame i)) :
    2 * (netAct st n (.serve (.frame i))).coming + (netAct st n (.serve (.frame i))).buffered <
      2 * n.coming + n.buffered := by
  obtain ⟨-, f, need, scan⟩ := enabled
  have links : (netAct st n (.serve (.frame i))).coming = n.coming := by
    refine Finset.sum_congr rfl fun k _ => ?_
    change (Link.hear _ (n.links k)).up.pending.length = _
    rw [Link.up_hear]
  have others : ∀ j, j ≠ i →
      ((netAct st n (.serve (.frame i))).srv.srv.clients j).inbuf.bytes.length =
        (n.srv.srv.clients j).inbuf.bytes.length := by
    intro j other
    change ((act st.env n.srv (.frame i)).srv.clients j).inbuf.bytes.length = _
    rw [act_frame scan, processFrame_of_ne st.env i f need n.srv other]
  have own : ((netAct st n (.serve (.frame i))).srv.srv.clients i).inbuf.bytes.length <
      (n.srv.srv.clients i).inbuf.bytes.length := by
    change ((act st.env n.srv (.frame i)).srv.clients i).inbuf.bytes.length < _
    rw [act_frame scan, (processFrame_sameConn st.env i f need n.srv).2.2.2]
    exact chatCodec.length_drop_lt scan
  have moved := sum_moved (f := fun j => (n.srv.srv.clients j).inbuf.bytes.length) i others
  rw [links]
  unfold Net.buffered
  omega

omit [Fintype ι] in
theorem NetReachable.act (reach : NetReachable st n) {x : NetAction ι}
    (enabled : NetEnabled st n x) : NetReachable st (netAct st n x) := by
  obtain ⟨as, run⟩ := reach
  exact ⟨_, run.append (.one enabled)⟩

/-- Everything arrives at the server, and is handled. -/
theorem NetReachable.heard (reach : NetReachable st n) :
    ∃ as n', NetRun st n as n' ∧ (∀ x ∈ as, x.isDelivery = true) ∧ NetReachable st n' ∧
      n'.Heard := by
  refine Run.exists_settled (fun n => 2 * n.coming + n.buffered) (fun n reach waiting => ?_) reach
  have sound := reach.sound
  by_cases frames : ∃ i, Enabled n.srv (.frame i)
  · obtain ⟨i, enabled⟩ := frames
    exact ⟨.serve (.frame i), rfl, ⟨rfl, enabled⟩, reach.act ⟨rfl, enabled⟩, frame_less enabled⟩
  · have behind : ∃ k, (n.links k).status = .linked ∧ (n.links k).up.pending ≠ [] := by
      by_contra none
      refine waiting ⟨fun k linked => ?_, fun i enabled => frames ⟨i, enabled⟩⟩
      by_contra some_
      exact none ⟨k, linked, some_⟩
    obtain ⟨k, linked, some_⟩ := behind
    obtain ⟨i, at_⟩ := sound.wired.held k linked
    have more := reach.more (fun i enabled => frames ⟨i, enabled⟩) at_.used
    have enabled : NetEnabled st n (.upload k i 1) :=
      ⟨linked, at_.slot, le_rfl, List.length_pos_of_ne_nil some_, room_of_more more⟩
    exact ⟨.upload k i 1, rfl, enabled, reach.act enabled, upload_less enabled⟩

/-- Receiving, a client sends nothing. -/
theorem ClientProc.log_receive (env : Env) (sock : Fd) (p : ClientProc) (ret : RecvRet) :
    ∃ done, (clientAct env sock p (.receive ret)).user.log = p.user.log ++ ending sock done := by
  change ∃ done, (p.setRcv sock (p.rcv.receive ret)).user.log = p.user.log ++ ending sock done
  unfold ClientProc.setRcv
  split
  · exact ⟨true, rfl⟩
  · exact ⟨false, (List.append_nil _).symm⟩

theorem Link.act_receive (env : Env) (sock : Fd) (l : Link) (ret : RecvRet) :
    (l.act env sock (.receive ret)).up.pending = l.up.pending ∧
      (l.act env sock (.receive ret)).sentUp sock = l.sentUp sock := by
  obtain ⟨done, log⟩ := ClientProc.log_receive env sock l.proc ret
  have silent : bytesTo sock (ending sock done) = [] := (bytesTo_ending sock [] done).1
  constructor
  · unfold Link.act
    dsimp only
    rw [log, List.drop_left, silent, Wire.pending_put, List.append_nil]
  · change (triedOn sock (clientAct env sock l.proc (.receive ret)).user.log).map Message.frame = _
    rw [log, (bytesTo_ending sock l.proc.user.log done).2]
    rfl

/-- One byte arrives at a client. -/
theorem download_less {k : ι} (enabled : NetEnabled st n (.download k 1)) :
    (netAct st n (.download k 1)).going < n.going := by
  obtain ⟨-, -, some_, -⟩ := enabled
  have own : ((netAct st n (.download k 1)).links k).down.pending.length =
      (n.links k).down.pending.length - 1 := by
    change ((n.setLink k _).links k).down.pending.length = _
    rw [Net.links_setLink_self, Wire.pending_get, List.length_drop]
  have moved := sum_moved (f := fun j => (n.links j).down.pending.length)
    (g := fun j => ((netAct st n (.download k 1)).links j).down.pending.length) k
    fun j other => by
      change ((n.setLink k _).links j).down.pending.length = _
      rw [Net.links_setLink_of_ne other]
  rw [own] at moved
  unfold Net.going
  omega

omit [Fintype ι] in
/-- Nothing more is on its way to the server because of it. -/
theorem Net.Heard.download (h : n.Heard) (k : ι) (m : Nat) :
    (netAct st n (.download k m)).Heard := by
  refine ⟨fun j linked => ?_, h.frames⟩
  change ((n.setLink k _).links j).status = .linked at linked
  change ((n.setLink k _).links j).up.pending = []
  by_cases own : j = k
  · subst own
    rw [Net.links_setLink_self] at linked ⊢
    exact (Link.act_receive _ _ _ _).1.trans (h.up j linked)
  · rw [Net.links_setLink_of_ne own] at linked ⊢
    exact h.up j linked

/-- Everything arrives at the clients. -/
theorem NetReachable.shown (reach : NetReachable st n) (heard : n.Heard) :
    ∃ as n', NetRun st n as n' ∧ (∀ x ∈ as, x.isDelivery = true) ∧
      (NetReachable st n' ∧ n'.Heard) ∧ n'.Quiet := by
  refine Run.exists_settled Net.going (fun n ⟨reach, heard⟩ waiting => ?_) ⟨reach, heard⟩
  have behind : ∃ k, (n.links k).proc.rcv.phase ≠ .stopped ∧ (n.links k).down.pending ≠ [] := by
    by_contra none
    refine waiting ⟨heard, fun k going => ?_⟩
    by_contra some_
    exact none ⟨k, going, some_⟩
  obtain ⟨k, going, some_⟩ := behind
  have enabled : NetEnabled st n (.download k 1) :=
    ⟨going, le_rfl, List.length_pos_of_ne_nil some_, room_of_more (reach.waits k going)⟩
  exact ⟨.download k 1, rfl, enabled, ⟨reach.act enabled, heard.download k 1⟩,
    download_less enabled⟩

omit [Fintype ι] in
/-- By a delivery nobody sends anything. -/
theorem sentUp_delivery {x : NetAction ι} (delivery : x.isDelivery = true) (k : ι) :
    ((netAct st n x).links k).sentUp (st.sock k) = (n.links k).sentUp (st.sock k) := by
  have heard : ∀ {n' : Net ι} {a : Action},
      ((n'.serve st.env a).links k).sentUp (st.sock k) = (n'.links k).sentUp (st.sock k) := by
    intro n' a
    change Link.sentUp _ (Link.hear _ (n'.links k)) = _
    rw [Link.sentUp, Link.proc_hear]
    rfl
  have changed : ∀ {k' : ι} {l : Link},
      l.sentUp (st.sock k') = (n.links k').sentUp (st.sock k') →
      ((n.setLink k' l).links k).sentUp (st.sock k) = (n.links k).sentUp (st.sock k) := by
    intro k' l same
    by_cases own : k = k'
    · subst own
      rwa [Net.links_setLink_self]
    · rw [Net.links_setLink_of_ne own]
  cases x with
  | connect k' fd => cases delivery
  | upload k' i m => exact heard.trans (changed rfl)
  | serve a => exact heard
  | download k' m => exact changed (Link.act_receive (st.userEnv k') _ (n.links k') (.data _)).2
  | client k' a => cases delivery

omit [Fintype ι] in
theorem sentUp_deliveries {n' : Net ι} {as : List (NetAction ι)} (run : NetRun st n as n')
    (deliveries : ∀ x ∈ as, x.isDelivery = true) (k : ι) :
    (n'.links k).sentUp (st.sock k) = (n.links k).sentUp (st.sock k) := by
  induction run with
  | nil => rfl
  | cons _ _ ih =>
      rw [List.forall_mem_cons] at deliveries
      exact (ih deliveries.2).trans (sentUp_delivery deliveries.1 k)

/-- **What is on its way arrives.** From any state of the network some deliveries lead to
one in which nothing is on its way; nobody sends anything meanwhile. -/
theorem network_settles (reach : NetReachable st n) :
    ∃ as n', NetRun st n as n' ∧ (∀ x ∈ as, x.isDelivery = true) ∧ n'.Quiet ∧
      ∀ k, (n'.links k).sentUp (st.sock k) = (n.links k).sentUp (st.sock k) := by
  obtain ⟨as, n', run, deliveries, reach', heard⟩ := reach.heard
  obtain ⟨bs, n'', run', deliveries', -, quiet⟩ := reach'.shown heard
  have all : ∀ x ∈ as ++ bs, x.isDelivery = true := fun x mem =>
    (List.mem_append.mp mem).elim (deliveries x) (deliveries' x)
  exact ⟨as ++ bs, n'', run.append run', all, quiet, sentUp_deliveries (run.append run') all⟩

end Net

theorem network_settles_annSpeaks :
    ∃ as n', NetRun duet (annSpeaks.foldl (netAct duet) .init) as n' ∧ n'.Quiet := by
  obtain ⟨as, n', run, -, quiet, -⟩ := network_settles annSpeaks_reachable
  exact ⟨as, n', run, quiet⟩

end Osisp.Chat
