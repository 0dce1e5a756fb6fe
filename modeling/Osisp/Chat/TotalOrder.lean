import Osisp.Chat.Agreement
import Osisp.Chat.Whole

/-!
# The order of the chat

Behind the lines of the chat stands one sequence of texts, each with the client that
said it. The texts of a client are, in order and each once, the first of those that it
sent (`Spoken`), and every client is shown a contiguous part of the sequence, so that any
two clients agree on what was said between two lines that both of them have seen
(`total_order`). When nothing is on its way any more, everything has been said, and
everyone who is in the chat has seen all of it from some line on (`settled_order`).
-/

namespace Osisp.Chat

open Lib

/-- The nick that the server keeps: trailing line ends are cut off. -/
def storedNick (nick : CStr chatMaxNick) : Bytes := nick.bytes.rdropWhile isNewline

/-- The bodies of the broadcasts among frames. -/
def broadcasts (fs : List Frame) : List Bytes :=
  (fs.filter (·.type = MsgType.broadcast.code)).map Frame.body

theorem broadcasts_append (fs gs : List Frame) :
    broadcasts (fs ++ gs) = broadcasts fs ++ broadcasts gs := by
  rw [broadcasts, List.filter_append, List.map_append, broadcasts, broadcasts]

theorem broadcasts_begin {fs gs : List Frame} (h : fs <+: gs) :
    broadcasts fs <+: broadcasts gs := by
  obtain ⟨rest, rfl⟩ := h
  rw [broadcasts_append]
  exact List.prefix_append _ _

section Said

variable {ι : Type} [DecidableEq ι]

/-- The texts of client `k`. -/
def saidBy (k : ι) (said : List (ι × Bytes)) : List Bytes := (said.filter (·.1 = k)).map (·.2)

theorem saidBy_append (k : ι) (said more : List (ι × Bytes)) :
    saidBy k (said ++ more) = saidBy k said ++ saidBy k more := by
  rw [saidBy, List.filter_append, List.map_append, saidBy, saidBy]

theorem saidBy_self (k : ι) (text : Bytes) : saidBy k [(k, text)] = [text] := by
  simp [saidBy]

theorem saidBy_of_ne {k j : ι} (ne : j ≠ k) (text : Bytes) : saidBy k [(j, text)] = [] := by
  simp [saidBy, ne]

end Said

/-- The line that the server makes of a text. -/
def spokenLine {ι : Type} (st : Setting ι) (p : ι × Bytes) : Bytes :=
  broadcastLine (storedNick (st.nick p.1)) p.2

/-- The line as it is sent. -/
def sentLine {ι : Type} (st : Setting ι) (p : ι × Bytes) : Bytes :=
  (spokenLine st p).take chatMaxBody

/-! ## The lines of an action -/

section Lines

variable {env : Env} {s : Sys} {a : Action} {i : Slot}

/-- Only frames build lines. -/
theorem linesOf_addedBy (other : ∀ c, a ≠ .frame c) : linesOf (addedBy env s a) = [] := by
  have same : linesOf (act env s a).log = linesOf s.log := by
    have closes : ∀ t : Sys, ∀ c, linesOf (closeSlot c t).log = linesOf t.log := by
      intro t c
      rw [log_closeSlot]
      split
      · exact linesOf_snoc _ rfl
      · rfl
    cases a with
    | accept fd =>
        change linesOf (acceptClient env fd s).log = _
        rcases acceptClient_cases env fd s with ⟨j, added, eq⟩ | ⟨-, eq⟩
        · rw [eq, (addClient_some added).2.2.2.1]
          exact linesOf_snoc _ rfl
        · obtain ⟨d, d', out, out', away⟩ := turnAway_eq env fd (s.note (.accept fd))
          rw [eq, away, Sys.log_withLog, linesOf_snoc _ rfl, linesOf_snoc _ rfl,
            linesOf_snoc _ rfl]
          exact linesOf_snoc _ rfl
    | recv c data => exact linesOf_snoc _ rfl
    | frame c => exact absurd rfl (other c)
    | invalid c => exact closes s c
    | remove c =>
        obtain ⟨sends, sending, eq⟩ := log_removeClientIndex env s c
        change linesOf (removeClientIndex env c s).log = _
        rw [eq, closes]
        exact linesOf_of_sending ⟨sends, rfl, sending⟩
  rw [log_act, linesOf_append] at same
  exact List.append_right_eq_self.mp same

/-- A frame builds a line exactly if it is a broadcast of a joined client. -/
theorem linesOf_frame (env : Env) {c : Slot} {f : Frame} {need : Nat}
    (scan : scanFrame (s.srv.clients c).inbuf.bytes = .frame f need) :
    linesOf (addedBy env s (.frame c)) =
      if f.type = MsgType.broadcast.code ∧ (s.srv.clients c).joined = true then
        [broadcastLine (s.srv.clients c).nick.bytes f.body]
      else [] := by
  have noted : linesOf (s.log ++ [.frame c f]) = linesOf s.log := linesOf_snoc _ rfl
  have same : linesOf (act env s (.frame c)).log = linesOf s.log ++
      if f.type = MsgType.broadcast.code ∧ (s.srv.clients c).joined = true then
        [broadcastLine (s.srv.clients c).nick.bytes f.body]
      else [] := by
    rw [log_act_frame scan]
    by_cases spoke : f.type = MsgType.broadcast.code ∧ (s.srv.clients c).joined = true
    · have known : MsgType.ofCode f.type = some .broadcast := by rw [spoke.1]; rfl
      rw [if_pos spoke]
      unfold handleFrame
      rw [known]
      dsimp only
      rw [handleBroadcast_of_joined env (s := (s.note (.frame c f))) spoke.2]
      dsimp only
      rw [Sys.log_withLog, linesOf_of_sending (sendAll_sends _ _ _ _ _ _).appends_sending]
      change linesOf (s.log ++ [.frame c f] ++ [.line _]) = _
      rw [linesOf_append, noted]
      rfl
    · rw [if_neg spoke, List.append_nil, ← noted]
      have step := handleFrame_case env c f (s.note (.frame c f))
      generalize handleFrame env c f (s.note (.frame c f)) = s' at step
      cases step with
      | quiet sends => exact linesOf_of_sending sends.appends_sending
      | join accepted =>
          exact linesOf_of_sending (acceptJoin_case env c _ _).sends.appends_sending
      | broadcast type joined => exact absurd ⟨type, joined⟩ spoke
      | privateMsg => exact linesOf_of_sending (sendPrivate_sends _ _ _ _ _ _).appends_sending
  rw [log_act, linesOf_append] at same
  exact List.append_cancel_left same

/-- By its own frame a client stays who it is, or joins. -/
theorem frame_identity {f : Frame} {need : Nat}
    (scan : scanFrame (s.srv.clients i).inbuf.bytes = .frame f need) :
    ((act env s (.frame i)).srv.clients i).joined = (s.srv.clients i).joined ∧
        ((act env s (.frame i)).srv.clients i).nick = (s.srv.clients i).nick ∨
      ∃ nick, JoinAccepted s.srv.clients i f nick ∧
        ((act env s (.frame i)).srv.clients i).nick.bytes = cstr nick := by
  obtain ⟨s', step, eq⟩ := processFrame_case env i f need s
  rw [act_frame scan, eq, Sys.clients_setClient_self]
  rcases step.identity with same | ⟨nick, accepted, new⟩
  · exact .inl (same i)
  · refine .inr ⟨nick, ⟨accepted.type, accepted.fresh, accepted.check⟩, ?_⟩
    change (s'.srv.clients i).nick.bytes = cstr nick
    rw [new]
    exact storedNick_bytes accepted.check

end Lines

/-! ## What has been said -/

theorem MsgType.code_inj {t u : MsgType} (h : t.code = u.code) : t = u := by
  rw [← Option.some_inj, ← MsgType.ofCode_code t, h, MsgType.ofCode_code]

/-- The `JOIN` of a client is its first frame. -/
theorem Upward.first_join {sock : Fd} {nick : CStr chatMaxNick} {s : Sys} {l : Link} {i : Slot}
    (h : Upward sock nick s l) (at_ : l.At s i) {f : Frame} {need : Nat}
    (scan : scanFrame (s.srv.clients i).inbuf.bytes = .frame f need)
    (type : f.type = MsgType.join.code) : l.handled = [] ∧ f.body = nick.bytes := by
  obtain ⟨first, -⟩ := h.takes at_ scan
  obtain ⟨rest, join, others⟩ := (h.started at_).join
  rw [Link.sentUp, join, List.map_cons] at first
  cases front : l.handled with
  | nil =>
      rw [front] at first
      obtain ⟨same, -⟩ := List.cons_prefix_cons.mp first
      rw [same]
      exact ⟨rfl, rfl⟩
  | cons g gs =>
      rw [front] at first
      obtain ⟨-, later⟩ := List.cons_prefix_cons.mp first
      have mem : f ∈ rest.map Message.frame :=
        later.subset (List.mem_append_right _ (List.mem_singleton_self f))
      obtain ⟨m, sent, rfl⟩ := List.mem_map.mp mem
      exact absurd (MsgType.code_inj type) (others m sent)

/-- `said` is what has been said so far. -/
structure Spoken {ι : Type} [DecidableEq ι] (st : Setting ι) (n : Net ι)
    (said : List (ι × Bytes)) : Prop where
  lines : linesOf n.srv.log = said.map (spokenLine st)
  begins : ∀ k, saidBy k said <+: broadcasts (n.links k).handled
  joined : ∀ k i, (n.links k).At n.srv i → (n.srv.srv.clients i).joined = true →
    (n.srv.srv.clients i).nick.bytes = storedNick (st.nick k) ∧
      saidBy k said = broadcasts (n.links k).handled
  fresh : ∀ k i, (n.links k).At n.srv i → (n.srv.srv.clients i).joined = false →
    saidBy k said = []

namespace Spoken

variable {ι : Type} [DecidableEq ι] {st : Setting ι} {n n' : Net ι} {said : List (ι × Bytes)}

theorem init : Spoken st Net.init [] where
  lines := rfl
  begins _ := List.nil_prefix
  joined _ _ at_ := by cases at_.linked
  fresh _ _ _ _ := rfl

/-- Nobody has said anything, and the clients are who they were. -/
theorem silent (h : Spoken st n said) (lines : linesOf n'.srv.log = linesOf n.srv.log)
    (handled : ∀ k, (n'.links k).handled = (n.links k).handled)
    (same : ∀ k i, (n'.links k).At n'.srv i →
      (n'.srv.srv.clients i).joined = true ∧ (n.links k).At n.srv i ∧
          (n.srv.srv.clients i).joined = true ∧
          (n'.srv.srv.clients i).nick = (n.srv.srv.clients i).nick ∨
        (n'.srv.srv.clients i).joined = false ∧
          (saidBy k said = [] ∨ (n.links k).At n.srv i ∧
            (n.srv.srv.clients i).joined = false)) :
    Spoken st n' said := by
  refine ⟨lines.trans h.lines, fun k => ?_, fun k i at_ yes => ?_, fun k i at_ no => ?_⟩
  · rw [handled]
    exact h.begins k
  · rcases same k i at_ with ⟨-, before, joined, nick⟩ | ⟨fresh, -⟩
    · rw [handled, nick]
      exact h.joined k i before joined
    · cases fresh.symm.trans yes
  · rcases same k i at_ with ⟨joined, -⟩ | ⟨-, none | ⟨before, fresh⟩⟩
    · cases joined.symm.trans no
    · exact none
    · exact h.fresh k i before fresh

/-- An action of the server that handles no frame. -/
theorem serve (h : Spoken st n said) (inv : Inv n.srv) (wired : Wired n) {a : Action}
    (enabled : Enabled n.srv a) (other : ∀ i, a ≠ .frame i) :
    Spoken st (n.serve st.env a) said := by
  have unchanged : ∀ k, ((n.serve st.env a).links k).handled = (n.links k).handled := by
    intro k
    change (Link.hear (addedBy st.env n.srv a) (n.links k)).handled = _
    by_cases linked : (n.links k).status = .linked
    · obtain ⟨i, at_⟩ := wired.held k linked
      rw [Link.handled_hear _ linked at_.slot, framesFrom_addedBy (other i), List.append_nil]
    · rw [Link.hear_of_not_linked linked]
  refine h.silent ?_ unchanged fun k i at' => ?_
  · change linesOf (act st.env n.srv a).log = _
    rw [log_act, linesOf_append, linesOf_addedBy other, List.append_nil]
  · obtain ⟨at_, goes⟩ :=
      (Link.At.hear_at_iff inv enabled (wired.held k)).mp at'
    obtain ⟨joined, nick⟩ := act_identity at_.used goes (other i)
    change ((act st.env n.srv a).srv.clients i).joined = true ∧ _ ∨
      ((act st.env n.srv a).srv.clients i).joined = false ∧ _
    rw [joined]
    cases here : (n.srv.srv.clients i).joined with
    | true => exact .inl ⟨rfl, at_, rfl, nick⟩
    | false => exact .inr ⟨rfl, .inr ⟨at_, rfl⟩⟩

/-- What a frame of client `k` adds. -/
def added (t : Table) (k : ι) (c : Slot) (f : Frame) : List (ι × Bytes) :=
  if f.type = MsgType.broadcast.code ∧ (t c).joined = true then [(k, f.body)] else []

theorem saidBy_added_of_ne {t : Table} {j k : ι} (ne : j ≠ k) (c : Slot) (f : Frame) :
    saidBy k (added t j c f) = [] := by
  unfold added
  split
  · exact saidBy_of_ne ne f.body
  · rfl

/-- A joined client says its broadcasts. -/
theorem saidBy_added_joined {t : Table} {c : Slot} (joined : (t c).joined = true) (k : ι)
    (f : Frame) : saidBy k (added t k c f) = broadcasts [f] := by
  unfold added broadcasts
  by_cases type : f.type = MsgType.broadcast.code
  · rw [if_pos ⟨type, joined⟩, saidBy_self, List.filter_cons_of_pos (by simpa using type)]
    rfl
  · rw [if_neg (fun h => type h.1), List.filter_cons_of_neg (by simpa using type)]
    rfl

theorem saidBy_added_fresh {t : Table} {c : Slot} (fresh : (t c).joined = false) (k : ι)
    (f : Frame) : saidBy k (added t k c f) = [] := by
  unfold added
  rw [if_neg fun h => ne_true_of_eq_false fresh h.2]
  rfl

/-- A frame of client `j`, in slot `c`. -/
theorem frame (h : Spoken st n said) (sound : NetSound st n) {j : ι} {c : Slot}
    (own : (n.links j).At n.srv c) {f : Frame} {need : Nat}
    (scan : scanFrame (n.srv.srv.clients c).inbuf.bytes = .frame f need) :
    Spoken st (n.serve st.env (.frame c)) (said ++ added n.srv.srv.clients j c f) := by
  have enabled : Enabled n.srv (.frame c) := ⟨own.used, f, need, scan⟩
  have frames : framesFrom c (addedBy st.env n.srv (.frame c)) = [f] := by
    have log := framesFrom_processFrame st.env c f need n.srv
    rw [← act_frame scan, log_act, framesFrom_append] at log
    exact List.append_cancel_left log
  have mine : ((n.serve st.env (.frame c)).links j).handled = (n.links j).handled ++ [f] := by
    change (Link.hear (addedBy st.env n.srv (.frame c)) (n.links j)).handled = _
    rw [Link.handled_hear _ own.linked own.slot, frames]
  have others : ∀ k, k ≠ j →
      ((n.serve st.env (.frame c)).links k).handled = (n.links k).handled := by
    intro k ne
    change (Link.hear (addedBy st.env n.srv (.frame c)) (n.links k)).handled = _
    by_cases linked : (n.links k).status = .linked
    · obtain ⟨i, at_⟩ := sound.wired.held k linked
      have elsewhere : Action.frame c ≠ .frame i := by
        intro eq
        cases eq
        exact ne (sound.wired.one k j c at_ own)
      rw [Link.handled_hear _ linked at_.slot, framesFrom_addedBy elsewhere, List.append_nil]
    · rw [Link.hear_of_not_linked linked]
  have before : ∀ k i, ((n.serve st.env (.frame c)).links k).At
      (act st.env n.srv (.frame c)) i → (n.links k).At n.srv i := fun k i at' =>
    ((Link.At.hear_at_iff sound.srv.inv enabled (sound.wired.held k)).mp at').1
  have goes : ∀ i, ¬ (Action.frame c).Ends i := by
    rintro i (eq | eq) <;> cases eq
  refine ⟨?_, fun k => ?_, fun k i at' yes => ?_, fun k i at' no => ?_⟩
  · -- a line is built exactly if something is said
    change linesOf (act st.env n.srv (.frame c)).log = _
    rw [log_act, linesOf_append, linesOf_frame st.env scan, h.lines, List.map_append, added]
    split
    · rename_i spoke
      rw [(h.joined j c own spoke.2).1]
      rfl
    · rfl
  · by_cases ne : k = j
    · subst ne
      rw [mine, saidBy_append, broadcasts_append]
      cases here : (n.srv.srv.clients c).joined with
      | true =>
          rw [saidBy_added_joined here, (h.joined k c own here).2]
      | false =>
          rw [saidBy_added_fresh here, h.fresh k c own here]
          exact List.nil_prefix
    · rw [others k ne, saidBy_append, saidBy_added_of_ne (Ne.symm ne), List.append_nil]
      exact h.begins k
  · have at_ := before k i at'
    by_cases ne : k = j
    · subst ne
      cases at_.slot_unique own
      rw [mine, saidBy_append, broadcasts_append]
      cases here : (n.srv.srv.clients c).joined with
      | true =>
          obtain ⟨nick, whole⟩ := h.joined k c own here
          rw [saidBy_added_joined here, whole]
          refine ⟨?_, rfl⟩
          rcases frame_identity scan with ⟨-, same⟩ | ⟨_, accepted, -⟩
          · exact (congrArg CStr.bytes same).trans nick
          · cases here.symm.trans accepted.fresh
      | false =>
          rcases frame_identity scan with ⟨same, -⟩ | ⟨nick, accepted, stored⟩
          · cases (same.trans here).symm.trans yes
          · obtain ⟨first, body⟩ := (sound.up k).first_join own scan accepted.type
            have text : nick = storedNick (st.nick k) := by
              rw [(checkJoin_ok accepted.check).1, body]
              rfl
            have plain : (0 : UInt8) ∉ storedNick (st.nick k) := fun mem =>
              (st.nick k).noNul ((List.rdropWhile_prefix isNewline _).subset mem)
            rw [text, cstr_eq_self plain] at stored
            refine ⟨stored, ?_⟩
            have silent : broadcasts [f] = [] := by
              unfold broadcasts
              rw [List.filter_cons_of_neg (by rw [accepted.type]; decide)]
              rfl
            rw [saidBy_added_fresh here, h.fresh k c own here, first, silent]
            rfl
    · have elsewhere : Action.frame c ≠ .frame i := by
        intro eq
        cases eq
        exact ne (sound.wired.one k j c at_ own)
      obtain ⟨joined, nick⟩ := act_identity at_.used (goes i) elsewhere
      obtain ⟨known, whole⟩ := h.joined k i at_ (joined.symm.trans yes)
      rw [others k ne, saidBy_append, saidBy_added_of_ne (Ne.symm ne), List.append_nil]
      exact ⟨(congrArg CStr.bytes nick).trans known, whole⟩
  · have at_ := before k i at'
    have stays := (act_stays enabled at_.used at'.used).2
    cases here : (n.srv.srv.clients i).joined with
    | true => cases (stays here).symm.trans no
    | false =>
        rw [saidBy_append, h.fresh k i at_ here]
        by_cases ne : k = j
        · subst ne
          cases at_.slot_unique own
          exact saidBy_added_fresh here k f
        · exact saidBy_added_of_ne (Ne.symm ne) c f

/-- A link that keeps its place and what was handled of it. -/
theorem setLink (h : Spoken st n said) {k : ι} {l : Link}
    (handled : l.handled = (n.links k).handled)
    (same : ∀ i, l.At n.srv i → (n.links k).At n.srv i) : Spoken st (n.setLink k l) said := by
  refine h.silent rfl (fun k' => ?_) fun k' i at' => ?_
  · by_cases own : k' = k
    · subst own
      rw [Net.links_setLink_self]
      exact handled
    · rw [Net.links_setLink_of_ne own]
  · have at_ : (n.links k').At n.srv i := by
      by_cases own : k' = k
      · subst own
        rw [Net.links_setLink_self] at at'
        exact same i at'
      · rwa [Net.links_setLink_of_ne own] at at'
    cases here : (n.srv.srv.clients i).joined with
    | true => exact .inl ⟨here, at_, rfl, rfl⟩
    | false => exact .inr ⟨here, .inr ⟨at_, rfl⟩⟩

/-- A client connects; it has not said anything. -/
theorem connect (h : Spoken st n said) (sound : NetSound st n) {k : ι}
    (idle : (n.links k).status = .idle) {fd : Fd} (enabled : Enabled n.srv (.accept fd)) :
    Spoken st (netAct st n (.connect k fd)) said := by
  have nothing : (n.links k).handled = [] := by
    rw [(sound.up k).idle idle]
    rfl
  have other : ∀ i, Action.accept fd ≠ .frame i := fun i eq => by cases eq
  have goes : ∀ i, ¬ (Action.accept fd).Ends i := by
    rintro i (eq | eq) <;> cases eq
  have new : (netAct st n (.connect k fd)).links k = Link.hear (addedBy st.env n.srv (.accept fd))
      (.start (st.userEnv k) (st.sock k) (st.nick k) fd
        (addClient fd (n.srv.note (.accept fd))).1) :=
    congrArg (Link.hear _) Net.links_setLink_self
  have old : ∀ k', k' ≠ k → (netAct st n (.connect k fd)).links k' =
      (n.links k').hear (addedBy st.env n.srv (.accept fd)) := fun k' ne =>
    congrArg (Link.hear _) (Net.links_setLink_of_ne ne)
  have quiet : linesOf (act st.env n.srv (.accept fd)).log = linesOf n.srv.log := by
    rw [log_act, linesOf_append, linesOf_addedBy other, List.append_nil]
  refine h.silent quiet (fun k' => ?_) fun k' i at' => ?_
  · by_cases own : k' = k
    · subst own
      rw [new, nothing]
      exact Link.handled_start st.env _ _ _ fd n.srv
    · rw [old k' own]
      by_cases linked : (n.links k').status = .linked
      · obtain ⟨i, at_⟩ := sound.wired.held k' linked
        rw [Link.handled_hear _ linked at_.slot, framesFrom_addedBy (other i), List.append_nil]
      · rw [Link.hear_of_not_linked linked]
  · by_cases own : k' = k
    · subst own
      refine .inr ⟨?_, .inl ?_⟩
      · rw [new] at at'
        exact joined_accept (Link.slot_hear.symm.trans at'.slot)
      · have begins := h.begins k'
        rw [nothing] at begins
        exact List.prefix_nil.mp begins
    · rw [old k' own] at at'
      obtain ⟨at_, -⟩ :=
        (Link.At.hear_at_iff sound.srv.inv enabled (sound.wired.held k')).mp at'
      obtain ⟨joined, nick⟩ := act_identity at_.used (goes i) (other i)
      change ((act st.env n.srv (.accept fd)).srv.clients i).joined = true ∧ _ ∨
        ((act st.env n.srv (.accept fd)).srv.clients i).joined = false ∧ _
      rw [joined]
      cases here : (n.srv.srv.clients i).joined with
      | true => exact .inl ⟨rfl, at_, rfl, nick⟩
      | false => exact .inr ⟨rfl, .inr ⟨at_, rfl⟩⟩

end Spoken

/-! ## Any action of the network -/

/-- What has been said, and what the clients have been told of it. -/
structure Ordered {ι : Type} [DecidableEq ι] (st : Setting ι) (n : Net ι)
    (said : List (ι × Bytes)) : Prop where
  spoken : Spoken st n said
  told : ∀ k, st.env.Delivers (n.links k).fd → Told n.srv (n.links k)

namespace Ordered

variable {ι : Type} [DecidableEq ι] {st : Setting ι} {n : Net ι} {said : List (ι × Bytes)}

theorem init : Ordered st Net.init [] where
  spoken := .init
  told _ _ := .idle _

/-- The clients are told of an action of the server. -/
theorem hear (h : Ordered st n said) (sound : NetSound st n) {a : Action}
    (enabled : Enabled n.srv a) (k : ι)
    (ok : st.env.Delivers ((n.links k).hear (addedBy st.env n.srv a)).fd) :
    Told (Chat.act st.env n.srv a) ((n.links k).hear (addedBy st.env n.srv a)) := by
  rw [Link.fd_hear] at ok
  refine (h.told k ok).hear (sound.wired.held k) sound.srv.inv sound.srv.historyInv enabled ok ?_
  rintro i at_ rfl
  exact sound.not_bad at_.used enabled.2

theorem connect (h : Ordered st n said) (sound : NetSound st n) {k : ι}
    (idle : (n.links k).status = .idle) {fd : Fd} (enabled : Enabled n.srv (.accept fd)) :
    Ordered st (netAct st n (.connect k fd)) said := by
  refine ⟨h.spoken.connect sound idle enabled, fun k' => ?_⟩
  change _ → Told _ (Link.hear _ ((n.setLink k _).links k'))
  change st.env.Delivers (Link.hear _ ((n.setLink k _).links k')).fd → _
  by_cases own : k' = k
  · subst own
    rw [Net.links_setLink_self]
    intro ok
    rw [Link.fd_hear] at ok
    exact Told.start _ _ _ ok n.srv
  · rw [Net.links_setLink_of_ne own]
    exact h.hear sound enabled k'

/-- A frame may be something said. -/
theorem frame (h : Ordered st n said) (sound : NetSound st n) {c : Slot}
    (enabled : Enabled n.srv (.frame c)) :
    ∃ more, Ordered st (n.serve st.env (.frame c)) (said ++ more) := by
  obtain ⟨used, f, need, scan⟩ := enabled
  obtain ⟨j, own⟩ := sound.wired.own c used
  exact ⟨_, h.spoken.frame sound own scan, h.hear sound ⟨used, f, need, scan⟩⟩

/-- A client leaves, and says nothing more. -/
theorem remove (h : Ordered st n said) (sound : NetSound st n) {c : Slot}
    (enabled : Enabled n.srv (.remove c)) :
    Ordered st (n.serve st.env (.remove c)) said := by
  refine ⟨h.spoken.serve sound.srv.inv sound.wired enabled ?_, h.hear sound enabled⟩
  rintro i eq
  cases eq

/-- A client changes its link without moving it. -/
theorem setLink (h : Ordered st n said) {k : ι} {l : Link}
    (handled : l.handled = (n.links k).handled) (fd : l.fd = (n.links k).fd)
    (same : ∀ i, l.At n.srv i → (n.links k).At n.srv i)
    (told : Told n.srv (n.links k) → Told n.srv l) : Ordered st (n.setLink k l) said := by
  refine ⟨h.spoken.setLink handled same, fun k' ok => ?_⟩
  change Told n.srv _
  by_cases own : k' = k
  · subst own
    rw [Net.links_setLink_self] at ok ⊢
    rw [fd] at ok
    exact told (h.told k' ok)
  · rw [Net.links_setLink_of_ne own] at ok ⊢
    exact h.told k' ok

theorem upload (h : Ordered st n said) (sound : NetSound st n) {k : ι} {i : Slot}
    (at_ : (n.links k).At n.srv i) (m : Nat) :
    Ordered st ((n.setLink k { n.links k with up := (n.links k).up.get m }).serve st.env
      (.recv i ((n.links k).up.pending.take m))) said := by
  have stays : ∀ j, Link.At { n.links k with up := (n.links k).up.get m } n.srv j ↔
      (n.links k).At n.srv j := fun j =>
    ⟨fun at_ => ⟨at_.linked, at_.slot, at_.used, at_.fd⟩,
      fun at_ => ⟨at_.linked, at_.slot, at_.used, at_.fd⟩⟩
  have taken := h.setLink (l := { n.links k with up := (n.links k).up.get m }) rfl rfl
    (fun j => (stays j).mp) fun told => told.upload m
  have wired : Wired (n.setLink k { n.links k with up := (n.links k).up.get m }) :=
    sound.wired.setLink stays rfl
  have enabled : Enabled n.srv (.recv i ((n.links k).up.pending.take m)) := at_.used
  refine ⟨taken.spoken.serve sound.srv.inv wired enabled ?_, fun k' ok => ?_⟩
  · rintro j eq
    cases eq
  · change st.env.Delivers (Link.hear _ ((n.setLink k _).links k')).fd at ok
    rw [Link.fd_hear] at ok
    refine (taken.told k' ok).hear (wired.held k') sound.srv.inv sound.srv.historyInv enabled
      ok ?_
    rintro j - eq
    cases eq

/-- **One action of the network.** -/
theorem act (h : Ordered st n said) (sound : NetSound st n) {x : NetAction ι}
    (enabled : NetEnabled st n x) : ∃ more, Ordered st (netAct st n x) (said ++ more) := by
  have silent : ∀ {n' : Net ι}, Ordered st n' said →
      ∃ more, Ordered st n' (said ++ more) := by
    intro n' h'
    refine ⟨[], ?_⟩
    rw [List.append_nil]
    exact h'
  cases x with
  | connect k fd => exact silent (h.connect sound enabled.1 enabled.2.2)
  | upload k i m =>
      obtain ⟨linked, slot, -⟩ := enabled
      obtain ⟨j, at_⟩ := sound.wired.held k linked
      cases at_.slot.symm.trans slot
      exact silent (h.upload sound at_ m)
  | serve a =>
      obtain ⟨inner, enabled⟩ := enabled
      cases a with
      | accept fd => cases inner
      | recv i data => cases inner
      | frame c => exact h.frame sound enabled
      | invalid c => exact absurd enabled.2 (sound.not_bad enabled.1)
      | remove c => exact silent (h.remove sound enabled)
  | download k m =>
      obtain ⟨going, -, within, fits⟩ := enabled
      exact silent (h.setLink rfl rfl (fun _ at_ => ⟨at_.linked, at_.slot, at_.used, at_.fd⟩)
        fun told => told.download _ _ going within fits)
  | client k a =>
      exact silent (h.setLink rfl rfl (fun _ at_ => ⟨at_.linked, at_.slot, at_.used, at_.fd⟩)
        fun told => told.own enabled.2 enabled.1)

/-- What has been said stays said. -/
theorem run {n' : Net ι} {as : List (NetAction ι)} (run : NetRun st n as n')
    (sound : NetSound st n) (h : Ordered st n said) :
    ∃ more, Ordered st n' (said ++ more) := by
  induction run generalizing said with
  | nil =>
      refine ⟨[], ?_⟩
      rw [List.append_nil]
      exact h
  | cons enabled _ ih =>
      obtain ⟨more, after⟩ := h.act sound enabled
      obtain ⟨later, whole⟩ := ih (sound.act enabled) after
      refine ⟨more ++ later, ?_⟩
      rw [← List.append_assoc]
      exact whole

end Ordered

theorem NetReachable.ordered {ι : Type} [DecidableEq ι] {st : Setting ι} {n : Net ι}
    (reach : NetReachable st n) : ∃ said, Ordered st n said := by
  obtain ⟨as, run⟩ := reach
  exact Ordered.run run .init .init

section Results

variable {ι : Type} [DecidableEq ι] {st : Setting ι} {n : Net ι}

/-- **The streams are kept.** In every state of the network, the server has handled the first
frames that each client sent, and holds no invalid header; and while what it writes to a
client gets through, it has sent the client whole frames, of which the client has printed
the first, and nothing else. -/
theorem streams_intact (reach : NetReachable st n) :
    (∀ i, (n.srv.srv.clients i).used = true →
      scanFrame (n.srv.srv.clients i).inbuf.bytes ≠ .bad) ∧
    ∀ k, (n.links k).handled <+: (n.links k).sentUp (st.sock k) ∧
      (st.env.Delivers (n.links k).fd →
        (n.links k).down.sent = chatCodec.encodeAll (n.links k).sentDown ∧
          (n.links k).shown <+: (n.links k).sentDown ∧
          protocolError ∉ (n.links k).proc.rcv.out) := by
  have sound := reach.sound
  obtain ⟨said, ordered⟩ := reach.ordered
  refine ⟨fun i used => sound.not_bad used, fun k => ⟨(sound.up k).begins, fun ok => ?_⟩⟩
  have down := (ordered.told k ok).down
  obtain ⟨fs, reads⟩ := down.reads
  exact ⟨down.stream, down.shown_begins, reads.not_protocolError⟩

/-- **One chat.** There is one sequence of texts, of which the lines of the chat are made. The
texts of each client are the first of those it sent, in their order; and the lines that a
client has been shown, while what the server writes to it gets through, are a part of the
sequence without gaps. -/
theorem total_order (reach : NetReachable st n) :
    ∃ said, cutLines n.srv.log = said.map (sentLine st) ∧
      (∀ k, saidBy k said <+: broadcasts ((n.links k).sentUp (st.sock k))) ∧
      ∀ k, st.env.Delivers (n.links k).fd →
        ∃ start, chatLines (n.links k).shown <+: (said.map (sentLine st)).drop start := by
  obtain ⟨said, ordered⟩ := reach.ordered
  have lines : cutLines n.srv.log = said.map (sentLine st) := by
    rw [cutLines, ordered.spoken.lines, List.map_map]
    rfl
  refine ⟨said, lines, fun k => ?_, fun k ok => ?_⟩
  · exact (ordered.spoken.begins k).trans (broadcasts_begin (reach.sound.up k).begins)
  · have told := ordered.told k ok
    obtain ⟨start, part⟩ := told.part
    rw [lines] at part
    exact ⟨start, (chatLines_begin told.down.shown_begins).trans part⟩

end Results

/-! ## Two clients -/

/-- Ann and Bob. -/
def duet : Setting Bool where
  env := .smooth
  sock _ := 3
  nick k := if k then ⟨ascii "bob", by decide, by decide⟩ else ⟨ascii "ann", by decide, by decide⟩
  userEnv _ := .smooth

/-- Client `k` connects, and the server handles its `JOIN`. -/
def comes (k : Bool) (fd : Fd) (i : Slot) : List (NetAction Bool) :=
  [.connect k fd, .upload k i 19, .serve (.frame i)]

/-- Client `k` types a line, and the server handles the frame of `n` bytes. -/
def writes (k : Bool) (i : Slot) (line : String) (n : Nat) : List (NetAction Bool) :=
  (ascii line).map (fun x => .client k (.typed x)) ++ [.upload k i n, .serve (.frame i)]

/-- Ann and Bob have come. -/
def bothCome : List (NetAction Bool) :=
  comes false 4 0 ++ [.download false 30] ++ comes true 5 1 ++
    [.download true 30, .download false 26]

/-- Ann has spoken, and Bob has heard it. -/
def annSpeaks : List (NetAction Bool) :=
  bothCome ++ writes false 0 "hi\n" 18 ++ [.download true 23]

theorem annSpeaks_reachable : NetReachable duet (annSpeaks.foldl (netAct duet) .init) :=
  ⟨_, .of_enabled (by decide +kernel)⟩

theorem streams_intact_annSpeaks :
    let n := annSpeaks.foldl (netAct duet) .init
    (n.links false).handled <+: (n.links false).sentUp 3 ∧
      (n.links true).shown <+: (n.links true).sentDown := by
  intro n
  have intact := (streams_intact annSpeaks_reachable).2
  exact ⟨(intact false).1, ((intact true).2 (Env.smooth_delivers _)).2.1⟩

theorem total_order_annSpeaks :
    let n := annSpeaks.foldl (netAct duet) .init
    ∃ said : List (Bool × Bytes), cutLines n.srv.log = said.map (sentLine duet) ∧
      ∃ start, chatLines (n.links true).shown <+: (said.map (sentLine duet)).drop start := by
  intro n
  obtain ⟨said, lines, -, shown⟩ := total_order annSpeaks_reachable
  exact ⟨said, lines, shown true (Env.smooth_delivers _)⟩

/-- Bob has been shown what Ann has said. -/
example : chatLines ((annSpeaks.foldl (netAct duet) .init).links true).shown =
    [ascii "ann: hi"] := by
  decide +kernel

end Osisp.Chat
