import Osisp.Chat.Observer

/-!
# The roster a client derives from its notices

A change of the roster is computed from two states of the table alone. A client
that stays joined is sent one notice for each change of another client, in
order, as long as no joined client is dropped for an invalid header and no
newcomer's `JOIN_ACK` is lost: the two ways in which the server changes its
roster without a notice (`roster_recorded`).
-/

namespace Osisp.Chat

open Lib

/-! ## Changes of the roster -/

inductive RosterChange
  | joins (nick : Bytes)
  | parts (nick : Bytes)
  deriving DecidableEq

/-- The notice that records a change. -/
def RosterChange.notice : RosterChange → Message
  | .joins nick => ⟨.notify, ascii "[JOIN] " ++ nick⟩
  | .parts nick => ⟨.notify, ascii "[PART] " ++ nick⟩

/-- The change of one slot. -/
def slotChange : Option (CStr chatMaxNick) → Option (CStr chatMaxNick) → List RosterChange
  | none, none => []
  | none, some nick => [.joins nick.bytes]
  | some nick, none => [.parts nick.bytes]
  | some nick, some nick' =>
      if nick = nick' then [] else [.parts nick.bytes, .joins nick'.bytes]

/-- The changes of all clients but the one in slot `o`. -/
def rosterChanges (o : Slot) (t t' : Table) : List RosterChange :=
  slots.flatMap fun j => if j = o then [] else slotChange (t j).roster (t' j).roster

/-- The changes along the run of `as` from `s`. -/
def changesAlong (env : Env) (o : Slot) : Sys → List Action → List RosterChange
  | _, [] => []
  | s, a :: as =>
      rosterChanges o s.srv.clients (act env s a).srv.clients ++
        changesAlong env o (act env s a) as

/-- The notices sent on `fd` from `l` to `l'`. -/
def notices (fd : Fd) (l l' : Log) : List Message :=
  (messagesTo fd (l'.drop l.length)).filter (·.type = .notify)

/-! ## The derived roster -/

/-- How a client reads a notice. -/
def readNotice (m : Message) : Option RosterChange :=
  if ascii "[JOIN] " <+: m.body then some (.joins (m.body.drop 7))
  else if ascii "[PART] " <+: m.body then some (.parts (m.body.drop 7))
  else none

def RosterChange.apply (roster : Finset Bytes) : RosterChange → Finset Bytes
  | .joins nick => insert nick roster
  | .parts nick => roster.erase nick

/-- The roster that follows from `roster` by the notices. -/
def derive (roster : Finset Bytes) (ms : List Message) : Finset Bytes :=
  (ms.filterMap readNotice).foldl RosterChange.apply roster

/-- The nicks of the joined clients. -/
def joinedNicks (t : Table) : Finset Bytes :=
  (slots.filterMap fun i => (t i).roster.map CStr.bytes).toFinset

theorem mem_joinedNicks {t : Table} {nick : Bytes} :
    nick ∈ joinedNicks t ↔ ∃ i, ∃ stored, (t i).roster = some stored ∧ stored.bytes = nick := by
  rw [joinedNicks, List.mem_toFinset, List.mem_filterMap]
  constructor
  · intro mem
    rcases mem with ⟨i, -, named⟩
    exact ⟨i, Option.map_eq_some_iff.mp named⟩
  · intro mem
    rcases mem with ⟨i, named⟩
    exact ⟨i, mem_slots i, Option.map_eq_some_iff.mpr named⟩

theorem readNotice_notice (change : RosterChange) : readNotice change.notice = some change := by
  cases change with
  | joins nick =>
      have join : ascii "[JOIN] " <+: ascii "[JOIN] " ++ nick := List.prefix_append _ _
      rw [RosterChange.notice, readNotice, if_pos join]
      rfl
  | parts nick =>
      have part : ascii "[PART] " <+: ascii "[PART] " ++ nick := List.prefix_append _ _
      have notJoin : ¬ ascii "[JOIN] " <+: ascii "[PART] " ++ nick := by
        intro join
        have same := List.prefix_of_prefix_length_le join part (by decide +kernel)
        exact absurd same (by decide +kernel)
      rw [RosterChange.notice, readNotice, if_neg notJoin, if_pos part]
      rfl

theorem derive_notices (roster : Finset Bytes) (changes : List RosterChange) :
    derive roster (changes.map RosterChange.notice) = changes.foldl RosterChange.apply roster := by
  have read : (changes.map RosterChange.notice).filterMap readNotice = changes := by
    rw [List.filterMap_map]
    exact (List.filterMap_congr fun change _ => readNotice_notice change).trans List.filterMap_some
  rw [derive, read]

/-! ## What the server sends -/

/-- A note about a nick fits its buffer and has no NUL inside. -/
theorem noteBody_of_short {label nick : Bytes} (short : label.length + nick.length ≤ chatMaxBody)
    (label0 : 0 ∉ label) (nick0 : 0 ∉ nick) :
    noteBody (snprintf (chatMaxBody + 1) (label ++ nick)) = label ++ nick := by
  have whole : (label ++ nick).take (chatMaxBody + 1 - 1) = label ++ nick :=
    List.take_of_length_le (by rw [List.length_append]; exact short)
  have string : 0 ∉ label ++ nick := fun mem => (List.mem_append.mp mem).elim label0 nick0
  rw [noteBody, snprintf, whole, cstr_eq_self string]
  exact whole

theorem joinMessage_eq (nick : CStr chatMaxNick) :
    joinMessage nick.bytes = (RosterChange.joins nick.bytes).notice := by
  have len := nick.fits
  rw [joinMessage, joinNote, noteBody_of_short ?_ (by decide +kernel) nick.noNul]
  · rfl
  · have label : (ascii "[JOIN] ").length = 7 := by decide +kernel
    rw [label]
    exact le_trans (Nat.add_le_add_left len 7) (by decide)

theorem partMessage_eq (nick : CStr chatMaxNick) :
    partMessage nick.bytes = (RosterChange.parts nick.bytes).notice := by
  have len := nick.fits
  rw [partMessage, partNote, noteBody_of_short ?_ (by decide +kernel) nick.noNul]
  · rfl
  · have label : (ascii "[PART] ").length = 7 := by decide +kernel
    rw [label]
    exact le_trans (Nat.add_le_add_left len 7) (by decide)

/-! ## One action -/

/-- The server tells the others about this action if it changes the roster: it
does not drop a joined client for an invalid header, and a newcomer can be sent
its `JOIN_ACK`. -/
def Announced (env : Env) (s : Sys) : Action → Prop
  | .frame c => ∀ f need nick, scanFrame (s.srv.clients c).inbuf.bytes = .frame f need →
      JoinAccepted s.srv.clients c f nick → env.Takes (s.srv.clients c).fd .joinAck
        (joinAckText (s.srv.clients c).id (CStr.strncpy chatMaxNick nick).bytes) s.log
  | .invalid c => (s.srv.clients c).joined = false
  | _ => True

theorem slotChange_self (r : Option (CStr chatMaxNick)) : slotChange r r = [] := by
  cases r with
  | none => rfl
  | some nick => exact if_pos rfl

section Step

variable {o c : Slot} {s s' : Sys}

/-- Where only slot `c` changes, its change is all. -/
theorem rosterChanges_eq (ne : c ≠ o) (others : SameRoster (· = c) s s') :
    rosterChanges o s.srv.clients s'.srv.clients =
      slotChange (s.srv.clients c).roster (s'.srv.clients c).roster := by
  rw [rosterChanges, flatMap_slots c, if_neg ne]
  intro j jc
  rw [others j jc, slotChange_self]
  split <;> rfl

theorem rosterChanges_same (same : SameRoster (fun _ => False) s s') :
    rosterChanges o s.srv.clients s'.srv.clients = [] := by
  refine List.flatMap_eq_nil_iff.mpr fun j _ => ?_
  rw [same j id, slotChange_self]
  split <;> rfl

theorem joinedNicks_same (same : SameRoster (fun _ => False) s s') :
    joinedNicks s'.srv.clients = joinedNicks s.srv.clients := by
  ext nick
  simp only [mem_joinedNicks, same _ id]

theorem joinedNicks_joins {stored : CStr chatMaxNick} (fresh : (s.srv.clients c).roster = none)
    (joined : (s'.srv.clients c).roster = some stored) (others : SameRoster (· = c) s s') :
    joinedNicks s'.srv.clients = insert stored.bytes (joinedNicks s.srv.clients) := by
  ext nick
  rw [Finset.mem_insert, mem_joinedNicks, mem_joinedNicks]
  constructor
  · intro mem
    rcases mem with ⟨i, stored', roster, rfl⟩
    by_cases ic : i = c
    · rw [ic, joined] at roster
      cases roster
      exact Or.inl rfl
    · rw [others i ic] at roster
      exact Or.inr ⟨i, stored', roster, rfl⟩
  · intro mem
    rcases mem with rfl | ⟨i, stored', roster, rfl⟩
    · exact ⟨c, stored, joined, rfl⟩
    · have ic : i ≠ c := by
        rintro rfl
        rw [fresh] at roster
        cases roster
      exact ⟨i, stored', by rw [others i ic, roster], rfl⟩

/-- No other client has the nick of one that leaves. -/
theorem joinedNicks_parts (inv : Inv s) (joined : (s.srv.clients c).joined = true)
    (gone : (s'.srv.clients c).roster = none) (others : SameRoster (· = c) s s') :
    joinedNicks s'.srv.clients =
      (joinedNicks s.srv.clients).erase (s.srv.clients c).nick.bytes := by
  ext nick
  rw [Finset.mem_erase, mem_joinedNicks, mem_joinedNicks]
  constructor
  · intro mem
    rcases mem with ⟨i, stored, roster, rfl⟩
    have ic : i ≠ c := by
      rintro rfl
      rw [gone] at roster
      cases roster
    rw [others i ic] at roster
    obtain ⟨joinedI, rfl⟩ := roster_eq_some.mp roster
    exact ⟨fun same => ic (inv.nicks i c joinedI joined same), i, _, roster, rfl⟩
  · intro mem
    rcases mem with ⟨ne, i, stored, roster, rfl⟩
    have ic : i ≠ c := by
      rintro rfl
      exact ne (congrArg CStr.bytes (roster_eq_some.mp roster).2.symm)
    exact ⟨i, stored, (others i ic).trans roster, rfl⟩

variable {env : Env} {a : Action}

/-- The notices of an action are the changes it makes. -/
theorem Observed.recorded (h : Observed env o s a s') (inv : Inv s) (told : Announced env s a) :
    (∃ ms lines, Adds (s.srv.clients o).fd ms lines s.log s'.log ∧
      ms.filter (·.type = .notify) =
        (rosterChanges o s.srv.clients s'.srv.clients).map RosterChange.notice) ∧
    (rosterChanges o s.srv.clients s'.srv.clients).foldl RosterChange.apply
      (joinedNicks s.srv.clients) = joinedNicks s'.srv.clients := by
  cases h with
  | quiet ms same history replies adds =>
      rw [rosterChanges_same same, joinedNicks_same same]
      refine ⟨⟨ms, [], adds, List.filter_eq_nil_iff.mpr fun m mem => ?_⟩, rfl⟩
      rcases replies m mem with ⟨type, -⟩ | ⟨-, answer⟩
      · rw [type]
        decide
      · cases type : m.type <;> first | decide | (rw [type] at answer; cases answer)
  | @spoke line same noNul history adds =>
      rw [rosterChanges_same same, joinedNicks_same same]
      exact ⟨⟨_, [line], adds, rfl⟩, rfl⟩
  | @joins c f need nick ms ne action scan accepted joined others history verdict adds =>
      have fresh := roster_eq_none.mpr accepted.fresh
      subst action
      have acked := sendAck_of_takes (f := f) (told f need nick scan accepted)
      have announced : ms = [joinMessage (CStr.strncpy chatMaxNick nick).bytes] := by
        rcases verdict with ⟨-, sent⟩ | ⟨lost, -⟩
        · exact sent
        · rw [acked] at lost
          cases lost
      rw [rosterChanges_eq ne others, fresh, joined, joinedNicks_joins fresh joined others]
      refine ⟨⟨ms, [], adds, ?_⟩, rfl⟩
      rw [announced, joinMessage_eq]
      rfl
  | @leaves c ms ne joined gone others history verdict adds =>
      have announced : ms = [partMessage (s.srv.clients c).nick.bytes] := by
        rcases verdict with ⟨-, sent⟩ | ⟨dropped, -⟩
        · exact sent
        · subst dropped
          rw [Announced, joined] at told
          cases told
      rw [rosterChanges_eq ne others, roster_of_joined joined, gone,
        joinedNicks_parts inv joined gone others]
      refine ⟨⟨ms, [], adds, ?_⟩, rfl⟩
      rw [announced, partMessage_eq]
      rfl

end Step

/-! ## Runs -/

theorem Adds.notices_eq {fd : Fd} {ms : List Message} {lines : List Bytes} {l l' : Log}
    (h : Adds fd ms lines l l') : notices fd l l' = ms.filter (·.type = .notify) := by
  obtain ⟨added, rfl, rfl, -, -, -⟩ := h
  rw [notices, List.drop_left]

/-- Over a run, the notices are the changes and lead from roster to roster. -/
theorem Run.recorded {env : Env} {o : Slot} {s s' : Sys} {as : List Action} (inv : Inv s)
    (run : Run env s as s')
    (stays : Throughout env (fun s => (s.srv.clients o).joined = true) s as)
    (ok : env.Delivers (s.srv.clients o).fd) (announced : EachStep env (Announced env) s as) :
    (∃ ms lines, Adds (s.srv.clients o).fd ms lines s.log s'.log ∧
      ms.filter (·.type = .notify) = (changesAlong env o s as).map RosterChange.notice) ∧
    (changesAlong env o s as).foldl RosterChange.apply (joinedNicks s.srv.clients) =
      joinedNicks s'.srv.clients := by
  induction run with
  | nil s => exact ⟨⟨[], [], .refl _ _, rfl⟩, rfl⟩
  | @cons s s' a as enabled _ ih =>
      have next := inv.act env enabled
      have joined := stays.1
      have still := stays.2.head
      have fd := (act_stays enabled (inv.used_of_joined joined) (next.used_of_joined still)).1
      obtain ⟨⟨ms, lines, adds, noted⟩, roster⟩ :=
        (act_observed inv enabled joined still ok).recorded inv announced.1
      obtain ⟨⟨ms', lines', adds', noted'⟩, roster'⟩ :=
        ih next stays.2 (fd ▸ ok) announced.2
      rw [fd] at adds'
      refine ⟨⟨ms ++ ms', lines ++ lines', adds.trans adds', ?_⟩, ?_⟩
      · rw [List.filter_append, noted, noted', changesAlong, List.map_append]
      · rw [changesAlong, List.foldl_append, roster, roster']

/-- **The notices record the roster.** While a client stays joined it is sent one
notice for each change of another client, in order, and derives the server's set
of joined clients from them, provided that every action is announced. -/
theorem roster_recorded (env : Env) (o : Slot) (s s' : Sys) (as : List Action)
    (reach : Reachable env s) (run : Run env s as s')
    (stays : Throughout env (fun s => (s.srv.clients o).joined = true) s as)
    (ok : env.Delivers (s.srv.clients o).fd) (announced : EachStep env (Announced env) s as) :
    let sent := notices (s.srv.clients o).fd s.log s'.log
    sent = (changesAlong env o s as).map RosterChange.notice ∧
      derive (joinedNicks s.srv.clients) sent = joinedNicks s'.srv.clients := by
  obtain ⟨⟨ms, lines, adds, noted⟩, roster⟩ := run.recorded reach.inv stays ok announced
  have sent : notices (s.srv.clients o).fd s.log s'.log =
      (changesAlong env o s as).map RosterChange.notice := adds.notices_eq.trans noted
  refine ⟨sent, ?_⟩
  rw [sent, derive_notices, roster]

/-- Ann is told that Bob joins. -/
theorem roster_recorded_bob :
    let s := (arrival 0 4 "ann").foldl (act .smooth) .init
    let s' := (arrival 1 5 "bob").foldl (act .smooth) s
    notices 4 s.log s'.log = [⟨.notify, ascii "[JOIN] bob"⟩] ∧
      derive {ascii "ann"} (notices 4 s.log s'.log) = {ascii "ann", ascii "bob"} := by
  intro s s'
  have reach : Reachable .smooth s := ⟨_, .of_enabled (by decide +kernel)⟩
  have run : Run .smooth s (arrival 1 5 "bob") s' := .of_enabled (by decide +kernel)
  have stays : Throughout .smooth (fun s => (s.srv.clients 0).joined = true) s
      (arrival 1 5 "bob") := by decide +kernel
  have announced : EachStep .smooth (Announced .smooth) s (arrival 1 5 "bob") :=
    ⟨trivial, trivial, fun _ _ _ _ _ => Env.smooth_takes _ _ _ _, trivial⟩
  have recorded := roster_recorded .smooth 0 s s' _ reach run stays (Env.smooth_delivers _)
    announced
  have fd : (s.srv.clients 0).fd = 4 := by decide +kernel
  have before : joinedNicks s.srv.clients = {ascii "ann"} := by decide +kernel
  have after : joinedNicks s'.srv.clients = {ascii "ann", ascii "bob"} := by decide +kernel
  rw [fd, before, after] at recorded
  exact ⟨recorded.1.trans (by decide +kernel), recorded.2⟩

/-- Bob is joined and sends an invalid header: Ann is not told that he is gone. -/
theorem roster_missed :
    let s := (arrival 0 4 "ann" ++ arrival 1 5 "bob").foldl (act .smooth) .init
    let drop := [Action.recv 1 (List.replicate 16 0), .invalid 1]
    let s' := drop.foldl (act .smooth) s
    Reachable .smooth s ∧ Run .smooth s drop s' ∧
      Throughout .smooth (fun s => (s.srv.clients 0).joined = true) s drop ∧
      changesAlong .smooth 0 s drop = [.parts (ascii "bob")] ∧ notices 4 s.log s'.log = [] ∧
      joinedNicks s'.srv.clients ≠ derive (joinedNicks s.srv.clients) [] := by
  intro s drop s'
  exact ⟨⟨_, .of_enabled (by decide +kernel)⟩, .of_enabled (by decide +kernel), by decide +kernel,
    by decide +kernel, by decide +kernel, by decide +kernel⟩

end Osisp.Chat
