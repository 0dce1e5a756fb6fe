import Osisp.Lib.Lines
import Osisp.Chat.Admission
import Osisp.Chat.Ids
import Osisp.Chat.WellFormed

/-!
# What a `LIST_REPLY` says

`handle_list` writes a line for each joined client, in slot order, and stops at the
first one that does not fit. Read line by line, each line cut at its first tab, the
reply names exactly the clients whose lines were written (`list_decodes`).
-/

namespace Osisp.Chat

open Lib

/-! ## Reading the reply -/

/-- The id and the nick in a line of the reply. -/
def decodeEntry (line : Bytes) : Option (Nat × Bytes) :=
  (cutAt 9 line).map fun (id, nick) => (ofDecimal id, nick)

/-- Lines without a tab name nobody. -/
def decodeList (body : Bytes) : List (Nat × Bytes) := (body.splitOn 10).filterMap decodeEntry

/-- The joined clients, in slot order. -/
def joinedClients (t : Table) : List Client := (slots.filter fun i => (t i).joined).map t

def Client.pair (c : Client) : Nat × Bytes := (c.id.toNat, c.nick.bytes)

/-- An entry without its newline. -/
def entryLine (c : Client) : Bytes := decimal c.id.toNat ++ ascii "\t" ++ c.nick.bytes

theorem listEntry_eq (c : Client) : listEntry c = entryLine c ++ [10] := rfl

theorem length_listEntry (c : Client) : 2 ≤ (listEntry c).length ∧ (listEntry c).length ≤ 43 := by
  have id := length_decimal_le (k := 10) (by decide) (lt_trans c.id.toNat_lt (by decide))
  have nick : c.nick.bytes.length ≤ 31 := c.nick.fits
  have parts : (listEntry c).length =
      (decimal c.id.toNat).length + 1 + c.nick.bytes.length + 1 := by
    simp only [listEntry, List.length_append]
    rfl
  omega

theorem decodeEntry_entryLine (c : Client) : decodeEntry (entryLine c) = some c.pair := by
  have noTab : (9 : UInt8) ∉ decimal c.id.toNat :=
    fun mem => absurd (mem_decimal mem).1 (by decide)
  have line : entryLine c = decimal c.id.toNat ++ 9 :: c.nick.bytes := by
    rw [entryLine, List.append_assoc]
    rfl
  rw [decodeEntry, line, cutAt_append noTab]
  exact congrArg some (congrArg (·, c.nick.bytes) (ofDecimal_decimal _))

theorem decodeList_entries {cs : List Client} (plain : ∀ c ∈ cs, (10 : UInt8) ∉ c.nick.bytes) :
    decodeList (cs.map listEntry).flatten = cs.map Client.pair := by
  have lines : cs.map listEntry = (cs.map entryLine).map (· ++ [10]) := by
    rw [List.map_map]
    rfl
  have noNewline : ∀ line ∈ cs.map entryLine, (10 : UInt8) ∉ line := by
    intro line written
    obtain ⟨c, mem, rfl⟩ := List.mem_map.mp written
    rw [entryLine, List.mem_append, List.mem_append]
    rintro ((digit | tab) | nick)
    · exact absurd (mem_decimal digit).1 (by decide)
    · exact absurd tab (by decide)
    · exact plain c mem nick
  rw [decodeList, lines, splitOn_terminated noNewline, List.filterMap_append, List.filterMap_map]
  have each : decodeEntry ∘ entryLine = some ∘ Client.pair := funext decodeEntry_entryLine
  rw [each, List.filterMap_eq_map]
  exact List.append_nil _

/-! ## Writing it -/

/-- The loop writes the entries that fit, as many as come first. -/
theorem listLoop_eq (t : Table) (is : List Slot) (buf : Bytes) (room : buf.length ≤ chatMaxBody) :
    ∃ k, LongestFit (chatMaxBody - buf.length)
        (((is.filter fun i => (t i).active).map t).map listEntry) k ∧
      listLoop t is buf =
        buf ++ ((((is.filter fun i => (t i).active).map t).take k).map listEntry).flatten := by
  induction is generalizing buf with
  | nil => exact ⟨0, .stop nofun, (List.append_nil _).symm⟩
  | cons i is ih =>
      unfold listLoop
      split
      · rename_i left
        cases active : (t i).active with
        | false =>
            rw [List.filter_cons_of_neg (by simp [active])]
            exact ih buf room
        | true =>
            rw [List.filter_cons_of_pos (by simp [active]), List.map_cons, List.map_cons]
            simp only [Bool.not_true, Bool.false_eq_true, if_false]
            split
            · rename_i long
              refine ⟨0, .stop ?_, (List.append_nil _).symm⟩
              rintro part ⟨⟩
              omega
            · rename_i short
              obtain ⟨k, longest, eq⟩ := ih (buf ++ listEntry (t i)) (by
                rw [List.length_append]
                omega)
              rw [List.length_append, ← Nat.sub_sub] at longest
              refine ⟨k + 1, .cons (by omega) longest, ?_⟩
              rw [eq, List.take_succ_cons, List.map_cons, List.flatten_cons, List.append_assoc]
      · rename_i full
        refine ⟨0, .stop fun part first => ?_, (List.append_nil _).symm⟩
        obtain ⟨c, -, rfl⟩ := List.mem_map.mp (List.mem_of_mem_head? first)
        have long := (length_listEntry c).1
        omega

/-- The text of the reply: `(no users)`, or the entries that fit. -/
theorem listText_eq (t : Table) (activeIff : ∀ i, (t i).active = (t i).joined) :
    ∃ k, LongestFit chatMaxBody ((joinedClients t).map listEntry) k ∧
      ((joinedClients t = [] ∧ listText t = ascii "(no users)\n") ∨
        (joinedClients t ≠ [] ∧ 0 < k ∧
          listText t = (((joinedClients t).take k).map listEntry).flatten)) := by
  obtain ⟨k, longest, eq⟩ := listLoop_eq t slots [] (Nat.zero_le _)
  have same : (slots.filter fun i => (t i).active).map t = joinedClients t := by
    rw [joinedClients, funext activeIff]
  rw [same] at longest eq
  refine ⟨k, longest, ?_⟩
  unfold listText
  rw [eq, List.nil_append]
  cases clients : joinedClients t with
  | nil => exact .inl ⟨rfl, by rw [List.take_nil]; rfl⟩
  | cons c cs =>
      have some : 0 < k := by
        rw [clients] at longest
        exact longest.pos (le_trans (length_listEntry c).2 (by decide))
      have filled : (((c :: cs).take k).map listEntry).flatten.length ≠ 0 := by
        obtain ⟨k, rfl⟩ := Nat.exists_eq_succ_of_ne_zero (Nat.ne_of_gt some)
        have long := (length_listEntry c).1
        rw [List.take_succ_cons, List.map_cons, List.flatten_cons, List.length_append]
        omega
      exact .inr ⟨List.cons_ne_nil _ _, some, if_neg filled⟩

/-- What is read is what was written, if no nick has a newline. -/
theorem decodeList_listText {t : Table} (activeIff : ∀ i, (t i).active = (t i).joined)
    (plain : ∀ i, (t i).joined = true → (10 : UInt8) ∉ (t i).nick.bytes) :
    ∃ k, LongestFit chatMaxBody ((joinedClients t).map listEntry) k ∧
      decodeList (listText t) = ((joinedClients t).take k).map Client.pair := by
  obtain ⟨k, longest, ⟨nobody, text⟩ | ⟨-, -, text⟩⟩ := listText_eq t activeIff
  · refine ⟨k, longest, ?_⟩
    rw [text, nobody, List.take_nil]
    decide +kernel
  · refine ⟨k, longest, ?_⟩
    rw [text]
    refine decodeList_entries fun c mem => ?_
    obtain ⟨i, joined, rfl⟩ := List.mem_map.mp (List.mem_of_mem_take mem)
    exact plain i (List.mem_filter.mp joined).2

/-- Everybody is named if and only if the entries fit. -/
theorem decodeList_all_iff {t : Table} (activeIff : ∀ i, (t i).active = (t i).joined)
    (plain : ∀ i, (t i).joined = true → (10 : UInt8) ∉ (t i).nick.bytes) :
    decodeList (listText t) = (joinedClients t).map Client.pair ↔
      ((joinedClients t).map listEntry).flatten.length ≤ chatMaxBody := by
  obtain ⟨k, longest, read⟩ := decodeList_listText activeIff plain
  have le := longest.le
  rw [List.length_map] at le
  rw [← longest.eq_length_iff, List.length_map, read]
  constructor
  · intro all
    have lengths := congrArg List.length all
    rw [List.length_map, List.length_map, List.length_take] at lengths
    omega
  · intro all
    rw [all, List.take_length]

theorem joinedClients_eq_nil {t : Table} : joinedClients t = [] ↔ ∀ i, (t i).joined = false := by
  rw [joinedClients, List.map_eq_nil_iff, List.filter_eq_nil_iff]
  refine ⟨fun nobody i => ?_, fun nobody i _ => by simp [nobody i]⟩
  exact Bool.eq_false_of_not_eq_true (nobody i (mem_slots i))

/-- The reply says that there are no users exactly when nobody is joined. -/
theorem listText_eq_nobody {t : Table} (activeIff : ∀ i, (t i).active = (t i).joined) :
    listText t = ascii "(no users)\n" ↔ ∀ i, (t i).joined = false := by
  rw [← joinedClients_eq_nil]
  obtain ⟨k, -, ⟨nobody, text⟩ | ⟨somebody, some, text⟩⟩ := listText_eq t activeIff
  · exact iff_of_true text nobody
  · refine iff_of_false (fun none => ?_) somebody
    -- an entry begins with a digit
    obtain ⟨c, cs, clients⟩ := List.exists_cons_of_ne_nil somebody
    obtain ⟨k, rfl⟩ := Nat.exists_eq_succ_of_ne_zero (Nat.ne_of_gt some)
    obtain ⟨x, xs, digits⟩ := List.exists_cons_of_ne_nil (decimal_ne_nil c.id.toNat)
    have digit := mem_decimal (digits ▸ List.mem_cons_self : x ∈ decimal c.id.toNat)
    rw [text, clients, List.take_succ_cons, List.map_cons, List.flatten_cons, listEntry_eq,
      entryLine, digits] at none
    obtain ⟨rfl, -⟩ := List.cons.inj none
    exact absurd digit.1 (by decide)

/-- **What a `LIST_REPLY` says.** Where no joined nick has a newline, the reply
names, in slot order, as many of the joined clients as have room in it: all of them
exactly if their entries take at most 2048 bytes. It says that there are no users
exactly when nobody is joined. -/
theorem list_decodes (env : Env) (s : Sys) (reach : Reachable env s)
    (plain : ∀ i, (s.srv.clients i).joined = true →
      (10 : UInt8) ∉ (s.srv.clients i).nick.bytes) :
    (∀ c, handleList env c s = s.withLog (sendFrame env (s.srv.clients c).fd .listReply
      (listText s.srv.clients) s.log).2) ∧
    (∃ k, LongestFit chatMaxBody ((joinedClients s.srv.clients).map listEntry) k ∧
      decodeList (listText s.srv.clients) =
        ((joinedClients s.srv.clients).take k).map Client.pair) ∧
    (decodeList (listText s.srv.clients) = (joinedClients s.srv.clients).map Client.pair ↔
      ((joinedClients s.srv.clients).map listEntry).flatten.length ≤ chatMaxBody) ∧
    (listText s.srv.clients = ascii "(no users)\n" ↔ ∀ i, (s.srv.clients i).joined = false) := by
  have activeIff : ∀ i, (s.srv.clients i).active = (s.srv.clients i).joined :=
    fun i => Bool.eq_iff_iff.mpr reach.inv.active_iff
  exact ⟨fun _ => rfl, decodeList_listText activeIff plain, decodeList_all_iff activeIff plain,
    listText_eq_nobody activeIff⟩

/-- Ann and Bob are listed. -/
theorem list_decodes_two :
    let s := (arrival 0 4 "ann" ++ arrival 1 5 "bob").foldl (act .smooth) .init
    decodeList (listText s.srv.clients) = (joinedClients s.srv.clients).map Client.pair := by
  intro s
  have run : Run .smooth Sys.init (arrival 0 4 "ann" ++ arrival 1 5 "bob") s :=
    .of_enabled (by decide +kernel)
  exact (list_decodes .smooth s ⟨_, run⟩ (by decide +kernel)).2.2.1.mpr (by decide +kernel)

/-! ## A full table -/

/-- The first free slot `i` is given to a client that joins under a free nick. -/
theorem arrives {env : Env} {s : Sys} (reach : Reachable env s) {i : Slot}
    (first : slots.find? (fun j => !(s.srv.clients j).used) = some i) {fd : Fd} (nonneg : 0 ≤ fd)
    (fresh : fd ∉ openFds s.log) {nick : Bytes} (named : nick ≠ [])
    (short : nick.length ≤ chatMaxNick) (trimmed : joinNick nick = nick)
    (free : ∀ j, (s.srv.clients j).active = true → (s.srv.clients j).nick.bytes ≠ cstr nick) :
    ∃ s', Reachable env s' ∧ s'.srv.clients = Function.update s.srv.clients i
        ⟨fd, true, true, s.srv.nextId, .strncpy chatMaxNick nick, .empty⟩ ∧
      s'.srv.nextId = s.srv.nextId + 1 := by
  let f : Frame := ⟨MsgType.join.code, nick⟩
  let s₁ := act env s (.accept fd)
  let s₂ := act env s₁ (.recv i f.encode)
  obtain ⟨clients, next⟩ := srv_accept env fd first
  have self₁ : s₁.srv.clients i = ⟨fd, true, false, s.srv.nextId, .empty, .empty⟩ :=
    (congrFun clients i).trans (Function.update_self _ _ _)
  -- the whole frame is in the buffer
  have size : f.encode.length = chatHeaderSize + nick.length := List.length_append
  have self₂ : s₂.srv.clients i =
      ⟨fd, true, false, s.srv.nextId, .empty, Buf.empty.recv f.encode⟩ := by
    have stored : s₂.srv.clients i =
        (s₁.srv.clients i).setInbuf ((s₁.srv.clients i).inbuf.recv f.encode) :=
      Sys.clients_setClient_self _ _ _
    rw [stored, self₁]
    rfl
  have buffered : (s₂.srv.clients i).inbuf.bytes = f.encode := by
    have room : f.encode.length ≤ (Buf.empty : Buf recvCap).room := by
      rw [size]
      exact Nat.add_le_add_left (le_trans short (by decide)) _
    rw [self₂]
    exact Buf.bytes_recv_of_le room
  have scan : scanFrame (s₂.srv.clients i).inbuf.bytes = .frame f f.encode.length := by
    have whole := chatCodec.scan_encode (f := f) [] (le_trans short (by decide))
    rw [List.append_nil] at whole
    rw [buffered]
    exact whole
  have used : (s₂.srv.clients i).used = true := by rw [self₂]
  have others : ∀ j, j ≠ i → s₂.srv.clients j = s.srv.clients j := by
    intro j other
    have kept : s₂.srv.clients j = s₁.srv.clients j := Sys.clients_setClient_of_ne _ _ other
    rw [kept]
    exact (congrFun clients j).trans (Function.update_of_ne other _ _)
  -- the nick passes the checks
  let noted := s₂.note (.frame i f)
  have admissible : Admissible noted.srv.clients i nick := by
    refine ⟨List.length_pos_iff.mpr named, short, by rwa [trimmed], ?_⟩
    rw [trimmed]
    refine List.any_eq_false.mpr fun j _ taken => ?_
    simp only [Bool.and_eq_true, decide_eq_true_eq, Client.hasNick] at taken
    obtain ⟨⟨active, other⟩, same⟩ := taken
    have kept : noted.srv.clients j = s.srv.clients j := others j other
    rw [kept] at active same
    exact free j active same
  have joined : (handleFrame env i f noted).srv = (noted.joinAs i nick).srv := by
    have fresh : (noted.srv.clients i).joined = false := congrArg Client.joined self₂
    have case : handleFrame env i f noted = (handleJoin env i nick noted).2 := by
      unfold handleFrame
      rw [show f.type = MsgType.join.code from rfl, MsgType.ofCode_code]
      simp only [fresh, Bool.false_eq_true, if_false]
      rfl
    rw [case]
    rcases handleJoin_cases env i nick noted with ⟨refused, -⟩ | ⟨-, -, joined⟩
    · exact absurd admissible refused
    · rw [joined, trimmed]
  have run : Run env s [.accept fd, .recv i f.encode, .frame i]
      (processFrame env i f f.encode.length s₂) := by
    have step : act env s₂ (.frame i) = processFrame env i f f.encode.length s₂ := act_frame scan
    rw [← step]
    have started : (s₁.srv.clients i).used = true := by rw [self₁]
    exact .cons ⟨nonneg, fresh⟩ (.cons started (.one ⟨used, f, _, scan⟩))
  refine ⟨_, reach.run run, funext fun j => ?_, ?_⟩
  · unfold processFrame
    dsimp only
    by_cases own : j = i
    · have emptied : (Buf.empty.recv f.encode : Buf recvCap).consume f.encode.length = .empty := by
        rw [self₂] at buffered
        refine Buf.ext ?_
        rw [Buf.bytes_consume, buffered, List.drop_length, Buf.bytes_empty]
      have before : noted.srv.clients i = _ := self₂
      rw [own, Sys.clients_setClient_self, Function.update_self, joined, joinAs_self, before]
      unfold Client.setJoined Client.setInbuf
      rw [emptied]
    · rw [Sys.clients_setClient_of_ne _ _ own, Function.update_of_ne own, joined,
        joinAs_of_ne own]
      exact others j own
  · unfold processFrame
    dsimp only
    rw [Sys.nextId_setClient, joined]
    exact next

/-- A nick of 31 bytes. -/
def longNick (k : Nat) : Bytes := UInt8.ofNat (33 + k) :: List.replicate 30 120

/-- The first `n` slots are held by clients with long nicks. -/
def crowd (n : Nat) : Table := fun i =>
  if i.val < n then
    ⟨4 + i.val, true, true, UInt32.ofNat (i.val + 1), .strncpy chatMaxNick (longNick i.val), .empty⟩
  else .free

theorem crowd_reachable (env : Env) (n : Nat) (le : n ≤ maxClients) :
    ∃ s, Reachable env s ∧ s.srv.clients = crowd n ∧ s.srv.nextId = UInt32.ofNat (n + 1) := by
  induction n with
  | zero => exact ⟨_, ⟨[], .nil _⟩, rfl, rfl⟩
  | succ n ih =>
      obtain ⟨s, reach, clients, next⟩ := ih (Nat.le_of_succ_le le)
      have first : ∀ n : Slot, slots.find? (fun j => !(crowd n.val j).used) = some n := by
        decide +kernel
      have names : ∀ n : Slot, joinNick (longNick n.val) = longNick n.val ∧
          cstr (longNick n.val) = longNick n.val := by decide +kernel
      let i : Slot := ⟨n, le⟩
      have fresh : (4 + n : Fd) ∉ openFds s.log := by
        rw [reach.inv.opened, clients]
        rintro ⟨j, used, same⟩
        unfold crowd at used same
        split at same
        · have eq : (4 + j.val : Int) = 4 + n := same
          omega
        · cases same
      have free : ∀ j, (s.srv.clients j).active = true →
          (s.srv.clients j).nick.bytes ≠ cstr (longNick n) := by
        intro j active same
        rw [clients] at active same
        unfold crowd at active same
        split at active
        · rename_i below
          rw [if_pos below, CStr.bytes_strncpy_of_fits, (names j).2, (names i).2] at same
          · have first := congrArg UInt8.toNat (List.cons.inj same).1
            have small : n < 64 := le
            have eq : i.val = n := rfl
            rw [UInt8.toNat_ofNat', UInt8.toNat_ofNat', eq] at first
            omega
          · rw [(names j).2]
            exact le_refl 31
        · cases active
      have nonneg : (0 : Fd) ≤ 4 + n := Int.add_nonneg (by decide) (Int.natCast_nonneg n)
      obtain ⟨s', reach', clients', next'⟩ := arrives reach (clients ▸ first i) nonneg fresh
        (List.cons_ne_nil _ _) (le_refl 31) (names i).1 free
      refine ⟨s', reach', ?_, ?_⟩
      · rw [clients', clients, next]
        funext j
        unfold crowd
        by_cases own : j = i
        · rw [own, Function.update_self, if_pos (Nat.lt_succ_self n)]
          rfl
        · have other : j.val ≠ n := fun eq => own (Fin.ext eq)
          have same : j.val < n + 1 ↔ j.val < n := by omega
          rw [Function.update_of_ne own, if_congr same rfl rfl]
      · rw [next', next]
        exact (UInt32.ofNat_add (n + 1) 1).symm

/-- With 64 long nicks there is no room for everybody. -/
theorem list_cut : ∃ s, Reachable .smooth s ∧ (∀ i, (s.srv.clients i).joined = true) ∧
    decodeList (listText s.srv.clients) ≠ (joinedClients s.srv.clients).map Client.pair := by
  obtain ⟨s, reach, clients, -⟩ := crowd_reachable .smooth 64 (le_refl _)
  have activeIff : ∀ i, (crowd 64 i).active = (crowd 64 i).joined := by decide +kernel
  have plain : ∀ i, (crowd 64 i).joined = true → (10 : UInt8) ∉ (crowd 64 i).nick.bytes := by
    decide +kernel
  have long : ¬ ((joinedClients (crowd 64)).map listEntry).flatten.length ≤ chatMaxBody := by
    decide +kernel
  refine ⟨s, reach, ?_, ?_⟩ <;> rw [clients]
  · decide +kernel
  · exact fun all => long ((decodeList_all_iff activeIff plain).mp all)

end Osisp.Chat
