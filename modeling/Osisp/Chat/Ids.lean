import Osisp.Chat.Invariant

/-!
# The ids of the clients

`next_id` counts the connections that were given a slot, modulo 2^32. As long as
fewer than 2^32 of them were, every id in use is the number of its connection; the
connection after that has the id 0 (`ids_distinct_iff`).
-/

namespace Osisp.Chat

open Lib

/-- The ids in use are distinct and not zero. -/
structure IdsSound (s : Sys) : Prop where
  nonzero : ∀ i, (s.srv.clients i).used = true → (s.srv.clients i).id ≠ 0
  distinct : ∀ i j, i ≠ j → (s.srv.clients i).used = true → (s.srv.clients j).used = true →
    (s.srv.clients i).id ≠ (s.srv.clients j).id

/-- The action gives a new connection a slot. -/
def Admits (s : Sys) : Action → Prop
  | .accept _ => ∃ i, (s.srv.clients i).used = false
  | _ => False

instance decidableAdmits (s : Sys) (a : Action) : Decidable (Admits s a) := by
  induction a using Action.casesOn <;> unfold Admits <;> infer_instance

/-- How many connections are given a slot. -/
def admissions (env : Env) : Sys → List Action → Nat
  | _, [] => 0
  | s, a :: as => (if Admits s a then 1 else 0) + admissions env (act env s a) as

/-! ## What an action does to the ids -/

/-- A new connection is in slot `i`, under the next id. -/
structure NewId (s s' : Sys) (i : Slot) : Prop where
  used : (s'.srv.clients i).used = true
  id : (s'.srv.clients i).id = s.srv.nextId
  others : ∀ j, j ≠ i → s'.srv.clients j = s.srv.clients j
  next : s'.srv.nextId = s.srv.nextId + 1

/-- Nobody is new. -/
structure SameIds (s s' : Sys) : Prop where
  kept : ∀ i, (s'.srv.clients i).used = true →
    (s.srv.clients i).used = true ∧ (s'.srv.clients i).id = (s.srv.clients i).id
  next : s'.srv.nextId = s.srv.nextId

theorem SameIds.refl (s : Sys) : SameIds s s := ⟨fun _ used => ⟨used, rfl⟩, rfl⟩

/-- One slot has changed, and is not newly used. -/
theorem SameIds.of_slot {s s' : Sys} (i : Slot)
    (others : ∀ j ≠ i, s'.srv.clients j = s.srv.clients j)
    (own : (s'.srv.clients i).used = true →
      (s.srv.clients i).used = true ∧ (s'.srv.clients i).id = (s.srv.clients i).id)
    (next : s'.srv.nextId = s.srv.nextId) : SameIds s s' := by
  refine ⟨fun j used => ?_, next⟩
  by_cases eq : j = i
  · rw [eq] at used ⊢
    exact own used
  · rw [others j eq] at used ⊢
    exact ⟨used, rfl⟩

theorem nextId_addClient {fd : Fd} {s : Sys} {i : Slot} (h : (addClient fd s).1 = some i) :
    (addClient fd s).2.srv.nextId = s.srv.nextId + 1 := by
  unfold addClient at h ⊢
  split
  · rename_i full
    rw [full] at h
    cases h
  · rfl

/-- A slot is emptied. -/
theorem SameIds.free {s s' : Sys} {i : Slot} (h : s'.srv = (s.setClient i .free).srv) :
    SameIds s s' := by
  refine .of_slot i (fun j ne => ?_) (fun used => ?_) ?_
  · rw [h, Sys.clients_setClient_of_ne _ _ ne]
  · rw [h, Sys.clients_setClient_self] at used
    cases used
  · rw [h]
    rfl

theorem FrameCase.nextId {env : Env} {c : Slot} {f : Frame} {s s' : Sys}
    (h : FrameCase env c f s s') : s'.srv.nextId = s.srv.nextId := by
  cases h with
  | quiet _ => rfl
  | join _ =>
      rw [(acceptJoin_case env c _ s).srv]
      rfl
  | broadcast _ joined =>
      rw [handleBroadcast_of_joined env joined]
      rfl
  | privateMsg _ => rfl

theorem processFrame_ids (env : Env) (c : Slot) (f : Frame) (need : Nat) (s : Sys) :
    SameIds s (processFrame env c f need s) := by
  obtain ⟨-, sameUsed, sameId, -⟩ := processFrame_sameConn env c f need s
  refine .of_slot c (fun i ne => processFrame_of_ne env c f need s ne)
    (fun used => ⟨sameUsed ▸ used, sameId⟩) ?_
  obtain ⟨s', handled, eq⟩ := processFrame_case env c f need s
  rw [eq, Sys.nextId_setClient, handled.nextId]
  rfl

/-- **One action** gives a new connection the next id, or leaves the ids alone. -/
theorem act_ids (env : Env) (s : Sys) (a : Action) :
    (Admits s a ∧ ∃ i, (s.srv.clients i).used = false ∧ NewId s (act env s a) i) ∨
      (¬ Admits s a ∧ SameIds s (act env s a)) := by
  cases a with
  | accept fd =>
      rcases acceptClient_cases env fd s with ⟨i, added, eq⟩ | ⟨full, eq⟩
      · obtain ⟨free, self, others, -, -⟩ := addClient_some added
        refine .inl ⟨⟨i, free⟩, i, free, ?_⟩
        rw [act, eq]
        exact ⟨by rw [self], by rw [self]; rfl, others, nextId_addClient added⟩
      · obtain ⟨d, d', out, out', told⟩ := turnAway_eq env fd (s.note (.accept fd))
        refine .inr ⟨fun free => ?_, ?_⟩
        · obtain ⟨i, free⟩ := free
          rw [full i] at free
          cases free
        · rw [act, eq, told]
          exact ⟨fun _ used => ⟨used, rfl⟩, rfl⟩
  | recv i data =>
      refine .inr ⟨id, .of_slot i (fun j ne => Sys.clients_setClient_of_ne _ _ ne) ?_ rfl⟩
      rw [act, recvInto, Sys.clients_setClient_self]
      exact fun used => ⟨used, rfl⟩
  | frame i =>
      refine .inr ⟨id, ?_⟩
      rw [act]
      split
      · exact processFrame_ids env i _ _ s
      · exact .refl s
  | invalid i => exact .inr ⟨id, .free (srv_closeSlot i s)⟩
  | remove i => exact .inr ⟨id, .free (srv_removeClientIndex env i s)⟩

/-! ## Runs -/

/-- After `n` connections, fewer than 2^32: their ids are their numbers. -/
structure Counted (n : Nat) (s : Sys) : Prop where
  next : s.srv.nextId.toNat = (n + 1) % 2 ^ 32
  bounds : ∀ i, (s.srv.clients i).used = true →
    1 ≤ (s.srv.clients i).id.toNat ∧ (s.srv.clients i).id.toNat ≤ n
  distinct : ∀ i j, (s.srv.clients i).used = true → (s.srv.clients j).used = true →
    (s.srv.clients i).id = (s.srv.clients j).id → i = j

section Counted

variable {n : Nat} {s s' : Sys}

theorem counted_init : Counted 0 Sys.init where
  next := rfl
  bounds _ used := by cases used
  distinct _ _ used := by cases used

theorem Counted.sound (h : Counted n s) : IdsSound s where
  nonzero i used zero := by
    have bounds := h.bounds i used
    rw [zero] at bounds
    exact absurd bounds.1 (by decide)
  distinct i j ne usedI usedJ same := ne (h.distinct i j usedI usedJ same)

theorem Counted.same (h : Counted n s) (same : SameIds s s') : Counted n s' where
  next := by rw [same.next, h.next]
  bounds i used := by
    obtain ⟨before, id⟩ := same.kept i used
    rw [id]
    exact h.bounds i before
  distinct i j usedI usedJ eq := by
    obtain ⟨beforeI, idI⟩ := same.kept i usedI
    obtain ⟨beforeJ, idJ⟩ := same.kept j usedJ
    rw [idI, idJ] at eq
    exact h.distinct i j beforeI beforeJ eq

/-- The next number is higher than all ids in use. -/
theorem Counted.new (h : Counted n s) (room : n + 1 < 2 ^ 32) {i : Slot} (new : NewId s s' i) :
    Counted (n + 1) s' := by
  have number : s.srv.nextId.toNat = n + 1 := by
    rw [h.next]
    exact Nat.mod_eq_of_lt room
  have higher : ∀ j, j ≠ i → (s'.srv.clients j).used = true →
      (s'.srv.clients j).id ≠ s.srv.nextId := by
    intro j other used same
    rw [new.others j other] at used same
    have bounds := h.bounds j used
    rw [same, number] at bounds
    omega
  refine ⟨?_, fun j used => ?_, fun j k usedJ usedK same => ?_⟩
  · rw [new.next, UInt32.toNat_add, number]
    rfl
  · by_cases own : j = i
    · rw [own, new.id, number]
      omega
    · rw [new.others j own] at used ⊢
      have bounds := h.bounds j used
      omega
  · by_cases ownJ : j = i <;> by_cases ownK : k = i
    · rw [ownJ, ownK]
    · rw [ownJ, new.id] at same
      exact absurd same.symm (higher k ownK usedK)
    · rw [ownK, new.id] at same
      exact absurd same (higher j ownJ usedJ)
    · rw [new.others j ownJ] at usedJ same
      rw [new.others k ownK] at usedK same
      exact h.distinct j k usedJ usedK same

/-- The 2^32nd connection gets the id 0. -/
theorem Counted.wraps (h : Counted n s) (last : n + 1 = 2 ^ 32) {i : Slot} (new : NewId s s' i) :
    ¬ IdsSound s' := by
  intro sound
  refine sound.nonzero i new.used (UInt32.toNat_inj.mp ?_)
  rw [new.id, h.next, last]
  rfl

theorem Counted.throughout_iff (env : Env) (h : Counted n s) (few : n < 2 ^ 32)
    (as : List Action) :
    Throughout env IdsSound s as ↔ n + admissions env s as < 2 ^ 32 := by
  induction as generalizing n s with
  | nil => exact iff_of_true h.sound few
  | cons a as ih =>
      have split : Throughout env IdsSound s (a :: as) ↔
          Throughout env IdsSound (act env s a) as := and_iff_right h.sound
      rw [split, admissions]
      rcases act_ids env s a with ⟨admits, i, -, new⟩ | ⟨nobody, same⟩
      · rw [if_pos admits]
        rcases Nat.lt_or_ge (n + 1) (2 ^ 32) with room | full
        · rw [ih (h.new room new) room]
          omega
        · refine iff_of_false (fun all => ?_) (by omega)
          exact h.wraps (by omega) new (Lib.Throughout.head all)
      · rw [if_neg nobody, Nat.zero_add]
        exact ih (h.same same) few

end Counted

/-- **When the ids are sound.** In every run the ids in use stay distinct and not
zero exactly as long as fewer than 2^32 connections were given a slot. -/
theorem ids_distinct_iff (env : Env) (as : List Action) :
    Throughout env IdsSound .init as ↔ admissions env .init as < 2 ^ 32 := by
  rw [counted_init.throughout_iff env (by decide) as, Nat.zero_add]

/-! ## A server that runs for long -/

/-- Somebody connects and leaves, `n` times. -/
def visits : Nat → List Action
  | 0 => []
  | n + 1 => visits n ++ [.accept 4, .remove 0]

/-- The first free slot gets the new connection. -/
theorem srv_accept (env : Env) {s : Sys} {i : Slot} (fd : Fd)
    (first : slots.find? (fun j => !(s.srv.clients j).used) = some i) :
    (act env s (.accept fd)).srv.clients = Function.update s.srv.clients i
        ⟨fd, true, false, s.srv.nextId, .empty, .empty⟩ ∧
      (act env s (.accept fd)).srv.nextId = s.srv.nextId + 1 := by
  simp only [act, acceptClient, addClient, Sys.srv_note, first]
  exact ⟨rfl, rfl⟩

/-- The next client of an empty table gets slot 0. -/
theorem accept_empty {s : Sys} (reach : Reachable .smooth s)
    (empty : ∀ i, (s.srv.clients i).used = false) :
    Enabled s (.accept 4) ∧ NewId s (act .smooth s (.accept 4)) 0 := by
  have fresh : (4 : Fd) ∉ openFds s.log := by
    rw [reach.inv.opened]
    rintro ⟨i, used, -⟩
    rw [empty i] at used
    cases used
  have first : slots.find? (fun j => !(s.srv.clients j).used) = some 0 := by
    rw [funext fun j => show (!(s.srv.clients j).used) = true by rw [empty j]; rfl]
    rfl
  obtain ⟨clients, next⟩ := srv_accept .smooth 4 first
  refine ⟨⟨by decide, fresh⟩, ?_, ?_, fun j other => ?_, next⟩
  · rw [clients, Function.update_self]
  · rw [clients, Function.update_self]
  · rw [clients, Function.update_of_ne other]

theorem visits_run (n : Nat) : ∃ s, Run .smooth Sys.init (visits n) s ∧
    (∀ i, (s.srv.clients i).used = false) ∧ s.srv.nextId = UInt32.ofNat (n + 1) := by
  induction n with
  | zero => exact ⟨_, .nil _, fun _ => rfl, rfl⟩
  | succ n ih =>
      obtain ⟨s, run, empty, next⟩ := ih
      obtain ⟨accepts, new⟩ := accept_empty ⟨_, run⟩ empty
      have left := srv_removeClientIndex .smooth 0 (act .smooth s (.accept 4))
      refine ⟨removeClientIndex .smooth 0 (act .smooth s (.accept 4)),
        run.append (.cons accepts (.one new.used)), fun j => ?_, ?_⟩
      · rw [left]
        by_cases own : j = 0
        · rw [own, Sys.clients_setClient_self]
          rfl
        · rw [Sys.clients_setClient_of_ne _ _ own, new.others j own, empty j]
      · rw [left, Sys.nextId_setClient, new.next, next]
        exact (UInt32.ofNat_add (n + 1) 1).symm

/-- After 2^32 - 1 visits the next client has the id 0. -/
theorem id_zero : ∃ s, Run .smooth Sys.init (visits (2 ^ 32 - 1) ++ [.accept 4]) s ∧
    (s.srv.clients 0).used = true ∧ (s.srv.clients 0).id = 0 ∧ ¬ IdsSound s := by
  obtain ⟨s, run, empty, next⟩ := visits_run (2 ^ 32 - 1)
  obtain ⟨accepts, new⟩ := accept_empty ⟨_, run⟩ empty
  have zero : ((act .smooth s (.accept 4)).srv.clients 0).id = 0 := by
    rw [new.id, next]
    rfl
  exact ⟨_, run.append (.one accepts), new.used, zero, fun sound =>
    sound.nonzero 0 new.used zero⟩

end Osisp.Chat
