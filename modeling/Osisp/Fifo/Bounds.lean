import Osisp.Lib.Access
import Osisp.Fifo.Handlers

/-!
# What the handlers read and write

`Checked` has the handlers once more, with every access to the two arrays checked.
They agree with the handlers of the server model. Four of them call `strlen` on
`req.data`, which the server does not require to be terminated.
-/

namespace Osisp.Fifo

open Lib

namespace Checked

/-- `for (i = 0; i < len && i < MSG_SIZE - 1; i++) output[i] = f (input[index (i)]);
output[len] = '\0';` -/
def fillLoop (input : Bytes) (len : Nat) (index : Nat → Nat) (f : UInt8 → UInt8)
    (output : Bytes) : Option Bytes :=
  ((List.range (min len (msgSize - 1))).foldlM
      (fun out i => (load input (index i)).bind fun c => store out i (f c)) output).bind
    fun out => store out len 0

def processEcho (input output : Bytes) : Option Bytes :=
  (strncpy output input (msgSize - 1)).bind fun out => store out (msgSize - 1) 0

def processUpper (input output : Bytes) : Option Bytes :=
  (strlen input).bind fun len => fillLoop input len id toupper output

def processLower (input output : Bytes) : Option Bytes :=
  (strlen input).bind fun len => fillLoop input len id tolower output

def processLength (input output : Bytes) : Option Bytes :=
  (strlen input).bind fun len => snprintf output msgSize (ascii "Length: " ++ decimal len)

def processReverse (input output : Bytes) : Option Bytes :=
  (strlen input).bind fun len => fillLoop input len (fun i => len - 1 - i) id output

/-- The `switch` of `process_request`: `resp.response` after the selected handler. -/
def handle (req : Request) : Option Bytes :=
  let response := List.replicate msgSize (0 : UInt8)
  match RequestType.ofCode req.requestType with
  | some .echo => processEcho req.data response
  | some .upper => processUpper req.data response
  | some .lower => processLower req.data response
  | some .length => processLength req.data response
  | some .reverse => processReverse req.data response
  | some .quit => some response
  | none =>
      snprintf response msgSize (ascii "Unknown request type: " ++ signedDecimal req.requestType)

end Checked

/-- All accesses were inside the arrays, and the response is terminated. -/
def Terminated (handled : Option Bytes) : Prop :=
  ∃ response, handled = some response ∧ response.length = msgSize ∧ (0 : UInt8) ∈ response

def SafelyHandled (req : Request) : Prop := Terminated (Checked.handle req)

/-- The handlers that call `strlen`. -/
def Measures (req : Request) : Prop :=
  RequestType.ofCode req.requestType ∈
    [some RequestType.upper, some .lower, some .length, some .reverse]

instance (req : Request) : Decidable (Measures req) :=
  inferInstanceAs (Decidable (_ ∈ [some RequestType.upper, some .lower, some .length,
    some .reverse]))

/-! ## The two versions of the handlers agree -/

variable {input output : Bytes} {len : Nat}

theorem strlen_lt (eq : strlen input = some len) : len < input.length := by
  rw [strlen] at eq
  split at eq
  case isTrue nul =>
    have parts := congrArg List.length (split_at_first nul)
    rw [List.length_append, List.length_cons] at parts
    rw [← Option.some.inj eq, cstr]
    omega
  case isFalse _ => cases eq

theorem fillLoop_checked {index : Nat → Nat} (f : UInt8 → UInt8) (size : output.length = msgSize)
    (lt : len < msgSize) (inside : ∀ i < len, index i < input.length) :
    Checked.fillLoop input len index f output =
      some (fillLoop len (fun i => f (input.getD (index i) 0)) output) := by
  have small : msgSize = 256 := rfl
  have loop := foldlM_store input f output (min len (msgSize - 1)) (by omega)
    fun i lt => inside i (by omega)
  have kept : ((List.range (min len (msgSize - 1))).foldl
      (fun out i => out.set i (f (input.getD (index i) 0))) output).length = msgSize := by
    rw [foldl_set_range _ _ _ (by omega), List.length_append, List.length_map,
      List.length_range, List.length_drop]
    omega
  rw [Checked.fillLoop, loop, Option.bind_some, store_inside (by omega), fillLoop]

/-- A loop leaves the array as long as it was, and terminated. -/
theorem fillLoop_terminated (f : Nat → UInt8) (size : output.length = msgSize)
    (lt : len < msgSize) :
    (fillLoop len f output).length = msgSize ∧ (0 : UInt8) ∈ fillLoop len f output := by
  have kept : ((List.range (min len (msgSize - 1))).foldl
      (fun out i => out.set i (f i)) output).length = msgSize := by
    rw [foldl_set_range _ _ _ (by omega), List.length_append, List.length_map,
      List.length_range, List.length_drop]
    omega
  refine ⟨by rw [fillLoop, List.length_set, kept], ?_⟩
  exact List.mem_set (by omega) 0

theorem processEcho_checked (size : input.length = msgSize) (room : output.length = msgSize) :
    Checked.processEcho input output = processEcho input output := by
  have reads : (0 : UInt8) ∈ input ∨ msgSize - 1 ≤ input.length := Or.inr (by omega)
  have copied : ((cstr input).take (msgSize - 1)).length ≤ msgSize - 1 := List.length_take_le _ _
  have small : msgSize = 256 := rfl
  generalize text : (cstr input).take (msgSize - 1) = c at copied
  have written : (c ++ List.replicate (msgSize - 1 - c.length) (0 : UInt8)).length =
      msgSize - 1 := by
    rw [List.length_append, List.length_replicate]
    omega
  have rest : (output.drop (msgSize - 1)).length = 1 := by
    rw [List.length_drop]
    omega
  obtain ⟨last, single⟩ := List.length_eq_one_iff.mp rest
  rw [Checked.processEcho, strncpy, if_pos reads, text, storeAll_front (by omega), written,
    single, Option.bind_some, store_inside (by simp; omega), processEcho, text,
    List.set_append_right _ _ (by omega), written, Nat.sub_self, List.set_cons_zero]

/-- The handlers with a loop over the string. -/
theorem measured_checked (index : Nat → Nat → Nat) (f : UInt8 → UInt8)
    (size : input.length = msgSize) (room : output.length = msgSize)
    (inside : ∀ len i, i < len → index len i < len) :
    ((strlen input).bind fun len => Checked.fillLoop input len (index len) f output) =
      (strlen input).map fun len =>
        fillLoop len (fun i => f (input.getD (index len i) 0)) output := by
  cases measured : strlen input with
  | none => rfl
  | some len =>
      have lt := strlen_lt measured
      exact fillLoop_checked f room (by omega) fun i less => Nat.lt_trans (inside len i less) lt

theorem processUpper_checked (size : input.length = msgSize) (room : output.length = msgSize) :
    Checked.processUpper input output = processUpper input output :=
  measured_checked (fun _ i => i) toupper size room fun _ _ less => less

theorem processLower_checked (size : input.length = msgSize) (room : output.length = msgSize) :
    Checked.processLower input output = processLower input output :=
  measured_checked (fun _ i => i) tolower size room fun _ _ less => less

theorem processReverse_checked (size : input.length = msgSize) (room : output.length = msgSize) :
    Checked.processReverse input output = processReverse input output :=
  measured_checked (fun len i => len - 1 - i) id size room fun _ _ _ => by omega

theorem snprintf_msgSize (text : Bytes) (room : output.length = msgSize) :
    snprintf output msgSize text = some (text.take (msgSize - 1) ++ [0] ++
      output.drop (text.take (msgSize - 1) ++ [0]).length) := by
  have fits : (text.take (msgSize - 1) ++ [0]).length ≤ output.length := by
    have small : msgSize = 256 := rfl
    rw [List.length_append, List.length_take, List.length_singleton]
    omega
  exact storeAll_front fits

theorem processLength_checked (room : output.length = msgSize) :
    Checked.processLength input output = processLength input output := by
  rw [Checked.processLength, processLength]
  cases measured : strlen input with
  | none => rfl
  | some len => exact snprintf_msgSize _ room

/-! ## When they are safe -/

theorem not_terminated_none : ¬ Terminated none := fun h => nomatch h.choose_spec.1

theorem processEcho_terminated (input output : Bytes) : Terminated (processEcho input output) := by
  have copied : ((cstr input).take (msgSize - 1)).length ≤ msgSize - 1 := List.length_take_le _ _
  have small : msgSize = 256 := rfl
  refine ⟨_, rfl, ?_, List.mem_append_right _ (List.mem_singleton_self 0)⟩
  rw [List.length_append, List.length_append, List.length_replicate, List.length_singleton]
  omega

theorem snprintf_terminated (text : Bytes) (room : output.length = msgSize) :
    Terminated (snprintf output msgSize text) := by
  refine ⟨_, snprintf_msgSize text room, ?_, ?_⟩
  · exact (length_of_storeAll (snprintf_msgSize text room)).trans room
  · exact List.mem_append_left _ (List.mem_append_right _ (List.mem_singleton_self 0))

/-- A handler that measures its input needs a terminated one, and no more. -/
theorem measured_terminated_iff {handler : Nat → Option Bytes} (size : input.length = msgSize)
    (safe : ∀ len < msgSize, Terminated (handler len)) :
    Terminated ((strlen input).bind handler) ↔ (0 : UInt8) ∈ input := by
  constructor
  · intro terminated
    by_contra open_
    have measured : strlen input = none := if_neg open_
    rw [measured] at terminated
    exact not_terminated_none terminated
  · intro nul
    have measured : strlen input = some (cstr input).length := if_pos nul
    have lt := strlen_lt measured
    rw [measured]
    exact safe _ (by omega)

/-- The three handlers with a loop over the string. -/
theorem filled_terminated_iff (index : Nat → Nat → Nat) (f : UInt8 → UInt8)
    (size : input.length = msgSize) (room : output.length = msgSize)
    (inside : ∀ len i, i < len → index len i < len) :
    Terminated ((strlen input).bind fun len => Checked.fillLoop input len (index len) f output) ↔
      (0 : UInt8) ∈ input := by
  refine measured_terminated_iff size fun len lt => ?_
  have reads : ∀ i < len, index len i < input.length := fun i less => by
    have lower := inside len i less
    omega
  rw [fillLoop_checked f room lt reads]
  obtain ⟨length, zero⟩ := fillLoop_terminated (fun i => f (input.getD (index len i) 0)) room lt
  exact ⟨_, rfl, length, zero⟩

/-- **Main.** The handler of a record is safe if and only if it does not measure its
data, or the data is terminated. -/
theorem safelyHandled_iff (req : Request) :
    SafelyHandled req ↔ ¬ Measures req ∨ (0 : UInt8) ∈ req.data := by
  have size := req.size
  have room : (List.replicate msgSize (0 : UInt8)).length = msgSize := List.length_replicate
  simp only [SafelyHandled, Checked.handle, Measures]
  generalize RequestType.ofCode req.requestType = selected
  cases selected with
  | none => exact iff_of_true (snprintf_terminated _ room) (Or.inl (by decide))
  | some type =>
      cases type with
      | echo =>
          dsimp only
          rw [processEcho_checked size room]
          exact iff_of_true (processEcho_terminated _ _) (Or.inl (by decide))
      | quit =>
          exact iff_of_true ⟨_, rfl, room, List.mem_replicate.mpr ⟨by decide, rfl⟩⟩
            (Or.inl (by decide))
      | upper =>
          refine (filled_terminated_iff (fun _ i => i) toupper size room
            fun _ _ less => less).trans (or_iff_right ?_).symm
          decide
      | lower =>
          refine (filled_terminated_iff (fun _ i => i) tolower size room
            fun _ _ less => less).trans (or_iff_right ?_).symm
          decide
      | length =>
          refine (measured_terminated_iff size fun len _ =>
            snprintf_terminated _ room).trans (or_iff_right ?_).symm
          decide
      | reverse =>
          refine (filled_terminated_iff (fun len i => len - 1 - i) id size room
            fun _ _ _ => by omega).trans (or_iff_right ?_).symm
          decide

/-- The text of the `default` case fits. -/
theorem unknownType_checked (w : UInt32) (room : output.length = msgSize) :
    snprintf output msgSize (ascii "Unknown request type: " ++ signedDecimal w) =
      some (unknownType w output) := by
  have small : msgSize = 256 := rfl
  have word := w.toNat_lt
  have digits : (signedDecimal w).length ≤ 11 := by
    rw [signedDecimal]
    split
    · have short : (decimal w.toNat).length ≤ 10 := length_decimal_le (by decide) (by omega)
      omega
    · have short : (decimal (2 ^ 32 - w.toNat)).length ≤ 10 :=
        length_decimal_le (by decide) (by omega)
      have sign : (ascii "-").length = 1 := rfl
      rw [List.length_append]
      omega
  have fits : (ascii "Unknown request type: " ++ signedDecimal w).length ≤ msgSize - 1 := by
    have label : (ascii "Unknown request type: ").length = 22 := rfl
    rw [List.length_append]
    omega
  rw [snprintf_msgSize _ room, List.take_of_length_le fits]
  rfl

/-- On terminated data the server sends what the checked handler wrote. -/
theorem processRequest_checked (req : Request) (nul : (0 : UInt8) ∈ req.data) :
    processRequest req =
      match RequestType.ofCode req.requestType with
      | some .quit => .silent
      | some _ => served (Checked.handle req)
      | none => (Checked.handle req).elim .overrun fun response => .answer ⟨-1, response⟩ := by
  have size := req.size
  have room : (List.replicate msgSize (0 : UInt8)).length = msgSize := List.length_replicate
  have terminated : ¬ strlen req.data = none := by
    rw [strlen, if_pos nul]
    exact Option.some_ne_none _
  simp only [processRequest, if_neg terminated, Checked.handle]
  generalize RequestType.ofCode req.requestType = selected
  cases selected with
  | none =>
      dsimp only
      rw [unknownType_checked _ room, Option.elim_some]
  | some type =>
      cases type with
      | quit => rfl
      | echo => exact congrArg served (processEcho_checked size room).symm
      | upper => exact congrArg served (processUpper_checked size room).symm
      | lower => exact congrArg served (processLower_checked size room).symm
      | length => exact congrArg served (processLength_checked room).symm
      | reverse => exact congrArg served (processReverse_checked size room).symm

/-- 256 letters to be put in upper case. -/
def unterminated : Request :=
  ⟨1, RequestType.upper.code, List.replicate msgSize 65, List.length_replicate⟩

theorem unterminated_not_safely : ¬ SafelyHandled unterminated := by
  have open_ : (0 : UInt8) ∉ unterminated.data := fun mem =>
    absurd (List.eq_of_mem_replicate mem) (by decide)
  have upper : Checked.handle unterminated =
      Checked.processUpper unterminated.data (List.replicate msgSize 0) := rfl
  rw [SafelyHandled, upper, Checked.processUpper, strlen, if_neg open_]
  exact not_terminated_none

end Osisp.Fifo
