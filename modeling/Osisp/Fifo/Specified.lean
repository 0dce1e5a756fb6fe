import Mathlib
import Osisp.Fifo.System

/-!
# What a request is specified to return

`specified` is the service as its user sees it, on whole strings. The handlers
compute it with bounded copies and loops over 256-byte arrays; `result_fill`
says that what a client makes of the response is the specified result, up to the
longest string that fits.
-/

namespace Osisp.Fifo

open Lib

/-- The result of a request; `quit` has none. -/
def specified : RequestType → Bytes → Option Bytes
  | .echo, text => some text
  | .upper, text => some (text.map toupper)
  | .lower, text => some (text.map tolower)
  | .length, text => some (ascii "Length: " ++ decimal text.length)
  | .reverse, text => some text.reverse
  | .quit, _ => none

theorem toupper_ne_zero {c : UInt8} (h : c ≠ 0) : toupper c ≠ 0 := by
  unfold toupper
  split <;> grind

theorem tolower_ne_zero {c : UInt8} (h : c ≠ 0) : tolower c ≠ 0 := by
  unfold tolower
  split <;> grind

/-! ## Arrays that hold a string -/

/-- `text` in a NUL-filled `char[MSG_SIZE]`. -/
def terminated (text : Bytes) : Bytes := text ++ List.replicate (msgSize - text.length) 0

variable {text : Bytes}

theorem terminated_eq_cons (fits : text.length ≤ msgSize - 1) :
    terminated text = text ++ 0 :: List.replicate (msgSize - 1 - text.length) 0 := by
  have pos : 0 < msgSize := by decide
  have room : msgSize - text.length = msgSize - 1 - text.length + 1 := by omega
  rw [terminated, room, List.replicate_succ]

theorem cstr_terminated (noNul : (0 : UInt8) ∉ text) (fits : text.length ≤ msgSize - 1) :
    cstr (terminated text) = text := by
  rw [terminated_eq_cons fits, cstr_append_nul noNul]

theorem strlen_terminated (noNul : (0 : UInt8) ∉ text) (fits : text.length ≤ msgSize - 1) :
    strlen (terminated text) = some text.length := by
  have nul : (0 : UInt8) ∈ terminated text := by simp [terminated_eq_cons fits]
  rw [strlen, if_pos nul, cstr_terminated noNul fits]

/-- `strncpy` of the data leaves the string it held before. -/
theorem data_fill (pid : Pid) (type : RequestType) (noNul : (0 : UInt8) ∉ text)
    (fits : text.length ≤ msgSize - 1) :
    (Request.fill pid type text).data = terminated text := by
  have copied : (cstr text).take (msgSize - 1) = text := by
    rw [cstr_eq_self noNul, List.take_of_length_le fits]
  simp only [Request.fill, copied, terminated]

/-! ## The loops of the handlers -/

/-- A loop over the string fills the array with another string. -/
theorem cstr_fillLoop {len : Nat} {f : Nat → UInt8} (fits : len ≤ msgSize - 1)
    (noNul : (0 : UInt8) ∉ (List.range len).map f) :
    cstr (fillLoop len f (List.replicate msgSize 0)) = (List.range len).map f := by
  have room : len ≤ (List.replicate msgSize (0 : UInt8)).length := by
    rw [List.length_replicate]
    omega
  have filled : ((List.range len).map f).length = len := by simp
  have rest : msgSize - len = msgSize - 1 - len + 1 := by
    have pos : 0 < msgSize := by decide
    omega
  rw [fillLoop, Nat.min_eq_left fits, foldl_set_range _ _ _ room, List.drop_replicate, rest,
    List.replicate_succ, List.set_append_right _ _ (Nat.le_of_eq filled), filled, Nat.sub_self,
    List.set_cons_zero, cstr_append_nul noNul]

theorem map_range_terminated (g : UInt8 → UInt8) :
    ((List.range text.length).map fun i => g ((terminated text).getD i 0)) = text.map g := by
  apply List.ext_getElem
  · simp
  · intro i left right
    have inside : i < text.length := by simpa using left
    simp [terminated, inside, List.getD_eq_getElem?_getD, List.getElem?_append_left inside]

theorem map_range_reverse :
    ((List.range text.length).map fun i => (terminated text).getD (text.length - 1 - i) 0) =
      text.reverse := by
  apply List.ext_getElem
  · simp
  · intro i left right
    have inside : text.length - 1 - i < text.length := by
      have : i < text.length := by simpa using left
      omega
    simp [terminated, List.getElem_reverse, List.getD_eq_getElem?_getD,
      List.getElem?_append_left inside, inside]

/-! ## The handlers -/

/-- The response holds the string `result`. -/
def Gives (result : Bytes) (handled : Option Bytes) : Prop :=
  ∃ output, handled = some output ∧ cstr output = result

variable (noNul : (0 : UInt8) ∉ text) (fits : text.length ≤ msgSize - 1)

include noNul fits in
theorem processEcho_gives (output : Bytes) : Gives text (processEcho (terminated text) output) := by
  refine ⟨_, rfl, ?_⟩
  rw [cstr_terminated noNul fits, List.take_of_length_le fits, List.append_assoc,
    ← List.replicate_succ', List.replicate_succ, cstr_append_nul noNul]

include noNul fits in
theorem processUpper_gives :
    Gives (text.map toupper) (processUpper (terminated text) (List.replicate msgSize 0)) := by
  refine ⟨_, by rw [processUpper, strlen_terminated noNul fits]; rfl, ?_⟩
  have upper : _ = text.map toupper := map_range_terminated toupper
  rw [cstr_fillLoop fits ?_, upper]
  rw [upper]
  intro mem
  obtain ⟨c, inText, eq⟩ := List.mem_map.mp mem
  exact toupper_ne_zero (fun zero => noNul (zero ▸ inText)) eq

include noNul fits in
theorem processLower_gives :
    Gives (text.map tolower) (processLower (terminated text) (List.replicate msgSize 0)) := by
  refine ⟨_, by rw [processLower, strlen_terminated noNul fits]; rfl, ?_⟩
  have lower : _ = text.map tolower := map_range_terminated tolower
  rw [cstr_fillLoop fits ?_, lower]
  rw [lower]
  intro mem
  obtain ⟨c, inText, eq⟩ := List.mem_map.mp mem
  exact tolower_ne_zero (fun zero => noNul (zero ▸ inText)) eq

include noNul fits in
theorem processReverse_gives :
    Gives text.reverse (processReverse (terminated text) (List.replicate msgSize 0)) := by
  refine ⟨_, by rw [processReverse, strlen_terminated noNul fits]; rfl, ?_⟩
  rw [cstr_fillLoop fits ?_, map_range_reverse]
  rw [map_range_reverse]
  exact fun mem => noNul (List.mem_reverse.mp mem)

include fits in
/-- Three digits are enough for any length. -/
theorem length_line_le : (ascii "Length: " ++ decimal text.length).length ≤ msgSize - 1 := by
  have size : msgSize = 256 := rfl
  have digits : (decimal text.length).length ≤ 3 := length_decimal_le (by decide) (by omega)
  have label : (ascii "Length: ").length = 8 := rfl
  rw [List.length_append]
  omega

include noNul fits in
theorem processLength_gives :
    Gives (ascii "Length: " ++ decimal text.length)
      (processLength (terminated text) (List.replicate msgSize 0)) := by
  refine ⟨_, by rw [processLength, strlen_terminated noNul fits]; rfl, ?_⟩
  dsimp only
  rw [List.take_of_length_le (length_line_le fits), List.append_assoc (_ ++ _) [0],
    List.singleton_append]
  apply cstr_append_nul
  intro mem
  rcases List.mem_append.mp mem with inLabel | inDigits
  · exact absurd inLabel (by decide)
  · exact zero_not_mem_decimal _ inDigits

/-- A response that holds a result that fits is returned as that result. -/
theorem sendRequestResult_served {result : Bytes} {handled : Option Bytes} {resp : Response}
    (gives : Gives result handled) (fits : result.length ≤ msgSize - 1)
    (answered : served handled = .answer resp) : sendRequestResult [resp] = some result := by
  obtain ⟨output, rfl, rfl⟩ := gives
  cases answered
  simp [sendRequestResult, List.take_of_length_le fits]

/-- **The handlers meet the specification**: what a client makes of the response
to its request is the specified result. -/
theorem result_fill (pid : Pid) {type : RequestType} {resp : Response}
    (noNul : (0 : UInt8) ∉ text) (fits : text.length ≤ msgSize - 1)
    (answered : processRequest (.fill pid type text) = .answer resp) :
    sendRequestResult [resp] = specified type text := by
  have len : ¬ strlen (terminated text) = none := by
    rw [strlen_terminated noNul fits]
    exact Option.some_ne_none _
  simp only [processRequest, data_fill pid type noNul fits, if_neg len,
    Request.requestType_fill, RequestType.ofCode_code] at answered
  cases type with
  | echo => exact sendRequestResult_served (processEcho_gives noNul fits _) fits answered
  | upper =>
      exact sendRequestResult_served (processUpper_gives noNul fits) (by simpa using fits) answered
  | lower =>
      exact sendRequestResult_served (processLower_gives noNul fits) (by simpa using fits) answered
  | length =>
      exact sendRequestResult_served (processLength_gives noNul fits) (length_line_le fits)
        answered
  | reverse =>
      exact sendRequestResult_served (processReverse_gives noNul fits) (by simpa using fits)
        answered
  | quit => cases answered

end Osisp.Fifo
