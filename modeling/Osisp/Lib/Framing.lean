import Mathlib

/-!
# Incremental framing

A receive buffer is decoded from its head: either more input is needed, or the
head can never become a frame, or a frame of known size stands there. `Framing`
is such a decoder together with the two facts that make it incremental: a
verdict on the head survives further input.

`Framing.parse` decodes a whole stream. `parse_append_of_some` and
`parse_append_of_none` say that a transport may deliver it in pieces: the frames
of the whole are those of the first piece, then those of its undecoded tail
together with the rest.
-/

namespace Lib

/-- What the head of a receive buffer holds. -/
inductive Scan (φ : Type)
  | more
  | bad
  | frame (f : φ) (need : Nat)
  deriving DecidableEq

/-- An incremental decoder of frames `φ` from a stream of `α`. -/
structure Framing (α φ : Type) where
  scan : List α → Scan φ
  need_pos {b : List α} {f : φ} {n : Nat} : scan b = .frame f n → 0 < n
  need_le {b : List α} {f : φ} {n : Nat} : scan b = .frame f n → n ≤ b.length
  frame_append {b : List α} {f : φ} {n : Nat} (c : List α) :
    scan b = .frame f n → scan (b ++ c) = .frame f n
  bad_append {b : List α} (c : List α) : scan b = .bad → scan (b ++ c) = .bad

/-- A decoded stream: its frames and, unless decoding met a bad head, the tail
that holds no complete frame. -/
structure Parsed (α φ : Type) where
  frames : List φ
  tail : Option (List α)
  deriving DecidableEq

namespace Framing

variable {α φ : Type} (F : Framing α φ)

/-- Decode at most `fuel` frames. -/
def parseFuel : Nat → List α → Parsed α φ
  | 0, b => ⟨[], some b⟩
  | fuel + 1, b =>
      match F.scan b with
      | .more => ⟨[], some b⟩
      | .bad => ⟨[], none⟩
      | .frame f n =>
          let rest := parseFuel fuel (b.drop n)
          ⟨f :: rest.frames, rest.tail⟩

/-- Decode a whole stream. Each frame takes at least one item, so the length of
the stream is fuel enough (`parse_eq`). -/
def parse (b : List α) : Parsed α φ := F.parseFuel (b.length + 1) b

theorem length_drop_lt {b : List α} {f : φ} {n : Nat} (scan : F.scan b = .frame f n) :
    (b.drop n).length < b.length := by
  have pos := F.need_pos scan
  have le := F.need_le scan
  rw [List.length_drop]
  omega

theorem parseFuel_eq_parse {fuel : Nat} {b : List α} (enough : b.length < fuel) :
    F.parseFuel fuel b = F.parse b := by
  have general : ∀ (fuel fuel' : Nat) (b : List α), b.length < fuel → b.length < fuel' →
      F.parseFuel fuel b = F.parseFuel fuel' b := by
    intro fuel
    induction fuel with
    | zero => intro _ b h; omega
    | succ fuel ih =>
        intro fuel' b h h'
        cases fuel' with
        | zero => omega
        | succ fuel' =>
            cases scan : F.scan b with
            | more => simp only [parseFuel, scan]
            | bad => simp only [parseFuel, scan]
            | frame f n =>
                have shorter := F.length_drop_lt scan
                simp only [parseFuel, scan,
                  ih fuel' (b.drop n) (by omega) (by omega)]
  exact general fuel (b.length + 1) b enough (Nat.lt_succ_self _)

/-- One step of decoding. -/
theorem parse_eq (b : List α) :
    F.parse b = match F.scan b with
      | .more => ⟨[], some b⟩
      | .bad => ⟨[], none⟩
      | .frame f n => ⟨f :: (F.parse (b.drop n)).frames, (F.parse (b.drop n)).tail⟩ := by
  cases scan : F.scan b with
  | more => simp only [parse, parseFuel, scan]
  | bad => simp only [parse, parseFuel, scan]
  | frame f n =>
      have shorter := F.length_drop_lt scan
      simp only [parse, parseFuel, scan]
      rw [F.parseFuel_eq_parse shorter]
      rfl

theorem parse_of_more {b : List α} (scan : F.scan b = .more) :
    F.parse b = ⟨[], some b⟩ := by
  rw [parse_eq, scan]

theorem parse_of_bad {b : List α} (scan : F.scan b = .bad) : F.parse b = ⟨[], none⟩ := by
  rw [parse_eq, scan]

theorem parse_of_frame {b : List α} {f : φ} {n : Nat} (scan : F.scan b = .frame f n) :
    F.parse b = ⟨f :: (F.parse (b.drop n)).frames, (F.parse (b.drop n)).tail⟩ := by
  rw [parse_eq, scan]

/-- Induction along the frames of a stream. -/
theorem parse_induction {motive : List α → Prop}
    (more : ∀ b, F.scan b = .more → motive b)
    (bad : ∀ b, F.scan b = .bad → motive b)
    (frame : ∀ b f n, F.scan b = .frame f n → motive (b.drop n) → motive b)
    (b : List α) : motive b := by
  induction len : b.length using Nat.strongRecOn generalizing b with
  | ind len ih =>
      cases scan : F.scan b with
      | more => exact more b scan
      | bad => exact bad b scan
      | frame f n =>
          subst len
          exact frame b f n scan (ih _ (F.length_drop_lt scan) _ rfl)

/-- The tail of a stream holds no complete frame. -/
theorem scan_tail {b t : List α} (tail : (F.parse b).tail = some t) : F.scan t = .more := by
  induction b using F.parse_induction with
  | more b scan =>
      rw [F.parse_of_more scan] at tail
      cases tail
      exact scan
  | bad b scan =>
      rw [F.parse_of_bad scan] at tail
      cases tail
  | frame b f n scan ih =>
      rw [F.parse_of_frame scan] at tail
      exact ih tail

/-- Decoding resumes at the undecoded tail. -/
theorem parse_append_of_some {b t : List α} (tail : (F.parse b).tail = some t) (c : List α) :
    F.parse (b ++ c) =
      ⟨(F.parse b).frames ++ (F.parse (t ++ c)).frames, (F.parse (t ++ c)).tail⟩ := by
  induction b using F.parse_induction with
  | more b scan =>
      rw [F.parse_of_more scan] at tail ⊢
      cases tail
      rfl
  | bad b scan =>
      rw [F.parse_of_bad scan] at tail
      cases tail
  | frame b f n scan ih =>
      have le := F.need_le scan
      rw [F.parse_of_frame scan] at tail ⊢
      rw [F.parse_of_frame (F.frame_append c scan), List.drop_append_of_le_length le, ih tail]
      rfl

/-- After a bad head nothing resumes. -/
theorem parse_append_of_none {b : List α} (tail : (F.parse b).tail = none) (c : List α) :
    F.parse (b ++ c) = F.parse b := by
  induction b using F.parse_induction with
  | more b scan =>
      rw [F.parse_of_more scan] at tail
      cases tail
  | bad b scan => rw [F.parse_of_bad scan, F.parse_of_bad (F.bad_append c scan)]
  | frame b f n scan ih =>
      have le := F.need_le scan
      rw [F.parse_of_frame scan] at tail ⊢
      rw [F.parse_of_frame (F.frame_append c scan), List.drop_append_of_le_length le, ih tail]

/-- Further input adds frames. -/
theorem frames_prefix {b c : List α} (begins : b <+: c) :
    (F.parse b).frames <+: (F.parse c).frames := by
  obtain ⟨rest, rfl⟩ := begins
  cases tail : (F.parse b).tail with
  | none =>
      rw [F.parse_append_of_none tail]
  | some t =>
      rw [F.parse_append_of_some tail]
      exact List.prefix_append _ _

/-! ### Positions between frames -/

/-- `t` is what follows the first frames `fs` of `b`. -/
inductive After : List α → List φ → List α → Prop
  | here (b : List α) : After b [] b
  | frame {b t : List α} {f : φ} {n : Nat} {fs : List φ} :
    F.scan b = .frame f n → After (b.drop n) fs t → After b (f :: fs) t

namespace After

variable {F} {b t u : List α} {fs gs : List φ}

theorem trans (first : F.After b fs t) (second : F.After t gs u) : F.After b (fs ++ gs) u := by
  induction first with
  | here b => exact second
  | frame scan _ ih => exact .frame scan (ih second)

/-- Further input joins what follows. -/
theorem append (h : F.After b fs t) (c : List α) : F.After (b ++ c) fs (t ++ c) := by
  induction h with
  | here b => exact .here _
  | frame scan _ ih =>
      refine .frame (F.frame_append c scan) ?_
      rwa [List.drop_append_of_le_length (F.need_le scan)]

theorem parse_eq (h : F.After b fs t) :
    F.parse b = ⟨fs ++ (F.parse t).frames, (F.parse t).tail⟩ := by
  induction h with
  | here b => rfl
  | frame scan _ ih =>
      rw [F.parse_of_frame scan, ih]
      rfl

/-- What follows is what is left when the frames are dropped. -/
theorem drop_eq (h : F.After b fs t) : ∃ n, t = b.drop n := by
  induction h with
  | here b => exact ⟨0, rfl⟩
  | @frame _ _ _ n _ _ _ ih =>
      obtain ⟨k, rfl⟩ := ih
      exact ⟨n + k, List.drop_drop⟩

/-- Where a frame is recognised from its own bytes, what follows the frames can be
cut off. -/
theorem split (alone : ∀ {b f n}, F.scan b = .frame f n → F.scan (b.take n) = .frame f n)
    (h : F.After b fs t) : ∃ a, b = a ++ t ∧ F.After a fs [] := by
  induction h with
  | here b => exact ⟨[], rfl, .here _⟩
  | @frame b t f n fs scan _ ih =>
      obtain ⟨a, rest, after⟩ := ih
      have len : (b.take n).length = n := List.length_take_of_le (F.need_le scan)
      refine ⟨b.take n ++ a, ?_, .frame (F.frame_append a (alone scan)) ?_⟩
      · rw [List.append_assoc, ← rest, List.take_append_drop]
      · rwa [List.drop_left' len]

end After

/-- The tail of a stream follows its frames. -/
theorem after_tail {b t : List α} (tail : (F.parse b).tail = some t) :
    F.After b (F.parse b).frames t := by
  induction b using F.parse_induction with
  | more b scan =>
      rw [F.parse_of_more scan] at tail ⊢
      cases tail
      exact .here _
  | bad b scan =>
      rw [F.parse_of_bad scan] at tail
      cases tail
  | frame b f n scan ih =>
      rw [F.parse_of_frame scan] at tail ⊢
      exact .frame scan (ih tail)

/-- Without a tail, a bad head follows the frames. -/
theorem after_bad {b : List α} (tail : (F.parse b).tail = none) :
    ∃ t, F.After b (F.parse b).frames t ∧ F.scan t = .bad := by
  induction b using F.parse_induction with
  | more b scan =>
      rw [F.parse_of_more scan] at tail
      cases tail
  | bad b scan =>
      rw [F.parse_of_bad scan]
      exact ⟨b, .here b, scan⟩
  | frame b f n scan ih =>
      rw [F.parse_of_frame scan] at tail ⊢
      obtain ⟨t, after, bad⟩ := ih tail
      exact ⟨t, .frame scan after, bad⟩

end Framing

/-! ## Framings with an encoder -/

/-- A framing whose frames can be written: an encoded frame is decoded back,
whatever follows it. -/
structure Codec (α φ : Type) extends Framing α φ where
  encode : φ → List α
  /-- The frames the encoder is meant for. -/
  Fits : φ → Prop
  scan_encode {f : φ} (c : List α) : Fits f →
    scan (encode f ++ c) = .frame f (encode f).length
  scan_nil : scan [] = .more

namespace Codec

variable {α φ : Type} (C : Codec α φ)

/-- The stream that carries `fs`. -/
def encodeAll (fs : List φ) : List α := fs.flatMap C.encode

@[simp] theorem encodeAll_nil : C.encodeAll [] = [] := rfl

@[simp] theorem encodeAll_cons (f : φ) (fs : List φ) :
    C.encodeAll (f :: fs) = C.encode f ++ C.encodeAll fs := List.flatMap_cons

@[simp] theorem encodeAll_append (fs gs : List φ) :
    C.encodeAll (fs ++ gs) = C.encodeAll fs ++ C.encodeAll gs := List.flatMap_append

/-- A written stream decodes to its frames, in front of whatever follows. -/
theorem parse_encodeAll_append {fs : List φ} (fit : ∀ f ∈ fs, C.Fits f) (c : List α) :
    C.parse (C.encodeAll fs ++ c) = ⟨fs ++ (C.parse c).frames, (C.parse c).tail⟩ := by
  induction fs with
  | nil => rfl
  | cons f fs ih =>
      have scan := C.scan_encode (C.encodeAll fs ++ c) (fit f List.mem_cons_self)
      rw [encodeAll_cons, List.append_assoc, C.parse_of_frame scan, List.drop_left,
        ih fun g mem => fit g (List.mem_cons_of_mem f mem)]
      rfl

/-- **Round trip.** -/
theorem parse_encodeAll {fs : List φ} (fit : ∀ f ∈ fs, C.Fits f) :
    C.parse (C.encodeAll fs) = ⟨fs, some []⟩ := by
  have parsed := C.parse_encodeAll_append fit []
  rwa [List.append_nil, C.parse_of_more C.scan_nil, List.append_nil] at parsed

/-- The beginning of a written stream decodes to its first frames. -/
theorem parse_of_part {fs : List φ} (fit : ∀ f ∈ fs, C.Fits f) {b : List α}
    (part : b <+: C.encodeAll fs) :
    (∃ t, (C.parse b).tail = some t) ∧ (C.parse b).frames <+: fs := by
  obtain ⟨rest, whole⟩ := part
  have parsed := C.parse_encodeAll fit
  rw [← whole] at parsed
  cases tail : (C.parse b).tail with
  | none =>
      rw [C.parse_append_of_none tail] at parsed
      rw [parsed] at tail
      cases tail
  | some t =>
      rw [C.parse_append_of_some tail] at parsed
      exact ⟨⟨t, rfl⟩, _, congrArg Parsed.frames parsed⟩

/-- The head of the beginning of a written stream: not all of the first frame is there,
or it is read as it was written, with the beginning of the rest behind it. -/
theorem scan_of_part {fs : List φ} (fit : ∀ f ∈ fs, C.Fits f) {b : List α}
    (part : b <+: C.encodeAll fs) :
    C.scan b = .more ∨ ∃ f gs, fs = f :: gs ∧ C.scan b = .frame f (C.encode f).length ∧
      C.encode f <+: b ∧ b.drop (C.encode f).length <+: C.encodeAll gs := by
  obtain ⟨rest, whole⟩ := part
  cases fs with
  | nil =>
      obtain ⟨rfl, -⟩ := List.append_eq_nil_iff.mp whole
      exact .inl C.scan_nil
  | cons f gs =>
      have written : C.scan (b ++ rest) = .frame f (C.encode f).length := by
        rw [whole, encodeAll_cons]
        exact C.scan_encode _ (fit f List.mem_cons_self)
      cases scan : C.scan b with
      | more => exact .inl rfl
      | bad =>
          rw [C.bad_append rest scan] at written
          cases written
      | frame g n =>
          rw [C.frame_append rest scan] at written
          cases written
          have front : C.encode f <+: b :=
            List.prefix_of_prefix_length_le ⟨_, C.encodeAll_cons f gs⟩ ⟨rest, whole⟩
              (C.need_le scan)
          refine .inr ⟨f, gs, rfl, rfl, front, rest, ?_⟩
          rw [← List.drop_append_of_le_length (C.need_le scan), whole, encodeAll_cons,
            List.drop_left]

/-- The beginning of a written stream is its first frames and what is left of it. -/
theorem parse_part {fs : List φ} (fit : ∀ f ∈ fs, C.Fits f) {b : List α}
    (part : b <+: C.encodeAll fs) :
    ∃ gs t, C.parse b = ⟨gs, some t⟩ ∧ gs <+: fs ∧ b = C.encodeAll gs ++ t := by
  induction fs generalizing b with
  | nil =>
      obtain rfl := List.prefix_nil.mp part
      exact ⟨[], [], C.parse_of_more C.scan_nil, List.prefix_rfl, rfl⟩
  | cons f fs ih =>
      rcases C.scan_of_part fit part with more | ⟨g, gs, eq, scan, ⟨rest, rfl⟩, behind⟩
      · exact ⟨[], b, C.parse_of_more more, List.nil_prefix, rfl⟩
      · cases eq
        rw [List.drop_left] at behind
        obtain ⟨hs, t, parsed, first, rfl⟩ :=
          ih (fun g mem => fit g (List.mem_cons_of_mem f mem)) behind
        refine ⟨f :: hs, t, ?_, List.cons_prefix_cons.mpr ⟨rfl, first⟩, ?_⟩
        · rw [C.parse_of_frame scan, List.drop_left, parsed]
        · rw [encodeAll_cons, List.append_assoc]

/-- Frames whose encodings begin a written stream are its first frames. -/
theorem prefix_of_encodeAll {fs gs : List φ} (fit : ∀ f ∈ fs, C.Fits f)
    (fit' : ∀ g ∈ gs, C.Fits g) (part : C.encodeAll gs <+: C.encodeAll fs) : gs <+: fs := by
  have first := (C.parse_of_part fit part).2
  rwa [C.parse_encodeAll fit'] at first

/-- A written stream that is less than a frame carries none. -/
theorem eq_nil_of_scan {fs : List φ} (fit : ∀ f ∈ fs, C.Fits f)
    (more : C.scan (C.encodeAll fs) = .more) : fs = [] := by
  cases fs with
  | nil => rfl
  | cons f fs =>
      rw [encodeAll_cons, C.scan_encode _ (fit f List.mem_cons_self)] at more
      cases more

end Codec

end Lib
