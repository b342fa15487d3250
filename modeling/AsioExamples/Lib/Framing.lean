import Mathlib.Data.List.Basic

/-!
# Streams of frames

A frame is a header of a fixed length and a body whose length the header tells. `read` takes frames
off a stream until the stream does not hold a whole one, or a header is bad. On a stream that begins
with well-formed frames it reads exactly those and goes on behind them (`read_frames_append`), so a
stream of frames never loses its frame boundaries. Who has read whole frames of a stream has read its first
ones (`isPrefix_of_bytes`), and the header behind them is that of the next one (`next_of_header`).
-/

set_option autoImplicit false

namespace AsioExamples.Lib

universe u

/-- The length of the headers, and the length of the body that a header tells; `none` for a bad
header. -/
structure Framing (β : Type u) where
  headerLength : ℕ
  headerLength_pos : 0 < headerLength
  bodyLength : List β → Option ℕ

/-- A header and a body. -/
structure Frame (β : Type u) where
  header : List β
  body : List β
  deriving DecidableEq, Repr

/-- A frame as it is sent. -/
def Frame.bytes {β : Type u} (f : Frame β) : List β := f.header ++ f.body

namespace Framing

variable {β : Type u} (F : Framing β)

/-- The header of the frame tells the length of its body. -/
structure WellFormed (f : Frame β) : Prop where
  header : f.header.length = F.headerLength
  body : F.bodyLength f.header = some f.body.length

/-- The frames at the beginning of a stream, and what is left of it. -/
def read (s : List β) : List (Frame β) × List β :=
  if s.length < F.headerLength then ([], s)
  else
    match F.bodyLength (s.take F.headerLength) with
    | none => ([], s)
    | some n =>
        if (s.drop F.headerLength).length < n then ([], s)
        else
          let r := read (s.drop (F.headerLength + n))
          (⟨s.take F.headerLength, (s.drop F.headerLength).take n⟩ :: r.1, r.2)
  termination_by s.length
  decreasing_by
    have := F.headerLength_pos
    simp only [List.length_drop]
    omega

theorem read_of_short {s : List β} (h : s.length < F.headerLength) : F.read s = ([], s) := by
  rw [read, if_pos h]

theorem read_of_bad {s : List β} (h : F.headerLength ≤ s.length)
    (hbad : F.bodyLength (s.take F.headerLength) = none) : F.read s = ([], s) := by
  rw [read, if_neg (Nat.not_lt.2 h)]
  simp only [hbad]

theorem read_of_short_body {s : List β} {n : ℕ} (h : F.headerLength ≤ s.length)
    (hn : F.bodyLength (s.take F.headerLength) = some n)
    (hshort : (s.drop F.headerLength).length < n) : F.read s = ([], s) := by
  rw [read, if_neg (Nat.not_lt.2 h)]
  simp only [hn]
  rw [if_pos hshort]

theorem read_of_enough {s : List β} {n : ℕ} (h : F.headerLength ≤ s.length)
    (hn : F.bodyLength (s.take F.headerLength) = some n)
    (henough : n ≤ (s.drop F.headerLength).length) :
    F.read s =
      (⟨s.take F.headerLength, (s.drop F.headerLength).take n⟩ ::
        (F.read (s.drop (F.headerLength + n))).1, (F.read (s.drop (F.headerLength + n))).2) := by
  rw [read, if_neg (Nat.not_lt.2 h)]
  simp only [hn]
  exact if_neg (Nat.not_lt.2 henough)

@[simp] theorem read_nil : F.read [] = ([], []) := F.read_of_short F.headerLength_pos

/-- No frame can be taken off the stream: it is too short for a header, or for the body that its
header tells of, or its header is bad. -/
def Stuck (s : List β) : Prop :=
  s.length < F.headerLength ∨
    (∃ n, F.bodyLength (s.take F.headerLength) = some n ∧ s.length < F.headerLength + n) ∨
    F.bodyLength (s.take F.headerLength) = none

/-- **What is read**: well-formed frames, from the beginning of the stream on and without a gap, up to
where no frame can be taken off any more. -/
theorem read_spec (s : List β) :
    s = (F.read s).1.flatMap Frame.bytes ++ (F.read s).2 ∧
      (∀ f ∈ (F.read s).1, F.WellFormed f) ∧ F.Stuck (F.read s).2 := by
  fun_induction read F s with
  | case1 s hshort => exact ⟨rfl, by simp, Or.inl hshort⟩
  | case2 s hlong hbad => exact ⟨rfl, by simp, Or.inr (Or.inr hbad)⟩
  | case3 s hlong n hn hshort =>
      have hlen : s.length < F.headerLength + n := by
        rw [List.length_drop] at hshort
        omega
      exact ⟨rfl, by simp, Or.inr (Or.inl ⟨n, hn, hlen⟩)⟩
  | case4 s hlong n hn henough r ih =>
      obtain ⟨hs, hframes, hstuck⟩ := ih
      rw [List.length_drop] at henough
      refine ⟨?_, List.forall_mem_cons.2 ⟨⟨?_, ?_⟩, hframes⟩, hstuck⟩
      · -- the frame and what is left are the stream again
        rw [List.flatMap_cons, List.append_assoc, ← hs, Frame.bytes, List.append_assoc,
          ← List.drop_drop, List.take_append_drop, List.take_append_drop]
      · rw [List.length_take]
        omega
      · rw [hn, List.length_take, List.length_drop]
        congr 1
        omega

/-- A well-formed frame at the beginning of a stream is read. -/
theorem read_frame_append {f : Frame β} (hf : F.WellFormed f) (s : List β) :
    F.read (f.bytes ++ s) = (f :: (F.read s).1, (F.read s).2) := by
  have htake : (f.bytes ++ s).take F.headerLength = f.header := by
    rw [Frame.bytes, List.append_assoc, ← hf.header, List.take_left']
    rfl
  have hdrop : (f.bytes ++ s).drop F.headerLength = f.body ++ s := by
    rw [Frame.bytes, List.append_assoc, ← hf.header, List.drop_left']
    rfl
  have hrest : (f.bytes ++ s).drop (F.headerLength + f.body.length) = s := by
    rw [← List.drop_drop, hdrop, List.drop_left']
    rfl
  have hlen : F.headerLength ≤ (f.bytes ++ s).length := by
    simp only [Frame.bytes, List.length_append, hf.header]
    omega
  rw [F.read_of_enough hlen (htake ▸ hf.body) (by simp [hdrop]), htake, hdrop, hrest,
    List.take_left' rfl]

/-- **Frame boundaries are never lost**: well-formed frames at the beginning of a stream are read one
by one, and the reader goes on behind them. -/
theorem read_frames_append {fs : List (Frame β)} (hfs : ∀ f ∈ fs, F.WellFormed f) (s : List β) :
    F.read (fs.flatMap Frame.bytes ++ s) = (fs ++ (F.read s).1, (F.read s).2) := by
  induction fs with
  | nil => rfl
  | cons f fs ih =>
      -- the frames behind `f` are what follows it on the stream
      obtain ⟨hf, hfs⟩ := List.forall_mem_cons.1 hfs
      rw [List.flatMap_cons, List.append_assoc, F.read_frame_append hf, ih hfs]
      rfl

/-- A stream of well-formed frames is read back. -/
theorem read_frames {fs : List (Frame β)} (hfs : ∀ f ∈ fs, F.WellFormed f) :
    F.read (fs.flatMap Frame.bytes) = (fs, []) := by
  have h := F.read_frames_append hfs []
  simpa using h

/-- Of a part of a well-formed frame nothing is read, unless it is the whole frame. -/
theorem read_of_prefix {f : Frame β} (hf : F.WellFormed f) {s : List β} (hs : s <+: f.bytes) :
    F.read s = ([], s) ∨ F.read s = ([f], []) := by
  obtain ⟨t, ht⟩ := hs
  have hlen : s.length + t.length = F.headerLength + f.body.length := by
    rw [← List.length_append, ht, Frame.bytes, List.length_append, hf.header]
  rcases Nat.lt_or_ge s.length F.headerLength with hshort | hlong
  · apply Or.inl
    exact F.read_of_short hshort
  · have hheader : s.take F.headerLength = f.header := by
      rw [← List.take_append_of_le_length hlong, ht, Frame.bytes, ← hf.header, List.take_left']
      rfl
    rcases Nat.lt_or_ge (s.drop F.headerLength).length f.body.length with hshort | henough
    · apply Or.inl
      exact F.read_of_short_body hlong (hheader ▸ hf.body) hshort
    · -- nothing of the frame is missing
      have hnil : t = [] := by
        rw [List.length_drop] at henough
        exact List.eq_nil_of_length_eq_zero (by omega)
      have hread := F.read_frame_append hf []
      rw [hnil, List.append_nil] at ht
      rw [List.append_nil, read_nil] at hread
      apply Or.inr
      exact ht ▸ hread

/-! ## Parts of a stream -/

/-- Where the bytes of well-formed frames begin with those of others, the frames begin with the others. -/
theorem isPrefix_of_bytes {fs gs : List (Frame β)} (hfs : ∀ f ∈ fs, F.WellFormed f)
    (hgs : ∀ g ∈ gs, F.WellFormed g) (h : fs.flatMap Frame.bytes <+: gs.flatMap Frame.bytes) :
    fs <+: gs := by
  obtain ⟨t, ht⟩ := h
  have hread := F.read_frames_append hfs t
  rw [ht, F.read_frames hgs] at hread
  exact ⟨(F.read t).1, (congrArg Prod.fst hread).symm⟩

/-- A header behind the first frames of a stream is the header of the next one. -/
theorem next_of_header {fs gs : List (Frame β)} {header : List β} (hfs : ∀ f ∈ fs, F.WellFormed f)
    (hgs : ∀ g ∈ gs, F.WellFormed g) (hlen : header.length = F.headerLength)
    (h : fs.flatMap Frame.bytes ++ header <+: gs.flatMap Frame.bytes) :
    ∃ f rest, gs = fs ++ f :: rest ∧ f.header = header := by
  obtain ⟨rest, rfl⟩ := F.isPrefix_of_bytes hfs hgs ((List.prefix_append _ _).trans h)
  rw [List.flatMap_append, List.prefix_append_right_inj] at h
  cases rest with
  | nil =>
      -- a header is not empty
      have hpos := F.headerLength_pos
      rw [List.flatMap_nil, List.prefix_nil] at h
      rw [h, List.length_nil] at hlen
      omega
  | cons f rest =>
      refine ⟨f, rest, rfl, ?_⟩
      have hf : header.length = f.header.length := hlen.trans (hgs f (by simp)).header.symm
      rw [List.flatMap_cons, Frame.bytes, List.append_assoc] at h
      have hheader := List.prefix_of_prefix_length_le h (List.prefix_append f.header _) (Nat.le_of_eq hf)
      exact (hheader.eq_of_length hf).symm

end Framing

end AsioExamples.Lib
