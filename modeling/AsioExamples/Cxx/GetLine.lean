import AsioExamples.Cxx.Char
import AsioExamples.Lib.Lines

/-!
# Lines of the standard input

`std::cin.getline(s, n)` stores what stands before the next line end, as long as it fits with its NUL into
`n` characters; a longer line makes the stream fail, and so does the end of the input where nothing is
left. `getlines` is the loop `while (std::cin.getline(s, n))`. It goes through the lines of the input up to
the first one that does not fit (`getlines_eq`).
-/

set_option autoImplicit false

namespace AsioExamples.Cxx

open AsioExamples.Lib

/-- `std::cin`: what is left of the input, and its state. -/
structure IStream where
  rest : List UInt8
  eof : Bool
  fail : Bool
  deriving DecidableEq, Repr

/-- The standard input before anything is read. -/
def IStream.new (input : List UInt8) : IStream := ⟨input, false, false⟩

/-- What `getline` stores where there is room for so many characters, and the stream after it. The end of
the input is looked at first, then the delimiter, then the room. -/
def getlineLoop : ℕ → List UInt8 → List UInt8 × IStream
  | _, [] => ([], ⟨[], true, false⟩)
  | room, c :: s =>
      if c = chr '\n' then ([], ⟨s, false, false⟩)
      else
        match room with
        | 0 => ([], ⟨c :: s, false, true⟩)
        | room + 1 =>
            let r := getlineLoop room s
            (c :: r.1, r.2)
termination_by structural _ s => s

/-- `std::istream::getline(s, n)`: what is stored before the NUL. Where nothing is extracted the stream
fails. -/
def IStream.getline (is : IStream) (n : ℕ) : List UInt8 × IStream :=
  if is.eof || is.fail then ([], { is with fail := true })
  else
    let r := getlineLoop (n - 1) is.rest
    if is.rest = [] then (r.1, { r.2 with fail := true }) else r

/-! ## One line -/

theorem getlineLoop_line {room : ℕ} {l : List UInt8} (h : chr '\n' ∉ l) (hle : l.length ≤ room)
    (s : List UInt8) : getlineLoop room (l ++ chr '\n' :: s) = (l, ⟨s, false, false⟩) := by
  induction l generalizing room with
  | nil => simp [getlineLoop]
  | cons c l ih =>
      rw [List.mem_cons, not_or] at h
      cases room with
      | zero => simp at hle
      | succ room =>
          rw [List.cons_append, getlineLoop, if_neg (Ne.symm h.1), ih h.2 (Nat.le_of_succ_le_succ hle)]

theorem getlineLoop_last {room : ℕ} {l : List UInt8} (h : chr '\n' ∉ l) (hle : l.length ≤ room) :
    getlineLoop room l = (l, ⟨[], true, false⟩) := by
  induction l generalizing room with
  | nil => rfl
  | cons c l ih =>
      rw [List.mem_cons, not_or] at h
      cases room with
      | zero => simp at hle
      | succ room => rw [getlineLoop, if_neg (Ne.symm h.1), ih h.2 (Nat.le_of_succ_le_succ hle)]

/-- A line that is too long: what there is room for is stored, and the stream fails. -/
theorem getlineLoop_long {room : ℕ} {l : List UInt8} (h : chr '\n' ∉ l) (hlt : room < l.length)
    (s : List UInt8) :
    getlineLoop room (l ++ s) = (l.take room, ⟨l.drop room ++ s, false, true⟩) := by
  induction l generalizing room with
  | nil => simp at hlt
  | cons c l ih =>
      rw [List.mem_cons, not_or] at h
      rw [List.cons_append]
      cases room with
      | zero => rw [getlineLoop, if_neg (Ne.symm h.1)]; rfl
      | succ room =>
          rw [getlineLoop, if_neg (Ne.symm h.1), ih h.2 (Nat.lt_of_succ_lt_succ hlt)]
          rfl

theorem length_getlineLoop_le (room : ℕ) (s : List UInt8) : (getlineLoop room s).1.length ≤ room := by
  induction s generalizing room with
  | nil => simp [getlineLoop]
  | cons c s ih =>
      by_cases hend : c = chr '\n'
      · simp [getlineLoop, hend]
      · cases room with
        | zero => simp [getlineLoop, hend]
        | succ room =>
            rw [getlineLoop, if_neg hend]
            exact Nat.succ_le_succ (ih room)

/-- What is stored leaves room for its NUL. -/
theorem IStream.length_getline_le (is : IStream) (n : ℕ) : (is.getline n).1.length ≤ n - 1 := by
  rw [getline]
  split
  · exact Nat.zero_le _
  · dsimp only
    split <;> exact length_getlineLoop_le _ _

/-- A line that is read without a failure makes the input shorter. -/
theorem getlineLoop_lt {room : ℕ} {s : List UInt8} (hs : s ≠ [])
    (h : (getlineLoop room s).2.fail = false) : (getlineLoop room s).2.rest.length < s.length := by
  induction s generalizing room with
  | nil => exact absurd rfl hs
  | cons c s ih =>
      by_cases hend : c = chr '\n'
      · simp [getlineLoop, hend]
      · cases room with
        | zero => simp [getlineLoop, hend] at h
        | succ room =>
            rw [getlineLoop, if_neg hend] at h ⊢
            rcases eq_or_ne s [] with rfl | hne
            · exact Nat.lt_succ_self _
            · exact (ih hne h).trans (Nat.lt_succ_self _)

theorem IStream.getline_lt {is : IStream} {n : ℕ} (h : (is.getline n).2.fail = false) :
    (is.getline n).2.rest.length < is.rest.length := by
  rw [getline] at h ⊢
  split at h
  · cases h
  · rename_i hgood
    rw [if_neg hgood]
    dsimp only at h ⊢
    split at h
    · cases h
    · rename_i hne
      rw [if_neg hne]
      exact getlineLoop_lt hne h

/-! ## The loop -/

/-- `while (std::cin.getline(s, n))`: what is stored before the NUL, each time. -/
def getlines (n : ℕ) (is : IStream) : List (List UInt8) :=
  if (is.getline n).2.fail = false then (is.getline n).1 :: getlines n (is.getline n).2 else []
termination_by is.rest.length
decreasing_by exact IStream.getline_lt ‹_›

theorem IStream.getline_new {s : List UInt8} (hs : s ≠ []) (n : ℕ) :
    (IStream.new s).getline n = getlineLoop (n - 1) s := by
  simp [getline, IStream.new, hs]

/-- Nothing is read at the end of the input. -/
theorem getlines_of_eof {n : ℕ} {is : IStream} (h : is.eof = true) : getlines n is = [] := by
  rw [getlines]
  simp [IStream.getline, h]

/-- **The loop goes through the lines of the input**, up to the first one that does not fit into the array
with its NUL. -/
theorem getlines_eq {n : ℕ} (hn : 0 < n) (input : List UInt8) :
    getlines n (.new input) =
      (splitLines (chr '\n') input).takeWhile fun l => decide (l.length < n) := by
  induction hlen : input.length using Nat.strongRecOn generalizing input with
  | ind k ih =>
      subst hlen
      rcases notMem_or_exists_line (chr '\n') input with hend | ⟨l, rest, hl, rfl⟩
      · rw [splitLines_of_notMem hend]
        rcases eq_or_ne input [] with rfl | hne
        · rw [getlines]
          rfl
        · rw [getlines, IStream.getline_new hne, if_neg hne]
          by_cases hfits : input.length < n
          · -- the last line has no line end
            rw [getlineLoop_last hend (by omega), if_pos rfl, getlines_of_eof rfl]
            simp [hfits]
          · have hlong := @getlineLoop_long (n - 1) input hend (by omega) []
            rw [List.append_nil] at hlong
            rw [hlong, if_neg (by simp)]
            simp [hfits]
      · have hne : l ++ chr '\n' :: rest ≠ [] := by simp
        rw [splitLines_append hl, getlines, IStream.getline_new hne]
        by_cases hfits : l.length < n
        · have hrest := ih rest.length (by simp only [List.length_append, List.length_cons]; omega)
            rest rfl
          rw [getlineLoop_line hl (by omega), if_pos rfl]
          simp only [List.takeWhile_cons, hfits, decide_true, if_true]
          exact congrArg (l :: ·) hrest
        · rw [getlineLoop_long hl (by omega), if_neg (by simp)]
          simp [hfits]

end AsioExamples.Cxx
