import AsioExamples.Cxx.Char

/-!
# Files and input streams

A file system answers every path with the bytes of a file that can be opened, or with nothing.
`readAll` is the loop that reads a stream to its end through a buffer of fixed size.
-/

set_option autoImplicit false

namespace AsioExamples.Cxx

/-- The files that can be opened, by path. -/
abbrev FileSystem := List UInt8 → Option (List UInt8)

/-- An open `std::ifstream`: the bytes not read yet, and whether an earlier read failed. -/
structure IfStream where
  rest : List UInt8
  fail : Bool
  deriving DecidableEq, Repr

/-- `std::ifstream is(path, std::ios::in | std::ios::binary)`, when `is` is good after it. -/
def openFile (fs : FileSystem) (path : List UInt8) : Option IfStream :=
  (fs path).map fun bytes => ⟨bytes, false⟩

/-- `is.read(buf, n)`, with the bytes stored in `buf`; their number is `is.gcount()`. Reaching the end
of the file makes the stream fail, and a failed stream reads nothing. -/
def IfStream.read (is : IfStream) (n : Nat) : IfStream × List UInt8 :=
  if is.fail then (is, [])
  else (⟨is.rest.drop n, (is.rest.take n).length < n⟩, is.rest.take n)

theorem IfStream.read_lt {is : IfStream} {n : Nat} (h : 0 < (is.read n).2.length) :
    (is.read n).1.rest.length < is.rest.length := by
  by_cases hfail : is.fail = true
  · simp [IfStream.read, hfail] at h
  · simp only [IfStream.read, hfail] at h ⊢
    have hlen : (is.rest.take n).length ≤ n := List.length_take_le n is.rest
    have hle : (is.rest.take n).length ≤ is.rest.length := List.length_take_le' n is.rest
    simp only [Bool.false_eq_true, if_false, List.length_drop] at h ⊢
    omega

/-- `while (is.read(buf, n).gcount() > 0) content.append(buf, is.gcount());` -/
def readAll (n : Nat) (is : IfStream) (content : List UInt8) : List UInt8 :=
  if 0 < (is.read n).2.length then readAll n (is.read n).1 (content ++ (is.read n).2)
  else content
termination_by is.rest.length
decreasing_by exact IfStream.read_lt ‹_›

/-- **The loop appends every byte of the file**, whatever its length. -/
theorem readAll_eq {n : Nat} (hn : 0 < n) (bytes content : List UInt8) :
    readAll n ⟨bytes, false⟩ content = content ++ bytes := by
  induction hlen : bytes.length using Nat.strongRecOn generalizing bytes content with
  | ind k ih =>
      subst hlen
      rw [readAll]
      by_cases hshort : bytes.length < n
      · -- the last, short read makes the stream fail, and the next one gives nothing
        have hread : (⟨bytes, false⟩ : IfStream).read n = (⟨[], true⟩, bytes) := by
          simp [IfStream.read, List.take_of_length_le hshort.le, List.drop_of_length_le hshort.le,
            hshort]
        have hend : ∀ c, readAll n ⟨[], true⟩ c = c := by
          intro c
          rw [readAll]
          simp [IfStream.read]
        rw [hread, hend]
        cases bytes <;> simp
      · -- a full buffer
        have hle : n ≤ bytes.length := Nat.le_of_not_lt hshort
        have hread : (⟨bytes, false⟩ : IfStream).read n = (⟨bytes.drop n, false⟩, bytes.take n) := by
          simp [IfStream.read, hle]
        have hpos : 0 < (bytes.take n).length := by
          rw [List.length_take]
          omega
        rw [hread, if_pos hpos, ih (bytes.drop n).length (by rw [List.length_drop]; omega) _ _ rfl,
          List.append_assoc, List.take_append_drop]

end AsioExamples.Cxx
