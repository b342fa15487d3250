import Mathlib.Data.List.Basic

/-!
# Lines and blocks of lines

A delimiter is a list that is not empty. `cut` splits a list at its first occurrence, and `readBlock`
takes lines that the delimiter ends off a stream, up to an empty one. Parts in which the first element of
the delimiter does not occur are found again (`cut_append`), and so are the lines of a block, with
anything behind it (`readBlock_append`).

`splitLines` are the lines of a text, each ended by one element, the last one perhaps by the end of the text.
-/

set_option autoImplicit false

namespace AsioExamples.Lib

universe u

/-- A list with a first element. -/
structure Delimiter (α : Type u) where
  first : α
  rest : List α

namespace Delimiter

variable {α : Type u} (D : Delimiter α)

/-- The delimiter as it is written. -/
def toList : List α := D.first :: D.rest

theorem toList_length_pos : 0 < D.toList.length := Nat.succ_pos _

variable [DecidableEq α]

/-- What stands in front of the first occurrence of the delimiter, and what stands behind it. -/
def cut : List α → Option (List α × List α)
  | [] => none
  | x :: s =>
      if D.toList <+: x :: s then some ([], (x :: s).drop D.toList.length)
      else (cut s).map fun r => (x :: r.1, r.2)

/-- A cut leaves less behind. -/
theorem length_lt_of_cut {s l r : List α} (h : D.cut s = some (l, r)) : r.length < s.length := by
  induction s generalizing l with
  | nil => cases h
  | cons x s ih =>
      rw [cut] at h
      split at h
      · cases h
        have := D.toList_length_pos
        rw [List.length_drop, List.length_cons]
        omega
      · obtain ⟨⟨l', r'⟩, hcut, heq⟩ := Option.map_eq_some_iff.1 h
        cases heq
        have := ih hcut
        rw [List.length_cons]
        omega

/-- The lines in front of the first empty one, and what stands behind that. -/
def readBlock (s : List α) : Option (List (List α) × List α) :=
  match _ : D.cut s with
  | none => none
  | some (line, rest) =>
      if line = [] then some ([], rest)
      else (readBlock rest).map fun r => (line :: r.1, r.2)
  termination_by s.length
  decreasing_by exact D.length_lt_of_cut ‹_›

/-- A part without the first element of the delimiter ends where the delimiter begins. -/
theorem cut_append {l : List α} (h : D.first ∉ l) (s : List α) :
    D.cut (l ++ D.toList ++ s) = some (l, s) := by
  induction l with
  | nil =>
      have hpre : D.toList <+: D.first :: (D.rest ++ s) := List.prefix_append D.toList s
      rw [List.nil_append, toList, List.cons_append, cut, if_pos hpre, ← List.cons_append, ← toList,
        List.drop_left]
  | cons x l ih =>
      rw [List.mem_cons, not_or] at h
      have hpre : ¬ D.toList <+: x :: (l ++ D.toList ++ s) := by
        intro hpre
        exact h.1 (List.cons_prefix_cons.1 hpre).1
      rw [List.cons_append, List.cons_append, cut, if_neg hpre, ih h.2]
      rfl

theorem readBlock_of_cut {s line rest : List α} (h : D.cut s = some (line, rest)) :
    D.readBlock s =
      if line = [] then some ([], rest)
      else (D.readBlock rest).map fun r => (line :: r.1, r.2) := by
  rw [readBlock]
  split
  · rename_i hnone
    rw [h] at hnone
    cases hnone
  · rename_i line' rest' hsome
    rw [h] at hsome
    cases hsome
    rfl

/-- **A block is read back**: its lines, each of them ended by the delimiter, and what follows the empty
line behind them. -/
theorem readBlock_append {lines : List (List α)} (h : ∀ l ∈ lines, l ≠ [] ∧ D.first ∉ l)
    (s : List α) :
    D.readBlock (lines.flatMap (· ++ D.toList) ++ D.toList ++ s) = some (lines, s) := by
  induction lines with
  | nil =>
      have hcut : D.cut ([] ++ D.toList ++ s) = some ([], s) := D.cut_append List.not_mem_nil s
      rw [List.flatMap_nil, D.readBlock_of_cut hcut, if_pos rfl]
  | cons l lines ih =>
      obtain ⟨⟨hne, hfirst⟩, hlines⟩ := List.forall_mem_cons.1 h
      have hcut := D.cut_append hfirst (lines.flatMap (· ++ D.toList) ++ D.toList ++ s)
      rw [← List.append_assoc, ← List.append_assoc] at hcut
      rw [List.flatMap_cons, D.readBlock_of_cut hcut, if_neg hne, ih hlines]
      rfl

end Delimiter

/-! ## The lines of a text -/

section Text

variable {α : Type u} [DecidableEq α]

/-- The lines of a text. What stands behind the last line end is a line unless it is empty. -/
def splitLines (lineEnd : α) : List α → List (List α)
  | [] => []
  | x :: s =>
      if x = lineEnd then [] :: splitLines lineEnd s
      else
        match splitLines lineEnd s with
        | [] => [[x]]
        | l :: ls => (x :: l) :: ls

variable {lineEnd : α}

/-- A part without a line end in front of one is a line. -/
theorem splitLines_append {l : List α} (h : lineEnd ∉ l) (s : List α) :
    splitLines lineEnd (l ++ lineEnd :: s) = l :: splitLines lineEnd s := by
  induction l with
  | nil => simp [splitLines]
  | cons x l ih =>
      rw [List.mem_cons, not_or] at h
      rw [List.cons_append, splitLines, if_neg (Ne.symm h.1), ih h.2]

/-- A text without a line end is one line, or none. -/
theorem splitLines_of_notMem {l : List α} (h : lineEnd ∉ l) :
    splitLines lineEnd l = if l = [] then [] else [l] := by
  induction l with
  | nil => rfl
  | cons x l ih =>
      rw [List.mem_cons, not_or] at h
      rw [splitLines, if_neg (Ne.symm h.1), ih h.2]
      cases l <;> rfl

/-- A text has no line end, or one behind a part without any. -/
theorem notMem_or_exists_line (lineEnd : α) (s : List α) :
    lineEnd ∉ s ∨ ∃ l rest, lineEnd ∉ l ∧ s = l ++ lineEnd :: rest := by
  by_cases h : lineEnd ∈ s
  · obtain ⟨l, rest, rfl, hl⟩ := List.eq_append_cons_of_mem h
    exact Or.inr ⟨l, rest, hl, rfl⟩
  · exact Or.inl h

end Text

end AsioExamples.Lib
