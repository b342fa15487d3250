import Mathlib.Data.List.Infix
import Mathlib.Algebra.Order.BigOperators.Group.List
import Mathlib.Algebra.Order.Ring.Int

/-!
# Lexical resolution of paths

A path is a list over any alphabet with a separator and a dot. Its components are what stands between
separators; resolving it lexically, an empty component and `.` keep the depth, `..` goes one up and
any other name one down. A path in which two dots never stand side by side has no component `..`, and
then no prefix of it leaves the directory it starts in (`staysInside_of_not_infix`).
-/

set_option autoImplicit false

namespace AsioExamples.Lib.LexicalPath

universe u

variable {α : Type u} [DecidableEq α] (sep dot : α)

/-- What stands between separators. -/
def components (p : List α) : List (List α) := p.splitOn sep

/-- How far one component leads down. -/
def depthChange (c : List α) : Int :=
  if c = [] ∨ c = [dot] then 0 else if c = [dot, dot] then -1 else 1

/-- How far below its start a list of components leads. -/
def depth (cs : List (List α)) : Int := (cs.map (depthChange dot)).sum

/-- No prefix of the path leads out of the directory it starts in. -/
def StaysInside (p : List α) : Prop := ∀ q, q <+: p → 0 ≤ depth dot (components sep q)

variable {sep dot}

theorem components_ne_nil (p : List α) : components sep p ≠ [] := List.splitOnP_ne_nil _ _

theorem components_cons (x : α) (p : List α) :
    components sep (x :: p) =
      if x = sep then [] :: components sep p
      else (components sep p).modifyHead (List.cons x) := by
  rw [components, List.splitOn, List.splitOnP_cons_eq_if_modifyHead]
  simp only [beq_iff_eq]
  rfl

/-- A component stands in the path as it is, the first one at its front. -/
theorem infix_of_mem_components (p : List α) :
    (∀ c ∈ (components sep p).head?, c <+: p) ∧ ∀ c ∈ components sep p, c <:+: p := by
  induction p with
  | nil => simp [components]
  | cons x p ih =>
      obtain ⟨ihhead, ihmem⟩ := ih
      rw [components_cons]
      by_cases hx : x = sep
      · -- a separator begins a new component
        rw [if_pos hx]
        refine ⟨by simp, ?_⟩
        intro c hc
        rcases List.mem_cons.1 hc with rfl | hc
        · exact List.nil_infix
        · exact List.infix_cons (ihmem c hc)
      · -- any other element is put in front of the first component
        rw [if_neg hx]
        have hne : components sep p ≠ [] := components_ne_nil p
        obtain ⟨c, cs, hsplit⟩ := List.exists_cons_of_ne_nil hne
        have hpre : x :: c <+: x :: p :=
          List.cons_prefix_cons.2 ⟨rfl, ihhead c (by rw [hsplit]; rfl)⟩
        rw [hsplit, List.modifyHead_cons]
        refine ⟨by simpa using hpre, ?_⟩
        intro d hd
        rcases List.mem_cons.1 hd with rfl | hd
        · exact hpre.isInfix
        · exact List.infix_cons (ihmem d (hsplit ▸ List.mem_cons_of_mem c hd))

/-- Without two dots side by side there is no component `..`. -/
theorem notMem_components_of_not_infix {p : List α} (h : ¬ [dot, dot] <:+: p) :
    [dot, dot] ∉ components sep p := by
  intro hmem
  apply h
  exact (infix_of_mem_components p).2 _ hmem

theorem depthChange_nonneg {c : List α} (h : c ≠ [dot, dot]) : 0 ≤ depthChange dot c := by
  rw [depthChange]
  split
  · exact le_refl 0
  · simp

/-- Components other than `..` lead nowhere up. -/
theorem depth_nonneg {cs : List (List α)} (h : [dot, dot] ∉ cs) : 0 ≤ depth dot cs := by
  apply List.sum_nonneg
  intro d hd
  obtain ⟨c, hc, rfl⟩ := List.mem_map.1 hd
  apply depthChange_nonneg
  rintro rfl
  exact h hc

/-- **A path without two dots side by side stays inside.** -/
theorem staysInside_of_not_infix {p : List α} (h : ¬ [dot, dot] <:+: p) :
    StaysInside sep dot p := by
  intro q hq
  apply depth_nonneg
  apply notMem_components_of_not_infix
  intro hdots
  apply h
  exact hdots.trans hq.isInfix

end AsioExamples.Lib.LexicalPath
