import Mathlib.Algebra.GroupWithZero.Nat
import Mathlib.Data.List.DropRight
import Mathlib.Data.List.Forall2

/-!
# Lists of one element, windows, cuts and last occurrences

Facts about lists that the models share: a list of at most one element is known from one of its
elements, the window of the last elements of a list moves on as the list grows, a cut of a list with
one more element is a cut of the list or its end, a shorter prefix can be made longer, and what stands
behind the last occurrence of an element depends on what is put in front only where there is none.
-/

set_option autoImplicit false

namespace AsioExamples.Lib

universe u v

variable {α : Type u}

/-- An element of a list of at most one element is all there is. -/
theorem eq_singleton_of_length_le_one {l : List α} {i : ℕ} {x : α} (hl : l.length ≤ 1)
    (h : l[i]? = some x) : l = [x] ∧ i = 0 := by
  match l, hl, i, h with
  | [y], _, 0, h => exact ⟨congrArg (fun z => [z]) (Option.some.inj h), rfl⟩

/-- A window of the last elements moves on with the list. -/
theorem rtake_rtake_concat (n : ℕ) (l : List α) (x : α) :
    (l.rtake n ++ [x]).rtake n = (l ++ [x]).rtake n := by
  cases n with
  | zero => simp
  | succ n =>
      rw [List.rtake_concat_succ, List.rtake_concat_succ, List.rtake, List.rtake, List.rtake,
        List.drop_drop, List.length_drop]
      congr 2
      omega

/-- Where a list with one more element is cut. -/
theorem concat_eq_append_cons {l before after : List α} {e x : α}
    (h : l ++ [e] = before ++ x :: after) :
    (after = [] ∧ before = l ∧ x = e) ∨ ∃ after', after = after' ++ [e] ∧ l = before ++ x :: after' := by
  rcases List.append_eq_append_iff.1 h with ⟨mid, rfl, hmid⟩ | ⟨mid, rfl, hmid⟩
  · -- `before` is not shorter than `l`, so the cut is at the new element
    apply Or.inl
    rcases List.singleton_eq_append_iff.1 hmid with ⟨rfl, htail⟩ | ⟨-, htail⟩
    · obtain ⟨rfl, rfl⟩ := List.cons.inj htail
      exact ⟨rfl, List.append_nil l, rfl⟩
    · cases htail
  · rcases List.cons_eq_append_iff.1 hmid with ⟨rfl, htail⟩ | ⟨after', rfl, rfl⟩
    · obtain ⟨rfl, rfl⟩ := List.cons.inj htail
      exact Or.inl ⟨rfl, (List.append_nil before).symm, rfl⟩
    · exact Or.inr ⟨after', rfl, rfl⟩

/-- A prefix that is shorter is a prefix with one more element. -/
theorem exists_concat_isPrefix {l m : List α} (h : l <+: m) (hlt : l.length < m.length) :
    ∃ x, l ++ [x] <+: m := by
  obtain ⟨rest, rfl⟩ := h
  cases rest with
  | nil => simp at hlt
  | cons x rest => exact ⟨x, rest, by simp⟩

/-- An element is replaced by one with the same image. -/
theorem map_set_of_eq {β : Type v} {l : List α} {i : ℕ} {x y : α} (f : α → β) (h : l[i]? = some x)
    (hy : f y = f x) : (l.set i y).map f = l.map f := by
  induction l generalizing i with
  | nil => rfl
  | cons z l ih =>
      cases i with
      | zero =>
          cases h
          rw [List.set_cons_zero, List.map_cons, List.map_cons, hy]
      | succ i =>
          rw [List.set_cons_succ, List.map_cons, List.map_cons, ih h]

/-- An element is modified, and its image is not. -/
theorem map_modify_of_eq {β : Type v} {l : List α} {i : ℕ} {g : α → α} (f : α → β) (h : ∀ x, f (g x) = f x) :
    (l.modify i g).map f = l.map f := by
  induction l generalizing i with
  | nil => rw [List.modify_nil]
  | cons z l ih =>
      cases i with
      | zero => rw [List.modify_zero_cons, List.map_cons, List.map_cons, h]
      | succ i => rw [List.modify_succ_cons, List.map_cons, List.map_cons, ih]

/-- One summand of a sum is replaced. -/
theorem sum_map_set {l : List α} {i : ℕ} {x : α} (f : α → ℕ) (h : l[i]? = some x) (y : α) :
    ((l.set i y).map f).sum + f x = (l.map f).sum + f y := by
  induction l generalizing i with
  | nil => simp at h
  | cons z l ih =>
      cases i with
      | zero =>
          cases h
          simp only [List.set_cons_zero, List.map_cons, List.sum_cons]
          omega
      | succ i =>
          have hrest := ih (i := i) (by simpa using h)
          simp only [List.set_cons_succ, List.map_cons, List.sum_cons]
          omega

/-- One of the related elements is replaced. -/
theorem forall₂_set {β : Type v} {R : α → β → Prop} {l : List α} {m : List β} {i : ℕ} {x : α} {y y' : β}
    (h : List.Forall₂ R l m) (hx : l[i]? = some x) (hy : m[i]? = some y) (hR : R x y → R x y') :
    List.Forall₂ R l (m.set i y') := by
  induction h generalizing i with
  | nil => simp at hx
  | cons hhead htail ih =>
      cases i with
      | zero =>
          cases hx
          cases hy
          exact .cons (hR hhead) htail
      | succ i => exact .cons hhead (ih (by simpa using hx) (by simpa using hy))

/-- As many of the one list as of the other one, where the predicates agree on related elements. -/
theorem countP_eq_of_forall₂ {β : Type v} {R : α → β → Prop} {p : α → Bool} {q : β → Bool}
    (hpq : ∀ x y, R x y → p x = q y) {l : List α} {m : List β} (h : List.Forall₂ R l m) :
    l.countP p = m.countP q := by
  induction h with
  | nil => rfl
  | cons hhead _ ih => rw [List.countP_cons, List.countP_cons, ih, hpq _ _ hhead]

/-- Where `f` gives no value twice, it gives it for one element only. -/
theorem eq_of_nodup_filterMap {β : Type v} {f : α → Option β} {l : List α} {x y : α} {b : β}
    (h : (l.filterMap f).Nodup) (hx : x ∈ l) (hy : y ∈ l) (hfx : f x = some b) (hfy : f y = some b) :
    x = y := by
  induction l with
  | nil => cases hx
  | cons z l ih =>
      rcases List.mem_cons.1 hx with rfl | hx'
      · rcases List.mem_cons.1 hy with rfl | hy'
        · rfl
        · rw [List.filterMap_cons_some hfx] at h
          exact absurd (List.mem_filterMap.2 ⟨y, hy', hfy⟩) (List.nodup_cons.1 h).1
      · rcases List.mem_cons.1 hy with rfl | hy'
        · rw [List.filterMap_cons_some hfy] at h
          exact absurd (List.mem_filterMap.2 ⟨x, hx', hfx⟩) (List.nodup_cons.1 h).1
        · exact ih (h.sublist ((List.sublist_cons_self z l).filterMap f)) hx' hy'

/-! ## Last occurrences -/

theorem exists_last_occurrence {c : α} {l : List α} (h : c ∈ l) :
    ∃ u v, l = u ++ c :: v ∧ c ∉ v := by
  obtain ⟨u, v, hl, hu⟩ := List.eq_append_cons_of_mem (List.mem_reverse.2 h)
  refine ⟨v.reverse, u.reverse, ?_, by simpa using hu⟩
  rw [← List.reverse_inj, hl]
  simp

variable [DecidableEq α]

/-- What stands behind the last occurrence of `c`; everything where there is none. -/
def afterLast (c : α) (l : List α) : List α := l.rtakeWhile (· ≠ c)

theorem afterLast_append_cons {c : α} {v : List α} (u : List α) (h : c ∉ v) :
    afterLast c (u ++ c :: v) = v := by
  rw [afterLast, List.rtakeWhile, List.reverse_append, List.reverse_cons, List.append_assoc,
    List.takeWhile_append_of_pos, List.singleton_append, List.takeWhile_cons_of_neg (by simp)]
  · simp
  · intro x hx
    simpa using fun hxc : x = c => h (hxc ▸ List.mem_reverse.1 hx)

theorem afterLast_of_notMem {c : α} {l : List α} (h : c ∉ l) : afterLast c l = l := by
  rw [afterLast, List.rtakeWhile_eq_self_iff]
  intro x hx
  simpa using fun hxc : x = c => h (hxc ▸ hx)

theorem afterLast_append_of_mem {c : α} {t : List α} (s : List α) (h : c ∈ t) :
    afterLast c (s ++ t) = afterLast c t := by
  obtain ⟨u, v, rfl, hv⟩ := exists_last_occurrence h
  rw [← List.append_assoc, afterLast_append_cons _ hv, afterLast_append_cons _ hv]

theorem afterLast_append_of_notMem {c : α} {t : List α} (s : List α) (h : c ∉ t) :
    afterLast c (s ++ t) = afterLast c s ++ t := by
  by_cases hs : c ∈ s
  · obtain ⟨u, v, rfl, hv⟩ := exists_last_occurrence hs
    rw [List.append_assoc, List.cons_append, afterLast_append_cons _ hv, afterLast_append_cons]
    simp [hv, h]
  · rw [afterLast_of_notMem hs, afterLast_of_notMem]
    simp [hs, h]

end AsioExamples.Lib
