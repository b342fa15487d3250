import Mathlib.Algebra.Order.Floor.Div
import Mathlib.Data.Int.CardIntervalMod
import Mathlib.Data.List.Nodup

/-!
# Round robin

A list is read in a cycle: `next` goes on by one position, and from the last one back to the first.
`Cyclic xs i ys` says that `ys` is what is read from position `i` on. Where `xs` has no repetitions, the
occurrences of an element in `ys` are the members of a residue class (`Cyclic.count_eq`), and every window
has its fair share of them (`Cyclic.balanced`).
-/

set_option autoImplicit false

namespace AsioExamples.Lib.RoundRobin

universe u

/-- The position that follows `i` in a list of `n` elements. -/
def next (n i : ℕ) : ℕ := if i + 1 = n then 0 else i + 1

theorem next_eq_mod {n i : ℕ} (h : i < n) : next n i = (i + 1) % n := by
  rw [next]
  split
  · rename_i hlast
    rw [hlast, Nat.mod_self]
  · rw [Nat.mod_eq_of_lt (by omega)]

/-! ## Counting residues -/

/-- In a window that starts at `s`, a residue class is counted like some class in a window from 0. -/
theorem exists_modEq_shift {n : ℕ} (hn : 0 < n) (s v : ℕ) :
    ∃ w, ∀ j, s + j ≡ v [MOD n] ↔ j ≡ w [MOD n] := by
  refine ⟨v + (n - 1) * s, fun j => ?_⟩
  have hsum : s + (v + (n - 1) * s) = v + n * s := by
    rw [Nat.sub_mul, Nat.one_mul]
    have hle : s ≤ n * s := Nat.le_mul_of_pos_left s hn
    omega
  have hshift : s + (v + (n - 1) * s) ≡ v [MOD n] := by
    rw [hsum, Nat.ModEq, Nat.add_mul_mod_self_left]
  constructor
  · intro h
    exact Nat.ModEq.add_left_cancel' s (h.trans hshift.symm)
  · intro h
    exact (Nat.ModEq.add_left s h).trans hshift

/-- A window of `N` numbers has `N / n` members of each residue class, rounded down or up. -/
theorem count_modEq_balanced {n : ℕ} (hn : 0 < n) (s v N : ℕ) :
    Nat.count (fun j => s + j ≡ v [MOD n]) N = N / n ∨
      Nat.count (fun j => s + j ≡ v [MOD n]) N = N ⌈/⌉ n := by
  obtain ⟨w, hw⟩ := exists_modEq_shift hn s v
  simp only [hw, Nat.count_modEq_card N hn w]
  split
  · -- one more than the full cycles, which is the next number up where some are left over
    rename_i hlt
    apply Or.inr
    have hceil : N + n - 1 = (N % n - 1) + n * (N / n + 1) := by
      have hdiv := Nat.div_add_mod N n
      rw [Nat.mul_add, Nat.mul_one]
      omega
    have hrest : N % n - 1 < n := by
      have hmod := Nat.mod_lt N hn
      omega
    rw [Nat.ceilDiv_eq_add_pred_div, hceil, Nat.add_mul_div_left _ _ hn, Nat.div_eq_of_lt hrest,
      Nat.zero_add]
  · apply Or.inl
    rfl

/-! ## What is read in a cycle -/

variable {α : Type u} {xs ys : List α} {i : ℕ}

/-- `ys` is what is read of `xs` in a cycle, from position `i` on. -/
def Cyclic (xs : List α) (i : ℕ) (ys : List α) : Prop :=
  ∀ j < ys.length, ys[j]? = xs[(i + j) % xs.length]?

theorem Cyclic.nil (xs : List α) (i : ℕ) : Cyclic xs i [] := nofun

/-- One element is read, and then the rest from the next position on. -/
theorem Cyclic.cons {x : α} (hx : xs[i]? = some x) (h : Cyclic xs (next xs.length i) ys) :
    Cyclic xs i (x :: ys) := by
  have hi : i < xs.length := (List.getElem?_eq_some_iff.1 hx).1
  intro j hj
  cases j with
  | zero => rw [Nat.add_zero, Nat.mod_eq_of_lt hi, hx, List.getElem?_cons_zero]
  | succ j =>
      rw [List.getElem?_cons_succ, h j (Nat.lt_of_succ_lt_succ hj), next_eq_mod hi, Nat.mod_add_mod,
        Nat.add_right_comm, Nat.add_assoc]

/-- One element more is read. -/
theorem Cyclic.concat {y : α} (h : Cyclic xs i ys) (hy : xs[(i + ys.length) % xs.length]? = some y) :
    Cyclic xs i (ys ++ [y]) := by
  intro j hj
  rw [List.length_append, List.length_singleton] at hj
  rcases Nat.lt_succ_iff_lt_or_eq.1 hj with hlt | rfl
  · rw [List.getElem?_append_left hlt]
    exact h j hlt
  · rw [List.getElem?_concat_length, hy]

/-- A window is read from where it starts. -/
theorem Cyclic.window (us vs : List α) (h : Cyclic xs i (us ++ ys ++ vs)) :
    Cyclic xs (i + us.length) ys := by
  intro j hj
  have hwhole := h (us.length + j) (by simp only [List.length_append]; omega)
  rw [List.append_assoc, List.getElem?_append_right (Nat.le_add_right _ _), Nat.add_sub_cancel_left,
    List.getElem?_append_left hj, ← Nat.add_assoc] at hwhole
  exact hwhole

/-- The turns in which an element is read are the members of a residue class. -/
theorem Cyclic.count_eq [DecidableEq α] (hxs : xs.Nodup) (h : Cyclic xs i ys) {v : ℕ}
    (hv : v < xs.length) :
    ys.count xs[v] = Nat.count (fun j => i + j ≡ v [MOD xs.length]) ys.length := by
  induction ys using List.reverseRecOn with
  | nil => rfl
  | append_singleton ys y ih =>
      have hinit : Cyclic xs i ys := h.window [] [y]
      have hlast := h ys.length (by simp)
      have hmod : (i + ys.length) % xs.length < xs.length := Nat.mod_lt _ (Nat.zero_lt_of_lt hv)
      rw [List.getElem?_concat_length, List.getElem?_eq_getElem hmod] at hlast
      have hsame : xs[v] = y ↔ i + ys.length ≡ v [MOD xs.length] := by
        rw [Option.some.inj hlast, hxs.getElem_inj_iff, Nat.ModEq, Nat.mod_eq_of_lt hv, eq_comm]
      rw [List.count_append, ih hinit, List.length_append, List.length_singleton, Nat.count_succ,
        List.count_singleton]
      simp only [beq_iff_eq, eq_comm (a := y), hsame]

/-- **Every window is balanced.** An element is read once in each full cycle, and in what is left over at
most once. -/
theorem Cyclic.balanced [DecidableEq α] (hxs : xs.Nodup) (h : Cyclic xs i ys) {x : α} (hx : x ∈ xs) :
    ys.count x = ys.length / xs.length ∨ ys.count x = ys.length ⌈/⌉ xs.length := by
  obtain ⟨v, hv, rfl⟩ := List.getElem_of_mem hx
  rw [h.count_eq hxs hv]
  exact count_modEq_balanced (Nat.zero_lt_of_lt hv) i v ys.length

end AsioExamples.Lib.RoundRobin
