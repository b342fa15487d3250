import Mathlib.Data.List.Basic
import Mathlib.Data.List.Infix

/-!
# Incremental recognisers

A feeder takes its input one element at a time and may give a verdict at any of them; `run` feeds a
list and stops at the first verdict, handing back the unread rest. Four groups of facts:

- a run over a concatenation (`run_append_of_none`, `run_append_of_some`), so the input can be cut into
  chunks anywhere (`runChunks_eq`);
- the states in which a run calls `step` (`mem_calls_iff`), and relations between what has been read
  and the state (`run_invariant`);
- the inputs on which the verdict falls at the very last element (`Accepts`), unfolded one element
  (`accepts_cons_of_none`) or one loop of the feeder at a time (`accepts_loop_iff`);
- viable prefixes: where every undecided state can be completed to the verdict `v`, the undecided
  inputs are exactly the proper prefixes of accepted ones (`verdict_eq_none_iff`), and another
  verdict falls at the earliest possible element (`viable_of_verdict`, `not_accepts_of_rejected`).
-/

set_option autoImplicit false

namespace AsioExamples.Lib

universe u v w

/-- A recogniser that is fed one element at a time; `none` asks for more input. -/
structure Feeder (σ : Type u) (α : Type v) (ω : Type w) where
  step : σ → α → σ × Option ω

/-- What a run ends with: the state, the verdict when one has fallen, and the unread input. -/
structure Feeder.Outcome (σ : Type u) (α : Type v) (ω : Type w) where
  state : σ
  verdict : Option ω
  rest : List α

namespace Feeder

variable {σ : Type u} {α : Type v} {ω : Type w} (F : Feeder σ α ω)

/-- Feed a list up to and including the element at which a verdict falls. -/
def run (s : σ) : List α → Outcome σ α ω
  | [] => ⟨s, none, []⟩
  | b :: xs =>
      match F.step s b with
      | (t, some v) => ⟨t, some v, xs⟩
      | (t, none) => run t xs

/-- Feed chunks one after the other until a verdict falls; the number counts the elements read. -/
def runChunks (s : σ) : List (List α) → σ × Option ω × Nat
  | [] => (s, none, 0)
  | c :: cs =>
      let o := F.run s c
      match o.verdict with
      | some v => (o.state, some v, c.length - o.rest.length)
      | none =>
          let r := runChunks o.state cs
          (r.1, r.2.1, c.length + r.2.2)

/-- The verdict `v` falls at the last element of `xs`, in the state `t`. -/
def Accepts (v : ω) (s : σ) (xs : List α) (t : σ) : Prop := F.run s xs = ⟨t, some v, []⟩

@[simp] theorem run_nil (s : σ) : F.run s [] = ⟨s, none, []⟩ := rfl

theorem run_cons_of_some {s t : σ} {b : α} {v : ω} (h : F.step s b = (t, some v)) (xs : List α) :
    F.run s (b :: xs) = ⟨t, some v, xs⟩ := by
  simp [run, h]

theorem run_cons_of_none {s t : σ} {b : α} (h : F.step s b = (t, none)) (xs : List α) :
    F.run s (b :: xs) = F.run t xs := by
  simp [run, h]

/-- Without a verdict everything has been read. -/
theorem rest_eq_nil {s : σ} {xs : List α} (h : (F.run s xs).verdict = none) :
    (F.run s xs).rest = [] := by
  induction xs generalizing s with
  | nil => rfl
  | cons b xs ih =>
      rcases hb : F.step s b with ⟨t, _ | v⟩
      · rw [run_cons_of_none F hb] at h ⊢
        exact ih h
      · rw [run_cons_of_some F hb] at h
        simp at h

/-- The unread input is a suffix of the input. -/
theorem rest_suffix (s : σ) (xs : List α) : (F.run s xs).rest <:+ xs := by
  induction xs generalizing s with
  | nil => exact List.suffix_refl []
  | cons b xs ih =>
      rcases hb : F.step s b with ⟨t, _ | v⟩
      · rw [run_cons_of_none F hb]
        exact (ih t).trans (List.suffix_cons b xs)
      · rw [run_cons_of_some F hb]
        exact List.suffix_cons b xs

/-! ## Concatenations and chunks -/

/-- Without a verdict on `xs`, a run over `xs ++ ys` goes on with `ys`. -/
theorem run_append_of_none {s : σ} {xs : List α} (ys : List α)
    (h : (F.run s xs).verdict = none) : F.run s (xs ++ ys) = F.run (F.run s xs).state ys := by
  induction xs generalizing s with
  | nil => rfl
  | cons b xs ih =>
      rcases hb : F.step s b with ⟨t, _ | v⟩
      · rw [run_cons_of_none F hb] at h
        rw [List.cons_append, run_cons_of_none F hb, run_cons_of_none F hb, ih h]
      · rw [run_cons_of_some F hb] at h
        simp at h

/-- A verdict on `xs` is the verdict on `xs ++ ys`, with `ys` unread. -/
theorem run_append_of_some {s : σ} {xs : List α} (ys : List α) {v : ω}
    (h : (F.run s xs).verdict = some v) :
    F.run s (xs ++ ys) = ⟨(F.run s xs).state, some v, (F.run s xs).rest ++ ys⟩ := by
  induction xs generalizing s with
  | nil => simp at h
  | cons b xs ih =>
      rcases hb : F.step s b with ⟨t, _ | v'⟩
      · rw [run_cons_of_none F hb] at h
        rw [List.cons_append, run_cons_of_none F hb, run_cons_of_none F hb, ih h]
      · rw [run_cons_of_some F hb] at h
        cases h
        rw [List.cons_append, run_cons_of_some F hb, run_cons_of_some F hb]

/-- **Feeding chunks is feeding their concatenation**, wherever the input is cut. -/
theorem runChunks_eq (s : σ) (cs : List (List α)) :
    F.runChunks s cs =
      ((F.run s cs.flatten).state, (F.run s cs.flatten).verdict,
        cs.flatten.length - (F.run s cs.flatten).rest.length) := by
  induction cs generalizing s with
  | nil => rfl
  | cons c cs ih =>
      rw [List.flatten_cons, runChunks]
      cases h : (F.run s c).verdict with
      | some v =>
          rw [run_append_of_some F cs.flatten h]
          simp only [List.length_append, Prod.mk.injEq, true_and]
          omega
      | none =>
          rw [run_append_of_none F cs.flatten h]
          have hle := (F.rest_suffix (F.run s c).state cs.flatten).length_le
          simp only [ih, List.length_append, Prod.mk.injEq, true_and]
          omega

/-! ## The calls of a run -/

/-- The calls of `step` that a run makes: the state and the element of each. -/
def calls (s : σ) : List α → List (σ × α)
  | [] => []
  | b :: xs =>
      (s, b) ::
        match F.step s b with
        | (_, some _) => []
        | (t, none) => calls t xs

/-- The calls of `step` while chunks are fed one after the other until a verdict falls. -/
def callsChunks (s : σ) : List (List α) → List (σ × α)
  | [] => []
  | c :: cs =>
      let o := F.run s c
      F.calls s c ++
        match o.verdict with
        | some _ => []
        | none => callsChunks o.state cs

/-- **The calls of a run.** `step` is called in the state `t` on the element `b` exactly when the
elements before some `b` of the input have led to `t` without a verdict. -/
theorem mem_calls_iff {s t : σ} {b : α} {xs : List α} :
    (t, b) ∈ F.calls s xs ↔
      ∃ pre post, xs = pre ++ b :: post ∧ F.run s pre = ⟨t, none, []⟩ := by
  induction xs generalizing s with
  | nil => simp [calls]
  | cons c xs ih =>
      rw [calls, List.mem_cons]
      constructor
      · rintro (heq | hmem)
        · obtain ⟨rfl, rfl⟩ := Prod.mk.inj heq
          exact ⟨[], xs, rfl, rfl⟩
        · rcases hc : F.step s c with ⟨u, _ | v⟩
          · rw [hc] at hmem
            obtain ⟨pre, post, rfl, hrun⟩ := ih.1 hmem
            exact ⟨c :: pre, post, rfl, by rw [run_cons_of_none F hc, hrun]⟩
          · rw [hc] at hmem
            simp at hmem
      · rintro ⟨pre, post, heq, hrun⟩
        cases pre with
        | nil =>
            obtain ⟨rfl, rfl⟩ := List.cons.inj heq
            simp only [run_nil, Outcome.mk.injEq, and_true] at hrun
            exact Or.inl (by rw [hrun])
        | cons d pre =>
            obtain ⟨rfl, rfl⟩ := List.cons.inj heq
            right
            rcases hc : F.step s c with ⟨u, _ | v⟩
            · rw [run_cons_of_none F hc] at hrun
              exact ih.2 ⟨pre, post, rfl, hrun⟩
            · rw [run_cons_of_some F hc] at hrun
              simp at hrun

/-- What every step keeps, a run keeps. -/
theorem run_preserves {I : σ → Prop} (hstep : ∀ s b, I s → I (F.step s b).1) {s : σ} (hs : I s)
    (xs : List α) : I (F.run s xs).state := by
  induction xs generalizing s with
  | nil => exact hs
  | cons b xs ih =>
      have ht := hstep s b hs
      rcases hb : F.step s b with ⟨t, _ | v⟩
      · rw [hb] at ht
        rw [run_cons_of_none F hb]
        exact ih ht
      · rw [hb] at ht
        rw [run_cons_of_some F hb]
        exact ht

/-- What every step keeps holds at every call of `step`. -/
theorem calls_preserve {I : σ → Prop} (hstep : ∀ s b, I s → I (F.step s b).1) {s t : σ} {b : α}
    {xs : List α} (hs : I s) (h : (t, b) ∈ F.calls s xs) : I t := by
  obtain ⟨pre, post, -, hrun⟩ := F.mem_calls_iff.1 h
  have hpre := F.run_preserves hstep hs pre
  rwa [hrun] at hpre

theorem calls_append_of_none {s : σ} {xs : List α} (ys : List α)
    (h : (F.run s xs).verdict = none) :
    F.calls s (xs ++ ys) = F.calls s xs ++ F.calls (F.run s xs).state ys := by
  induction xs generalizing s with
  | nil => rfl
  | cons b xs ih =>
      rcases hb : F.step s b with ⟨t, _ | v⟩
      · rw [run_cons_of_none F hb] at h ⊢
        simp only [List.cons_append, calls, hb, ih h]
      · rw [run_cons_of_some F hb] at h
        simp at h

theorem calls_append_of_some {s : σ} {xs : List α} (ys : List α) {v : ω}
    (h : (F.run s xs).verdict = some v) : F.calls s (xs ++ ys) = F.calls s xs := by
  induction xs generalizing s with
  | nil => simp at h
  | cons b xs ih =>
      rcases hb : F.step s b with ⟨t, _ | v'⟩
      · rw [run_cons_of_none F hb] at h
        simp only [List.cons_append, calls, hb, ih h]
      · simp only [List.cons_append, calls, hb]

/-- Chunks make the calls that their concatenation makes. -/
theorem callsChunks_eq (s : σ) (cs : List (List α)) :
    F.callsChunks s cs = F.calls s cs.flatten := by
  induction cs generalizing s with
  | nil => rfl
  | cons c cs ih =>
      rw [List.flatten_cons, callsChunks]
      cases h : (F.run s c).verdict with
      | some v => rw [calls_append_of_some F cs.flatten h, List.append_nil]
      | none => rw [calls_append_of_none F cs.flatten h, ih]

/-- A word of the elements `P` on which the feeder stays in the family of states `q`. -/
theorem run_loop {ρ : Type*} {P : α → Prop} {q : ρ → σ} {f : ρ → α → ρ}
    (hloop : ∀ r b, P b → F.step (q r) b = (q (f r b), none)) {ws : List α} (r : ρ)
    (h : ∀ c ∈ ws, P c) : F.run (q r) ws = ⟨q (ws.foldl f r), none, []⟩ := by
  -- the register changes with every element, so the induction is over all of them
  induction ws generalizing r with
  | nil => rfl
  | cons c ws ih =>
      obtain ⟨hc, hws⟩ := List.forall_mem_cons.1 h
      rw [run_cons_of_none F (hloop r c hc), ih _ hws, List.foldl_cons]

/-- Two runs without a verdict, one after the other. -/
theorem run_append_eq {s t u : σ} {xs ys : List α} (h₁ : F.run s xs = ⟨t, none, []⟩)
    (h₂ : F.run t ys = ⟨u, none, []⟩) : F.run s (xs ++ ys) = ⟨u, none, []⟩ := by
  rw [run_append_of_none F ys (by rw [h₁]), h₁, h₂]

/-- **What has been read.** A relation between the elements read and the state, which holds at the
beginning and is kept by every element that asks for more, holds after a run without a verdict. -/
theorem run_invariant {I : List α → σ → Prop} {s : σ} (hinit : I [] s)
    (hstep : ∀ pre t b u, I pre t → F.step t b = (u, none) → I (pre ++ [b]) u) {xs : List α} {t : σ}
    (h : F.run s xs = ⟨t, none, []⟩) : I xs t := by
  induction xs using List.reverseRecOn generalizing t with
  | nil =>
      cases h
      exact hinit
  | append_singleton xs b ih =>
      cases hv : (F.run s xs).verdict with
      | some v =>
          rw [run_append_of_some F [b] hv] at h
          simp at h
      | none =>
          rw [run_append_of_none F [b] hv] at h
          have hxs : F.run s xs = ⟨(F.run s xs).state, none, []⟩ := by
            rw [← hv, ← rest_eq_nil F hv]
          rcases hb : F.step (F.run s xs).state b with ⟨u, _ | v⟩
          · rw [run_cons_of_none F hb] at h
            cases h
            exact hstep xs _ b _ (ih hxs) hb
          · rw [run_cons_of_some F hb] at h
            simp at h

/-! ## Accepted inputs -/

variable {F} {v : ω}

theorem not_accepts_nil {s t : σ} : ¬ F.Accepts v s [] t := by
  simp [Accepts]

/-- A verdict falls at the last element of what has been read. -/
theorem exists_accepts_of_run {s t : σ} {xs rest : List α} (h : F.run s xs = ⟨t, some v, rest⟩) :
    ∃ pre, xs = pre ++ rest ∧ F.Accepts v s pre t := by
  induction xs generalizing s with
  | nil => simp at h
  | cons b xs ih =>
      rcases hb : F.step s b with ⟨u, _ | v'⟩
      · rw [run_cons_of_none F hb] at h
        obtain ⟨pre, rfl, hpre⟩ := ih h
        exact ⟨b :: pre, rfl, by rwa [Accepts, run_cons_of_none F hb]⟩
      · rw [run_cons_of_some F hb] at h
        cases h
        exact ⟨[b], rfl, run_cons_of_some F hb []⟩

/-- An element that asks for more. -/
theorem accepts_cons_of_none {s t u : σ} {b : α} {xs : List α} (h : F.step s b = (u, none)) :
    F.Accepts v s (b :: xs) t ↔ F.Accepts v u xs t := by
  rw [Accepts, run_cons_of_none F h, Accepts]

theorem not_accepts_cons_of_some {s t u : σ} {b : α} {xs : List α} {v' : ω} (hv : v' ≠ v)
    (h : F.step s b = (u, some v')) : ¬ F.Accepts v s (b :: xs) t := by
  rw [Accepts, run_cons_of_some F h]
  simp [hv]

/-- A state that only the element `x` leaves towards acceptance. -/
theorem accepts_literal_iff {s u t : σ} {x : α} {xs : List α} (hx : F.step s x = (u, none))
    (hbad : ∀ b, b ≠ x → ∃ s' v', v' ≠ v ∧ F.step s b = (s', some v')) :
    F.Accepts v s xs t ↔ ∃ ys, xs = x :: ys ∧ F.Accepts v u ys t := by
  cases xs with
  | nil => simp [not_accepts_nil]
  | cons b xs =>
      by_cases hb : b = x
      · subst hb
        rw [accepts_cons_of_none hx]
        simp
      · obtain ⟨s', v', hv, hstep⟩ := hbad b hb
        simp [not_accepts_cons_of_some hv hstep, hb]

/-- **One loop of a feeder.** While the elements satisfy `P` the feeder stays in the family of
states `q`, updating its register by `f`; an accepted input is a word of such elements and then the
element that leaves the loop. -/
theorem accepts_loop_iff {ρ : Type*} {P : α → Prop} [DecidablePred P] {q : ρ → σ} {f : ρ → α → ρ}
    (hloop : ∀ r b, P b → F.step (q r) b = (q (f r b), none)) {r : ρ} {l : List α} {t : σ} :
    F.Accepts v (q r) l t ↔
      ∃ ws b ys, (∀ c ∈ ws, P c) ∧ ¬ P b ∧ l = ws ++ b :: ys ∧
        F.Accepts v (q (ws.foldl f r)) (b :: ys) t := by
  -- the register changes with every element of the loop, so the induction is over all of them
  induction l generalizing r with
  | nil => simp [not_accepts_nil]
  | cons b l ih =>
      by_cases hb : P b
      · rw [accepts_cons_of_none (hloop r b hb), ih]
        constructor
        · rintro ⟨ws, c, ys, hws, hc, rfl, hacc⟩
          exact ⟨b :: ws, c, ys, List.forall_mem_cons.2 ⟨hb, hws⟩, hc, rfl, hacc⟩
        · rintro ⟨ws, c, ys, hws, hc, heq, hacc⟩
          cases ws with
          | nil =>
              -- the loop would have been left at `b`
              obtain ⟨rfl, rfl⟩ := List.cons.inj heq
              exact absurd hb hc
          | cons d ws =>
              obtain ⟨rfl, rfl⟩ := List.cons.inj heq
              exact ⟨ws, c, ys, (List.forall_mem_cons.1 hws).2, hc, rfl, hacc⟩
      · constructor
        · intro hacc
          exact ⟨[], b, l, by simp, hb, rfl, hacc⟩
        · rintro ⟨ws, c, ys, hws, hc, heq, hacc⟩
          cases ws with
          | nil =>
              obtain ⟨rfl, rfl⟩ := List.cons.inj heq
              exact hacc
          | cons d ws =>
              -- `b` does not satisfy `P`, so no word of the loop begins with it
              obtain ⟨rfl, rfl⟩ := List.cons.inj heq
              apply absurd _ hb
              exact hws b List.mem_cons_self

/-- The loop rule where a single element `x` leaves the loop towards acceptance. -/
theorem accepts_loop_literal_iff {ρ : Type*} {P : α → Prop} [DecidablePred P] {q p : ρ → σ}
    {f : ρ → α → ρ} {x : α} (hloop : ∀ r b, P b → F.step (q r) b = (q (f r b), none))
    (hx : ∀ r, F.step (q r) x = (p r, none)) (hPx : ¬ P x)
    (hbad : ∀ r b, ¬ P b → b ≠ x → ∃ s' v', v' ≠ v ∧ F.step (q r) b = (s', some v'))
    {r : ρ} {l : List α} {t : σ} :
    F.Accepts v (q r) l t ↔
      ∃ ws ys, (∀ c ∈ ws, P c) ∧ l = ws ++ x :: ys ∧ F.Accepts v (p (ws.foldl f r)) ys t := by
  rw [accepts_loop_iff hloop]
  constructor
  · rintro ⟨ws, b, ys, hws, hb, rfl, hacc⟩
    by_cases hbx : b = x
    · subst hbx
      exact ⟨ws, ys, hws, rfl, (accepts_cons_of_none (hx _)).1 hacc⟩
    · -- any other element gives another verdict
      obtain ⟨s', v', hv, hstep⟩ := hbad (ws.foldl f r) b hb hbx
      apply absurd hacc
      exact not_accepts_cons_of_some hv hstep
  · rintro ⟨ws, ys, hws, rfl, hacc⟩
    exact ⟨ws, x, ys, hws, hPx, rfl, (accepts_cons_of_none (hx _)).2 hacc⟩

/-! ## Viable prefixes -/

/-- An accepted input is no proper prefix of another one. -/
theorem Accepts.append_eq_nil {s t u : σ} {xs ys : List α} (h : F.Accepts v s xs t)
    (h' : F.Accepts v s (xs ++ ys) u) : ys = [] := by
  have hv : (F.run s xs).verdict = some v := by rw [h]
  rw [Accepts, run_append_of_some F ys hv, h] at h'
  simpa using congrArg Outcome.rest h'

section Viable

variable (hcomplete : ∀ s, ∃ ys t, F.Accepts v s ys t)
include hcomplete

/-- **The undecided inputs are the proper prefixes of the accepted ones.** -/
theorem verdict_eq_none_iff (s : σ) (xs : List α) :
    (F.run s xs).verdict = none ↔ ∃ ys t, ys ≠ [] ∧ F.Accepts v s (xs ++ ys) t := by
  constructor
  · intro h
    -- complete the state that the run ends in
    obtain ⟨ys, t, hacc⟩ := hcomplete (F.run s xs).state
    refine ⟨ys, t, ?_, ?_⟩
    · rintro rfl
      exact not_accepts_nil hacc
    · rw [Accepts, run_append_of_none F ys h]
      exact hacc
  · rintro ⟨ys, t, hne, hacc⟩
    by_contra hv
    -- a verdict inside `xs` leaves `ys` unread
    obtain ⟨w, hw⟩ := Option.ne_none_iff_exists'.1 hv
    rw [Accepts, run_append_of_some F ys hw] at hacc
    have hrest := congrArg Outcome.rest hacc
    simp only [List.append_eq_nil_iff] at hrest
    exact hne hrest.2

/-- Up to the element before a verdict, the input is a proper prefix of an accepted one. -/
theorem viable_of_verdict {s t : σ} {xs : List α} {b : α} {ys : List α} {w : ω}
    (h : F.run s (xs ++ b :: ys) = ⟨t, some w, ys⟩) :
    ∃ zs u, zs ≠ [] ∧ F.Accepts v s (xs ++ zs) u := by
  rw [← verdict_eq_none_iff hcomplete]
  by_contra hv
  -- a verdict inside `xs` leaves more than `ys` unread
  obtain ⟨w', hw'⟩ := Option.ne_none_iff_exists'.1 hv
  rw [run_append_of_some F _ hw'] at h
  have hlen := congrArg (fun o => o.rest.length) h
  simp only [List.length_append, List.length_cons] at hlen
  omega

end Viable

/-- With the element at which another verdict falls, the input is a prefix of no accepted one. -/
theorem not_accepts_of_rejected {s t : σ} {xs ys : List α} {w : ω}
    (h : F.run s (xs ++ ys) = ⟨t, some w, ys⟩) (hw : w ≠ v) (zs : List α) (u : σ) :
    ¬ F.Accepts v s (xs ++ zs) u := by
  have hxs : (F.run s xs).verdict = some w := by
    cases hv : (F.run s xs).verdict with
    | some w' =>
        rw [run_append_of_some F ys hv] at h
        exact congrArg Outcome.verdict h
    | none =>
        -- `xs` alone would be undecided: then the verdict needs an element of `ys`
        rw [run_append_of_none F ys hv] at h
        cases ys with
        | nil => simp at h
        | cons b ys =>
            have hsuf : (F.run (F.run s xs).state (b :: ys)).rest.length ≤ ys.length := by
              rcases hb : F.step (F.run s xs).state b with ⟨t', _ | v'⟩
              · rw [run_cons_of_none F hb]
                exact (F.rest_suffix t' ys).length_le
              · rw [run_cons_of_some F hb]
            rw [h, List.length_cons] at hsuf
            omega
  intro hacc
  rw [Accepts, run_append_of_some F zs hxs] at hacc
  apply hw
  exact Option.some.inj (congrArg Outcome.verdict hacc)

end Feeder

end AsioExamples.Lib
