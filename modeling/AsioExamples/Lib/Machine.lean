import Mathlib.Logic.Basic
import Mathlib.Data.List.Basic
import Mathlib.Data.List.Induction

/-!
# Event-driven machines

A machine has a set of initial states and a step that an event enables or not. All of the
nondeterminism of an environment (which operation completes next, and with which result) is in the
event, so a run is determined by its list of events and a finite run can be computed.

`Reachable.invariant` and `exec_preserves` are the two induction rules: a property kept by every
step holds in every reachable state, and along every run from a state that has it. `exec_relates` is the
rule for what relates a run so far to its state.
`exec_preserves_of_stepsMeet` is the rule for the runs whose steps all meet a condition.
`countP_add_measure_le` bounds how often something happens in a run by a measure that pays for it, and
`exists_exec_of_length` gives runs of every length where a step can always be made; `exists_exec_to_rest`
gives runs that end where nothing can happen, where every step makes a measure smaller.
`Simulation` maps every step of one machine to a run of another one, and then every reachable state
to a reachable state. `Part` is a machine that comes into being inside another one; its events among those of
a run are a run of its own.
-/

set_option autoImplicit false

namespace AsioExamples.Lib

universe u v u' v'

/-- A machine driven by events. `step s e` is `none` where the event `e` cannot happen in `s`. -/
structure Machine (σ : Type u) (ε : Type v) where
  init : σ → Prop
  step : σ → ε → Option σ

namespace Machine

variable {σ : Type u} {ε : Type v} {τ : Type u'} {δ : Type v'} (M : Machine σ ε)

/-- The state after a list of events, when each of them is enabled in its turn. -/
def exec : σ → List ε → Option σ
  | s, [] => some s
  | s, e :: es => (M.step s e).bind fun t => exec t es

/-- The states that some run from an initial state reaches. -/
def Reachable (s : σ) : Prop := ∃ s₀ es, M.init s₀ ∧ M.exec s₀ es = some s

/-- Every step of the run of `es` from `s` meets the condition `G`. -/
def StepsMeet (G : σ → ε → Prop) : σ → List ε → Prop
  | _, [] => True
  | s, e :: es => G s e ∧ ∀ t, M.step s e = some t → StepsMeet G t es

/-- Whether a run meets a condition can be computed. -/
instance decidableStepsMeet (G : σ → ε → Prop) [∀ s e, Decidable (G s e)] :
    ∀ s es, Decidable (M.StepsMeet G s es)
  | _, [] => isTrue trivial
  | s, e :: es =>
      match h : M.step s e with
      | none => decidable_of_iff (G s e) (by simp [StepsMeet, h])
      | some t =>
          have := decidableStepsMeet G t es
          decidable_of_iff (G s e ∧ M.StepsMeet G t es) (by simp [StepsMeet, h])

@[simp] theorem exec_nil (s : σ) : M.exec s [] = some s := rfl

theorem exec_cons (s : σ) (e : ε) (es : List ε) :
    M.exec s (e :: es) = (M.step s e).bind fun t => M.exec t es := rfl

theorem exec_cons_eq_some {s t : σ} {e : ε} {es : List ε} :
    M.exec s (e :: es) = some t ↔ ∃ u, M.step s e = some u ∧ M.exec u es = some t := by
  rw [exec_cons, Option.bind_eq_some_iff]

/-- A run of two lists of events is a run of the first and then a run of the second. -/
theorem exec_append (s : σ) (es fs : List ε) :
    M.exec s (es ++ fs) = (M.exec s es).bind fun t => M.exec t fs := by
  induction es generalizing s with
  | nil => rfl
  | cons e es ih =>
      rw [List.cons_append, exec_cons, exec_cons, Option.bind_assoc]
      congr 1
      funext t
      exact ih t

theorem exec_append_eq_some {s t : σ} {es fs : List ε} :
    M.exec s (es ++ fs) = some t ↔ ∃ u, M.exec s es = some u ∧ M.exec u fs = some t := by
  rw [exec_append, Option.bind_eq_some_iff]

theorem exec_singleton (s : σ) (e : ε) : M.exec s [e] = M.step s e := by
  rw [exec_cons]
  cases M.step s e <;> rfl

variable {M}

/-- What every step keeps, every run keeps. -/
theorem exec_preserves {I : σ → Prop}
    (hstep : ∀ s e t, I s → M.step s e = some t → I t) {s t : σ} {es : List ε}
    (hs : I s) (h : M.exec s es = some t) : I t := by
  induction es generalizing s with
  | nil =>
      cases h
      exact hs
  | cons e es ih =>
      obtain ⟨u, hu, ht⟩ := M.exec_cons_eq_some.1 h
      exact ih (hstep s e u hs hu) ht

/-- What relates a run so far to its state. -/
theorem exec_relates {I : List ε → σ → Prop} {s₀ : σ} (hnil : I [] s₀)
    (hstep : ∀ es s e t, I es s → M.step s e = some t → I (es ++ [e]) t) {s : σ} {es : List ε}
    (h : M.exec s₀ es = some s) : I es s := by
  induction es using List.reverseRecOn generalizing s with
  | nil =>
      cases h
      exact hnil
  | append_singleton es e ih =>
      obtain ⟨u, hu, hs⟩ := M.exec_append_eq_some.1 h
      exact hstep es u e s (ih hu) ((M.exec_singleton u e).symm.trans hs)

/-- What every step that meets `G` keeps, every run keeps whose steps all meet `G`. -/
theorem exec_preserves_of_stepsMeet {G : σ → ε → Prop} {I : σ → Prop}
    (hstep : ∀ s e t, I s → G s e → M.step s e = some t → I t) {s t : σ} {es : List ε}
    (hs : I s) (hG : M.StepsMeet G s es) (h : M.exec s es = some t) : I t := by
  induction es generalizing s with
  | nil =>
      cases h
      exact hs
  | cons e es ih =>
      obtain ⟨u, hu, ht⟩ := M.exec_cons_eq_some.1 h
      exact ih (hstep s e u hs hG.1 hu) (hG.2 u hu) ht

theorem stepsMeet_of_forall_mem {G : ε → Prop} {s : σ} {es : List ε} (h : ∀ e ∈ es, G e) :
    M.StepsMeet (fun _ => G) s es := by
  induction es generalizing s with
  | nil => trivial
  | cons e es ih =>
      rw [List.forall_mem_cons] at h
      exact ⟨h.1, fun t _ => ih h.2⟩

/-- **The measure rule**: when the measure `f` pays for every step with an event that `p` picks out and
never grows, a run has at most as many of them as the measure it begins with. -/
theorem countP_add_measure_le {I : σ → Prop} {p : ε → Bool} {f : σ → ℕ}
    (hstep : ∀ s e t, I s → M.step s e = some t → I t ∧ (if p e then 1 else 0) + f t ≤ f s)
    {s t : σ} {es : List ε} (hs : I s) (h : M.exec s es = some t) : es.countP p + f t ≤ f s := by
  induction es generalizing s with
  | nil =>
      cases h
      simp
  | cons e es ih =>
      obtain ⟨u, hu, ht⟩ := M.exec_cons_eq_some.1 h
      obtain ⟨hI, hpays⟩ := hstep s e u hs hu
      have hrest := ih hI ht
      rw [List.countP_cons]
      omega

/-- Where every step makes a measure smaller, a run has at most as many steps as the measure it begins
with. -/
theorem length_add_measure_le {I : σ → Prop} {f : σ → ℕ}
    (hstep : ∀ s e t, I s → M.step s e = some t → I t ∧ f t < f s) {s t : σ} {es : List ε}
    (hs : I s) (h : M.exec s es = some t) : es.length + f t ≤ f s := by
  have hpays : ∀ s e t, I s → M.step s e = some t → I t ∧ (if true then 1 else 0) + f t ≤ f s := by
    intro s e t hs hst
    obtain ⟨ht, hlt⟩ := hstep s e t hs hst
    exact ⟨ht, by rw [if_pos rfl]; omega⟩
  have := countP_add_measure_le (p := fun _ => true) hpays hs h
  rwa [List.countP_true] at this

/-- Where a step with an event in `G` can always be made and leads to where it can be made again, there
are runs of every length. -/
theorem exists_exec_of_length {I : σ → Prop} {G : ε → Prop}
    (hstep : ∀ s, I s → ∃ e t, G e ∧ M.step s e = some t ∧ I t) (n : ℕ) {s : σ} (hs : I s) :
    ∃ es t, es.length = n ∧ (∀ e ∈ es, G e) ∧ M.exec s es = some t ∧ I t := by
  induction n generalizing s with
  | zero => exact ⟨[], s, rfl, by simp, rfl, hs⟩
  | succ n ih =>
      obtain ⟨e, u, he, hu, hI⟩ := hstep s hs
      obtain ⟨es, t, hlen, hes, ht, hIt⟩ := ih hI
      refine ⟨e :: es, t, congrArg Nat.succ hlen, ?_, M.exec_cons_eq_some.2 ⟨u, hu, ht⟩, hIt⟩
      rw [List.forall_mem_cons]
      exact ⟨he, hes⟩

/-- **The rest rule**: where every step makes a measure smaller, a run can be continued until nothing can
happen any more. -/
theorem exists_exec_to_rest {I : σ → Prop} {f : σ → ℕ}
    (hstep : ∀ s e t, I s → M.step s e = some t → I t ∧ f t < f s) {s : σ} (hs : I s) :
    ∃ es t, M.exec s es = some t ∧ I t ∧ ∀ e, M.step t e = none := by
  induction hf : f s using Nat.strongRecOn generalizing s with
  | ind n ih =>
      subst hf
      by_cases hrest : ∀ e, M.step s e = none
      · exact ⟨[], s, rfl, hs, hrest⟩
      · obtain ⟨e, he⟩ := not_forall.1 hrest
        obtain ⟨u, hu⟩ := Option.ne_none_iff_exists'.1 he
        obtain ⟨hI, hlt⟩ := hstep s e u hs hu
        obtain ⟨es, t, hes, ht⟩ := ih (f u) hlt hI rfl
        exact ⟨e :: es, t, M.exec_cons_eq_some.2 ⟨u, hu, hes⟩, ht⟩

theorem Reachable.of_init {s : σ} (h : M.init s) : M.Reachable s := ⟨s, [], h, rfl⟩

/-- A run from a reachable state ends in a reachable state. -/
theorem Reachable.exec {s t : σ} {es : List ε} (hs : M.Reachable s) (h : M.exec s es = some t) :
    M.Reachable t := by
  obtain ⟨s₀, fs, hinit, hfs⟩ := hs
  exact ⟨s₀, fs ++ es, hinit, M.exec_append_eq_some.2 ⟨s, hfs, h⟩⟩

theorem Reachable.step {s t : σ} {e : ε} (hs : M.Reachable s) (h : M.step s e = some t) :
    M.Reachable t :=
  hs.exec ((M.exec_singleton s e).trans h)

/-- The invariant rule: what holds initially and is kept by every step holds in every reachable
state. -/
theorem Reachable.invariant {I : σ → Prop} (hinit : ∀ s, M.init s → I s)
    (hstep : ∀ s e t, I s → M.step s e = some t → I t) {s : σ} (h : M.Reachable s) : I s := by
  obtain ⟨s₀, es, hs₀, hes⟩ := h
  exact exec_preserves hstep (hinit s₀ hs₀) hes

/-- The induction rule over reachable states, with reachability of the state before the step at
hand. -/
theorem Reachable.induct {I : σ → Prop} (hinit : ∀ s, M.init s → I s)
    (hstep : ∀ s e t, M.Reachable s → I s → M.step s e = some t → I t) {s : σ}
    (h : M.Reachable s) : I s := by
  -- reachability is itself kept by every step
  have key : M.Reachable s ∧ I s := by
    apply h.invariant (I := fun s => M.Reachable s ∧ I s)
    · intro s hs
      exact ⟨.of_init hs, hinit s hs⟩
    · rintro s e t ⟨hr, hs⟩ ht
      exact ⟨hr.step ht, hstep s e t hr hs ht⟩
  exact key.2

/-- The machine, where only events with `G` happen. -/
def restrict (M : Machine σ ε) (G : ε → Bool) : Machine σ ε where
  init := M.init
  step s e := if G e then M.step s e else none

theorem restrict_step_eq_some {G : ε → Bool} {s t : σ} {e : ε} :
    (M.restrict G).step s e = some t ↔ G e = true ∧ M.step s e = some t :=
  Option.ite_none_right_eq_some

/-- Where more may happen, more can be reached. -/
theorem Reachable.restrict_mono {G H : ε → Bool} (hle : ∀ e, G e = true → H e = true) {s : σ}
    (h : (M.restrict G).Reachable s) : (M.restrict H).Reachable s := by
  apply h.invariant (I := (M.restrict H).Reachable)
  · exact fun s hs => .of_init hs
  · intro s e t hs ht
    obtain ⟨he, ht⟩ := restrict_step_eq_some.1 ht
    exact hs.step (restrict_step_eq_some.2 ⟨hle e he, ht⟩)

/-- A simulation of `M` by `N`: `abs` reads off the state of `N`, and each step of `M` from a
reachable state is the run of `label` in `N`. -/
structure Simulation (M : Machine σ ε) (N : Machine τ δ) where
  abs : σ → τ
  label : σ → ε → List δ
  init : ∀ s, M.init s → N.init (abs s)
  step : ∀ s e t, M.Reachable s → M.step s e = some t → N.exec (abs s) (label s e) = some (abs t)

/-- A simulation maps reachable states to reachable states. -/
theorem Simulation.reachable {N : Machine τ δ} (S : Simulation M N) {s : σ}
    (h : M.Reachable s) : N.Reachable (S.abs s) := by
  apply h.induct (I := fun s => N.Reachable (S.abs s))
  · intro s hs
    exact .of_init (S.init s hs)
  · intro s e t hr hs ht
    exact hs.exec (S.step s e t hr ht)

/-- A part of `M` that is a machine `N` of its own, once it is there: a step of `M` from a reachable state leaves
it alone, is a step of it, or brings it into being. `label` tells the events that concern it. -/
structure Part (M : Machine σ ε) (N : Machine τ δ) where
  get : σ → Option τ
  label : ε → Option δ
  absent : ∀ s, M.init s → get s = none
  step : ∀ s e t, M.Reachable s → M.step s e = some t →
    (get t = get s ∧ label e = none) ∨
    (∃ c d f, get s = some c ∧ label e = some f ∧ N.step c f = some d ∧ get t = some d) ∨
    (get s = none ∧ label e = none ∧ ∃ c, N.init c ∧ get t = some c)

/-- What concerns a part in a run is a run of it. -/
theorem Part.exec {N : Machine τ δ} (P : Part M N) {s₀ s : σ} {es : List ε} {c : τ}
    (hinit : M.init s₀) (hexec : M.exec s₀ es = some s) (hc : P.get s = some c) :
    ∃ c₀, N.init c₀ ∧ N.exec c₀ (es.filterMap P.label) = some c := by
  -- the part may be there from the beginning of a run, or not
  have key : ∀ (es : List ε) (s₀ : σ), M.Reachable s₀ → M.exec s₀ es = some s →
      (∃ c₀, P.get s₀ = some c₀ ∧ N.exec c₀ (es.filterMap P.label) = some c) ∨
      (P.get s₀ = none ∧ ∃ c₀, N.init c₀ ∧ N.exec c₀ (es.filterMap P.label) = some c) := by
    intro es
    induction es with
    | nil =>
        intro s₀ _ h
        cases h
        exact Or.inl ⟨c, hc, rfl⟩
    | cons e es ih =>
        intro s₀ hr h
        obtain ⟨u, hu, ht⟩ := M.exec_cons_eq_some.1 h
        have hrest := ih u (hr.step hu) ht
        rcases P.step s₀ e u hr hu with ⟨hsame, hlabel⟩ | ⟨d, d', f, hd, hlabel, hstep, hd'⟩ |
          ⟨hnone, hlabel, d, hd, hget⟩
        · rwa [List.filterMap_cons_none hlabel, ← hsame]
        · rw [List.filterMap_cons_some hlabel]
          obtain ⟨c₀, hc₀, hrun⟩ | ⟨hnone, -⟩ := hrest
          · obtain rfl : d' = c₀ := Option.some.inj (hd'.symm.trans hc₀)
            exact Or.inl ⟨d, hd, N.exec_cons_eq_some.2 ⟨d', hstep, hrun⟩⟩
          · rw [hd'] at hnone
            cases hnone
        · rw [List.filterMap_cons_none hlabel]
          obtain ⟨c₀, hc₀, hrun⟩ | ⟨hnone', -⟩ := hrest
          · obtain rfl : d = c₀ := Option.some.inj (hget.symm.trans hc₀)
            exact Or.inr ⟨hnone, d, hd, hrun⟩
          · rw [hget] at hnone'
            cases hnone'
  obtain ⟨c₀, hc₀, -⟩ | ⟨-, h⟩ := key es s₀ (.of_init hinit) hexec
  · rw [P.absent s₀ hinit] at hc₀
    cases hc₀
  · exact h

end Machine

end AsioExamples.Lib
