import AsioExamples.Lib.Machine

/-!
# Handlers on a strand

A component has handlers, and a handler performs a list of actions. A thread that runs the handler performs them
one after the other; meanwhile other threads run, and the environment of the component goes on. On a strand, a
handler begins only when no other handler of the component is running.

Where the environment does not notice when an action is performed (`Commutes`), the component does what it does
when every handler runs at once as it begins (`exec_onStrand`).
-/

set_option autoImplicit false

namespace AsioExamples.Lib

universe u v w x

/-- A component: its environment, and its handlers. `begin_` takes a handler from its queue and tells what it
will perform. -/
structure Component (σ : Type u) (ε : Type v) (β : Type w) (α : Type x) where
  init : σ → Prop
  event : σ → ε → Option σ
  begin_ : σ → β → Option (σ × List α)
  perform : σ → α → σ

/-- What happens to a component whose handlers run at once. -/
inductive AtomicEvent (ε : Type v) (β : Type w) where
  | event (e : ε)
  | handler (b : β)

/-- What happens to a component on a strand: something in its environment, or a thread begins a handler,
performs the next action of it or comes back from it. -/
inductive StrandEvent (ε : Type v) (β : Type w) where
  | event (e : ε)
  | begin_ (b : β)
  | perform
  | finish

/-- A thread begins a handler. -/
def StrandEvent.begins {ε : Type v} {β : Type w} : StrandEvent ε β → Bool
  | .begin_ _ => true
  | _ => false

/-- A thread comes back from a handler. -/
def StrandEvent.finishes {ε : Type v} {β : Type w} : StrandEvent ε β → Bool
  | .finish => true
  | _ => false

/-- A component on a strand: its state, and what the handler that is running has still to perform. -/
structure OnStrand (σ : Type u) (α : Type x) where
  state : σ
  running : Option (List α)
  deriving DecidableEq, Repr

namespace Component

variable {σ : Type u} {ε : Type v} {β : Type w} {α : Type x} (C : Component σ ε β α)

/-- The component with handlers that run at once. -/
def atomic : Machine σ (AtomicEvent ε β) where
  init := C.init
  step s
    | .event e => C.event s e
    | .handler b => (C.begin_ s b).map fun r => r.2.foldl C.perform r.1

/-- The component with handlers on a strand. -/
def onStrand : Machine (OnStrand σ α) (StrandEvent ε β) where
  init s := C.init s.state ∧ s.running = none
  step s
    | .event e => (C.event s.state e).map fun t => { s with state := t }
    | .begin_ b =>
        match s.running with
        | some _ => none
        | none => (C.begin_ s.state b).map fun r => ⟨r.1, some r.2⟩
    | .perform =>
        match s.running with
        | some (a :: as) => some ⟨C.perform s.state a, some as⟩
        | _ => none
    | .finish =>
        match s.running with
        | some [] => some ⟨s.state, none⟩
        | _ => none

/-- The environment does not notice whether an action has been performed. -/
def Commutes : Prop :=
  ∀ s e t a, C.event s e = some t → C.event (C.perform s a) e = some (C.perform t a)

/-- The state when the handler that is running has performed all its actions. -/
def settled (s : OnStrand σ α) : σ := (s.running.getD []).foldl C.perform s.state

end Component

/-- A handler counts where it begins. -/
def StrandEvent.atomic {ε : Type v} {β : Type w} : StrandEvent ε β → Option (AtomicEvent ε β)
  | .event e => some (.event e)
  | .begin_ b => some (.handler b)
  | _ => none

namespace Component

variable {σ : Type u} {ε : Type v} {β : Type w} {α : Type x} {C : Component σ ε β α}
  {s t : OnStrand σ α}

theorem Commutes.foldl (h : C.Commutes) {s t : σ} {e : ε} (hstep : C.event s e = some t)
    (as : List α) : C.event (as.foldl C.perform s) e = some (as.foldl C.perform t) := by
  induction as generalizing s t with
  | nil => exact hstep
  | cons a as ih => exact ih (h s e t a hstep)

/-- A step on the strand is a step of the component with handlers at once, or none. -/
theorem settled_step (hcomm : C.Commutes) {e : StrandEvent ε β} (h : C.onStrand.step s e = some t) :
    C.atomic.exec (C.settled s) e.atomic.toList = some (C.settled t) := by
  cases e with
  | event e =>
      obtain ⟨u, hu, rfl⟩ := Option.map_eq_some_iff.1 h
      exact (Machine.exec_singleton _ _ _).trans (hcomm.foldl hu _)
  | begin_ b =>
      simp only [onStrand] at h
      split at h
      · cases h
      · rename_i hidle
        obtain ⟨r, hr, rfl⟩ := Option.map_eq_some_iff.1 h
        have hsettled : C.settled s = s.state := by rw [settled, hidle]; rfl
        refine (Machine.exec_singleton _ _ _).trans ?_
        rw [hsettled]
        exact Option.map_eq_some_iff.2 ⟨r, hr, rfl⟩
  | perform =>
      simp only [onStrand] at h
      split at h
      · rename_i a as hrunning
        cases h
        rw [settled, hrunning]
        rfl
      · cases h
  | finish =>
      simp only [onStrand] at h
      split at h
      · rename_i hrunning
        cases h
        rw [settled, hrunning]
        rfl
      · cases h

/-- A step makes a thread busy or free, or does not change that. -/
theorem running_of_step {e : StrandEvent ε β} (h : C.onStrand.step s e = some t) :
    t.running.isSome.toNat + e.finishes.toNat = s.running.isSome.toNat + e.begins.toNat := by
  cases e with
  | event e =>
      obtain ⟨u, -, rfl⟩ := Option.map_eq_some_iff.1 h
      rfl
  | begin_ b =>
      simp only [onStrand] at h
      split at h
      · cases h
      · rename_i hidle
        obtain ⟨r, -, rfl⟩ := Option.map_eq_some_iff.1 h
        rw [hidle]
        rfl
  | perform =>
      simp only [onStrand] at h
      split at h
      · rename_i a as hrunning
        cases h
        rw [hrunning]
        rfl
      · cases h
  | finish =>
      simp only [onStrand] at h
      split at h
      · rename_i hrunning
        cases h
        rw [hrunning]
        rfl
      · cases h

/-- **On a strand handlers run as if at once**, each when it begins. -/
theorem exec_onStrand (hcomm : C.Commutes) {es : List (StrandEvent ε β)}
    (h : C.onStrand.exec s es = some t) :
    C.atomic.exec (C.settled s) (es.filterMap StrandEvent.atomic) = some (C.settled t) := by
  induction es generalizing s with
  | nil =>
      cases h
      rfl
  | cons e es ih =>
      obtain ⟨u, hu, ht⟩ := C.onStrand.exec_cons_eq_some.1 h
      have hlabels : (e :: es).filterMap StrandEvent.atomic =
          e.atomic.toList ++ es.filterMap StrandEvent.atomic := by
        rw [List.filterMap_cons]
        cases e.atomic <;> rfl
      rw [hlabels]
      exact C.atomic.exec_append_eq_some.2 ⟨_, settled_step hcomm hu, ih ht⟩

end Component

end AsioExamples.Lib
