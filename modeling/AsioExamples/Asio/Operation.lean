import AsioExamples.Lib.Lists

/-!
# Asynchronous operations

What the models use of Asio. An operation that was started is outstanding until its handler has run:
first in progress, then completed with its handler still in the queue of the `io_context`. The rule
`mayComplete` says with which errors an operation on a socket completes: `operation_aborted` only
after the socket was closed, and an operation started on a closed socket with another error.
-/

set_option autoImplicit false

namespace AsioExamples.Asio

open AsioExamples.Lib

universe u

/-- `boost::system::error_code`, where it is an error. -/
inductive ErrorCode where
  | operationAborted
  | other (value : Nat)
  deriving DecidableEq, Repr

/-- What a completion handler is called with: `ec`, and the bytes transferred. -/
structure Completion where
  ec : Option ErrorCode
  bytes : List UInt8
  deriving DecidableEq, Repr

/-- An outstanding operation. -/
structure Pending (κ : Type u) where
  op : κ
  startedClosed : Bool
  completion : Option Completion
  deriving DecidableEq, Repr

/-- The errors with which an operation may complete: `startedClosed` when it was started on a closed
socket, `isOpen` when the socket is open now. -/
def mayComplete (startedClosed isOpen : Bool) : Option ErrorCode → Bool
  | none => !startedClosed
  | some .operationAborted => !startedClosed && !isOpen
  | some (.other _) => true

variable {κ : Type u}

/-- The operation at index `i` completes; its handler is queued. -/
def complete (isOpen : Bool) (ps : List (Pending κ)) (i : Nat) (c : Completion) :
    Option (List (Pending κ)) :=
  match ps[i]? with
  | some p =>
      if p.completion = none ∧ mayComplete p.startedClosed isOpen c.ec = true then
        some (ps.set i { p with completion := some c })
      else none
  | none => none

/-- The handler of the operation at index `i` is taken from the queue. -/
def dispatch (ps : List (Pending κ)) (i : Nat) : Option (κ × Completion × List (Pending κ)) :=
  match ps[i]? with
  | some p => p.completion.map fun c => (p.op, c, ps.eraseIdx i)
  | none => none

/-- What a completion leaves behind. -/
theorem complete_eq_some {isOpen : Bool} {ps qs : List (Pending κ)} {i : Nat} {c : Completion}
    (h : complete isOpen ps i c = some qs) :
    ∃ p, ps[i]? = some p ∧ p.completion = none ∧ mayComplete p.startedClosed isOpen c.ec = true ∧
      qs = ps.set i { p with completion := some c } := by
  rw [complete] at h
  cases hp : ps[i]? with
  | none => simp [hp] at h
  | some p =>
      simp only [hp] at h
      split at h
      · rename_i hc
        exact ⟨p, rfl, hc.1, hc.2, (Option.some.inj h).symm⟩
      · simp at h

/-- What a dispatch takes. -/
theorem dispatch_eq_some {ps qs : List (Pending κ)} {i : Nat} {k : κ} {c : Completion}
    (h : dispatch ps i = some (k, c, qs)) :
    ∃ p, ps[i]? = some p ∧ p.op = k ∧ p.completion = some c ∧ qs = ps.eraseIdx i := by
  rw [dispatch] at h
  cases hp : ps[i]? with
  | none => simp [hp] at h
  | some p =>
      simp only [hp, Option.map_eq_some_iff, Prod.mk.injEq] at h
      obtain ⟨c', hc, rfl, rfl, rfl⟩ := h
      exact ⟨p, rfl, rfl, hc, rfl⟩

theorem length_of_complete {isOpen : Bool} {ps qs : List (Pending κ)} {i : Nat} {c : Completion}
    (h : complete isOpen ps i c = some qs) : qs.length = ps.length := by
  obtain ⟨p, -, -, -, rfl⟩ := complete_eq_some h
  exact List.length_set

theorem length_of_dispatch {ps qs : List (Pending κ)} {i : Nat} {k : κ} {c : Completion}
    (h : dispatch ps i = some (k, c, qs)) : qs.length + 1 = ps.length := by
  obtain ⟨p, hp, -, -, rfl⟩ := dispatch_eq_some h
  obtain ⟨hlt, -⟩ := List.getElem?_eq_some_iff.1 hp
  rw [List.length_eraseIdx_of_lt hlt]
  omega

/-- Of at most one outstanding operation, the dispatched one is all there was. -/
theorem dispatch_of_length_le_one {ps qs : List (Pending κ)} {i : Nat} {k : κ} {c : Completion}
    (hlen : ps.length ≤ 1) (h : dispatch ps i = some (k, c, qs)) :
    ∃ p, ps = [p] ∧ p.op = k ∧ p.completion = some c ∧ qs = [] := by
  obtain ⟨p, hp, hop, hc, rfl⟩ := dispatch_eq_some h
  obtain ⟨rfl, rfl⟩ := eq_singleton_of_length_le_one hlen hp
  exact ⟨p, rfl, hop, hc, rfl⟩

/-- Of at most one outstanding operation, a completion completes that one. -/
theorem complete_of_length_le_one {isOpen : Bool} {ps qs : List (Pending κ)} {i : Nat}
    {c : Completion} (hlen : ps.length ≤ 1) (h : complete isOpen ps i c = some qs) :
    ∃ p, ps = [p] ∧ p.completion = none ∧ mayComplete p.startedClosed isOpen c.ec = true ∧
      qs = [{ p with completion := some c }] := by
  obtain ⟨p, hp, hnone, hmay, rfl⟩ := complete_eq_some h
  obtain ⟨rfl, rfl⟩ := eq_singleton_of_length_le_one hlen hp
  exact ⟨p, rfl, hnone, hmay, rfl⟩

end AsioExamples.Asio
