import AsioExamples.Lib.Lists
import AsioExamples.Lib.Machine

/-!
# Queues drained by one write at a time

A sender keeps its messages in a queue and writes the front one. A message that finds the queue empty
starts a write; the end of a write takes the front away and starts the next one, if there is one. The
queue is never empty while a write is outstanding, so that is all it takes to have at most one write.

`enqueued`, `completed`, `failed` and `wire` record what has happened. `Phase` is the invariant: a
sender is idle, or it writes the front of its queue, or a write has failed and nothing is written any
more. `Drives` says that a machine handles a queue by these operations only; then every state that it
reaches has a phase.
-/

set_option autoImplicit false

namespace AsioExamples.Lib

universe u v

/-- An outstanding write: the buffer it was given, and how much of it has been sent. -/
structure Write (β : Type v) where
  buffer : List β
  sent : ℕ
  deriving DecidableEq, Repr

/-- The queue of a sender with its outstanding writes. -/
structure SendQueue (α : Type u) (β : Type v) where
  queue : List α
  writes : List (Write β)
  wire : List β
  enqueued : List α
  completed : List α
  failed : Bool
  deriving DecidableEq, Repr

namespace SendQueue

variable {α : Type u} {β : Type v} (frame : α → List β)

/-- The queue of a new sender. -/
def empty : SendQueue α β := ⟨[], [], [], [], [], false⟩

/-- Start a write of the front message. -/
def doWrite (q : SendQueue α β) : SendQueue α β :=
  match q.queue with
  | [] => q
  | m :: _ => { q with writes := q.writes ++ [⟨frame m, 0⟩] }

/-- Add a message, and start a write where none is in progress. -/
def enqueue (q : SendQueue α β) (m : α) : SendQueue α β :=
  -- the queue is looked at before the message is added
  let writeInProgress := !q.queue.isEmpty
  let q := { q with queue := q.queue ++ [m], enqueued := q.enqueued ++ [m] }
  if !writeInProgress then q.doWrite frame else q

/-- The write at index `i` sends `n` more elements of its buffer. -/
def transfer (q : SendQueue α β) (i n : ℕ) : Option (SendQueue α β) :=
  match q.writes[i]? with
  | some w =>
      if w.sent + n ≤ w.buffer.length then
        some { q with
          writes := q.writes.set i { w with sent := w.sent + n }
          wire := q.wire ++ (w.buffer.drop w.sent).take n }
      else none
  | none => none

/-- The handler of a write that sent its whole buffer. -/
def written (q : SendQueue α β) : SendQueue α β :=
  let q := { q with queue := q.queue.tail, completed := q.completed ++ q.queue.head?.toList }
  if !q.queue.isEmpty then q.doWrite frame else q

/-- The handler of the write at index `i` runs. A write ends without an error only when all of its
buffer has been sent. -/
def finish (q : SendQueue α β) (i : ℕ) (ok : Bool) : Option (SendQueue α β) :=
  match q.writes[i]? with
  | some w =>
      let q := { q with writes := q.writes.eraseIdx i }
      if ok then
        if w.sent = w.buffer.length then some (q.written frame) else none
      else some { q with failed := true }
  | none => none

/-! ## The invariant -/

/-- The three phases of a sender. In each the completed messages followed by the queue are what was
enqueued, and what has been sent are the frames of the completed messages and a part of the next. -/
inductive Phase (q : SendQueue α β) : Prop where
  | idle (failed : q.failed = false) (writes : q.writes = []) (queue : q.queue = [])
      (completed : q.completed = q.enqueued) (wire : q.wire = q.completed.flatMap frame)
  | writing (m : α) (ms : List α) (n : ℕ) (failed : q.failed = false)
      (queue : q.queue = m :: ms) (writes : q.writes = [⟨frame m, n⟩]) (le : n ≤ (frame m).length)
      (balance : q.completed ++ q.queue = q.enqueued)
      (wire : q.wire = q.completed.flatMap frame ++ (frame m).take n)
  | stopped (m : α) (ms : List α) (n : ℕ) (failed : q.failed = true)
      (queue : q.queue = m :: ms) (writes : q.writes = [])
      (balance : q.completed ++ q.queue = q.enqueued)
      (wire : q.wire = q.completed.flatMap frame ++ (frame m).take n)

variable {frame} {q r : SendQueue α β}

theorem phase_empty : Phase frame (empty : SendQueue α β) := .idle rfl rfl rfl rfl rfl

@[simp] theorem enqueued_doWrite (q : SendQueue α β) :
    (q.doWrite frame).enqueued = q.enqueued := by
  rw [doWrite]
  split <;> rfl

@[simp] theorem enqueued_enqueue (q : SendQueue α β) (m : α) :
    (q.enqueue frame m).enqueued = q.enqueued ++ [m] := by
  simp only [enqueue]
  split
  · exact enqueued_doWrite _
  · rfl

@[simp] theorem wire_doWrite (q : SendQueue α β) : (q.doWrite frame).wire = q.wire := by
  rw [doWrite]
  split <;> rfl

/-- Nothing is sent when a write is started, and nothing when one ends. -/
theorem wire_enqueue (q : SendQueue α β) (m : α) : (q.enqueue frame m).wire = q.wire := by
  simp only [enqueue]
  split
  · exact wire_doWrite _
  · rfl

theorem wire_written (q : SendQueue α β) : (q.written frame).wire = q.wire := by
  simp only [written]
  split
  · exact wire_doWrite _
  · rfl

theorem phase_enqueue (h : Phase frame q) (m : α) : Phase frame (q.enqueue frame m) := by
  cases h with
  | idle failed writes queue completed wire =>
      -- the first message is written at once
      refine .writing m [] 0 ?_ ?_ ?_ (Nat.zero_le _) ?_ ?_
      all_goals simp [enqueue, doWrite, queue, failed, writes, completed, wire]
  | writing x xs n failed queue writes le balance wire =>
      -- the message waits behind the one that is written
      refine .writing x (xs ++ [m]) n ?_ ?_ ?_ le ?_ ?_
      · simp [enqueue, queue, failed]
      · simp [enqueue, queue]
      · simp [enqueue, queue, writes]
      · simp [enqueue, queue, ← balance]
      · simp [enqueue, queue, wire]
  | stopped x xs n failed queue writes balance wire =>
      -- the queue is not empty, so no write is started
      refine .stopped x (xs ++ [m]) n ?_ ?_ ?_ ?_ ?_
      · simp [enqueue, queue, failed]
      · simp [enqueue, queue]
      · simp [enqueue, queue, writes]
      · simp [enqueue, queue, ← balance]
      · simp [enqueue, queue, wire]

/-- What a transfer needs and does. -/
theorem transfer_eq_some {i n : ℕ} (h : q.transfer i n = some r) :
    ∃ w, q.writes[i]? = some w ∧ w.sent + n ≤ w.buffer.length ∧
      r = { q with
        writes := q.writes.set i { w with sent := w.sent + n }
        wire := q.wire ++ (w.buffer.drop w.sent).take n } := by
  rw [transfer] at h
  cases hw : q.writes[i]? with
  | none => simp [hw] at h
  | some w =>
      simp only [hw] at h
      split at h
      · rename_i hle
        exact ⟨w, rfl, hle, (Option.some.inj h).symm⟩
      · simp at h

/-- What the end of a write needs and does. -/
theorem finish_eq_some {i : ℕ} {ok : Bool} (h : q.finish frame i ok = some r) :
    ∃ w, q.writes[i]? = some w ∧
      ((ok = true ∧ w.sent = w.buffer.length ∧
          r = { q with writes := q.writes.eraseIdx i }.written frame) ∨
        (ok = false ∧ r = { q with writes := q.writes.eraseIdx i, failed := true })) := by
  rw [finish] at h
  cases hw : q.writes[i]? with
  | none => simp [hw] at h
  | some w =>
      simp only [hw] at h
      cases ok with
      | true =>
          simp only [if_true] at h
          split at h
          · rename_i hsent
            exact ⟨w, rfl, Or.inl ⟨rfl, hsent, (Option.some.inj h).symm⟩⟩
          · simp at h
      | false => exact ⟨w, rfl, Or.inr ⟨rfl, (Option.some.inj h).symm⟩⟩

theorem enqueued_transfer {i n : ℕ} (h : q.transfer i n = some r) : r.enqueued = q.enqueued := by
  obtain ⟨w, -, -, rfl⟩ := transfer_eq_some h
  rfl

theorem enqueued_finish {i : ℕ} {ok : Bool} (h : q.finish frame i ok = some r) :
    r.enqueued = q.enqueued := by
  obtain ⟨w, -, ⟨-, -, rfl⟩ | ⟨-, rfl⟩⟩ := finish_eq_some h
  · simp only [written]
    split
    · exact enqueued_doWrite _
    · rfl
  · rfl

theorem phase_transfer {i n : ℕ} (hq : Phase frame q) (h : q.transfer i n = some r) :
    Phase frame r := by
  obtain ⟨w, hw, hle, rfl⟩ := transfer_eq_some h
  cases hq with
  | idle failed writes queue completed wire => simp [writes] at hw
  | stopped m ms k failed queue writes balance wire => simp [writes] at hw
  | writing m ms k failed queue writes le balance wire =>
      obtain ⟨hone, rfl⟩ := eq_singleton_of_length_le_one (by simp [writes]) hw
      obtain rfl : w = ⟨frame m, k⟩ := by simpa [writes] using hone.symm
      refine .writing m ms (k + n) failed queue ?_ hle balance ?_
      · simp [writes]
      · simp [wire, List.take_add]

theorem phase_finish {i : ℕ} {ok : Bool} (hq : Phase frame q) (h : q.finish frame i ok = some r) :
    Phase frame r := by
  obtain ⟨w, hw, hcase⟩ := finish_eq_some h
  cases hq with
  | idle failed writes queue completed wire => simp [writes] at hw
  | stopped m ms k failed queue writes balance wire => simp [writes] at hw
  | writing m ms k failed queue writes le balance wire =>
      obtain ⟨hone, rfl⟩ := eq_singleton_of_length_le_one (by simp [writes]) hw
      obtain rfl : w = ⟨frame m, k⟩ := by simpa [writes] using hone.symm
      rcases hcase with ⟨-, hsent, rfl⟩ | ⟨-, rfl⟩
      · -- the frame is on the wire, and the next message is at the front
        have hsent : k = (frame m).length := hsent
        subst hsent
        rw [List.take_length] at wire
        cases ms with
        | nil =>
            refine .idle ?_ ?_ ?_ ?_ ?_
            · simp [written, queue, failed]
            · simp [written, queue, writes]
            · simp [written, queue]
            · simp [written, queue, ← balance]
            · simp [written, queue, wire]
        | cons x xs =>
            refine .writing x xs 0 ?_ ?_ ?_ (Nat.zero_le _) ?_ ?_
            · simp [written, doWrite, queue, failed]
            · simp [written, doWrite, queue]
            · simp [written, doWrite, queue, writes]
            · simp [written, doWrite, queue, ← balance]
            · simp [written, doWrite, queue, wire]
      · -- the message of the failed write stays at the front
        exact .stopped m ms k rfl queue (by simp [writes]) balance wire

/-! ## What the phases say -/

/-- At most one write is outstanding. -/
theorem Phase.writes_length (h : Phase frame q) : q.writes.length ≤ 1 := by
  cases h <;> simp_all

/-- As long as no write has failed, one is outstanding exactly when there is something to write. -/
theorem Phase.writes_ne_nil_iff (h : Phase frame q) (hok : q.failed = false) :
    q.writes ≠ [] ↔ q.queue ≠ [] := by
  cases h with
  | idle failed writes queue completed wire => simp [writes, queue]
  | writing m ms n failed queue writes le balance wire => simp [writes, queue]
  | stopped m ms n failed queue writes balance wire => simp [hok] at failed

/-- The outstanding write covers the front message. -/
theorem Phase.buffer_eq (h : Phase frame q) {w : Write β} (hw : w ∈ q.writes) :
    ∃ m, q.queue.head? = some m ∧ w.buffer = frame m := by
  cases h with
  | idle failed writes queue completed wire => simp [writes] at hw
  | stopped m ms n failed queue writes balance wire => simp [writes] at hw
  | writing m ms n failed queue writes le balance wire =>
      rw [writes, List.mem_singleton] at hw
      exact ⟨m, by simp [queue], by rw [hw]⟩

/-- Nothing is lost, doubled or reordered. -/
theorem Phase.completed_append_queue (h : Phase frame q) : q.completed ++ q.queue = q.enqueued := by
  cases h with
  | idle failed writes queue completed wire => simp [queue, completed]
  | writing m ms n failed queue writes le balance wire => exact balance
  | stopped m ms n failed queue writes balance wire => exact balance

/-- After a failure no write is outstanding. -/
theorem Phase.writes_eq_nil (h : Phase frame q) (hfail : q.failed = true) : q.writes = [] := by
  cases h <;> simp_all

/-- On the wire are the frames of the completed messages, and a part of the front message. -/
theorem Phase.wire_eq (h : Phase frame q) :
    ∃ part, q.wire = q.completed.flatMap frame ++ part ∧
      (part = [] ∨ ∃ m, q.queue.head? = some m ∧ part <+: frame m) := by
  cases h with
  | idle failed writes queue completed wire => exact ⟨[], by simp [wire], Or.inl rfl⟩
  | writing m ms n failed queue writes le balance wire =>
      exact ⟨_, wire, Or.inr ⟨m, by simp [queue], List.take_prefix _ _⟩⟩
  | stopped m ms n failed queue writes balance wire =>
      exact ⟨_, wire, Or.inr ⟨m, by simp [queue], List.take_prefix _ _⟩⟩

/-- What is on the wire is the beginning of what there is to be sent. -/
theorem Phase.wire_isPrefix (h : Phase frame q) : q.wire <+: q.enqueued.flatMap frame := by
  rw [← h.completed_append_queue, List.flatMap_append]
  obtain ⟨part, hwire, rfl | ⟨m, hm, hpart⟩⟩ := h.wire_eq
  · rw [hwire, List.append_nil]
    exact List.prefix_append _ _
  · obtain ⟨ms, hqueue⟩ := List.head?_eq_some_iff.1 hm
    rw [hwire, hqueue, List.flatMap_cons, List.prefix_append_right_inj]
    exact hpart.trans (List.prefix_append _ _)

/-- Where no write has failed, and none can make progress or end, everything has been sent. -/
theorem Phase.wire_of_quiet (h : Phase frame q) (hok : q.failed = false)
    (htransfer : ∀ i n, 0 < n → q.transfer i n = none) (hfinish : ∀ i, q.finish frame i true = none) :
    q.wire = q.enqueued.flatMap frame := by
  cases h with
  | idle failed writes queue completed wire => rw [wire, completed]
  | stopped m ms n failed queue writes balance wire => simp [hok] at failed
  | writing m ms n failed queue writes le balance wire =>
      -- the write could go on, or end
      rcases Nat.lt_or_eq_of_le le with hlt | rfl
      · have := htransfer 0 1 Nat.one_pos
        simp [transfer, writes, Nat.succ_le_of_lt hlt] at this
      · have := hfinish 0
        simp [finish, writes] at this

/-! ## Steps -/

/-- Several messages, one after the other. -/
def enqueueAll (frame : α → List β) (q : SendQueue α β) (ms : List α) : SendQueue α β :=
  ms.foldl (enqueue frame) q

@[simp] theorem enqueueAll_nil (q : SendQueue α β) : q.enqueueAll frame [] = q := rfl

theorem enqueueAll_cons (q : SendQueue α β) (m : α) (ms : List α) :
    q.enqueueAll frame (m :: ms) = (q.enqueue frame m).enqueueAll frame ms := rfl

@[simp] theorem enqueued_enqueueAll (q : SendQueue α β) (ms : List α) :
    (q.enqueueAll frame ms).enqueued = q.enqueued ++ ms := by
  induction ms generalizing q with
  | nil => exact (List.append_nil _).symm
  | cons m ms ih => rw [enqueueAll_cons, ih, enqueued_enqueue, List.append_assoc, List.singleton_append]

/-- Only a write that ends with an error fails. -/
@[simp] theorem failed_doWrite (q : SendQueue α β) : (q.doWrite frame).failed = q.failed := by
  rw [doWrite]
  split <;> rfl

@[simp] theorem failed_enqueueAll (q : SendQueue α β) (ms : List α) :
    (q.enqueueAll frame ms).failed = q.failed := by
  induction ms generalizing q with
  | nil => rfl
  | cons m ms ih =>
      rw [enqueueAll_cons, ih]
      simp only [enqueue]
      split
      · exact failed_doWrite _
      · rfl

theorem failed_transfer {i n : ℕ} (h : q.transfer i n = some r) : r.failed = q.failed := by
  obtain ⟨w, -, -, rfl⟩ := transfer_eq_some h
  rfl

theorem failed_finish {i : ℕ} (h : q.finish frame i true = some r) : r.failed = q.failed := by
  obtain ⟨w, -, ⟨-, -, rfl⟩ | ⟨hfalse, -⟩⟩ := finish_eq_some h
  · simp only [written]
    split
    · exact failed_doWrite _
    · rfl
  · cases hfalse

/-- What may happen to a queue at once: messages are added, a write makes progress, or a write ends. -/
inductive Step (frame : α → List β) (q : SendQueue α β) : Bool → SendQueue α β → Prop
  | enqueue (ends : Bool) (ms : List α) : Step frame q ends (q.enqueueAll frame ms)
  | transfer (ends : Bool) {i n : ℕ} {r : SendQueue α β} (h : q.transfer i n = some r) :
      Step frame q ends r
  | finish {i : ℕ} {ok : Bool} {r : SendQueue α β} (h : q.finish frame i ok = some r) :
      Step frame q true r

theorem Step.refl (ends : Bool) (q : SendQueue α β) : Step frame q ends q := .enqueue ends []

variable {ends : Bool}

/-- A step leads from phase to phase. -/
theorem Step.phase (h : Step frame q ends r) (hq : Phase frame q) : Phase frame r := by
  cases h with
  | enqueue _ ms =>
      induction ms generalizing q with
      | nil => exact hq
      | cons m ms ih => exact ih (phase_enqueue hq m)
  | transfer _ h => exact phase_transfer hq h
  | finish h => exact phase_finish hq h

/-- What has been sent stays sent. -/
theorem Step.wire_isPrefix (h : Step frame q ends r) : q.wire <+: r.wire := by
  cases h with
  | enqueue _ ms =>
      induction ms generalizing q with
      | nil => exact List.prefix_rfl
      | cons m ms ih =>
          rw [enqueueAll_cons, ← wire_enqueue q m]
          exact ih
  | transfer _ h =>
      obtain ⟨w, -, -, rfl⟩ := transfer_eq_some h
      exact List.prefix_append _ _
  | finish h =>
      obtain ⟨w, -, ⟨-, -, rfl⟩ | ⟨-, rfl⟩⟩ := finish_eq_some h
      · exact (wire_written { q with writes := q.writes.eraseIdx _ }).symm ▸ List.prefix_rfl
      · exact List.prefix_rfl

/-- As long as no write ends, the front of a queue that is written stays where it is. -/
theorem Step.front (h : Step frame q false r) (hq : Phase frame q) (hw : q.writes ≠ []) :
    r.queue.head? = q.queue.head? := by
  cases hq with
  | idle failed writes queue completed wire => exact absurd writes hw
  | stopped x xs n failed queue writes balance wire => exact absurd writes hw
  | writing x xs n failed queue writes le balance wire =>
      rw [queue]
      cases h with
      | enqueue _ ms =>
          -- each message goes to the end of the queue
          clear balance wire
          induction ms generalizing q xs with
          | nil => simp [queue]
          | cons m ms ih =>
              refine ih ?_ (xs ++ [m]) ?_ ?_ ?_
              all_goals simp [SendQueue.enqueue, queue, writes, failed]
      | transfer _ h =>
          obtain ⟨w, -, -, rfl⟩ := transfer_eq_some h
          simp [queue]

/-- After a failure a step neither starts a write nor sends anything. -/
theorem Step.failed (h : Step frame q ends r) (hq : Phase frame q) (hfail : q.failed = true) :
    r.failed = true ∧ r.writes = [] ∧ r.wire = q.wire := by
  cases hq with
  | idle failed writes queue completed wire => simp [hfail] at failed
  | writing x xs n failed queue writes le balance wire => simp [hfail] at failed
  | stopped x xs n failed queue writes balance wire =>
      cases h with
      | enqueue _ ms =>
          clear balance wire
          induction ms generalizing q xs with
          | nil => exact ⟨failed, writes, rfl⟩
          | cons m ms ih =>
              have hwire : (q.enqueue frame m).wire = q.wire := by
                simp [SendQueue.enqueue, queue]
              rw [enqueueAll_cons, ← hwire]
              refine ih ?_ (xs ++ [m]) ?_ ?_ ?_
              all_goals simp [SendQueue.enqueue, queue, writes, failed]
      | transfer _ h =>
          obtain ⟨w, hw, -, -⟩ := transfer_eq_some h
          simp [writes] at hw
      | finish h =>
          obtain ⟨w, hw, -⟩ := finish_eq_some h
          simp [writes] at hw

/-! ## Machines with a queue -/

section Drives

variable {σ ε : Type*} {M : Machine σ ε} {out : σ → SendQueue α β} {ended : ε → Bool}

/-- The machine begins with an empty queue and handles it by steps; `ended` are the events at which a
write of the queue ends. -/
structure Drives (frame : α → List β) (M : Machine σ ε) (out : σ → SendQueue α β) (ended : ε → Bool) :
    Prop where
  init : ∀ s, M.init s → out s = empty
  step : ∀ s e t, M.step s e = some t → Step frame (out s) (ended e) (out t)

/-- **A queue always has a phase.** -/
theorem Drives.phase (hM : Drives frame M out ended) {s : σ} (h : M.Reachable s) :
    Phase frame (out s) :=
  h.invariant (I := fun s => Phase frame (out s)) (fun s hs => hM.init s hs ▸ phase_empty)
    (fun s e t hs ht => (hM.step s e t ht).phase hs)

theorem Drives.front (hM : Drives frame M out ended) {s t : σ} {e : ε} (h : M.Reachable s)
    (hstep : M.step s e = some t) (he : ended e = false) (hw : (out s).writes ≠ []) :
    (out t).queue.head? = (out s).queue.head? :=
  (he ▸ hM.step s e t hstep).front (hM.phase h) hw

/-- **After a failed write nothing is written**, whatever happens then. -/
theorem Drives.failed (hM : Drives frame M out ended) {s t : σ} {es : List ε} (h : M.Reachable s)
    (hfail : (out s).failed = true) (hexec : M.exec s es = some t) :
    (out t).writes = [] ∧ (out t).wire = (out s).wire := by
  have key : Phase frame (out t) ∧ (out t).failed = true ∧ (out t).writes = [] ∧
      (out t).wire = (out s).wire := by
    apply Machine.exec_preserves
      (I := fun t => Phase frame (out t) ∧ (out t).failed = true ∧ (out t).writes = [] ∧
        (out t).wire = (out s).wire) _
      ⟨hM.phase h, hfail, (hM.phase h).writes_eq_nil hfail, rfl⟩ hexec
    rintro u e v ⟨hu, hf, -, hwire⟩ hstep
    obtain ⟨hf', hw', hwire'⟩ := (hM.step u e v hstep).failed hu hf
    exact ⟨(hM.step u e v hstep).phase hu, hf', hw', hwire'.trans hwire⟩
  exact key.2.2

end Drives

end SendQueue

end AsioExamples.Lib
