import AsioExamples.Asio.Operation
import AsioExamples.Lib.Machine

/-!
# Echo sessions

The read/write chain that the asynchronous echo servers share: `read` reads into `data_`, its handler
writes what was read, and the handler of that write reads again. A write refers to `data_` and sends
what stands there at the time. The programs differ in whether a failed operation closes the socket
(`closesOnError`).

`Chained` is what every step keeps: one operation at a time, and none after the socket was closed.
-/

set_option autoImplicit false

namespace AsioExamples.Echo

open AsioExamples.Lib AsioExamples.Asio

/-! ## The handlers -/

/-- The size of `data_`. -/
def dataSize : ℕ := 1024

/-- The two operations of a session. A write has sent the first `sent` of its `length` bytes. -/
inductive EchoOp where
  | readSome
  | write (length sent : ℕ)
  deriving DecidableEq, Repr

/-- What the handlers of a session do. -/
inductive EchoAction where
  | asyncReadSome
  | asyncWrite (length : ℕ)
  | close
  deriving DecidableEq, Repr

/-- The handler that `read` passes to `async_read_some`. -/
def readHandler (closesOnError : Bool) (ec : Option ErrorCode) (length : ℕ) : List EchoAction :=
  if ec = none then [.asyncWrite length] else if closesOnError then [.close] else []

/-- The handler that `write` passes to `async_write`. -/
def writeHandler (closesOnError : Bool) (ec : Option ErrorCode) : List EchoAction :=
  if ec = none then [.asyncReadSome] else if closesOnError then [.close] else []

/-- The handler of an operation. -/
def EchoOp.handler (closesOnError : Bool) (op : EchoOp) (done : Completion) : List EchoAction :=
  match op with
  | .readSome => readHandler closesOnError done.ec done.bytes.length
  | .write _ _ => writeHandler closesOnError done.ec

/-! ## A session and its operations -/

/-- A session: the connection that its socket is, while it is open, the buffer and the outstanding
operations. `received` and `sent` are the bytes of all reads and all writes. -/
structure EchoSession where
  socket_ : Option ℕ
  data_ : List UInt8
  pending : List (Pending EchoOp)
  received : List UInt8
  sent : List UInt8
  deriving DecidableEq, Repr

/-- What can happen to a session: an operation completes, a write makes progress, or a queued handler
runs. -/
inductive EchoEvent where
  | complete (i : ℕ) (c : Completion)
  | transfer (i n : ℕ)
  | handler (i : ℕ)
  deriving DecidableEq, Repr

namespace EchoSession

/-- One action of a handler. -/
def perform (s : EchoSession) : EchoAction → EchoSession
  | .asyncReadSome => { s with pending := s.pending ++ [⟨.readSome, s.socket_.isNone, none⟩] }
  | .asyncWrite length => { s with pending := s.pending ++ [⟨.write length 0, s.socket_.isNone, none⟩] }
  | .close => { s with socket_ := none }

/-- An operation completes. The bytes of a read are in `data_` from then on, and a write completes
without an error only when it has sent all of its bytes. -/
def complete (s : EchoSession) (i : ℕ) (c : Completion) : Option EchoSession :=
  match s.pending[i]? with
  | some p =>
      match p.op with
      | .readSome =>
          if c.bytes.length ≤ dataSize then
            (Asio.complete s.socket_.isSome s.pending i c).map fun ps =>
              { s with
                pending := ps
                data_ := c.bytes ++ s.data_.drop c.bytes.length
                received := s.received ++ c.bytes }
          else none
      | .write length sent =>
          if c.ec = none ∧ sent ≠ length then none
          else (Asio.complete s.socket_.isSome s.pending i c).map fun ps => { s with pending := ps }
  | none => none

/-- The write at index `i` sends `n` more bytes of its buffer, as `data_` has them now. -/
def transfer (s : EchoSession) (i n : ℕ) : Option EchoSession :=
  match s.pending[i]? with
  | some ⟨.write length sent, startedClosed, none⟩ =>
      if sent + n ≤ length ∧ s.socket_.isSome then
        some { s with
          pending := s.pending.set i ⟨.write length (sent + n), startedClosed, none⟩
          sent := s.sent ++ ((s.data_.take length).drop sent).take n }
      else none
  | _ => none

/-- The queued handler at index `i` is taken: what it does, and the session before it has done it. -/
def dispatched (closesOnError : Bool) (s : EchoSession) (i : ℕ) :
    Option (EchoSession × List EchoAction) :=
  (dispatch s.pending i).map fun (op, done, ps) =>
    ({ s with pending := ps }, op.handler closesOnError done)

/-- An event of a session: the actions of a handler, and the session that performs them. -/
def step (closesOnError : Bool) (s : EchoSession) : EchoEvent → Option (EchoSession × List EchoAction)
  | .complete i c => (s.complete i c).map fun t => (t, [])
  | .transfer i n => (s.transfer i n).map fun t => (t, [])
  | .handler i => s.dispatched closesOnError i

end EchoSession

/-! ## One operation at a time -/

/-- At most one operation is outstanding, and none on a socket that was closed. -/
structure Chained (s : EchoSession) : Prop where
  atMostOne : s.pending.length ≤ 1
  closed : s.socket_ = none → s.pending = []

namespace EchoSession

variable {closesOnError : Bool} {s t : EchoSession} {acts : List EchoAction} {e : EchoEvent}

/-- A handler does one thing at most. -/
theorem handler_cases (closesOnError : Bool) (op : EchoOp) (done : Completion) :
    op.handler closesOnError done = [] ∨ ∃ a, op.handler closesOnError done = [a] := by
  cases op with
  | readSome =>
      rw [EchoOp.handler, readHandler]
      split
      · exact Or.inr ⟨_, rfl⟩
      · split
        · exact Or.inr ⟨_, rfl⟩
        · exact Or.inl rfl
  | write length sent =>
      rw [EchoOp.handler, writeHandler]
      split
      · exact Or.inr ⟨_, rfl⟩
      · split
        · exact Or.inr ⟨_, rfl⟩
        · exact Or.inl rfl

/-- **What a completion does**: a read stores its bytes at the beginning of `data_`, and a write that ends
without an error has sent all of its bytes. -/
theorem complete_cases {i : ℕ} {c : Completion} (h : s.complete i c = some t) :
    ∃ p, s.pending[i]? = some p ∧ p.completion = none ∧
      ((p.op = .readSome ∧ c.bytes.length ≤ dataSize ∧
          t = { s with
            pending := s.pending.set i { p with completion := some c }
            data_ := c.bytes ++ s.data_.drop c.bytes.length
            received := s.received ++ c.bytes }) ∨
        ∃ length sent, p.op = .write length sent ∧ (c.ec = none → sent = length) ∧
          t = { s with pending := s.pending.set i { p with completion := some c } }) := by
  rw [complete] at h
  split at h
  · rename_i p hp
    -- of the operations, the one that is looked at gets its completion
    have hset : ∀ {isOpen ps}, Asio.complete isOpen s.pending i c = some ps →
        p.completion = none ∧ ps = s.pending.set i { p with completion := some c } := by
      intro isOpen ps hps
      obtain ⟨p', hp', hnone, -, rfl⟩ := complete_eq_some hps
      obtain rfl := Option.some.inj (hp.symm.trans hp')
      exact ⟨hnone, rfl⟩
    refine ⟨p, hp, ?_⟩
    split at h
    · rename_i hop
      split at h
      · rename_i hlength
        obtain ⟨ps, hps, rfl⟩ := Option.map_eq_some_iff.1 h
        obtain ⟨hnone, rfl⟩ := hset hps
        exact ⟨hnone, Or.inl ⟨hop, hlength, rfl⟩⟩
      · cases h
    · rename_i length sent hop
      split at h
      · cases h
      · rename_i hdone
        obtain ⟨ps, hps, rfl⟩ := Option.map_eq_some_iff.1 h
        obtain ⟨hnone, rfl⟩ := hset hps
        refine ⟨hnone, Or.inr ⟨length, sent, hop, fun hec => ?_, rfl⟩⟩
        by_contra hne
        exact hdone ⟨hec, hne⟩
  · cases h

/-- **What a transfer does**: the write sends the next bytes of its buffer. -/
theorem transfer_cases {i n : ℕ} (h : s.transfer i n = some t) :
    ∃ length sent startedClosed, s.pending[i]? = some ⟨.write length sent, startedClosed, none⟩ ∧
      sent + n ≤ length ∧
      t = { s with
        pending := s.pending.set i ⟨.write length (sent + n), startedClosed, none⟩
        sent := s.sent ++ ((s.data_.take length).drop sent).take n } := by
  rw [transfer] at h
  split at h
  · rename_i length sent startedClosed hp
    obtain ⟨hle, heq⟩ := Option.ite_none_right_eq_some.1 h
    exact ⟨length, sent, startedClosed, hp, hle.1, (Option.some.inj heq).symm⟩
  · cases h

/-- A completion changes neither the socket nor the number of operations. -/
theorem complete_spec {i : ℕ} {c : Completion} (h : s.complete i c = some t) :
    t.socket_ = s.socket_ ∧ t.pending.length = s.pending.length := by
  obtain ⟨p, -, -, ⟨-, -, rfl⟩ | ⟨length, sent, -, -, rfl⟩⟩ := complete_cases h
  · exact ⟨rfl, List.length_set⟩
  · exact ⟨rfl, List.length_set⟩

theorem transfer_spec {i n : ℕ} (h : s.transfer i n = some t) :
    t.socket_ = s.socket_ ∧ t.pending.length = s.pending.length := by
  obtain ⟨length, sent, startedClosed, -, -, rfl⟩ := transfer_cases h
  exact ⟨rfl, List.length_set⟩

/-- **What a step of a session does**: it keeps the socket, and it does nothing more, or it is the end of
the only operation, on an open socket, and one action follows. -/
theorem step_spec (hs : Chained s) (h : s.step closesOnError e = some (t, acts)) :
    t.socket_ = s.socket_ ∧ Chained t ∧
      (acts = [] ∨ ∃ a conn, acts = [a] ∧ s.socket_ = some conn ∧ t.pending = []) := by
  have hkeeps : t.socket_ = s.socket_ ∧ t.pending.length = s.pending.length → Chained t := by
    rintro ⟨hsocket, hlength⟩
    refine ⟨hlength ▸ hs.atMostOne, fun hnone => ?_⟩
    rw [← List.length_eq_zero_iff, hlength, hs.closed (hsocket ▸ hnone)]
    rfl
  cases e with
  | complete i c =>
      obtain ⟨t', ht, heq⟩ := Option.map_eq_some_iff.1 h
      cases heq
      exact ⟨(complete_spec ht).1, hkeeps (complete_spec ht), Or.inl rfl⟩
  | transfer i n =>
      obtain ⟨t', ht, heq⟩ := Option.map_eq_some_iff.1 h
      cases heq
      exact ⟨(transfer_spec ht).1, hkeeps (transfer_spec ht), Or.inl rfl⟩
  | handler i =>
      obtain ⟨⟨op, done, ps⟩, hd, heq⟩ := Option.map_eq_some_iff.1 h
      cases heq
      obtain ⟨p, hp, -, -, rfl⟩ := dispatch_of_length_le_one hs.atMostOne hd
      refine ⟨rfl, ⟨Nat.zero_le 1, fun _ => rfl⟩, ?_⟩
      -- there was an operation, so the socket is open
      have hopen : s.socket_ ≠ none := by
        intro hnone
        rw [hs.closed hnone] at hp
        cases hp
      obtain ⟨conn, hconn⟩ := Option.ne_none_iff_exists'.1 hopen
      rcases handler_cases closesOnError op done with hnil | ⟨a, ha⟩
      · exact Or.inl hnil
      · exact Or.inr ⟨a, conn, ha, hconn, rfl⟩

/-- Without an operation nothing can happen to a session. -/
theorem step_eq_none (h : s.pending = []) : s.step closesOnError e = none := by
  cases e <;> simp [step, complete, transfer, dispatched, dispatch, h]

/-- One action after the only operation has ended. -/
theorem chained_perform {conn : ℕ} (hsocket : s.socket_ = some conn) (hpending : s.pending = [])
    (a : EchoAction) : Chained (s.perform a) := by
  cases a with
  | asyncReadSome =>
      refine ⟨by simp [perform, hpending], fun hnone => ?_⟩
      have hnone : s.socket_ = none := hnone
      rw [hsocket] at hnone
      cases hnone
  | asyncWrite length =>
      refine ⟨by simp [perform, hpending], fun hnone => ?_⟩
      have hnone : s.socket_ = none := hnone
      rw [hsocket] at hnone
      cases hnone
  | close => exact ⟨by simp [perform, hpending], fun _ => hpending⟩

end EchoSession

end AsioExamples.Echo
