import AsioExamples.Asio.Operation
import AsioExamples.Lib.Machine

/-!
# The asynchronous daytime servers

`aync_daytimesrc.cpp` and `async_daytimesrc.cpp`. Both accept a connection, start a write of the time on it and
accept the next one. A connection lives as long as a handler holds it: that of the accept, and in
`aync_daytimesrc` that of the write. The buffer of the write is the member `msg_` there; in
`async_daytimesrc` it is a temporary, which is destroyed before `start` returns.

`async_write` may send a part of its buffer at once, and the rest later, as long as the socket is open. One
thread runs all handlers, each of them to its end.

In `async_daytimesrc` a connection can be destroyed when only a part of its message has been sent. Asio would
then start the write of the next part on a socket object that does not exist any more. The model assumes of Asio
that nothing more is sent, that the bytes of the message are not read again, and that the handler is called with
an error, as it is for a socket that was closed.
-/

set_option autoImplicit false

namespace AsioExamples.Daytime

open AsioExamples.Lib AsioExamples.Asio

/-! ## Connections -/

/-- What `start` does with the message and with the connection. -/
structure ServerCode where
  keepsMessage : Bool
  keepsConnection : Bool
  deriving DecidableEq, Repr

/-- `Tcp_connnection` in `aync_daytimesrc.cpp`: the message is a member, and the handler is bound to
`shared_from_this()`. -/
def ayncDaytimesrc : ServerCode := ⟨true, true⟩

/-- `Connection` in `async_daytimesrc.cpp`: the message is a temporary, and the handler captures nothing. -/
def asyncDaytimesrc : ServerCode := ⟨false, false⟩

/-- A write that is outstanding: how much it has sent, and how it has ended. -/
structure Write where
  sent : ℕ
  completion : Option (Option ErrorCode)
  deriving DecidableEq, Repr

/-- A connection, or what is left of it: whether it and the bytes of the message exist, whether its socket is
open, and what has been sent. `first` is how much `async_write` has sent at once, `reported` what the handler
of the write has printed, and `readsDestroyed` records an access to bytes that do not exist any more. -/
structure Connection where
  alive : Bool
  stored : Bool
  isOpen : Bool
  message : List UInt8
  first : ℕ
  write : Option Write
  wire : List UInt8
  reported : Option ℕ
  readsDestroyed : Bool
  deriving DecidableEq, Repr

namespace Connection

/-- `start`, to its end, on a connection that was accepted. -/
def start (code : ServerCode) (message : List UInt8) (n : ℕ) : Connection where
  alive := true
  stored := code.keepsMessage
  isOpen := true
  message := message
  first := n
  write := some ⟨n, none⟩
  wire := message.take n
  reported := none
  readsDestroyed := false

/-- A handler has returned. When no other one holds the connection it is destroyed, and its socket closed. -/
def release (code : ServerCode) (c : Connection) : Connection :=
  if code.keepsConnection && c.write.isSome then c
  else { c with alive := false, stored := false, isOpen := false }

@[simp] theorem release_message (code : ServerCode) (c : Connection) :
    (c.release code).message = c.message := by
  rw [release]
  split <;> rfl

@[simp] theorem release_first (code : ServerCode) (c : Connection) :
    (c.release code).first = c.first := by
  rw [release]
  split <;> rfl

@[simp] theorem release_write (code : ServerCode) (c : Connection) :
    (c.release code).write = c.write := by
  rw [release]
  split <;> rfl

@[simp] theorem release_wire (code : ServerCode) (c : Connection) : (c.release code).wire = c.wire := by
  rw [release]
  split <;> rfl

/-- The write sends `n` more bytes. -/
def transfer (c : Connection) (n : ℕ) : Option Connection :=
  match c.write with
  | some ⟨sent, none⟩ =>
      if c.isOpen ∧ 0 < n ∧ sent + n ≤ c.message.length then
        some { c with
          write := some ⟨sent + n, none⟩
          wire := c.wire ++ (c.message.drop sent).take n
          readsDestroyed := c.readsDestroyed || !c.stored }
      else none
  | _ => none

/-- The write ends. -/
def complete (c : Connection) (ec : Option ErrorCode) : Option Connection :=
  match c.write with
  | some ⟨sent, none⟩ =>
      if mayComplete false c.isOpen ec = true ∧ (ec = none → sent = c.message.length) then
        some { c with write := some ⟨sent, some ec⟩ }
      else none
  | _ => none

/-- `handle_write`, which prints the number of bytes. -/
def handleWrite (code : ServerCode) (c : Connection) : Option Connection :=
  match c.write with
  | some ⟨sent, some _⟩ => some (release code { c with write := none, reported := some sent })
  | _ => none

end Connection

/-- What can happen to a connection. -/
inductive ConnectionEvent where
  | transfer (n : ℕ)
  | complete (ec : Option ErrorCode)
  | handleWrite
  deriving DecidableEq, Repr

/-- A connection, from the end of the handler of its accept on. -/
def connectionMachine (code : ServerCode) : Machine Connection ConnectionEvent where
  init c := ∃ message n, n ≤ message.length ∧ c = (Connection.start code message n).release code
  step c
    | .transfer n => c.transfer n
    | .complete ec => c.complete ec
    | .handleWrite => c.handleWrite code

/-! ## Servers -/

/-- A server: how its accept has ended, if it has, and the connections that were started. -/
structure DaytimeServer where
  accept : Option (Option ErrorCode)
  conns : List Connection
  deriving DecidableEq, Repr

/-- What can happen to a server. `message` is what `make_daytime_str` returns, and `n` how much of it is sent
at once. -/
inductive ServerEvent where
  | acceptCompletes (ec : Option ErrorCode)
  | handleAccept (message : List UInt8) (n : ℕ)
  | connection (i : ℕ) (e : ConnectionEvent)

/-- `Tcp_server` and `TcpServer`. The handler of the accept starts the connection, and the next accept. -/
def serverMachine (code : ServerCode) : Machine DaytimeServer ServerEvent where
  init s := s = ⟨none, []⟩
  step s
    | .acceptCompletes ec => if s.accept = none then some { s with accept := some ec } else none
    | .handleAccept message n =>
        match s.accept with
        | some none =>
            if n ≤ message.length then
              some ⟨none, s.conns ++ [(Connection.start code message n).release code]⟩
            else none
        | some (some _) => some { s with accept := none }
        | none => none
    | .connection i e =>
        s.conns[i]?.bind fun c => ((connectionMachine code).step c e).map fun d =>
          { s with conns := s.conns.set i d }

/-- Each connection of a server is a connection on its own. -/
theorem server_reachable {code : ServerCode} {s : DaytimeServer} (h : (serverMachine code).Reachable s) :
    ∀ c ∈ s.conns, (connectionMachine code).Reachable c := by
  apply h.invariant (I := fun s => ∀ c ∈ s.conns, (connectionMachine code).Reachable c)
  · rintro s rfl c hc
    cases hc
  · intro s e t hs hstep
    cases e with
    | acceptCompletes ec =>
        obtain ⟨-, heq⟩ := Option.ite_none_right_eq_some.1 hstep
        cases heq
        exact hs
    | handleAccept message n =>
        simp only [serverMachine] at hstep
        split at hstep
        · obtain ⟨hn, heq⟩ := Option.ite_none_right_eq_some.1 hstep
          cases heq
          exact List.forall_mem_append.2
            ⟨hs, List.forall_mem_singleton.2 (.of_init ⟨message, n, hn, rfl⟩)⟩
        · cases hstep
          exact hs
        · cases hstep
    | connection i e =>
        obtain ⟨c, hc, hstep⟩ := Option.bind_eq_some_iff.1 hstep
        obtain ⟨d, hd, rfl⟩ := Option.map_eq_some_iff.1 hstep
        intro x hx
        rcases List.mem_or_eq_of_mem_set hx with hx | rfl
        · exact hs x hx
        · exact (hs c (List.mem_of_getElem? hc)).step hd

end AsioExamples.Daytime
