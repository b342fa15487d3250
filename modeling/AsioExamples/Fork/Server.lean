import AsioExamples.Echo.Session

/-!
# The forking servers

`process_per_connection.cpp` and `process_per_con.cpp`. A server accepts a connection and forks: the
child serves the connection, the parent closes it and accepts the next one. Both run the same class, so
that a process is one state (`Process`) whichever role it has, and a fork copies it, with the handlers in
its queue. `ForkState` is the tree of processes; the first one is the process that was started.

A handler is a list of actions, in the order of the source. The two programs differ in the order of
three of them, in what they do when `fork` fails, and in whether a failed operation closes the socket.
-/

set_option autoImplicit false

namespace AsioExamples.Fork

open AsioExamples.Lib AsioExamples.Asio AsioExamples.Echo

/-! ## The handlers -/

/-- `io_context::fork_event` -/
inductive ForkEvent where
  | prepare
  | parent
  | child
  deriving DecidableEq, Repr

/-- What a handler does. `takeSocket` is the assignment of the accepted socket to `socket_`, and `fork`
records what `fork` returned for which connection. -/
inductive Action where
  | takeSocket (conn : ℕ)
  | notifyFork (event : ForkEvent)
  | fork (conn : ℕ) (pid : ℤ)
  | asyncAccept
  | asyncWait
  | waitpid
  | closeAcceptor
  | cancelSignal
  | echo (a : EchoAction)
  deriving DecidableEq, Repr

/-- The two programs. -/
inductive Program where
  | processPerConnection
  | processPerCon
  deriving DecidableEq, Repr

/-- What the accept handler does after `fork` has returned `pid`. -/
def Program.afterFork (prog : Program) (pid : ℤ) : List Action :=
  match prog with
  | .processPerConnection =>
      if pid = 0 then [.notifyFork .child, .cancelSignal, .closeAcceptor, .echo .asyncReadSome]
      else if pid > 0 then [.notifyFork .parent, .echo .close, .asyncAccept]
      -- a failed fork takes neither branch
      else []
  | .processPerCon =>
      if pid = 0 then [.notifyFork .child, .closeAcceptor, .cancelSignal, .echo .asyncReadSome]
      else [.notifyFork .parent, .echo .close, .asyncAccept]

/-- Whether the handlers of `read` and `write` close the socket after an error. -/
def Program.closesOnError : Program → Bool
  | .processPerConnection => true
  | .processPerCon => false

/-! ## A process -/

/-- The data members of `class server` in one process, with the outstanding operations. `echo` holds
`socket_` and `data_`. `trace` is what the process has done since it began, each action with the
connection that `socket_` was then. -/
structure Process where
  acceptorIsOpen : Bool
  accepts : List (Pending Unit)
  waits : List (Pending Unit)
  echo : EchoSession
  trace : List (Option ℕ × Action)
  deriving DecidableEq, Repr

/-- A wait that has not completed completes with `operation_aborted`. -/
def cancelled (p : Pending Unit) : Pending Unit :=
  if p.completion = none then { p with completion := some ⟨some .operationAborted, []⟩ } else p

namespace Process

/-- What one action does. -/
def effect (p : Process) : Action → Process
  | .takeSocket conn => { p with echo := { p.echo with socket_ := some conn } }
  | .asyncAccept => { p with accepts := p.accepts ++ [⟨(), !p.acceptorIsOpen, none⟩] }
  | .asyncWait => { p with waits := p.waits ++ [⟨(), false, none⟩] }
  | .closeAcceptor => { p with acceptorIsOpen := false }
  | .cancelSignal => { p with waits := p.waits.map cancelled }
  | .echo a => { p with echo := p.echo.perform a }
  | .notifyFork _ | .fork _ _ | .waitpid => p

/-- One action of a handler. -/
def perform (p : Process) (a : Action) : Process :=
  { p.effect a with trace := p.trace ++ [(p.echo.socket_, a)] }

/-- What the handler that `wait_for_signal` passes to `async_wait` does. `reaped` is how often `waitpid`
finds a child that has ended. -/
def waitHandler (p : Process) (reaped : ℕ) : List Action :=
  -- only the parent still has an open acceptor
  if p.acceptorIsOpen then List.replicate (reaped + 1) .waitpid ++ [.asyncWait] else []

/-- The accept handler up to the call of `fork`, for an accept that has brought the connection `conn`. -/
def forking (p : Process) (conn : ℕ) : Process :=
  [.takeSocket conn, .notifyFork .prepare].foldl perform p

/-- The rest of the handler in the process that forks, to which `fork` returns `pid`. -/
def forkParent (prog : Program) (p : Process) (conn : ℕ) (pid : ℤ) : Process :=
  (.fork conn pid :: prog.afterFork pid).foldl perform (p.forking conn)

/-- The rest of the handler in the copy of the process, to which `fork` returns `0`. -/
def forkChild (prog : Program) (p : Process) (conn : ℕ) : Process :=
  (prog.afterFork 0).foldl perform { p.forking conn with trace := [] }

/-- The process after the constructor of `server`. -/
def constructed (data : List UInt8) : Process :=
  [.asyncWait, .asyncAccept].foldl perform ⟨true, [], [], ⟨none, data, [], [], []⟩, []⟩

end Process

/-- What can happen within one process: an operation completes, the handler of a wait or of an accept
that failed runs, or something happens to its session. -/
inductive ProcessEvent where
  | acceptCompletes (i : ℕ) (c : Completion)
  | acceptFailed (i : ℕ)
  | waitCompletes (i : ℕ) (c : Completion)
  | waitHandler (i reaped : ℕ)
  | echo (e : EchoEvent)
  deriving DecidableEq, Repr

/-- An event within one process. -/
def Process.step (prog : Program) (p : Process) : ProcessEvent → Option Process
  | .acceptCompletes i c =>
      (complete p.acceptorIsOpen p.accepts i c).map fun ps => { p with accepts := ps }
  | .acceptFailed i =>
      (dispatch p.accepts i).bind fun (_, done, ps) =>
        if done.ec = none then none else some ({ p with accepts := ps }.perform .asyncAccept)
  | .waitCompletes i c => (complete true p.waits i c).map fun ps => { p with waits := ps }
  | .waitHandler i reaped =>
      (dispatch p.waits i).map fun (_, _, ps) =>
        (p.waitHandler reaped).foldl perform { p with waits := ps }
  | .echo e =>
      (p.echo.step prog.closesOnError e).map fun (echo, acts) =>
        (acts.map .echo).foldl perform { p with echo := echo }

/-! ## The tree of processes -/

/-- All processes, the one that was started first, and the number of connections accepted so far. -/
structure ForkState where
  procs : List Process
  accepted : ℕ
  deriving DecidableEq, Repr

/-- What can happen: an event within a process, or the handler of an accept that succeeded runs and
`fork` returns `pid` to it. -/
inductive ForkServerEvent where
  | within (id : ℕ) (e : ProcessEvent)
  | acceptHandler (id i : ℕ) (pid : ℤ)
  deriving DecidableEq, Repr

namespace ForkState

/-- The handler that `accept` passes to `async_accept`, where the accept succeeded. A `fork` that succeeds
makes a copy of the process as it is then. -/
def acceptHandler (prog : Program) (s : ForkState) (id i : ℕ) (pid : ℤ) : Option ForkState :=
  s.procs[id]?.bind fun p =>
    (dispatch p.accepts i).bind fun (_, done, ps) =>
      if done.ec = none ∧ pid ≠ 0 then
        let p := { p with accepts := ps }
        let children := if pid > 0 then [p.forkChild prog s.accepted] else []
        some ⟨s.procs.set id (p.forkParent prog s.accepted pid) ++ children, s.accepted + 1⟩
      else none

/-- An event of the server. -/
def step (prog : Program) (s : ForkState) : ForkServerEvent → Option ForkState
  | .within id e =>
      s.procs[id]?.bind fun p =>
        (p.step prog e).map fun p' => { s with procs := s.procs.set id p' }
  | .acceptHandler id i pid => s.acceptHandler prog id i pid

end ForkState

/-- One of the servers, from its construction on. The array `data_` holds any bytes then. -/
def forkMachine (prog : Program) : Machine ForkState ForkServerEvent where
  init s := ∃ data : List UInt8, data.length = dataSize ∧ s = ⟨[.constructed data], 0⟩
  step := ForkState.step prog

end AsioExamples.Fork
