import Mathlib.Tactic.Common
import AsioExamples.Asio.Operation
import AsioExamples.Lib.Machine
import AsioExamples.Http.RequestHandler

/-!
# Connections

`connection.hpp` and `connection.cpp` of the three servers. Their handlers are the same but for what
they do at their end: those of http/ call `connection_manager_.stop`, those of http2/ and http3/ do
nothing. `Server` holds that difference. A handler is a function of the members of the connection
that lists what it does, in order; `ConnectionState` adds the socket, the outstanding operations and
the trace of everything done.

`Reading` and `Writing` are the two shapes of a reachable state (`shape`). From them follows that a
connection parses until the first verdict, and then fills one reply and writes it once.
-/

set_option autoImplicit false

namespace AsioExamples.Http

open AsioExamples.Cxx AsioExamples.Lib AsioExamples.Asio

/-! ## The handlers -/

/-- The data members of `class connection` that the handlers use. `buffer_` is the argument of the
read handler. -/
structure Connection where
  request_ : Request
  requestParser_ : RequestParser
  reply_ : Reply
  deriving DecidableEq, Repr

/-- The size of `buffer_`. -/
def bufferSize : Nat := 8192

/-- What a handler of a connection does. A write carries the reply whose buffers it is given. -/
inductive Action where
  | readHandled (ec : Option ErrorCode)
  | writeHandled (ec : Option ErrorCode)
  | parse (result : ResultType) (consumed : Nat)
  | fillReply
  | asyncReadSome
  | asyncWrite (rep : Reply)
  | shutdown
  | managerStop
  deriving DecidableEq, Repr

/-- The three servers: when their handlers call `connection_manager_.stop`, and whether there is a
`connection_manager` at all. -/
structure Server where
  stopsAfterRead : ErrorCode → Bool
  stopsAfterWrite : Option ErrorCode → Bool
  hasManager : Bool

/-- http/connection.cpp -/
def http : Server where
  stopsAfterRead ec := ec ≠ .operationAborted
  stopsAfterWrite ec := ec ≠ some .operationAborted
  hasManager := true

/-- http2/connection.cpp -/
def http2 : Server where
  stopsAfterRead _ := false
  stopsAfterWrite _ := false
  hasManager := false

/-- http3/connection.cpp -/
def http3 : Server where
  stopsAfterRead _ := false
  stopsAfterWrite _ := false
  hasManager := false

/-- `connection::do_read` -/
def doRead : List Action := [.asyncReadSome]

/-- `connection::do_write` -/
def doWrite (c : Connection) : List Action := [.asyncWrite c.reply_]

/-- The handler that `do_read` passes to `async_read_some`. `handle` is `handle_request`. -/
def readHandler (srv : Server) (handle : Request → Reply → Reply) (c : Connection)
    (done : Completion) : Connection × List Action :=
  match done.ec with
  | none =>
      -- the iterator that `parse` returns is ignored; the trace records how far it went
      let r := c.requestParser_.parse c.request_ done.bytes
      let consumed := done.bytes.length - r.rest.length
      let c := { c with request_ := r.request, requestParser_ := r.parser }
      match r.result with
      | .good =>
          let c := { c with reply_ := handle c.request_ c.reply_ }
          (c, [.readHandled none, .parse .good consumed, .fillReply] ++ doWrite c)
      | .bad =>
          let c := { c with reply_ := .stockReply .badRequest }
          (c, [.readHandled none, .parse .bad consumed, .fillReply] ++ doWrite c)
      | .indeterminate =>
          (c, [.readHandled none, .parse .indeterminate consumed] ++ doRead)
  | some ec =>
      -- nothing is started, and with the last handler the connection is destroyed
      (c, .readHandled (some ec) :: if srv.stopsAfterRead ec then [.managerStop] else [])

/-- The handler that `do_write` passes to `async_write`. -/
def writeHandler (srv : Server) (done : Completion) : List Action :=
  .writeHandled done.ec :: ((if done.ec = none then [.shutdown] else []) ++
    if srv.stopsAfterWrite done.ec then [.managerStop] else [])

/-! ## A connection and its operations -/

/-- The two operations of a connection. -/
inductive Op where
  | readSome
  | write (rep : Reply)
  deriving DecidableEq, Repr

/-- A connection with its socket and its outstanding operations. `trace` is what its handlers have
done. -/
structure ConnectionState where
  conn : Connection
  isOpen : Bool
  pending : List (Pending Op)
  trace : List Action
  deriving DecidableEq, Repr

/-- What can happen to a connection: an operation completes, a queued handler runs, or the manager
stops it. -/
inductive ConnectionEvent where
  | complete (i : Nat) (c : Completion)
  | handler (i : Nat) (fs : FileSystem)
  | stop

namespace ConnectionState

/-- One action of a handler. `connection_manager::stop` closes the socket. -/
def perform (s : ConnectionState) (a : Action) : ConnectionState :=
  { conn := s.conn
    -- `shutdown` leaves the socket open: only `close` makes it a closed one
    isOpen := if a = .managerStop then false else s.isOpen
    pending :=
      match a with
      | .asyncReadSome => s.pending ++ [⟨.readSome, !s.isOpen, none⟩]
      | .asyncWrite rep => s.pending ++ [⟨.write rep, !s.isOpen, none⟩]
      | _ => s.pending
    trace := s.trace ++ [a] }

/-- `connection::start` on a new connection. -/
def started (c : Connection) : ConnectionState := doRead.foldl perform ⟨c, true, [], []⟩

/-- `connection::stop` -/
def stop (s : ConnectionState) : ConnectionState := { s with isOpen := false }

/-- An operation completes. -/
def complete (s : ConnectionState) (i : Nat) (c : Completion) : Option ConnectionState :=
  -- a read brings at most as many bytes as `buffer_` holds
  if c.bytes.length ≤ bufferSize then
    (Asio.complete s.isOpen s.pending i c).map fun ps => { s with pending := ps }
  else none

/-- A queued handler runs; with the state after it, what it has done. -/
def handler (srv : Server) (docRoot : List UInt8) (s : ConnectionState) (i : Nat)
    (fs : FileSystem) : Option (ConnectionState × List Action) :=
  (dispatch s.pending i).map fun (op, done, ps) =>
    let r : Connection × List Action :=
      match op with
      | .readSome => readHandler srv (fun req rep => (handleRequest docRoot fs req rep).reply) s.conn done
      | .write _ => (s.conn, writeHandler srv done)
    (r.2.foldl perform { s with conn := r.1, pending := ps }, r.2)

end ConnectionState

/-- A connection of one of the servers, from its start on. The members that its constructor leaves
uninitialised hold any value. -/
def connectionMachine (srv : Server) (docRoot : List UInt8) :
    Machine ConnectionState ConnectionEvent where
  init s := ∃ major minor status, s = .started ⟨.fresh major minor, .new, ⟨status, [], []⟩⟩
  step s
    | .complete i c => s.complete i c
    | .handler i fs => (s.handler srv docRoot i fs).map (·.1)
    | .stop => if srv.hasManager then some s.stop else none

end AsioExamples.Http
