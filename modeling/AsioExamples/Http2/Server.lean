import AsioExamples.Http.ConnectionRuns

/-!
# The server of http2/

`server.cpp` and `connection.cpp` of http2/. There is no connection manager here: a connection is owned by
its outstanding reads and writes, whose handlers hold `self`, and by the member `new_connection_`. The accept
is given the socket of `new_connection_`, and its handler holds the server only. `new_connection_` is reset
for each accept while any number of earlier connections are alive.

A connection is known by its position in `conns`, which stands for its address; a connection that was
destroyed keeps its place there, without a holder. The io_contexts of the pool run in different threads, so
that other handlers may run between the call of `start` and that of `do_accept` (`returning`).
-/

set_option autoImplicit false

namespace AsioExamples.Http2

open AsioExamples.Cxx AsioExamples.Lib AsioExamples.Asio
open AsioExamples.Http (ConnectionState Op StatusType doRead http2 connectionMachine
  ConnectionEvent)

/-! ## The server -/

/-- A connection after its constructor. Its socket is open once an accept has succeeded. -/
def newConnection (major minor : Int32) (status : StatusType) : ConnectionState :=
  ⟨⟨.fresh major minor, .new, ⟨status, [], []⟩⟩, false, [], []⟩

/-- An accept that was given the socket of the connection has succeeded. -/
def connected (c : ConnectionState) : ConnectionState := { c with isOpen := true }

/-- `connection::start` -/
def start (c : ConnectionState) : ConnectionState := doRead.foldl ConnectionState.perform c

/-- What the log has of the accept handler: its call, with the connection whose socket the accept was given
and what it found, and each call of `start`. -/
inductive ServerAction where
  | acceptHandled (id : ℕ) (ec : Option ErrorCode) (acceptorIsOpen : Bool)
  | start (id : ℕ)
  deriving DecidableEq, Repr

/-- The data members of `class server` with the outstanding accept and the connections. `returning` is set
while the accept handler has still to call `do_accept`. -/
structure ServerState where
  acceptorIsOpen : Bool
  newConnection_ : Option ℕ
  accepts : List (Pending ℕ)
  returning : Bool
  conns : List ConnectionState
  log : List ServerAction
  deriving DecidableEq, Repr

/-- What can happen to the server. That the acceptor closes is up to the environment. The members that the
constructor of a connection leaves uninitialised come with the event that constructs it. -/
inductive ServerEvent where
  | acceptCompletes (i : ℕ) (c : Completion)
  | acceptHandler (i : ℕ)
  | doAccept (major minor : Int32) (status : StatusType)
  | closeAcceptor
  | connectionCompletes (id : ℕ) (i : ℕ) (c : Completion)
  | connectionHandler (id : ℕ) (i : ℕ) (fs : FileSystem)

namespace ServerState

/-- `server::do_accept`, with the new connection -/
def doAccept (s : ServerState) (c : ConnectionState) : ServerState :=
  { s with
    newConnection_ := some s.conns.length
    accepts := s.accepts ++ [⟨s.conns.length, !s.acceptorIsOpen, none⟩]
    returning := false
    conns := s.conns ++ [c] }

/-- `new_connection_->start()` -/
def startNew (s : ServerState) : ServerState :=
  match s.newConnection_ with
  | some id => { s with conns := s.conns.modify id start, log := s.log ++ [.start id] }
  | none => s

/-- The handler that `do_accept` passes to `async_accept`, up to its call of `do_accept`. -/
def acceptHandler (s : ServerState) (id : ℕ) (done : Completion) : ServerState :=
  let s := { s with log := s.log ++ [.acceptHandled id done.ec s.acceptorIsOpen] }
  if s.acceptorIsOpen = false then s
  else { (if done.ec = none then s.startNew else s) with returning := true }

/-- The state after the constructor of `server`. -/
def constructed (c : ConnectionState) : ServerState := doAccept ⟨true, none, [], false, [], []⟩ c

/-- An event of the server. -/
def step (docRoot : List UInt8) (s : ServerState) : ServerEvent → Option ServerState
  | .acceptCompletes i c =>
      s.accepts[i]?.bind fun p =>
        (complete s.acceptorIsOpen s.accepts i c).map fun ps =>
          { s with
            accepts := ps
            conns := if c.ec = none then s.conns.modify p.op connected else s.conns }
  | .acceptHandler i =>
      (dispatch s.accepts i).map fun (id, done, ps) => { s with accepts := ps }.acceptHandler id done
  | .doAccept major minor status =>
      if s.returning then some (s.doAccept (newConnection major minor status)) else none
  | .closeAcceptor => some { s with acceptorIsOpen := false }
  | .connectionCompletes id i c =>
      s.conns[id]?.bind fun conn =>
        (conn.complete i c).map fun conn' => { s with conns := s.conns.set id conn' }
  | .connectionHandler id i fs =>
      s.conns[id]?.bind fun conn =>
        (conn.handler http2 docRoot i fs).map fun (conn', _) => { s with conns := s.conns.set id conn' }

/-! ## Who holds a connection -/

/-- What holds a `connection_ptr`: the member of the server, or the handler of an operation. -/
inductive Holder where
  | newConnection_
  | handler (op : Op)
  deriving DecidableEq, Repr

/-- The outstanding operations of a connection. -/
def pendingOf (s : ServerState) (id : ℕ) : List (Pending Op) :=
  match s.conns[id]? with
  | some c => c.pending
  | none => []

/-- The owners of a connection. -/
def holders (s : ServerState) (id : ℕ) : List Holder :=
  (if s.newConnection_ = some id then [.newConnection_] else []) ++
    (s.pendingOf id).map fun p => .handler p.op

/-- An operation that uses the connection is outstanding: the accept that was given its socket, or a read
or write. -/
def Outstanding (s : ServerState) (id : ℕ) : Prop := (∃ p ∈ s.accepts, p.op = id) ∨ s.pendingOf id ≠ []

/-- The accept of the connection has failed, or its chain of reads and writes has ended. -/
def Ended (s : ServerState) (id : ℕ) : Prop :=
  (∃ ec isOpen, .acceptHandled id (some ec) isOpen ∈ s.log) ∨ (.start id ∈ s.log ∧ s.pendingOf id = [])

end ServerState

/-- The server of http2/, from its construction on. -/
def serverMachine (docRoot : List UInt8) : Machine ServerState ServerEvent where
  init s := ∃ major minor status, s = .constructed (newConnection major minor status)
  step := ServerState.step docRoot

/-! ## The log -/

/-- The connection whose accept was handled. -/
def ServerAction.handledConn : ServerAction → Option ℕ
  | .acceptHandled id _ _ => some id
  | .start _ => none

/-- The connection whose accept had succeeded when its handler found the acceptor open. -/
def ServerAction.acceptedConn : ServerAction → Option ℕ
  | .acceptHandled id none true => some id
  | _ => none

/-- The connection on which `start` was called. -/
def ServerAction.startedConn : ServerAction → Option ℕ
  | .start id => some id
  | .acceptHandled _ _ _ => none

namespace ServerState

/-- The connections whose accepts were handled, in order. -/
def handled (s : ServerState) : List ℕ := s.log.filterMap ServerAction.handledConn

/-- Those whose accepts had succeeded and whose handlers found the acceptor open. -/
def accepted (s : ServerState) : List ℕ := s.log.filterMap ServerAction.acceptedConn

/-- The connections on which `start` was called, in order. -/
def starts (s : ServerState) : List ℕ := s.log.filterMap ServerAction.startedConn

end ServerState

theorem mem_log_of_mem_accepted {s : ServerState} {id : ℕ} (h : id ∈ s.accepted) :
    .acceptHandled id none true ∈ s.log := by
  obtain ⟨a, ha, hid⟩ := List.mem_filterMap.1 h
  cases a with
  | start id' => cases hid
  | acceptHandled id' ec isOpen =>
      rcases ec with _ | ec
      · cases isOpen
        · cases hid
        · cases hid
          exact ha
      · cases hid

theorem mem_handled_of_mem_log {s : ServerState} {id : ℕ} {ec : Option ErrorCode} {isOpen : Bool}
    (h : .acceptHandled id ec isOpen ∈ s.log) : id ∈ s.handled :=
  List.mem_filterMap.2 ⟨_, h, rfl⟩

/-! ## The invariant -/

/-- The accept has succeeded, and its handler is queued. -/
def succeeded (p : Pending ℕ) : Bool := p.completion.any fun c => c.ec = none

/-- What holds in every state, where `k` is the newest connection. It is the one in `new_connection_` and
the one whose socket an outstanding accept was given, and an accept outstanding means that `start` was not
called on it. A connection that was started is in a state of a run of its own. -/
structure Consistent (docRoot : List UInt8) (k : ℕ) (s : ServerState) : Prop where
  slot : s.newConnection_ = some k
  last : s.conns.length = k + 1
  oneAccept : s.accepts.length + s.returning.toNat ≤ 1
  accepting : ∀ p ∈ s.accepts, p.op = k ∧ k ∉ s.handled ∧ ∃ major minor status,
    s.conns[k]? = some { newConnection major minor status with isOpen := succeeded p }
  handled_le : ∀ id ∈ s.handled, id ≤ k
  distinct : s.handled.Nodup
  starts : s.starts = s.accepted
  unstarted : ∀ id, id ∉ s.starts → s.pendingOf id = []
  run : ∀ id ∈ s.starts, ∃ c, s.conns[id]? = some c ∧ (connectionMachine http2 docRoot).Reachable c

section Consistent

variable {docRoot : List UInt8} {k : ℕ} {s t : ServerState}

theorem pendingOf_of_getElem? {id : ℕ} {c : ConnectionState} (h : s.conns[id]? = some c) :
    s.pendingOf id = c.pending := by
  rw [ServerState.pendingOf, h]

theorem pendingOf_congr {id : ℕ} (h : s.conns[id]? = t.conns[id]?) : s.pendingOf id = t.pendingOf id := by
  rw [ServerState.pendingOf, h, ServerState.pendingOf]

theorem Consistent.starts_handled (hs : Consistent docRoot k s) {id : ℕ} (h : id ∈ s.starts) :
    id ∈ s.handled :=
  mem_handled_of_mem_log (mem_log_of_mem_accepted (hs.starts ▸ h))

/-- Without an operation nothing can happen to a connection. -/
theorem connection_step_eq_none {c : ConnectionState} {e : ConnectionEvent} (h : c.pending = []) :
    (connectionMachine http2 docRoot).step c e = none := by
  cases e <;> simp [connectionMachine, ConnectionState.complete, ConnectionState.handler, complete, dispatch,
    http2, h]

theorem connectionCompletes_eq_some {id i : ℕ} {c : Completion}
    (h : s.step docRoot (.connectionCompletes id i c) = some t) :
    ∃ conn conn' e, s.conns[id]? = some conn ∧ (connectionMachine http2 docRoot).step conn e = some conn' ∧
      t = { s with conns := s.conns.set id conn' } := by
  obtain ⟨conn, hid, h⟩ := Option.bind_eq_some_iff.1 h
  obtain ⟨conn', hconn', rfl⟩ := Option.map_eq_some_iff.1 h
  exact ⟨conn, conn', .complete i c, hid, hconn', rfl⟩

theorem connectionHandler_eq_some {id i : ℕ} {fs : FileSystem}
    (h : s.step docRoot (.connectionHandler id i fs) = some t) :
    ∃ conn conn' e, s.conns[id]? = some conn ∧ (connectionMachine http2 docRoot).step conn e = some conn' ∧
      t = { s with conns := s.conns.set id conn' } := by
  obtain ⟨conn, hid, h⟩ := Option.bind_eq_some_iff.1 h
  obtain ⟨⟨conn', acts⟩, hconn', rfl⟩ := Option.map_eq_some_iff.1 h
  exact ⟨conn, conn', .handler i fs, hid, Option.map_eq_some_iff.2 ⟨_, hconn', rfl⟩, rfl⟩

/-- After a step of one connection, each connection has made a step or is as it was. -/
theorem getElem?_set_cases {conns : List ConnectionState} {id id' : ℕ} {c c' d : ConnectionState}
    {e : ConnectionEvent} (hid : conns[id']? = some c)
    (hstep : (connectionMachine http2 docRoot).step c e = some c') (hd : conns[id]? = some d) :
    ∃ d', (conns.set id' c')[id]? = some d' ∧
      (d' = d ∨ ∃ e', (connectionMachine http2 docRoot).step d e' = some d') := by
  by_cases heq : id' = id
  · subst heq
    obtain rfl : c = d := Option.some.inj (hid.symm.trans hd)
    exact ⟨c', List.getElem?_set_self (List.getElem?_eq_some_iff.1 hid).1, Or.inr ⟨e, hstep⟩⟩
  · exact ⟨d, (List.getElem?_set_ne heq).trans hd, Or.inl rfl⟩

/-- A connection makes a step of its own. -/
theorem Consistent.set (hs : Consistent docRoot k s) {id : ℕ} {c c' : ConnectionState} {e : ConnectionEvent}
    (hid : s.conns[id]? = some c) (hstep : (connectionMachine http2 docRoot).step c e = some c') :
    Consistent docRoot k { s with conns := s.conns.set id c' } := by
  -- an operation is outstanding, so it was started
  have hstarted : id ∈ s.starts := by
    by_contra hnot
    have hnone := hs.unstarted id hnot
    rw [pendingOf_of_getElem? hid] at hnone
    rw [connection_step_eq_none hnone] at hstep
    cases hstep
  have hsame : ∀ {id'}, id' ≠ id → (s.conns.set id c')[id']? = s.conns[id']? := fun hne =>
    List.getElem?_set_ne (Ne.symm hne)
  refine ⟨hs.slot, (List.length_set).trans hs.last, hs.oneAccept, ?_, hs.handled_le, hs.distinct, hs.starts,
    ?_, ?_⟩
  · intro p hp
    obtain ⟨hop, hnot, hconn⟩ := hs.accepting p hp
    have hne : k ≠ id := fun heq => hnot (heq ▸ hs.starts_handled hstarted)
    exact ⟨hop, hnot, (hsame hne).symm ▸ hconn⟩
  · intro id' hnot
    have hne : id' ≠ id := fun heq => hnot (heq ▸ hstarted)
    rw [← hs.unstarted id' hnot]
    exact pendingOf_congr (hsame hne)
  · intro id' hid'
    obtain ⟨d, hd, hreach⟩ := hs.run id' hid'
    obtain ⟨d', hd', rfl | ⟨e', he'⟩⟩ := getElem?_set_cases hid hstep hd
    · exact ⟨d', hd', hreach⟩
    · exact ⟨d', hd', hreach.step he'⟩

/-- The accept completes. -/
theorem Consistent.acceptCompletes (hs : Consistent docRoot k s) {i : ℕ} {c : Completion}
    (h : s.step docRoot (.acceptCompletes i c) = some t) : Consistent docRoot k t := by
  obtain ⟨p', hp', h⟩ := Option.bind_eq_some_iff.1 h
  obtain ⟨ps, hps, rfl⟩ := Option.map_eq_some_iff.1 h
  have hone : s.accepts.length ≤ 1 := le_of_add_le_left hs.oneAccept
  obtain ⟨p, hp, hnone, -, rfl⟩ := complete_of_length_le_one hone hps
  obtain rfl : p = p' := by
    rw [hp] at hp'
    exact List.mem_singleton.1 (List.mem_of_getElem? hp') |>.symm
  obtain ⟨hop, hnot, major, minor, status, hconn⟩ := hs.accepting p (hp ▸ List.mem_singleton_self p)
  set conns := if c.ec = none then s.conns.modify p.op connected else s.conns with hconns
  have hsame : ∀ {id}, id ≠ k → conns[id]? = s.conns[id]? := by
    intro id hne
    rw [hconns]
    split
    · exact List.getElem?_modify_ne _ _ (hop ▸ Ne.symm hne)
    · rfl
  have hnew : conns[k]? = some { newConnection major minor status with isOpen := decide (c.ec = none) } := by
    rw [hconns]
    split
    · next hec => simp [hop, hconn, connected, hec]
    · next hec => simp [hconn, succeeded, hnone, hec]
  have hlen : conns.length = k + 1 := by
    rw [hconns]
    split
    · rw [List.length_modify, hs.last]
    · exact hs.last
  refine ⟨hs.slot, hlen, ?_, ?_, hs.handled_le, hs.distinct, hs.starts, ?_, ?_⟩
  · have hle := hs.oneAccept
    rw [hp] at hle
    exact hle
  · intro q hq
    obtain rfl := List.mem_singleton.1 hq
    exact ⟨hop, hnot, major, minor, status, hnew⟩
  · intro id hid
    by_cases heq : id = k
    · subst heq
      exact pendingOf_of_getElem? (s := { s with accepts := _, conns := conns }) hnew
    · rw [← hs.unstarted id hid]
      exact pendingOf_congr (hsame heq)
  · intro id hid
    have hne : id ≠ k := fun heq => hnot (heq ▸ hs.starts_handled hid)
    obtain ⟨d, hd, hreach⟩ := hs.run id hid
    exact ⟨d, (hsame hne).trans hd, hreach⟩

/-- **What the accept handler does**: it starts the connection in `new_connection_` where the accept has
succeeded and the acceptor is open, and otherwise it starts nothing. -/
theorem acceptHandler_cases (id : ℕ) (done : Completion) (hslot : s.newConnection_ = some k) :
    let a : ServerAction := .acceptHandled id done.ec s.acceptorIsOpen
    (a.acceptedConn = none ∧ ∃ returning, s.acceptHandler id done =
      { s with log := s.log ++ [a], returning := returning }) ∨
    (done.ec = none ∧ a.acceptedConn = some id ∧ s.acceptHandler id done =
      { s with
        conns := s.conns.modify k start
        log := s.log ++ [a, .start k]
        returning := true }) := by
  intro a
  by_cases hopen : s.acceptorIsOpen = false
  · refine Or.inl ⟨?_, s.returning, ?_⟩
    · cases hec : done.ec <;> simp [a, hopen, hec, ServerAction.acceptedConn]
    · simp [a, ServerState.acceptHandler, hopen]
  · have hopen : s.acceptorIsOpen = true := by simpa using hopen
    cases hec : done.ec with
    | some ec =>
        refine Or.inl ⟨?_, true, ?_⟩
        · simp [a, hec, ServerAction.acceptedConn]
        · simp [a, ServerState.acceptHandler, hopen, hec]
    | none =>
        refine Or.inr ⟨rfl, ?_, ?_⟩
        · simp [a, hopen, hec, ServerAction.acceptedConn]
        · simp [a, ServerState.acceptHandler, ServerState.startNew, hslot, hopen, hec]

/-- The log has one more accept, and it is the first one of this connection. -/
theorem Consistent.handled_append (hs : Consistent docRoot k s) (hnot : k ∉ s.handled) :
    (∀ id ∈ s.handled ++ [k], id ≤ k) ∧ (s.handled ++ [k]).Nodup := by
  constructor
  · intro id hid
    rcases List.mem_append.1 hid with hold | hnew
    · exact hs.handled_le id hold
    · exact (List.mem_singleton.1 hnew).le
  · rw [List.nodup_append]
    refine ⟨hs.distinct, List.nodup_singleton _, fun a ha b hb heq => hnot ?_⟩
    rwa [heq, List.mem_singleton.1 hb] at ha

/-- An accept was handled and nothing is started. -/
theorem Consistent.notStarted (hs : Consistent docRoot k s) (hnot : k ∉ s.handled)
    {ec : Option ErrorCode} {isOpen : Bool}
    (hnone : (ServerAction.acceptHandled k ec isOpen).acceptedConn = none) (returning : Bool) :
    Consistent docRoot k
      { s with accepts := [], log := s.log ++ [.acceptHandled k ec isOpen], returning := returning } := by
  set a : ServerAction := .acceptHandled k ec isOpen
  have hhandled : (s.log ++ [a]).filterMap ServerAction.handledConn = s.handled ++ [k] :=
    List.filterMap_append
  have hstarts : (s.log ++ [a]).filterMap ServerAction.startedConn = s.starts :=
    List.filterMap_append.trans (List.append_nil _)
  have haccepted : (s.log ++ [a]).filterMap ServerAction.acceptedConn = s.accepted := by
    rw [List.filterMap_append, List.filterMap_cons_none hnone, List.filterMap_nil, List.append_nil]
    rfl
  obtain ⟨hle, hdistinct⟩ := hs.handled_append hnot
  refine ⟨hs.slot, hs.last, ?_, nofun, ?_, ?_, ?_, ?_, ?_⟩
  · cases returning <;> simp
  · rw [ServerState.handled, hhandled]
    exact hle
  · rw [ServerState.handled, hhandled]
    exact hdistinct
  · rw [ServerState.starts, hstarts, ServerState.accepted, haccepted, hs.starts]
  · rw [ServerState.starts, hstarts]
    exact hs.unstarted
  · rw [ServerState.starts, hstarts]
    exact hs.run

/-- An accept was handled and its connection is started. -/
theorem Consistent.started (hs : Consistent docRoot k s) (hnot : k ∉ s.handled)
    {ec : Option ErrorCode} {isOpen : Bool}
    (hsome : (ServerAction.acceptHandled k ec isOpen).acceptedConn = some k)
    {major minor : Int32} {status : StatusType}
    (hconn : s.conns[k]? = some (connected (newConnection major minor status))) :
    Consistent docRoot k
      { s with
        accepts := []
        conns := s.conns.modify k start
        log := s.log ++ [.acceptHandled k ec isOpen, .start k]
        returning := true } := by
  set a : ServerAction := .acceptHandled k ec isOpen
  have hhandled : (s.log ++ [a, .start k]).filterMap ServerAction.handledConn = s.handled ++ [k] :=
    List.filterMap_append
  have hstarts : (s.log ++ [a, .start k]).filterMap ServerAction.startedConn = s.starts ++ [k] :=
    List.filterMap_append
  have haccepted : (s.log ++ [a, .start k]).filterMap ServerAction.acceptedConn = s.accepted ++ [k] := by
    rw [List.filterMap_append, List.filterMap_cons_some hsome]
    rfl
  have hsame : ∀ {id}, id ≠ k → (s.conns.modify k start)[id]? = s.conns[id]? := fun hne =>
    List.getElem?_modify_ne _ _ (Ne.symm hne)
  obtain ⟨hle, hdistinct⟩ := hs.handled_append hnot
  refine ⟨hs.slot, (List.length_modify _ _ _).trans hs.last, Nat.le_refl 1, nofun, ?_, ?_, ?_, ?_, ?_⟩
  · rw [ServerState.handled, hhandled]
    exact hle
  · rw [ServerState.handled, hhandled]
    exact hdistinct
  · rw [ServerState.starts, hstarts, ServerState.accepted, haccepted, hs.starts]
  · intro id hid
    rw [ServerState.starts, hstarts, List.mem_append, not_or] at hid
    rw [← hs.unstarted id hid.1]
    exact pendingOf_congr (hsame fun heq => hid.2 (List.mem_singleton.2 heq))
  · intro id hid
    rw [ServerState.starts, hstarts, List.mem_append, List.mem_singleton] at hid
    rcases hid with hold | rfl
    · have hne : id ≠ k := fun heq => hnot (heq ▸ hs.starts_handled hold)
      obtain ⟨c, hc, hreach⟩ := hs.run id hold
      exact ⟨c, (hsame hne).trans hc, hreach⟩
    · refine ⟨_, ?_, .of_init ⟨major, minor, status, rfl⟩⟩
      rw [List.getElem?_modify_eq, hconn]
      rfl

/-- The accept handler runs up to its call of `do_accept`. -/
theorem Consistent.acceptHandler (hs : Consistent docRoot k s) {i : ℕ}
    (h : s.step docRoot (.acceptHandler i) = some t) : Consistent docRoot k t := by
  obtain ⟨⟨id, done, ps⟩, hd, rfl⟩ := Option.map_eq_some_iff.1 h
  have hone : s.accepts.length ≤ 1 := le_of_add_le_left hs.oneAccept
  obtain ⟨p, hp, rfl, hdone, rfl⟩ := dispatch_of_length_le_one hone hd
  obtain ⟨rfl, hnot, major, minor, status, hconn⟩ := hs.accepting p (hp ▸ List.mem_singleton_self p)
  dsimp only
  rcases acceptHandler_cases (s := { s with accepts := [] }) p.op done hs.slot with
    ⟨hnone, returning, hq⟩ | ⟨hec, hsome, hq⟩
  · rw [hq]
    exact hs.notStarted hnot hnone returning
  · have hopen : succeeded p = true := by simp [succeeded, hdone, hec]
    rw [hopen] at hconn
    rw [hq]
    exact hs.started hnot hsome hconn

/-- The new connection has nothing outstanding but the accept. -/
theorem pendingOf_doAccept {c : ConnectionState} (hc : c.pending = []) (id : ℕ) :
    (s.doAccept c).pendingOf id = s.pendingOf id := by
  rcases Nat.lt_trichotomy id s.conns.length with hlt | rfl | hgt
  · exact pendingOf_congr (List.getElem?_append_left hlt)
  · have hnew : (s.doAccept c).conns[s.conns.length]? = some c := List.getElem?_concat_length
    rw [pendingOf_of_getElem? hnew, hc, ServerState.pendingOf, List.getElem?_eq_none (Nat.le_refl _)]
  · refine pendingOf_congr ?_
    rw [List.getElem?_eq_none hgt.le, List.getElem?_eq_none]
    simpa [ServerState.doAccept] using hgt

/-- When `do_accept` is called, no accept is outstanding. -/
theorem Consistent.accepts_of_doAccept (hs : Consistent docRoot k s) (hreturning : s.returning = true) :
    s.accepts = [] := by
  have hle := hs.oneAccept
  rw [hreturning] at hle
  exact List.length_eq_zero_iff.1 (Nat.le_zero.1 (Nat.le_of_succ_le_succ hle))

/-- `do_accept` is called: the new connection takes the place of the last one. -/
theorem Consistent.doAccept (hs : Consistent docRoot k s) {major minor : Int32} {status : StatusType}
    (h : s.step docRoot (.doAccept major minor status) = some t) : Consistent docRoot (k + 1) t := by
  obtain ⟨hreturning, heq⟩ := Option.ite_none_right_eq_some.1 h
  cases heq
  have hnone : s.accepts = [] := hs.accepts_of_doAccept hreturning
  have hold : ∀ {id : ℕ} {c : ConnectionState}, s.conns[id]? = some c →
      (s.conns ++ [newConnection major minor status])[id]? = some c := by
    intro id c hid
    rw [List.getElem?_append_left (List.getElem?_eq_some_iff.1 hid).1, hid]
  refine ⟨congrArg some hs.last, ?_, ?_, ?_, fun id hid => (hs.handled_le id hid).trans k.le_succ,
    hs.distinct, hs.starts, ?_, ?_⟩
  · rw [ServerState.doAccept, List.length_append, hs.last]
    rfl
  · simp [ServerState.doAccept, hnone]
  · intro p hp
    have hp : p = ⟨s.conns.length, !s.acceptorIsOpen, none⟩ := by
      simpa [ServerState.doAccept, hnone] using hp
    rw [hp]
    refine ⟨hs.last, fun hmem => Nat.lt_irrefl k (hs.handled_le _ hmem), major, minor, status, ?_⟩
    rw [ServerState.doAccept, ← hs.last, List.getElem?_concat_length]
    rfl
  · intro id hid
    rw [pendingOf_doAccept rfl]
    exact hs.unstarted id hid
  · intro id hid
    obtain ⟨c, hc, hreach⟩ := hs.run id hid
    exact ⟨c, hold hc, hreach⟩

/-- Every step leads to a consistent state. -/
theorem Consistent.step (hs : Consistent docRoot k s) {e : ServerEvent} (h : s.step docRoot e = some t) :
    ∃ k', Consistent docRoot k' t := by
  cases e with
  | acceptCompletes i c => exact ⟨k, hs.acceptCompletes h⟩
  | acceptHandler i => exact ⟨k, hs.acceptHandler h⟩
  | doAccept major minor status => exact ⟨k + 1, hs.doAccept h⟩
  | closeAcceptor =>
      cases h
      exact ⟨k, hs.slot, hs.last, hs.oneAccept, hs.accepting, hs.handled_le, hs.distinct, hs.starts,
        hs.unstarted, hs.run⟩
  | connectionCompletes id i c =>
      obtain ⟨conn, conn', e, hid, hstep, rfl⟩ := connectionCompletes_eq_some h
      exact ⟨k, hs.set hid hstep⟩
  | connectionHandler id i fs =>
      obtain ⟨conn, conn', e, hid, hstep, rfl⟩ := connectionHandler_eq_some h
      exact ⟨k, hs.set hid hstep⟩

/-- Every reachable state is consistent. -/
theorem consistent (h : (serverMachine docRoot).Reachable s) : ∃ k, Consistent docRoot k s := by
  apply h.invariant (I := fun s => ∃ k, Consistent docRoot k s)
  · rintro s ⟨major, minor, status, rfl⟩
    refine ⟨0, rfl, rfl, Nat.le_refl 1, ?_, nofun, .nil, rfl, ?_, nofun⟩
    · intro p hp
      rw [List.mem_singleton.1 hp]
      exact ⟨rfl, nofun, major, minor, status, rfl⟩
    · intro id _
      rw [ServerState.constructed, pendingOf_doAccept rfl]
      rfl
  · rintro s e t ⟨k, hs⟩ hstep
    exact hs.step hstep

/-! ## After `do_accept` -/

/-- **What a step does to the other connections**: each of them makes a step of its own, or it stays as it
is, and none of them gets into `new_connection_` again. -/
theorem Consistent.step_spec (hs : Consistent docRoot k s) {e : ServerEvent}
    (h : s.step docRoot e = some t) :
    (t.newConnection_ = some k ∨ t.newConnection_ = some (k + 1)) ∧
      ∀ id c, id ≠ k → s.conns[id]? = some c → ∃ c', t.conns[id]? = some c' ∧
        (c' = c ∨ ∃ e', (connectionMachine http2 docRoot).step c e' = some c') := by
  cases e with
  | acceptCompletes i c =>
      obtain ⟨p, hp, h⟩ := Option.bind_eq_some_iff.1 h
      obtain ⟨ps, -, rfl⟩ := Option.map_eq_some_iff.1 h
      obtain ⟨hop, -⟩ := hs.accepting p (List.mem_of_getElem? hp)
      refine ⟨Or.inl hs.slot, fun id d hne hd => ⟨d, ?_, Or.inl rfl⟩⟩
      dsimp only
      split
      · rw [List.getElem?_modify_ne _ _ (hop ▸ Ne.symm hne), hd]
      · exact hd
  | acceptHandler i =>
      obtain ⟨⟨id, done, ps⟩, -, rfl⟩ := Option.map_eq_some_iff.1 h
      dsimp only
      rcases acceptHandler_cases (s := { s with accepts := ps }) id done hs.slot with
        ⟨-, returning, hq⟩ | ⟨-, -, hq⟩
      · rw [hq]
        exact ⟨Or.inl hs.slot, fun id d _ hd => ⟨d, hd, Or.inl rfl⟩⟩
      · rw [hq]
        exact ⟨Or.inl hs.slot, fun id d hne hd =>
          ⟨d, (List.getElem?_modify_ne _ _ (Ne.symm hne)).trans hd, Or.inl rfl⟩⟩
  | doAccept major minor status =>
      obtain ⟨-, heq⟩ := Option.ite_none_right_eq_some.1 h
      cases heq
      refine ⟨Or.inr (congrArg some hs.last), fun id d _ hd => ⟨d, ?_, Or.inl rfl⟩⟩
      exact (List.getElem?_append_left (List.getElem?_eq_some_iff.1 hd).1).trans hd
  | closeAcceptor =>
      cases h
      exact ⟨Or.inl hs.slot, fun id d _ hd => ⟨d, hd, Or.inl rfl⟩⟩
  | connectionCompletes id' i c =>
      obtain ⟨conn, conn', e, hid, hstep, rfl⟩ := connectionCompletes_eq_some h
      exact ⟨Or.inl hs.slot, fun id d _ hd => getElem?_set_cases hid hstep hd⟩
  | connectionHandler id' i fs =>
      obtain ⟨conn, conn', e, hid, hstep, rfl⟩ := connectionHandler_eq_some h
      exact ⟨Or.inl hs.slot, fun id d _ hd => getElem?_set_cases hid hstep hd⟩

/-- A connection that `do_accept` has replaced, and on which nothing is outstanding any more. -/
structure Retired (id : ℕ) (s : ServerState) : Prop where
  idle : ∃ c, s.conns[id]? = some c ∧ c.pending = []
  replaced : ∃ k, s.newConnection_ = some k ∧ id < k

theorem Retired.holders {id : ℕ} (hr : Retired id s) : s.holders id = [] := by
  obtain ⟨c, hc, hidle⟩ := hr.idle
  obtain ⟨k, hk, hlt⟩ := hr.replaced
  have hne : s.newConnection_ ≠ some id := by
    rw [hk]
    exact fun heq => hlt.ne' (Option.some.inj heq)
  rw [ServerState.holders, if_neg hne, pendingOf_of_getElem? hc, hidle]
  rfl

/-- What is retired stays retired. -/
theorem Retired.step {id : ℕ} (hr : Retired id s) (hs : Consistent docRoot k s) {e : ServerEvent}
    (h : s.step docRoot e = some t) : Retired id t := by
  obtain ⟨hslot, hconns⟩ := hs.step_spec h
  obtain ⟨c, hc, hidle⟩ := hr.idle
  obtain ⟨k', hk', hlt⟩ := hr.replaced
  obtain rfl : k' = k := Option.some.inj (hk'.symm.trans hs.slot)
  obtain ⟨c', hc', rfl | ⟨e', hstep⟩⟩ := hconns id c hlt.ne hc
  · refine ⟨⟨c', hc', hidle⟩, ?_⟩
    rcases hslot with hsame | hnext
    · exact ⟨k', hsame, hlt⟩
    · exact ⟨k' + 1, hnext, Nat.lt_succ_of_lt hlt⟩
  · rw [connection_step_eq_none hidle] at hstep
    cases hstep

/-- A connection that has ended was handled, and nothing is outstanding on it. -/
theorem Consistent.ended (hs : Consistent docRoot k s) {id : ℕ} (h : s.Ended id) :
    id ≤ k ∧ s.pendingOf id = [] := by
  rcases h with ⟨ec, isOpen, hlog⟩ | ⟨hlog, hidle⟩
  · refine ⟨hs.handled_le id (mem_handled_of_mem_log hlog), hs.unstarted id fun hstarted => ?_⟩
    -- the accept of a connection is handled only once
    have hlog' := mem_log_of_mem_accepted (hs.starts ▸ hstarted)
    have heq := eq_of_nodup_filterMap hs.distinct hlog hlog' rfl rfl
    cases heq
  · have hstarted : id ∈ s.starts := List.mem_filterMap.2 ⟨_, hlog, rfl⟩
    exact ⟨hs.handled_le id (hs.starts_handled hstarted), hidle⟩

/-- An outstanding operation keeps its connection alive: a read or write holds it, and the accept was given
the socket of `new_connection_`. -/
theorem Consistent.holders_ne_nil (hs : Consistent docRoot k s) {id : ℕ} (h : s.Outstanding id) :
    s.holders id ≠ [] := by
  rcases h with ⟨p, hp, hop⟩ | hpending
  · obtain ⟨hk, -⟩ := hs.accepting p hp
    have hslot : s.newConnection_ = some id := by rw [hs.slot, ← hop, hk]
    simp [ServerState.holders, hslot]
  · simp [ServerState.holders, hpending]

/-- **Overwriting `new_connection_` neither kills nor leaks a connection.** In every state of every run,
`start` was called once on each connection whose socket was given to an accept that succeeded and whose
handler found the acceptor open, and on no other; every connection with an outstanding operation has an
owner, and it still has one when `do_accept` resets `new_connection_`; and from then on a connection whose
accept had failed, or whose chain of reads and writes had ended, has no owner. -/
theorem new_connection_owned (docRoot : List UInt8) (s : ServerState)
    (h : (serverMachine docRoot).Reachable s) :
    s.starts = s.accepted ∧ s.handled.Nodup ∧
      (∀ id, s.Outstanding id → s.holders id ≠ []) ∧
      ∀ major minor status t, s.step docRoot (.doAccept major minor status) = some t →
        (∀ id, s.Outstanding id → t.holders id ≠ []) ∧
        ∀ id, s.Ended id → ∀ es u, (serverMachine docRoot).exec t es = some u → u.holders id = [] := by
  obtain ⟨k, hs⟩ := consistent h
  refine ⟨hs.starts, hs.distinct, fun id => hs.holders_ne_nil, fun major minor status t hstep => ?_⟩
  have ht := hs.doAccept hstep
  obtain ⟨hreturning, heq⟩ := Option.ite_none_right_eq_some.1 hstep
  have hpending : ∀ id, t.pendingOf id = s.pendingOf id := by
    intro id
    cases heq
    exact pendingOf_doAccept rfl id
  constructor
  · intro id hout
    refine ht.holders_ne_nil (Or.inr ?_)
    rw [hpending]
    refine hout.resolve_left ?_
    rw [hs.accepts_of_doAccept hreturning]
    rintro ⟨p, hp, -⟩
    cases hp
  · intro id hended es u hrun
    obtain ⟨hle, hidle⟩ := hs.ended hended
    have hlt : id < t.conns.length := by
      rw [ht.last]
      omega
    rw [← hpending, pendingOf_of_getElem? (List.getElem?_eq_getElem hlt)] at hidle
    have hretired : Retired id t :=
      ⟨⟨_, List.getElem?_eq_getElem hlt, hidle⟩, k + 1, ht.slot, Nat.lt_succ_of_le hle⟩
    have key : (serverMachine docRoot).Reachable u ∧ Retired id u := by
      refine Machine.exec_preserves (I := fun u => (serverMachine docRoot).Reachable u ∧ Retired id u) ?_
        ⟨h.step (e := .doAccept major minor status) hstep, hretired⟩ hrun
      rintro u e v ⟨hu, hr⟩ huv
      obtain ⟨k', hu'⟩ := consistent hu
      exact ⟨hu.step huv, hr.step hu' huv⟩
    exact key.2.holders

end Consistent

/-- The first connection is started and its read fails before `do_accept` is called; the second accept
fails. -/
theorem new_connection_owned_twoAccepts :
    ∃ s t, (serverMachine []).exec (.constructed (newConnection 0 0 .ok))
        [.acceptCompletes 0 ⟨none, []⟩, .acceptHandler 0, .connectionCompletes 0 0 ⟨some (.other 104), []⟩,
          .connectionHandler 0 0 fun _ => none, .doAccept 0 0 .ok,
          .acceptCompletes 0 ⟨some (.other 24), []⟩, .acceptHandler 0] = some s ∧
      s.step [] (.doAccept 0 0 .ok) = some t ∧ s.starts = s.accepted ∧
      t.holders 0 = [] ∧ t.holders 1 = [] := by
  have hrun : (serverMachine []).exec (.constructed (newConnection 0 0 .ok))
      [.acceptCompletes 0 ⟨none, []⟩, .acceptHandler 0, .connectionCompletes 0 0 ⟨some (.other 104), []⟩,
        .connectionHandler 0 0 fun _ => none, .doAccept 0 0 .ok,
        .acceptCompletes 0 ⟨some (.other 24), []⟩, .acceptHandler 0] = some _ := rfl
  obtain ⟨hstarts, -, -, hreset⟩ := new_connection_owned [] _ ⟨_, _, ⟨0, 0, .ok, rfl⟩, hrun⟩
  obtain ⟨-, hended⟩ := hreset 0 0 .ok _ rfl
  have hfirst := hended 0 (Or.inr ⟨.tail _ (.head _), rfl⟩) [] _ rfl
  have hsecond := hended 1 (Or.inl ⟨.other 24, true, .tail _ (.tail _ (.head _))⟩) [] _ rfl
  exact ⟨_, _, hrun, rfl, hstarts, hfirst, hsecond⟩

end AsioExamples.Http2
