import Mathlib.Data.Finset.Basic
import AsioExamples.Http.ConnectionRuns

/-!
# The server of http/

`server.cpp` and `connection_manager.cpp`: the acceptor, the signal wait, the set `connections_` and
every connection that was ever started. A connection is known by its position in `conns`, which stands
for its address. What happens to one connection is a run of `connectionMachine http`
(`Consistent.run`), so what holds of every such run holds of every connection of the server.

The sockets and the set change together: a connection is in `connections_` as long as its socket is
open. `Live` says what an open socket means for a single connection, `Consistent` is the invariant of
the server, and `Stopped` what the stop handler leaves behind for good.
-/

set_option autoImplicit false

namespace AsioExamples.Http

open AsioExamples.Cxx AsioExamples.Lib AsioExamples.Asio

/-! ## The server -/

/-- The data members of `class server` and its `connection_manager`, with the outstanding operations
and the connections. -/
structure ServerState where
  acceptorIsOpen : Bool
  accepts : List (Pending Unit)
  signals : List (Pending Unit)
  connections_ : Finset ℕ
  conns : List ConnectionState
  deriving DecidableEq

/-- What can happen to the server: an operation completes, or a queued handler runs. The members that
the constructor of a connection leaves uninitialised come with the event that starts it. -/
inductive ServerEvent where
  | acceptCompletes (i : ℕ) (c : Completion)
  | acceptHandler (i : ℕ) (major minor : Int32) (status : StatusType)
  | signalCompletes (i : ℕ) (c : Completion)
  | signalHandler (i : ℕ)
  | connectionCompletes (id : ℕ) (i : ℕ) (c : Completion)
  | connectionHandler (id : ℕ) (i : ℕ) (fs : FileSystem)

namespace ServerState

/-- `connection_manager::start` -/
def start (s : ServerState) (c : Connection) : ServerState :=
  { s with
    connections_ := insert s.conns.length s.connections_
    conns := s.conns ++ [.started c] }

/-- What `connection_manager::stop` does to the set. That it closes the socket is an action of the
connection. -/
def stop (s : ServerState) (id : ℕ) : ServerState :=
  { s with connections_ := s.connections_.erase id }

/-- `connection_manager::stop_all` -/
def stopAll (s : ServerState) : ServerState :=
  { s with
    conns := s.conns.mapIdx fun id c => if id ∈ s.connections_ then c.stop else c
    connections_ := ∅ }

/-- `server::do_accept` -/
def doAccept (s : ServerState) : ServerState :=
  { s with accepts := s.accepts ++ [⟨(), !s.acceptorIsOpen, none⟩] }

/-- `server::do_await_stop` -/
def doAwaitStop (s : ServerState) : ServerState :=
  { s with signals := s.signals ++ [⟨(), false, none⟩] }

/-- The handler that `do_accept` passes to `async_accept`. -/
def acceptHandler (s : ServerState) (done : Completion) (c : Connection) : ServerState :=
  -- the test is made before `ec` is looked at: a connection accepted before the stop is dropped
  if s.acceptorIsOpen = false then s
  else if done.ec = none then (s.start c).doAccept
  else s.doAccept

/-- The handler that `do_await_stop` passes to `async_wait`. -/
def stopHandler (s : ServerState) : ServerState := { s with acceptorIsOpen := false }.stopAll

/-- The state after the constructor of `server`. -/
def constructed : ServerState := ServerState.doAccept (doAwaitStop ⟨true, [], [], ∅, []⟩)

/-- An event of the server. -/
def step (docRoot : List UInt8) (s : ServerState) : ServerEvent → Option ServerState
  | .acceptCompletes i c =>
      (complete s.acceptorIsOpen s.accepts i c).map fun ps => { s with accepts := ps }
  | .acceptHandler i major minor status =>
      (dispatch s.accepts i).map fun (_, done, ps) =>
        { s with accepts := ps }.acceptHandler done ⟨.fresh major minor, .new, ⟨status, [], []⟩⟩
  | .signalCompletes i c => (complete true s.signals i c).map fun ps => { s with signals := ps }
  | .signalHandler i =>
      (dispatch s.signals i).map fun (_, _, ps) => { s with signals := ps }.stopHandler
  | .connectionCompletes id i c =>
      s.conns[id]?.bind fun conn =>
        (conn.complete i c).map fun conn' => { s with conns := s.conns.set id conn' }
  | .connectionHandler id i fs =>
      s.conns[id]?.bind fun conn =>
        (conn.handler http docRoot i fs).map fun (conn', acts) =>
          let s := { s with conns := s.conns.set id conn' }
          if .managerStop ∈ acts then s.stop id else s

end ServerState

/-- The server of http/, from its construction on. -/
def serverMachine (docRoot : List UInt8) : Machine ServerState ServerEvent where
  init s := s = .constructed
  step := ServerState.step docRoot

/-! ## A connection with an open socket -/

/-- The read of the connection has failed, or its write has ended. -/
def Action.isEnd : Action → Bool
  | .readHandled ec => ec ≠ none
  | .writeHandled _ => true
  | _ => false

/-- A connection whose socket is open: one operation is outstanding, it did not end with
`operation_aborted`, and no earlier operation has ended the connection. -/
structure Live (c : ConnectionState) : Prop where
  one : ∃ p, c.pending = [p] ∧ p.startedClosed = false ∧
    ∀ done, p.completion = some done → done.ec ≠ some .operationAborted
  notEnded : ∀ a ∈ c.trace, a.isEnd = false

theorem live_started (c : Connection) : Live (.started c) :=
  ⟨⟨⟨.readSome, false, none⟩, rfl, rfl, by simp⟩,
    by simp [ConnectionState.started, doRead, ConnectionState.perform, Action.isEnd]⟩

/-- A completion on an open socket is none of a cancelled operation. -/
theorem live_complete {s t : ConnectionState} {i : Nat} {c : Completion} (hopen : s.isOpen = true)
    (hs : Live s) (h : s.complete i c = some t) : Live t := by
  obtain ⟨p, hp, hclosed, -⟩ := hs.one
  obtain ⟨q, hq, -, hmay, rfl⟩ := ConnectionState.complete_eq_some (by simp [hp]) h
  obtain rfl : p = q := by simpa [hp] using hq
  refine ⟨⟨_, rfl, hclosed, ?_⟩, hs.notEnded⟩
  -- `operation_aborted` is delivered only after the socket was closed
  rintro done ⟨⟩
  intro habort
  rw [hopen, habort] at hmay
  simp [mayComplete] at hmay

/-- After a handler that leaves the socket open another operation is outstanding. -/
theorem live_handler {docRoot : List UInt8} {s t : ConnectionState} {i : Nat} {fs : FileSystem}
    {acts : List Action} (hs : s.isOpen = true → Live s)
    (hlen : s.pending.length ≤ 1) (h : s.handler http docRoot i fs = some (t, acts))
    (hopen : t.isOpen = true) : Live t := by
  obtain ⟨p, done, hp, hdone, c', rfl, hact⟩ := ConnectionState.handler_eq_some hlen h
  rw [ConnectionState.foldl_perform_isOpen, Bool.and_eq_true] at hopen
  obtain ⟨hopen, hstop⟩ := hopen
  have hopen : s.isOpen = true := hopen
  have hstop : Action.managerStop ∉ acts := by simpa using hstop
  -- the socket was open before, so the operation that ended was the live one
  obtain ⟨⟨q, hq, -, habort⟩, hend⟩ := hs hopen
  obtain rfl : p = q := by simpa [hp] using hq
  have habort := habort done hdone
  rcases hact with ⟨-, hread⟩ | ⟨rep, -, -, rfl⟩
  · rcases readHandler_cases http (fun req rep => (handleRequest docRoot fs req rep).reply) s.conn done
      with ⟨ec, hec, heq⟩ | ⟨-, c₁, n, -, heq⟩ | ⟨-, c₁, r, n, -, heq⟩
    · -- the read failed, and not because the socket was closed: the manager closes it
      obtain ⟨-, rfl⟩ := Prod.mk.inj (hread.trans heq)
      have hec' : ec ≠ .operationAborted := by
        rintro rfl
        exact habort hec
      apply absurd hstop
      simp [http, hec']
    · -- another read is started on the open socket
      obtain ⟨-, rfl⟩ := Prod.mk.inj (hread.trans heq)
      refine ⟨⟨⟨.readSome, false, none⟩, ?_, rfl, by simp⟩, ?_⟩
      · simp [ConnectionState.perform, hopen]
      · rw [ConnectionState.foldl_perform_trace]
        exact List.forall_mem_append.2 ⟨hend, by simp [Action.isEnd]⟩
    · -- the write of the reply is started on the open socket
      obtain ⟨-, rfl⟩ := Prod.mk.inj (hread.trans heq)
      refine ⟨⟨⟨.write c₁.reply_, false, none⟩, ?_, rfl, by simp⟩, ?_⟩
      · simp [ConnectionState.perform, hopen]
      · rw [ConnectionState.foldl_perform_trace]
        exact List.forall_mem_append.2 ⟨hend, by simp [Action.isEnd]⟩
  · -- the write ended: the manager closes the socket
    apply absurd hstop
    simp [writeHandler, http, habort]

/-- **An open socket has exactly one operation outstanding**, in every run of a connection of http/. -/
theorem live_of_isOpen {docRoot : List UInt8} {s : ConnectionState}
    (h : (connectionMachine http docRoot).Reachable s) : s.isOpen = true → Live s := by
  apply h.induct (I := fun s => s.isOpen = true → Live s)
  · rintro s ⟨major, minor, status, rfl⟩ -
    exact live_started _
  · intro s e t hr hs hstep hopen
    have hlen : s.pending.length ≤ 1 := length_pending_le_one hr
    cases e with
    | complete i c =>
        have hstep : s.complete i c = some t := hstep
        have hsame : t.isOpen = s.isOpen := by
          obtain ⟨p, -, -, -, rfl⟩ := ConnectionState.complete_eq_some hlen hstep
          rfl
        rw [hsame] at hopen
        exact live_complete hopen (hs hopen) hstep
    | handler i fs =>
        obtain ⟨⟨t', acts⟩, hrun, rfl⟩ := Option.map_eq_some_iff.1 hstep
        exact live_handler hs hlen hrun hopen
    | stop =>
        obtain rfl := stop_eq_some hstep
        simp [ConnectionState.stop] at hopen

/-! ## The invariant of the server -/

/-- Every connection has run as a connection does, and those with an open socket are the members of
`connections_`. -/
structure Consistent (docRoot : List UInt8) (s : ServerState) : Prop where
  run : ∀ c ∈ s.conns, (connectionMachine http docRoot).Reachable c
  mem_iff : ∀ id c, s.conns[id]? = some c → (id ∈ s.connections_ ↔ c.isOpen = true)
  started : ∀ id ∈ s.connections_, id < s.conns.length

namespace ServerState

variable {docRoot : List UInt8} {s t : ServerState}

/-- A step that changes neither the set nor a connection. -/
theorem consistent_of_eq (hs : Consistent docRoot s) (hset : t.connections_ = s.connections_)
    (hconns : t.conns = s.conns) : Consistent docRoot t :=
  ⟨hconns ▸ hs.run, by rw [hset, hconns]; exact hs.mem_iff, by rw [hset, hconns]; exact hs.started⟩

theorem consistent_start (hs : Consistent docRoot s) (major minor : Int32) (status : StatusType) :
    Consistent docRoot (s.start ⟨.fresh major minor, .new, ⟨status, [], []⟩⟩) := by
  refine ⟨?_, ?_, ?_⟩
  · intro c hc
    rcases List.mem_append.1 hc with hc | hc
    · exact hs.run c hc
    · rw [List.mem_singleton.1 hc]
      exact .of_init ⟨major, minor, status, rfl⟩
  · intro id c hc
    -- an old connection, the new one, or none
    rcases Nat.lt_trichotomy id s.conns.length with hlt | rfl | hgt
    · have hold : s.conns[id]? = some c := by rwa [start, List.getElem?_append_left hlt] at hc
      rw [← hs.mem_iff id c hold]
      exact Finset.mem_insert.trans (or_iff_right hlt.ne)
    · have hnew : c = .started ⟨.fresh major minor, .new, ⟨status, [], []⟩⟩ := by
        simpa [start] using hc.symm
      rw [hnew]
      exact iff_of_true (Finset.mem_insert_self _ _) rfl
    · rw [List.getElem?_eq_none (by simp [start]; omega)] at hc
      cases hc
  · intro id hid
    rcases Finset.mem_insert.1 hid with rfl | hid
    · simp [start]
    · have hlt := hs.started id hid
      simp only [start, List.length_append, List.length_singleton]
      omega

theorem consistent_stopAll (hs : Consistent docRoot s) : Consistent docRoot s.stopAll := by
  have hclosed : ∀ (id : ℕ) (c : ConnectionState), s.stopAll.conns[id]? = some c →
      c.isOpen = false ∧ (connectionMachine http docRoot).Reachable c := by
    intro id c hc
    simp only [stopAll, List.getElem?_mapIdx, Option.map_eq_some_iff] at hc
    obtain ⟨c₀, hc₀, rfl⟩ := hc
    have hrun := hs.run c₀ (List.mem_of_getElem? hc₀)
    -- a connection in the set is closed now, any other has been closed before
    split
    · exact ⟨rfl, hrun.step (e := .stop) rfl⟩
    · rename_i hid
      rw [hs.mem_iff id c₀ hc₀, Bool.not_eq_true] at hid
      exact ⟨hid, hrun⟩
  refine ⟨?_, ?_, ?_⟩
  · intro c hc
    obtain ⟨id, hid⟩ := List.mem_iff_getElem?.1 hc
    exact (hclosed id c hid).2
  · intro id c hc
    rw [(hclosed id c hc).1]
    simp [stopAll]
  · intro id hid
    simp [stopAll] at hid

/-- A step of one connection, after which it is in the set exactly when its socket is open. -/
theorem consistent_set (hs : Consistent docRoot s) {id : ℕ} {c c' : ConnectionState}
    {set : Finset ℕ} (hid : s.conns[id]? = some c)
    (hrun : (connectionMachine http docRoot).Reachable c')
    (hothers : ∀ id', id' ≠ id → (id' ∈ set ↔ id' ∈ s.connections_))
    (hmem : id ∈ set ↔ c'.isOpen = true) :
    Consistent docRoot { s with conns := s.conns.set id c', connections_ := set } := by
  have hlt : id < s.conns.length := (List.getElem?_eq_some_iff.1 hid).1
  refine ⟨?_, ?_, ?_⟩
  · intro d hd
    rcases List.mem_or_eq_of_mem_set hd with hd | rfl
    · exact hs.run d hd
    · exact hrun
  · intro id' d hd
    by_cases hne : id' = id
    · subst hne
      rw [List.getElem?_set_self hlt] at hd
      cases hd
      exact hmem
    · rw [List.getElem?_set_ne (Ne.symm hne)] at hd
      exact (hothers id' hne).trans (hs.mem_iff id' d hd)
  · intro id' hid'
    rw [List.length_set]
    by_cases hne : id' = id
    · rw [hne]
      exact hlt
    · exact hs.started id' ((hothers id' hne).1 hid')

/-- A handler of a connection closes its socket exactly when it removes it from the set. -/
theorem consistent_handler (hs : Consistent docRoot s) {id i : ℕ} {fs : FileSystem}
    (h : s.step docRoot (.connectionHandler id i fs) = some t) : Consistent docRoot t := by
  obtain ⟨c, hc, h⟩ := Option.bind_eq_some_iff.1 h
  obtain ⟨⟨c', acts⟩, hrun, rfl⟩ := Option.map_eq_some_iff.1 h
  have hr := hs.run c (List.mem_of_getElem? hc)
  have hlen : c.pending.length ≤ 1 := length_pending_le_one hr
  have hr' : (connectionMachine http docRoot).Reachable c' :=
    hr.step (e := .handler i fs) (by simp [connectionMachine, hrun])
  have hopen : c'.isOpen = (c.isOpen && !decide (.managerStop ∈ acts)) := by
    obtain ⟨p, done, -, -, conn, rfl, -⟩ := ConnectionState.handler_eq_some hlen hrun
    exact ConnectionState.foldl_perform_isOpen _ _
  have hmem := hs.mem_iff id c hc
  -- `connection_manager_.stop` erases the connection and closes its socket; nothing else does either
  by_cases hstop : Action.managerStop ∈ acts
  · simp only [hstop, if_true]
    apply consistent_set hs hc hr'
    · intro id' hne
      exact Finset.mem_erase.trans (and_iff_right hne)
    · simp [hopen, hstop]
  · simp only [hstop, if_false]
    apply consistent_set hs hc hr' (fun id' _ => Iff.rfl)
    rw [hmem, hopen]
    simp [hstop]

end ServerState

/-- **The invariant of the server**: every connection has run as a connection does, and the set holds
those with an open socket. -/
theorem consistent {docRoot : List UInt8} {s : ServerState} (h : (serverMachine docRoot).Reachable s) :
    Consistent docRoot s := by
  apply h.invariant (I := Consistent docRoot)
  · rintro s rfl
    exact ⟨by simp [ServerState.constructed, ServerState.doAccept, ServerState.doAwaitStop],
      by simp [ServerState.constructed, ServerState.doAccept, ServerState.doAwaitStop],
      by simp [ServerState.constructed, ServerState.doAccept, ServerState.doAwaitStop]⟩
  · intro s e t hs hstep
    cases e with
    | acceptCompletes i c =>
        obtain ⟨ps, -, rfl⟩ := Option.map_eq_some_iff.1 hstep
        exact ServerState.consistent_of_eq hs rfl rfl
    | acceptHandler i major minor status =>
        obtain ⟨⟨_, done, ps⟩, -, rfl⟩ := Option.map_eq_some_iff.1 hstep
        have hs' : Consistent docRoot { s with accepts := ps } :=
          ServerState.consistent_of_eq hs rfl rfl
        -- the acceptor is closed, a connection was accepted, or the accept failed
        simp only [ServerState.acceptHandler]
        split
        · exact hs'
        · split
          · have hstarted := ServerState.consistent_start hs' major minor status
            exact ServerState.consistent_of_eq hstarted rfl rfl
          · exact ServerState.consistent_of_eq hs' rfl rfl
    | signalCompletes i c =>
        obtain ⟨ps, -, rfl⟩ := Option.map_eq_some_iff.1 hstep
        exact ServerState.consistent_of_eq hs rfl rfl
    | signalHandler i =>
        obtain ⟨⟨_, done, ps⟩, -, rfl⟩ := Option.map_eq_some_iff.1 hstep
        apply ServerState.consistent_stopAll
        exact ServerState.consistent_of_eq hs rfl rfl
    | connectionCompletes id i c =>
        obtain ⟨conn, hconn, hstep⟩ := Option.bind_eq_some_iff.1 hstep
        obtain ⟨conn', hc, rfl⟩ := Option.map_eq_some_iff.1 hstep
        have hr := hs.run conn (List.mem_of_getElem? hconn)
        have hlen : conn.pending.length ≤ 1 := length_pending_le_one hr
        apply ServerState.consistent_set hs hconn (hr.step (e := .complete i c) hc) (fun _ _ => Iff.rfl)
        obtain ⟨p, -, -, -, rfl⟩ := ConnectionState.complete_eq_some hlen hc
        exact hs.mem_iff id conn hconn
    | connectionHandler id i fs => exact ServerState.consistent_handler hs hstep

/-! ## After the stop handler -/

/-- The stop handler has run: the acceptor is closed and no connection is left in the set. -/
structure Stopped (started : ℕ) (s : ServerState) : Prop where
  closed : s.acceptorIsOpen = false
  none : s.connections_ = ∅
  started : s.conns.length = started

theorem stopped_stopHandler (s : ServerState) : Stopped s.conns.length s.stopHandler :=
  ⟨rfl, rfl, by simp [ServerState.stopHandler, ServerState.stopAll]⟩

/-- No step starts a connection or puts one into the set again. -/
theorem stopped_step {docRoot : List UInt8} {n : ℕ} {s t : ServerState} {e : ServerEvent}
    (hs : Stopped n s) (h : s.step docRoot e = some t) : Stopped n t := by
  obtain ⟨hclosed, hnone, hstarted⟩ := hs
  cases e with
  | acceptCompletes i c =>
      obtain ⟨ps, -, rfl⟩ := Option.map_eq_some_iff.1 h
      exact ⟨hclosed, hnone, hstarted⟩
  | acceptHandler i major minor status =>
      -- the handler finds the acceptor closed
      obtain ⟨⟨_, done, ps⟩, -, rfl⟩ := Option.map_eq_some_iff.1 h
      simp only [ServerState.acceptHandler, hclosed, if_true]
      exact ⟨rfl, hnone, hstarted⟩
  | signalCompletes i c =>
      obtain ⟨ps, -, rfl⟩ := Option.map_eq_some_iff.1 h
      exact ⟨hclosed, hnone, hstarted⟩
  | signalHandler i =>
      obtain ⟨⟨_, done, ps⟩, -, rfl⟩ := Option.map_eq_some_iff.1 h
      exact hstarted ▸ stopped_stopHandler { s with signals := ps }
  | connectionCompletes id i c =>
      obtain ⟨conn, -, h⟩ := Option.bind_eq_some_iff.1 h
      obtain ⟨conn', -, rfl⟩ := Option.map_eq_some_iff.1 h
      exact ⟨hclosed, hnone, by simpa using hstarted⟩
  | connectionHandler id i fs =>
      obtain ⟨conn, -, h⟩ := Option.bind_eq_some_iff.1 h
      obtain ⟨⟨conn', acts⟩, -, rfl⟩ := Option.map_eq_some_iff.1 h
      dsimp only
      split
      · exact ⟨hclosed, by simp [ServerState.stop, hnone], by simpa [ServerState.stop] using hstarted⟩
      · exact ⟨hclosed, hnone, by simpa using hstarted⟩

/-! ## The set of connections -/

/-- **The set `connections_` is exact**, in every run of the server: its members have an open socket
and one outstanding operation, every other connection has a closed socket, and a connection whose read
failed or whose write ended is not in it. The stop handler empties it for good, and after it no
connection is started. -/
theorem server_connections (docRoot : List UInt8) (s : ServerState)
    (h : (serverMachine docRoot).Reachable s) :
    (∀ id ∈ s.connections_,
      ∃ c, s.conns[id]? = some c ∧ c.isOpen = true ∧ c.pending.length = 1) ∧
    (∀ (id : ℕ) (c : ConnectionState), s.conns[id]? = some c → id ∉ s.connections_ →
      c.isOpen = false) ∧
    (∀ (id : ℕ) (c : ConnectionState), s.conns[id]? = some c → (∃ a ∈ c.trace, a.isEnd = true) →
      id ∉ s.connections_) ∧
    ∀ i t, s.step docRoot (.signalHandler i) = some t →
      ∀ es u, (serverMachine docRoot).exec t es = some u →
        u.connections_ = ∅ ∧ u.conns.length = s.conns.length := by
  have hs := consistent h
  have hlive : ∀ (id : ℕ) (c : ConnectionState), s.conns[id]? = some c → id ∈ s.connections_ →
      c.isOpen = true ∧ Live c := by
    intro id c hc hid
    have hopen := (hs.mem_iff id c hc).1 hid
    exact ⟨hopen, live_of_isOpen (hs.run c (List.mem_of_getElem? hc)) hopen⟩
  refine ⟨?_, ?_, ?_, ?_⟩
  · intro id hid
    have hc := List.getElem?_eq_getElem (hs.started id hid)
    obtain ⟨hopen, hl⟩ := hlive id _ hc hid
    obtain ⟨p, hp, -, -⟩ := hl.one
    exact ⟨_, hc, hopen, by rw [hp]; rfl⟩
  · intro id c hc hid
    rwa [hs.mem_iff id c hc, Bool.not_eq_true] at hid
  · rintro id c hc ⟨a, ha, hend⟩ hid
    have := (hlive id c hc hid).2.notEnded a ha
    rw [hend] at this
    cases this
  · intro i t hstep es u hexec
    obtain ⟨⟨_, done, ps⟩, -, rfl⟩ := Option.map_eq_some_iff.1 hstep
    have hstopped := Machine.exec_preserves (I := Stopped s.conns.length)
      (fun _ _ _ hs h => stopped_step hs h) (stopped_stopHandler { s with signals := ps }) hexec
    exact ⟨hstopped.none, hstopped.started⟩

/-- A server with one connection, just before its stop handler runs. -/
theorem server_connections_oneConnection :
    ∃ s, (serverMachine []).exec .constructed
        [.acceptCompletes 0 ⟨none, []⟩, .acceptHandler 0 0 0 .ok, .signalCompletes 0 ⟨none, []⟩] =
          some s ∧
      (∀ id ∈ s.connections_,
        ∃ c, s.conns[id]? = some c ∧ c.isOpen = true ∧ c.pending.length = 1) ∧
      ∀ i t, s.step [] (.signalHandler i) = some t →
        ∀ es u, (serverMachine []).exec t es = some u →
          u.connections_ = ∅ ∧ u.conns.length = s.conns.length := by
  obtain ⟨s, hs⟩ := Option.isSome_iff_exists.1
    (show ((serverMachine []).exec .constructed [.acceptCompletes 0 ⟨none, []⟩,
      .acceptHandler 0 0 0 .ok, .signalCompletes 0 ⟨none, []⟩]).isSome from by decide +kernel)
  obtain ⟨hset, -, -, hstop⟩ := server_connections [] s ⟨_, _, rfl, hs⟩
  exact ⟨s, hs, hset, hstop⟩

end AsioExamples.Http
