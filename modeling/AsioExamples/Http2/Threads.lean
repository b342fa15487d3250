import AsioExamples.Http.OnStrand
import AsioExamples.Http2.IoContextPool

/-!
# The threads of http2/

`server.cpp` of http2/ with `run` and `stop` of `io_context_pool.cpp`. Each `io_context` of the pool has one
thread, which runs its handlers one after the other until the `io_context` is stopped. `signals_`, `acceptor_`
and each connection belong to an `io_context`, which `get_io_context` gives them in turn. There are no strands:
the handlers of a connection run in the only thread of its `io_context`.

`Stepped` says what a step does, and `Paced` is what the accepts and the pool keep to. From them follows that a
connection makes a run of its own (`exec_connection`). Who owns a connection, and which one an accept is given,
is the subject of `Http2/Server`.
-/

set_option autoImplicit false

namespace AsioExamples.Http2

open AsioExamples.Cxx AsioExamples.Lib AsioExamples.Asio
open AsioExamples.Http (Action ConnectionEvent ConnectionState Exchange StatusType answer component doRead
  exchangeMachine http2 settled strandEvent)

/-! ## The server -/

/-- A connection: the `io_context` of its socket, the members that its constructor leaves uninitialised, and
what it does once it was started. -/
structure Slot where
  ioContext : IoContext
  major : Int32
  minor : Int32
  status : StatusType
  live : Option (OnStrand Exchange Action)
  deriving DecidableEq, Repr

/-- `connection::start` -/
def Slot.start (slot : Slot) : Slot :=
  { slot with
    live := some <|
      match slot.live with
      | none => ⟨⟨.started ⟨.fresh slot.major slot.minor, .new, ⟨slot.status, [], []⟩⟩, []⟩, none⟩
      | some c =>
          { c with state := { c.state with conn := doRead.foldl ConnectionState.perform c.state.conn } } }

/-- What the handler of an accept does: it starts `new_connection_`, and calls `do_accept`. -/
inductive AcceptAction where
  | start
  | doAccept
  deriving DecidableEq, Repr

/-- The handler that `do_accept` passes to `async_accept`. -/
def acceptHandler (acceptorIsOpen : Bool) (ec : Option ErrorCode) : List AcceptAction :=
  if acceptorIsOpen = false then []
  else (if ec = none then [.start] else []) ++ [.doAccept]

/-- The data members of `class server` with what is outstanding: `accepting` is what the handler of an accept
has still to do, where one is running, and `stopping` is what the handler of the signals has still to stop. -/
structure PoolServer where
  pool_ : IoContextPool
  signals_ : IoContext
  acceptor_ : IoContext
  acceptorIsOpen : Bool
  newConnection_ : Option ℕ
  accepts : List (Pending Unit)
  accepting : Option (List AcceptAction)
  awaiting : Bool
  signalled : Bool
  stopping : Option (List IoContext)
  stopped : List IoContext
  conns : List Slot
  deriving DecidableEq, Repr

/-- What can happen to the server. That the acceptor closes is up to the environment. -/
inductive PoolEvent where
  | acceptCompletes (i : ℕ) (c : Completion)
  | acceptBegins (i : ℕ)
  | acceptPerforms (major minor : Int32) (status : StatusType)
  | acceptFinishes
  | closeAcceptor
  | signal
  | signalBegins
  | signalPerforms
  | signalFinishes
  | connection (id : ℕ) (e : StrandEvent (ℕ × Completion) (ℕ × FileSystem))

/-- A thread begins a handler. -/
def PoolEvent.begins : PoolEvent → Bool
  | .acceptBegins _ => true
  | .signalBegins => true
  | .connection _ e => e.begins
  | _ => false

/-- A thread comes back from a handler. -/
def PoolEvent.finishes : PoolEvent → Bool
  | .acceptFinishes => true
  | .signalFinishes => true
  | .connection _ e => e.finishes
  | _ => false

/-- Whether the thread of the `io_context` runs a handler of the connection. -/
def Slot.busy (slot : Slot) (c : IoContext) : Bool :=
  slot.ioContext = c && slot.live.any fun l => l.running.isSome

namespace PoolServer

/-- How many handlers run in the thread of an `io_context`. -/
def busy (s : PoolServer) (c : IoContext) : ℕ :=
  (s.acceptor_ = c && s.accepting.isSome).toNat + (s.signals_ = c && s.stopping.isSome).toNat +
    (s.conns.map fun slot => (slot.busy c).toNat).sum

/-- The thread of an `io_context` takes a handler. -/
def free (s : PoolServer) (c : IoContext) : Bool := c ∉ s.stopped && s.busy c = 0

/-- `server::do_accept`. There is no state after it where `get_io_context` is out of range. -/
def doAccept (s : PoolServer) (major minor : Int32) (status : StatusType) : Option PoolServer :=
  s.pool_.getIoContext.map fun (ioContext, pool) =>
    { s with
      pool_ := pool
      newConnection_ := some s.conns.length
      accepts := s.accepts ++ [⟨(), !s.acceptorIsOpen, none⟩]
      conns := s.conns ++ [⟨ioContext, major, minor, status, none⟩] }

/-- `new_connection_->start()` -/
def startNew (s : PoolServer) : PoolServer :=
  match s.newConnection_ with
  | some id => { s with conns := s.conns.modify id Slot.start }
  | none => s

/-- One action of the handler of an accept. -/
def perform (s : PoolServer) (major minor : Int32) (status : StatusType) : AcceptAction → Option PoolServer
  | .start => some s.startNew
  | .doAccept => s.doAccept major minor status

/-- The constructor of `server`, once there is a pool. -/
def constructed (pool : IoContextPool) (major minor : Int32) (status : StatusType) : Option PoolServer :=
  pool.getIoContext.bind fun (signals, pool) =>
    pool.getIoContext.bind fun (acceptor, pool) =>
      doAccept ⟨pool, signals, acceptor, true, none, [], none, true, false, none, [], []⟩ major minor status

/-- An event of the server. -/
def step (docRoot : List UInt8) (s : PoolServer) : PoolEvent → Option PoolServer
  | .acceptCompletes i c =>
      (complete s.acceptorIsOpen s.accepts i c).map fun ps => { s with accepts := ps }
  | .acceptBegins i =>
      if s.free s.acceptor_ then
        (dispatch s.accepts i).map fun (_, done, ps) =>
          { s with accepts := ps, accepting := some (acceptHandler s.acceptorIsOpen done.ec) }
      else none
  | .acceptPerforms major minor status =>
      match s.accepting with
      | some (a :: as) => { s with accepting := some as }.perform major minor status a
      | _ => none
  | .acceptFinishes =>
      match s.accepting with
      | some [] => some { s with accepting := none }
      | _ => none
  | .closeAcceptor => some { s with acceptorIsOpen := false }
  | .signal => if s.awaiting then some { s with awaiting := false, signalled := true } else none
  | .signalBegins =>
      if s.free s.signals_ ∧ s.signalled then
        some { s with signalled := false, stopping := some s.pool_.ioContexts_ }
      else none
  | .signalPerforms =>
      match s.stopping with
      | some (c :: cs) => some { s with stopped := s.stopped ++ [c], stopping := some cs }
      | _ => none
  | .signalFinishes =>
      match s.stopping with
      | some [] => some { s with stopping := none }
      | _ => none
  | .connection id e =>
      s.conns[id]?.bind fun slot =>
        if e.begins = false ∨ s.free slot.ioContext then
          slot.live.bind fun c =>
            ((component http2 docRoot).onStrand.step c e).map fun d =>
              { s with conns := s.conns.set id { slot with live := some d } }
        else none

end PoolServer

/-- The server of http2/ with its threads, from its construction on. -/
def poolMachine (poolSize : ℕ) (docRoot : List UInt8) : Machine PoolServer PoolEvent where
  init s := ∃ pool major minor status, IoContextPool.new poolSize = .ok pool ∧
    PoolServer.constructed pool major minor status = some s
  step := PoolServer.step docRoot

/-! ## What a step does -/

/-- What an event makes of a state. -/
inductive Stepped (docRoot : List UInt8) (s : PoolServer) : PoolEvent → PoolServer → Prop
  | acceptCompletes {i : ℕ} {c : Completion} {ps : List (Pending Unit)} (hps : ps.length = s.accepts.length) :
      Stepped docRoot s (.acceptCompletes i c) { s with accepts := ps }
  | acceptBegins {i : ℕ} {ps : List (Pending Unit)} {acts : List AcceptAction}
      (hfree : s.free s.acceptor_ = true) (hps : ps.length + 1 = s.accepts.length)
      (hacts : acts <:+ [.start, .doAccept]) :
      Stepped docRoot s (.acceptBegins i) { s with accepts := ps, accepting := some acts }
  | start {major minor : Int32} {status : StatusType} {as : List AcceptAction}
      (h : s.accepting = some (.start :: as)) :
      Stepped docRoot s (.acceptPerforms major minor status) { s with accepting := some as }.startNew
  | doAccept {major minor : Int32} {status : StatusType} {as : List AcceptAction} {t : PoolServer}
      (h : s.accepting = some (.doAccept :: as))
      (ht : { s with accepting := some as }.doAccept major minor status = some t) :
      Stepped docRoot s (.acceptPerforms major minor status) t
  | acceptFinishes (h : s.accepting = some []) : Stepped docRoot s .acceptFinishes { s with accepting := none }
  | closeAcceptor : Stepped docRoot s .closeAcceptor { s with acceptorIsOpen := false }
  | signal (h : s.awaiting = true) :
      Stepped docRoot s .signal { s with awaiting := false, signalled := true }
  | signalBegins (hfree : s.free s.signals_ = true) (h : s.signalled = true) :
      Stepped docRoot s .signalBegins { s with signalled := false, stopping := some s.pool_.ioContexts_ }
  | signalPerforms {c : IoContext} {cs : List IoContext} (h : s.stopping = some (c :: cs)) :
      Stepped docRoot s .signalPerforms { s with stopped := s.stopped ++ [c], stopping := some cs }
  | signalFinishes (h : s.stopping = some []) : Stepped docRoot s .signalFinishes { s with stopping := none }
  | connection {id : ℕ} {e : StrandEvent (ℕ × Completion) (ℕ × FileSystem)} {slot : Slot}
      {c d : OnStrand Exchange Action} (hslot : s.conns[id]? = some slot) (hlive : slot.live = some c)
      (hfree : e.begins = false ∨ s.free slot.ioContext = true)
      (hstep : (component http2 docRoot).onStrand.step c e = some d) :
      Stepped docRoot s (.connection id e) { s with conns := s.conns.set id { slot with live := some d } }

theorem acceptHandler_suffix (acceptorIsOpen : Bool) (ec : Option ErrorCode) :
    acceptHandler acceptorIsOpen ec <:+ [.start, .doAccept] := by
  rw [acceptHandler]
  split
  · exact List.nil_suffix
  · split
    · exact List.suffix_rfl
    · exact List.suffix_cons _ _

section Steps

variable {poolSize : ℕ} {docRoot : List UInt8} {s t : PoolServer} {e : PoolEvent}

theorem stepped (h : s.step docRoot e = some t) : Stepped docRoot s e t := by
  cases e with
  | acceptCompletes i c =>
      obtain ⟨ps, hps, rfl⟩ := Option.map_eq_some_iff.1 h
      exact .acceptCompletes (length_of_complete hps)
  | acceptBegins i =>
      obtain ⟨hfree, h⟩ := Option.ite_none_right_eq_some.1 h
      obtain ⟨⟨op, done, ps⟩, hps, rfl⟩ := Option.map_eq_some_iff.1 h
      exact .acceptBegins hfree (length_of_dispatch hps) (acceptHandler_suffix _ _)
  | acceptPerforms major minor status =>
      simp only [PoolServer.step] at h
      split at h
      · rename_i a as haccepting
        cases a with
        | start =>
            cases h
            exact .start haccepting
        | doAccept => exact .doAccept haccepting h
      · cases h
  | acceptFinishes =>
      simp only [PoolServer.step] at h
      split at h
      · rename_i haccepting
        cases h
        exact .acceptFinishes haccepting
      · cases h
  | closeAcceptor =>
      cases h
      exact .closeAcceptor
  | signal =>
      obtain ⟨hawaiting, h⟩ := Option.ite_none_right_eq_some.1 h
      cases h
      exact .signal hawaiting
  | signalBegins =>
      obtain ⟨⟨hfree, hsignalled⟩, h⟩ := Option.ite_none_right_eq_some.1 h
      cases h
      exact .signalBegins hfree hsignalled
  | signalPerforms =>
      simp only [PoolServer.step] at h
      split at h
      · rename_i c cs hstopping
        cases h
        exact .signalPerforms hstopping
      · cases h
  | signalFinishes =>
      simp only [PoolServer.step] at h
      split at h
      · rename_i hstopping
        cases h
        exact .signalFinishes hstopping
      · cases h
  | connection id e =>
      obtain ⟨slot, hslot, h⟩ := Option.bind_eq_some_iff.1 h
      obtain ⟨hfree, h⟩ := Option.ite_none_right_eq_some.1 h
      obtain ⟨c, hlive, h⟩ := Option.bind_eq_some_iff.1 h
      obtain ⟨d, hd, rfl⟩ := Option.map_eq_some_iff.1 h
      exact .connection hslot hlive hfree hd

/-! ## The connections and their accepts -/

/-- What every step keeps, where `k` is the newest connection. It is the one in `new_connection_`, and it was
not started while an accept is outstanding or its handler has still to start it. The connections have got the
`io_context`s in turn. -/
structure Paced (poolSize k : ℕ) (s : PoolServer) : Prop where
  newest : s.newConnection_ = some k
  last : s.conns.length = k + 1
  oneAccept : s.accepts.length + (s.accepting.any fun as => !as.isEmpty).toNat ≤ 1
  suffix : ∀ as, s.accepting = some as → as <:+ [.start, .doAccept]
  waiting : s.accepts ≠ [] ∨ s.accepting = some [.start, .doAccept] →
    ∃ slot, s.conns[k]? = some slot ∧ slot.live = none
  size_pos : 0 < poolSize
  contexts : s.pool_.ioContexts_ = IoContextPool.made poolSize
  next : s.pool_.nextIoContext_ = (2 + s.conns.length) % poolSize
  turns : RoundRobin.Cyclic (IoContextPool.made poolSize) 2 (s.conns.map Slot.ioContext)

/-- A call of `get_io_context` returns the `io_context` in turn. -/
theorem getIoContext_turn {pool pool' : IoContextPool} {c : IoContext} {m : ℕ} (hpos : 0 < poolSize)
    (hcontexts : pool.ioContexts_ = IoContextPool.made poolSize) (hnext : pool.nextIoContext_ = m % poolSize)
    (h : pool.getIoContext = some (c, pool')) :
    (IoContextPool.made poolSize)[m % poolSize]? = some c ∧
      pool'.ioContexts_ = IoContextPool.made poolSize ∧ pool'.nextIoContext_ = (m + 1) % poolSize := by
  have hlength : pool.ioContexts_.length = poolSize := by rw [hcontexts, IoContextPool.length_made]
  have hlt : pool.nextIoContext_ < pool.ioContexts_.length := by
    rw [hlength, hnext]
    exact Nat.mod_lt _ hpos
  obtain ⟨c', hget, hcall⟩ := IoContextPool.getIoContext_spec hlt
  obtain ⟨rfl, rfl⟩ := Prod.mk.inj (Option.some.inj (hcall.symm.trans h))
  refine ⟨?_, hcontexts, ?_⟩
  · rw [← hnext, ← hcontexts]
    exact hget
  · rw [RoundRobin.next_eq_mod hlt, hlength, hnext, Nat.mod_add_mod]

/-- The constructor takes the first two `io_context`s in turn, and calls `do_accept`. -/
theorem exists_doAccept_of_init (h : (poolMachine poolSize docRoot).init s) :
    ∃ pool signals acceptor major minor status, 0 < poolSize ∧
      pool.ioContexts_ = IoContextPool.made poolSize ∧ pool.nextIoContext_ = 2 % poolSize ∧
      PoolServer.doAccept ⟨pool, signals, acceptor, true, none, [], none, true, false, none, [], []⟩ major minor
        status = some s := by
  obtain ⟨pool, major, minor, status, hpool, hs⟩ := h
  obtain ⟨hpos, -, rfl⟩ := IoContextPool.new_eq_ok_iff.1 hpool
  obtain ⟨⟨signals, pool⟩, hsignals, hs⟩ := Option.bind_eq_some_iff.1 hs
  obtain ⟨⟨acceptor, pool'⟩, hacceptor, hs⟩ := Option.bind_eq_some_iff.1 hs
  obtain ⟨-, hcontexts, hnext⟩ := getIoContext_turn hpos rfl (Nat.zero_mod _).symm hsignals
  obtain ⟨-, hcontexts, hnext⟩ := getIoContext_turn hpos hcontexts hnext hacceptor
  exact ⟨pool', signals, acceptor, major, minor, status, hpos, hcontexts, hnext, hs⟩

/-- A call of `do_accept`, where no accept is outstanding. -/
theorem paced_of_doAccept {major minor : Int32} {status : StatusType} (hpos : 0 < poolSize)
    (haccepts : s.accepts = []) (haccepting : ∀ as, s.accepting = some as → as = [])
    (hcontexts : s.pool_.ioContexts_ = IoContextPool.made poolSize)
    (hnext : s.pool_.nextIoContext_ = (2 + s.conns.length) % poolSize)
    (hturns : RoundRobin.Cyclic (IoContextPool.made poolSize) 2 (s.conns.map Slot.ioContext))
    (h : s.doAccept major minor status = some t) : Paced poolSize s.conns.length t := by
  obtain ⟨⟨c, pool⟩, hget, rfl⟩ := Option.map_eq_some_iff.1 h
  obtain ⟨hc, hcontexts', hnext'⟩ := getIoContext_turn hpos hcontexts hnext hget
  have hnone : (s.accepting.any fun as => !as.isEmpty) = false := by
    cases hs : s.accepting with
    | none => rfl
    | some as =>
        rw [haccepting as hs]
        rfl
  refine ⟨rfl, by simp, ?_, ?_, ?_, hpos, hcontexts', ?_, ?_⟩
  · simp [haccepts, hnone]
  · intro as has
    rw [haccepting as has]
    exact List.nil_suffix
  · intro _
    exact ⟨_, List.getElem?_concat_length, rfl⟩
  · rw [hnext', List.length_append, List.length_singleton, Nat.add_assoc]
  · rw [List.map_append]
    refine hturns.concat ?_
    rw [List.length_map, IoContextPool.length_made]
    exact hc

theorem eq_of_start_suffix {as : List AcceptAction} (h : .start :: as <:+ [.start, .doAccept]) :
    as = [.doAccept] := by
  simpa [List.suffix_cons_iff] using h

/-- Nothing stands behind `do_accept`. -/
theorem eq_of_doAccept_suffix {as : List AcceptAction} (h : .doAccept :: as <:+ [.start, .doAccept]) :
    as = [] := by
  simpa [List.suffix_cons_iff] using h

/-- The handler of an accept that still has something to do is the only accept. -/
theorem Paced.accepts_eq_nil {k : ℕ} (hs : Paced poolSize k s) {a : AcceptAction} {as : List AcceptAction}
    (h : s.accepting = some (a :: as)) : s.accepts = [] := by
  have hone := hs.oneAccept
  rw [h] at hone
  simpa using hone

/-- **Every step keeps it.** -/
theorem Paced.step {k : ℕ} (hs : Paced poolSize k s) (h : Stepped docRoot s e t) :
    ∃ k', Paced poolSize k' t := by
  cases h with
  | acceptCompletes hps =>
      refine ⟨k, hs.newest, hs.last, hps ▸ hs.oneAccept, hs.suffix, fun hw => hs.waiting ?_, hs.size_pos,
        hs.contexts, hs.next, hs.turns⟩
      refine hw.imp_left fun hne heq => hne ?_
      rw [← List.length_eq_zero_iff, hps, heq, List.length_nil]
  | @acceptBegins i ps acts hfree hps hacts =>
      have hone := hs.oneAccept
      have hle : (Option.any (fun as => !as.isEmpty) (some acts)).toNat ≤ 1 := Bool.toNat_le _
      refine ⟨k, hs.newest, hs.last, ?_, ?_, fun _ => hs.waiting (Or.inl ?_), hs.size_pos, hs.contexts,
        hs.next, hs.turns⟩
      · dsimp only
        omega
      · rintro as ⟨⟩
        exact hacts
      · rw [← List.length_pos_iff_ne_nil]
        omega
  | @start major minor status as haccepting =>
      have haccepts := hs.accepts_eq_nil haccepting
      obtain rfl := eq_of_start_suffix (hs.suffix _ haccepting)
      have hmap : (s.conns.modify k Slot.start).map Slot.ioContext = s.conns.map Slot.ioContext :=
        map_modify_of_eq Slot.ioContext fun _ => rfl
      refine ⟨k, ?_⟩
      simp only [PoolServer.startNew, hs.newest]
      refine ⟨rfl, (List.length_modify _ _ _).trans hs.last, ?_, ?_, ?_, hs.size_pos, hs.contexts, ?_, ?_⟩
      · simp [haccepts]
      · rintro as ⟨⟩
        exact List.suffix_cons _ _
      · simp [haccepts]
      · rw [List.length_modify]
        exact hs.next
      · rw [hmap]
        exact hs.turns
  | @doAccept major minor status as t haccepting ht =>
      obtain rfl := eq_of_doAccept_suffix (hs.suffix _ haccepting)
      have haccepts := hs.accepts_eq_nil haccepting
      refine ⟨_, paced_of_doAccept (s := { s with accepting := some [] }) hs.size_pos haccepts ?_ hs.contexts
        hs.next hs.turns ht⟩
      rintro as ⟨⟩
      rfl
  | acceptFinishes haccepting =>
      have hone := hs.oneAccept
      refine ⟨k, hs.newest, hs.last, ?_, nofun, fun hw => hs.waiting (Or.inl ?_), hs.size_pos, hs.contexts,
        hs.next, hs.turns⟩
      · rw [haccepting] at hone
        exact hone
      · exact hw.elim id nofun
  | closeAcceptor | signal | signalBegins | signalPerforms | signalFinishes =>
      exact ⟨k, hs.newest, hs.last, hs.oneAccept, hs.suffix, hs.waiting, hs.size_pos, hs.contexts, hs.next,
        hs.turns⟩
  | @connection id e slot c d hslot hlive hfree hstep =>
      have hmap : (s.conns.set id { slot with live := some d }).map Slot.ioContext =
          s.conns.map Slot.ioContext :=
        map_set_of_eq Slot.ioContext hslot rfl
      refine ⟨k, hs.newest, (List.length_set).trans hs.last, hs.oneAccept, hs.suffix, fun hw => ?_, hs.size_pos,
        hs.contexts, ?_, ?_⟩
      · -- what is waiting is not there yet
        obtain ⟨slot', hslot', hnone⟩ := hs.waiting hw
        have hne : id ≠ k := by
          rintro rfl
          rw [Option.some.inj (hslot'.symm.trans hslot), hlive] at hnone
          cases hnone
        exact ⟨slot', (List.getElem?_set_ne hne).trans hslot', hnone⟩
      · rw [List.length_set]
        exact hs.next
      · rw [hmap]
        exact hs.turns

/-- A server that was constructed has a connection, which waits for its accept. -/
theorem exists_paced_of_init (h : (poolMachine poolSize docRoot).init s) : ∃ k, Paced poolSize k s := by
  obtain ⟨pool, signals, acceptor, major, minor, status, hpos, hcontexts, hnext, hs⟩ := exists_doAccept_of_init h
  refine ⟨0, paced_of_doAccept hpos rfl ?_ hcontexts hnext (.nil _ _) hs⟩
  rintro as ⟨⟩

theorem exists_paced (h : (poolMachine poolSize docRoot).Reachable s) : ∃ k, Paced poolSize k s := by
  apply h.invariant (I := fun s => ∃ k, Paced poolSize k s)
  · exact fun s hs => exists_paced_of_init hs
  · rintro s e t ⟨k, hs⟩ hstep
    exact hs.step (stepped hstep)

/-! ## One connection -/

/-- What concerns a connection. -/
def PoolEvent.onConnection (id : ℕ) :
    PoolEvent → Option (StrandEvent (ℕ × Completion) (ℕ × FileSystem))
  | .connection id' e => if id' = id then some e else none
  | _ => none

/-- What happens to a connection as if on a single thread. -/
def PoolEvent.connectionEvent (id : ℕ) (e : PoolEvent) : Option ConnectionEvent :=
  (e.onConnection id).bind strandEvent

/-- A handler runs where it begins. -/
theorem eq_of_connectionEvent {id i : ℕ} {fs : FileSystem} (h : e.connectionEvent id = some (.handler i fs)) :
    e = .connection id (.begin_ (i, fs)) := by
  obtain ⟨f, hf, hevent⟩ := Option.bind_eq_some_iff.1 h
  obtain rfl := Http.eq_of_strandEvent hevent
  cases e with
  | connection id' f' =>
      have hf : (if id' = id then some f' else none) = some (.begin_ (i, fs)) := hf
      obtain ⟨rfl, heq⟩ := Option.ite_none_right_eq_some.1 hf
      rw [Option.some.inj heq]
  | _ => cases hf

/-- What a connection does, once it was started. -/
def PoolServer.live (s : PoolServer) (id : ℕ) : Option (OnStrand Exchange Action) :=
  s.conns[id]?.bind Slot.live

theorem live_of_getElem? {id : ℕ} {slot : Slot} (h : s.conns[id]? = some slot) : s.live id = slot.live := by
  rw [PoolServer.live, h, Option.bind_some]

/-- A step that keeps the connection. -/
theorem live_congr {id : ℕ} (h : t.conns[id]? = s.conns[id]?) : t.live id = s.live id := by
  rw [PoolServer.live, h, PoolServer.live]

/-- A new connection is not started yet. -/
theorem live_doAccept {major minor : Int32} {status : StatusType} (h : s.doAccept major minor status = some t)
    (id : ℕ) : t.live id = s.live id := by
  obtain ⟨⟨c, pool⟩, -, rfl⟩ := Option.map_eq_some_iff.1 h
  rcases Nat.lt_trichotomy id s.conns.length with hlt | rfl | hgt
  · exact live_congr (List.getElem?_append_left hlt)
  · rw [PoolServer.live, PoolServer.live, List.getElem?_concat_length, List.getElem?_eq_none le_rfl]
    rfl
  · rw [PoolServer.live, PoolServer.live, List.getElem?_eq_none hgt.le, List.getElem?_eq_none]
    rw [List.length_append, List.length_singleton]
    exact hgt

/-- **A step and one connection**: it is left alone, makes a step of its own, or is started. -/
theorem Paced.live_step {k : ℕ} (hs : Paced poolSize k s) (h : Stepped docRoot s e t) (id : ℕ) :
    (t.live id = s.live id ∧ e.onConnection id = none) ∨
    (∃ c d f, s.live id = some c ∧ e.onConnection id = some f ∧
      (component http2 docRoot).onStrand.step c f = some d ∧ t.live id = some d) ∨
    (s.live id = none ∧ e.onConnection id = none ∧
      ∃ c, (component http2 docRoot).onStrand.init c ∧ t.live id = some c) := by
  cases h with
  | acceptCompletes | acceptBegins | acceptFinishes | closeAcceptor | signal | signalBegins | signalPerforms
  | signalFinishes => exact Or.inl ⟨rfl, rfl⟩
  | doAccept haccepting ht => exact Or.inl ⟨live_doAccept ht id, rfl⟩
  | start haccepting =>
      obtain rfl := eq_of_start_suffix (hs.suffix _ haccepting)
      obtain ⟨slot, hslot, hnone⟩ := hs.waiting (Or.inr haccepting)
      simp only [PoolServer.startNew, hs.newest]
      by_cases hid : k = id
      · subst hid
        have hstart : slot.start.live =
            some ⟨⟨.started ⟨.fresh slot.major slot.minor, .new, ⟨slot.status, [], []⟩⟩, []⟩, none⟩ := by
          rw [Slot.start, hnone]
        have hnew : (s.conns.modify k Slot.start)[k]? = some slot.start := by
          rw [List.getElem?_modify_eq, hslot]
          rfl
        have hinit : (component http2 docRoot).onStrand.init
            ⟨⟨.started ⟨.fresh slot.major slot.minor, .new, ⟨slot.status, [], []⟩⟩, []⟩, none⟩ :=
          ⟨⟨_, ⟨slot.major, slot.minor, slot.status, rfl⟩, rfl⟩, rfl⟩
        refine Or.inr (Or.inr ⟨(live_of_getElem? hslot).trans hnone, rfl, _, hinit, ?_⟩)
        rw [PoolServer.live, hnew]
        exact hstart
      · exact Or.inl ⟨live_congr (List.getElem?_modify_ne _ _ hid), rfl⟩
  | @connection id' f slot c d hslot hlive hfree hstep =>
      by_cases hid : id' = id
      · subst hid
        have hlt : id' < s.conns.length := (List.getElem?_eq_some_iff.1 hslot).1
        refine Or.inr (Or.inl ⟨c, d, f, (live_of_getElem? hslot).trans hlive, if_pos rfl, hstep, ?_⟩)
        rw [PoolServer.live, List.getElem?_set_self hlt]
        rfl
      · exact Or.inl ⟨live_congr (List.getElem?_set_ne hid), if_neg hid⟩

/-- The connection `id` is a part of the server. -/
def poolConnection (poolSize : ℕ) (docRoot : List UInt8) (id : ℕ) :
    Machine.Part (poolMachine poolSize docRoot) (component http2 docRoot).onStrand where
  get s := s.live id
  label := PoolEvent.onConnection id
  absent := by
    intro s hinit
    obtain ⟨pool, signals, acceptor, major, minor, status, -, -, -, hs⟩ := exists_doAccept_of_init hinit
    exact live_doAccept hs id
  step := by
    intro s e t hr h
    obtain ⟨k, hs⟩ := exists_paced hr
    exact hs.live_step (stepped h) id

/-- Each connection has made a run of its own. -/
theorem exec_connection {s₀ : PoolServer} {es : List PoolEvent} (hinit : (poolMachine poolSize docRoot).init s₀)
    (h : (poolMachine poolSize docRoot).exec s₀ es = some s) {id : ℕ} {c : OnStrand Exchange Action}
    (hc : s.live id = some c) :
    ∃ c₀, (exchangeMachine http2 docRoot).init c₀ ∧
      (exchangeMachine http2 docRoot).exec c₀ (es.filterMap (PoolEvent.connectionEvent id)) =
        some (settled http2 docRoot c) := by
  obtain ⟨c₀, hc₀, hexec⟩ := (poolConnection poolSize docRoot id).exec hinit h hc
  obtain ⟨hc₀, hexec⟩ := Http.exec_component hc₀ hexec
  rw [poolConnection, List.filterMap_filterMap] at hexec
  exact ⟨c₀.state, hc₀, hexec⟩

end Steps

end AsioExamples.Http2
