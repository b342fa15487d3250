import AsioExamples.Http.OnStrand

/-!
# The server of http3/

`server.cpp` and `connection.cpp` of http3/. Any number of threads run one `io_context`. A thread takes a handler
that is queued, performs its actions one after the other and takes the next one, until the `io_context` is
stopped. The handlers of a connection are bound to its strand; the handler of an accept is not bound to any, and
needs none: the next accept is the last thing that it starts.

Each connection does what it does on a single thread (`http3_connections`), so that its reply is the answer to
what it has received (`http3_answers`).
-/

set_option autoImplicit false

namespace AsioExamples.Http3

open AsioExamples.Cxx AsioExamples.Lib AsioExamples.Asio
open AsioExamples.Http (Action ConnectionEvent ConnectionState Exchange StatusType answer component
  exchangeMachine http3 settled strandEvent)

/-! ## The server -/

/-- What the handler of an accept does: it starts the new connection, and calls `do_accept`. -/
inductive AcceptAction where
  | start
  | doAccept
  deriving DecidableEq, Repr

/-- The handler that `do_accept` passes to `async_accept`. -/
def acceptHandler (acceptorIsOpen : Bool) (ec : Option ErrorCode) : List AcceptAction :=
  if acceptorIsOpen = false then []
  else (if ec = none then [.start] else []) ++ [.doAccept]

/-- The `io_context` with what is outstanding. `accepting` has for each thread that runs the handler of an
accept what it has still to do. -/
structure ServerState where
  stopped : Bool
  acceptorIsOpen : Bool
  awaiting : Bool
  signalled : Bool
  accepts : List (Pending Unit)
  accepting : List (List AcceptAction)
  conns : List (OnStrand Exchange Action)
  deriving DecidableEq, Repr

/-- What can happen to the server. That the acceptor closes is up to the environment. The members that the
constructor of a connection leaves uninitialised come with the event. -/
inductive ServerEvent where
  | acceptCompletes (i : ℕ) (c : Completion)
  | acceptBegins (i : ℕ)
  | acceptPerforms (j : ℕ) (major minor : Int32) (status : StatusType)
  | acceptFinishes (j : ℕ)
  | closeAcceptor
  | signal
  | signalHandler
  | connection (id : ℕ) (e : StrandEvent (ℕ × Completion) (ℕ × FileSystem))

/-- A thread begins a handler. -/
def ServerEvent.begins : ServerEvent → Bool
  | .acceptBegins _ => true
  | .signalHandler => true
  | .connection _ e => e.begins
  | _ => false

/-- A thread comes back from a handler. -/
def ServerEvent.finishes : ServerEvent → Bool
  | .acceptFinishes _ => true
  | .connection _ e => e.finishes
  | _ => false

namespace ServerState

/-- How many threads run a handler. -/
def busy (s : ServerState) : ℕ :=
  s.accepting.length + (s.conns.map fun c => c.running.isSome.toNat).sum

/-- One of the threads takes a handler. -/
def free (threads : ℕ) (s : ServerState) : Bool := !s.stopped && s.busy < threads

/-- `server::do_accept` -/
def doAccept (s : ServerState) : ServerState :=
  { s with accepts := s.accepts ++ [⟨(), !s.acceptorIsOpen, none⟩] }

/-- `std::make_shared<connection>(...)->start()` -/
def startConnection (s : ServerState) (c : Http.Connection) : ServerState :=
  { s with conns := s.conns ++ [⟨⟨.started c, []⟩, none⟩] }

/-- One action of the handler of an accept. -/
def perform (s : ServerState) (c : Http.Connection) : AcceptAction → ServerState
  | .start => s.startConnection c
  | .doAccept => s.doAccept

/-- The state after the constructor of `server`. -/
def constructed : ServerState := doAccept ⟨false, true, true, false, [], [], []⟩

/-- An event of the server. -/
def step (threads : ℕ) (docRoot : List UInt8) (s : ServerState) : ServerEvent → Option ServerState
  | .acceptCompletes i c =>
      (complete s.acceptorIsOpen s.accepts i c).map fun ps => { s with accepts := ps }
  | .acceptBegins i =>
      if s.free threads then
        (dispatch s.accepts i).map fun (_, done, ps) =>
          { s with
            accepts := ps
            accepting := s.accepting ++ [acceptHandler s.acceptorIsOpen done.ec] }
      else none
  | .acceptPerforms j major minor status =>
      match s.accepting[j]? with
      | some (a :: as) =>
          some ({ s with accepting := s.accepting.set j as }.perform
            ⟨.fresh major minor, .new, ⟨status, [], []⟩⟩ a)
      | _ => none
  | .acceptFinishes j =>
      match s.accepting[j]? with
      | some [] => some { s with accepting := s.accepting.eraseIdx j }
      | _ => none
  | .closeAcceptor => some { s with acceptorIsOpen := false }
  | .signal => if s.awaiting then some { s with awaiting := false, signalled := true } else none
  | .signalHandler =>
      if s.free threads ∧ s.signalled then some { s with signalled := false, stopped := true } else none
  | .connection id e =>
      if e.begins = false ∨ s.free threads then
        s.conns[id]?.bind fun c =>
          ((component http3 docRoot).onStrand.step c e).map fun d => { s with conns := s.conns.set id d }
      else none

end ServerState

/-- The server of http3/ with its threads, from its construction on. -/
def serverMachine (threads : ℕ) (docRoot : List UInt8) : Machine ServerState ServerEvent where
  init s := s = .constructed
  step := ServerState.step threads docRoot

/-! ## All connections -/

section Runs

variable {threads : ℕ} {docRoot : List UInt8} {s t : ServerState}

/-- What concerns a connection. -/
def ServerEvent.onConnection (id : ℕ) :
    ServerEvent → Option (StrandEvent (ℕ × Completion) (ℕ × FileSystem))
  | .connection id' e => if id' = id then some e else none
  | _ => none

/-- What happens to a connection as if on a single thread. -/
def ServerEvent.connectionEvent (id : ℕ) (e : ServerEvent) : Option ConnectionEvent :=
  (e.onConnection id).bind strandEvent

/-- A handler runs where it begins. -/
theorem eq_of_connectionEvent {id i : ℕ} {fs : FileSystem} {e : ServerEvent}
    (h : e.connectionEvent id = some (.handler i fs)) : e = .connection id (.begin_ (i, fs)) := by
  obtain ⟨f, hf, hevent⟩ := Option.bind_eq_some_iff.1 h
  obtain rfl := Http.eq_of_strandEvent hevent
  cases e with
  | connection id' f' =>
      have hf : (if id' = id then some f' else none) = some (.begin_ (i, fs)) := hf
      obtain ⟨rfl, heq⟩ := Option.ite_none_right_eq_some.1 hf
      rw [Option.some.inj heq]
  | _ => cases hf

theorem connection_eq_some {id : ℕ} {e : StrandEvent (ℕ × Completion) (ℕ × FileSystem)}
    (h : s.step threads docRoot (.connection id e) = some t) :
    (e.begins = false ∨ s.free threads = true) ∧
      ∃ c d, s.conns[id]? = some c ∧ (component http3 docRoot).onStrand.step c e = some d ∧
        t = { s with conns := s.conns.set id d } := by
  obtain ⟨hfree, h⟩ := Option.ite_none_right_eq_some.1 h
  obtain ⟨c, hc, h⟩ := Option.bind_eq_some_iff.1 h
  obtain ⟨d, hd, rfl⟩ := Option.map_eq_some_iff.1 h
  exact ⟨hfree, c, d, hc, hd, rfl⟩

/-- The connection `id` is a part of the server. -/
def serverConnection (threads : ℕ) (docRoot : List UInt8) (id : ℕ) :
    Machine.Part (serverMachine threads docRoot) (component http3 docRoot).onStrand where
  get s := s.conns[id]?
  label := ServerEvent.onConnection id
  absent := by
    rintro s rfl
    rfl
  step := by
    intro s e t _ h
    cases e with
    | acceptCompletes i c =>
        obtain ⟨ps, -, rfl⟩ := Option.map_eq_some_iff.1 h
        exact Or.inl ⟨rfl, rfl⟩
    | acceptBegins i =>
        obtain ⟨-, h⟩ := Option.ite_none_right_eq_some.1 h
        obtain ⟨r, -, rfl⟩ := Option.map_eq_some_iff.1 h
        exact Or.inl ⟨rfl, rfl⟩
    | acceptPerforms j major minor status =>
        simp only [serverMachine, ServerState.step] at h
        split at h
        · rename_i a as _
          cases h
          cases a with
          | doAccept => exact Or.inl ⟨rfl, rfl⟩
          | start =>
              simp only [ServerState.perform, ServerState.startConnection]
              rcases Nat.lt_trichotomy id s.conns.length with hlt | rfl | hgt
              · exact Or.inl ⟨List.getElem?_append_left hlt, rfl⟩
              · refine Or.inr (Or.inr ⟨List.getElem?_eq_none le_rfl, rfl, _, ?_,
                  List.getElem?_concat_length⟩)
                exact ⟨⟨_, ⟨major, minor, status, rfl⟩, rfl⟩, rfl⟩
              · refine Or.inl ⟨?_, rfl⟩
                rw [List.getElem?_eq_none hgt.le, List.getElem?_eq_none]
                rw [List.length_append, List.length_singleton]
                exact hgt
        · cases h
    | acceptFinishes j =>
        simp only [serverMachine, ServerState.step] at h
        split at h
        · cases h
          exact Or.inl ⟨rfl, rfl⟩
        · cases h
    | closeAcceptor =>
        cases h
        exact Or.inl ⟨rfl, rfl⟩
    | signal =>
        obtain ⟨-, h⟩ := Option.ite_none_right_eq_some.1 h
        cases h
        exact Or.inl ⟨rfl, rfl⟩
    | signalHandler =>
        obtain ⟨-, h⟩ := Option.ite_none_right_eq_some.1 h
        cases h
        exact Or.inl ⟨rfl, rfl⟩
    | connection id' e =>
        obtain ⟨-, c, d, hc, hd, rfl⟩ := connection_eq_some h
        by_cases hid : id' = id
        · subst hid
          refine Or.inr (Or.inl ⟨c, d, e, hc, if_pos rfl, hd, ?_⟩)
          exact List.getElem?_set_self (List.getElem?_eq_some_iff.1 hc).1
        · exact Or.inl ⟨List.getElem?_set_ne hid, if_neg hid⟩

/-- Each connection has made a run of its own. -/
theorem exec_connection {es : List ServerEvent}
    (h : (serverMachine threads docRoot).exec .constructed es = some s) {id : ℕ}
    {c : OnStrand Exchange Action} (hc : s.conns[id]? = some c) :
    ∃ c₀, (exchangeMachine http3 docRoot).init c₀ ∧
      (exchangeMachine http3 docRoot).exec c₀ (es.filterMap (ServerEvent.connectionEvent id)) =
        some (settled http3 docRoot c) := by
  obtain ⟨c₀, hinit, hexec⟩ := (serverConnection threads docRoot id).exec rfl h hc
  obtain ⟨hinit, hexec⟩ := Http.exec_component hinit hexec
  rw [serverConnection, List.filterMap_filterMap] at hexec
  exact ⟨c₀.state, hinit, hexec⟩

/-! ## All threads -/

/-- No more handlers run than there are threads, and one accept at a time is outstanding or at work: a thread that
has called `do_accept` has nothing more to do. -/
structure Disciplined (threads : ℕ) (s : ServerState) : Prop where
  busy_le : s.busy ≤ threads
  oneAccept : s.accepts.length + s.accepting.countP (fun as => !as.isEmpty) ≤ 1
  suffix : ∀ as ∈ s.accepting, as <:+ [.start, .doAccept]

theorem busy_lt_of_free (h : s.free threads = true) : s.stopped = false ∧ s.busy < threads := by
  simpa [ServerState.free] using h

theorem acceptHandler_suffix (acceptorIsOpen : Bool) (ec : Option ErrorCode) :
    acceptHandler acceptorIsOpen ec <:+ [.start, .doAccept] := by
  rw [acceptHandler]
  split
  · exact List.nil_suffix
  · split
    · exact List.suffix_rfl
    · exact List.suffix_cons _ _

/-- How many threads are busy after a step. The handler of the signals takes one, and gives it back. -/
theorem busy_step {e : ServerEvent} (h : s.step threads docRoot e = some t) :
    t.busy + e.finishes.toNat ≤ s.busy + e.begins.toNat := by
  cases e with
  | acceptCompletes i c =>
      obtain ⟨ps, -, rfl⟩ := Option.map_eq_some_iff.1 h
      exact le_rfl
  | acceptBegins i =>
      obtain ⟨-, h⟩ := Option.ite_none_right_eq_some.1 h
      obtain ⟨r, -, rfl⟩ := Option.map_eq_some_iff.1 h
      simp only [ServerState.busy, List.length_append, List.length_singleton, ServerEvent.finishes,
        ServerEvent.begins, Bool.toNat_false, Bool.toNat_true]
      omega
  | acceptPerforms j major minor status =>
      simp only [ServerState.step] at h
      split at h
      · rename_i a as _
        cases h
        cases a with
        | doAccept =>
            simp [ServerState.busy, ServerState.perform, ServerState.doAccept, ServerEvent.finishes,
              ServerEvent.begins]
        | start =>
            simp [ServerState.busy, ServerState.perform, ServerState.startConnection, ServerEvent.finishes,
              ServerEvent.begins]
      · cases h
  | acceptFinishes j =>
      simp only [ServerState.step] at h
      split at h
      · rename_i hj
        cases h
        have hlt : j < s.accepting.length := (List.getElem?_eq_some_iff.1 hj).1
        simp only [ServerState.busy, List.length_eraseIdx_of_lt hlt, ServerEvent.finishes,
          ServerEvent.begins, Bool.toNat_false, Bool.toNat_true]
        omega
      · cases h
  | closeAcceptor =>
      cases h
      exact le_rfl
  | signal =>
      obtain ⟨-, h⟩ := Option.ite_none_right_eq_some.1 h
      cases h
      exact le_rfl
  | signalHandler =>
      obtain ⟨-, h⟩ := Option.ite_none_right_eq_some.1 h
      cases h
      exact Nat.le_succ _
  | connection id e =>
      obtain ⟨-, c, d, hc, hd, rfl⟩ := connection_eq_some h
      have hsum := sum_map_set (fun c => c.running.isSome.toNat) hc d
      have hrunning := Component.running_of_step hd
      rw [ServerEvent.finishes, ServerEvent.begins, ServerState.busy, ServerState.busy]
      dsimp only
      omega

/-- A handler begins in a thread that is free. -/
theorem free_of_begins {e : ServerEvent} (h : s.step threads docRoot e = some t) (he : e.begins = true) :
    s.free threads = true := by
  cases e with
  | acceptBegins i => exact (Option.ite_none_right_eq_some.1 h).1
  | signalHandler => exact (Option.ite_none_right_eq_some.1 h).1.1
  | connection id e =>
      obtain ⟨hfree | hfree, -⟩ := connection_eq_some h
      · have he : e.begins = true := he
        rw [he] at hfree
        cases hfree
      · exact hfree
  | _ => cases he

theorem Disciplined.step (hs : Disciplined threads s) {e : ServerEvent}
    (h : s.step threads docRoot e = some t) : Disciplined threads t := by
  have hbusy : t.busy ≤ threads := by
    have hle := busy_step h
    have hs := hs.busy_le
    cases he : e.begins with
    | false =>
        rw [he, Bool.toNat_false] at hle
        omega
    | true =>
        have hfree := (busy_lt_of_free (free_of_begins h he)).2
        rw [he, Bool.toNat_true] at hle
        omega
  have hone := hs.oneAccept
  cases e with
  | acceptCompletes i c =>
      obtain ⟨ps, hps, rfl⟩ := Option.map_eq_some_iff.1 h
      exact ⟨hbusy, (length_of_complete hps).symm ▸ hone, hs.suffix⟩
  | acceptBegins i =>
      obtain ⟨-, h⟩ := Option.ite_none_right_eq_some.1 h
      obtain ⟨⟨op, done, ps⟩, hps, rfl⟩ := Option.map_eq_some_iff.1 h
      refine ⟨hbusy, ?_, ?_⟩
      · have hlen := length_of_dispatch hps
        have hnew : [acceptHandler s.acceptorIsOpen done.ec].countP (fun as => !as.isEmpty) ≤ 1 :=
          List.countP_le_length
        dsimp only
        rw [List.countP_append]
        omega
      · intro as has
        rcases List.mem_append.1 has with has | has
        · exact hs.suffix as has
        · rw [List.mem_singleton.1 has]
          exact acceptHandler_suffix _ _
  | acceptPerforms j major minor status =>
      simp only [ServerState.step] at h
      split at h
      · rename_i a as hj
        cases h
        have hlt : j < s.accepting.length := (List.getElem?_eq_some_iff.1 hj).1
        have hget : s.accepting[j] = a :: as := (List.getElem?_eq_some_iff.1 hj).2
        have hsuffix := hs.suffix _ (List.mem_of_getElem? hj)
        have hpos : 0 < s.accepting.countP (fun as => !as.isEmpty) :=
          List.countP_pos_iff.2 ⟨_, List.mem_of_getElem? hj, rfl⟩
        have hset : ∀ bs ∈ s.accepting.set j as, bs <:+ [.start, .doAccept] := by
          intro bs hbs
          rcases List.mem_or_eq_of_mem_set hbs with hbs | rfl
          · exact hs.suffix bs hbs
          · exact (List.suffix_cons a bs).trans hsuffix
        have hcount := @List.countP_set _ (fun as : List AcceptAction => !as.isEmpty) _ _ as hlt
        rw [hget] at hcount
        cases a with
        | start =>
            refine ⟨hbusy, ?_, hset⟩
            have hle : (if !as.isEmpty then 1 else 0) ≤ 1 := by split <;> decide
            simp only [ServerState.perform, ServerState.startConnection, hcount, List.isEmpty_cons,
              Bool.not_false, if_true]
            omega
        | doAccept =>
            -- nothing stands behind `do_accept`
            obtain rfl : as = [] := by simpa [List.suffix_cons_iff] using hsuffix
            refine ⟨hbusy, ?_, hset⟩
            simp only [ServerState.perform, ServerState.doAccept, hcount, List.isEmpty_cons,
              List.isEmpty_nil, List.length_append, List.length_singleton]
            simp
            omega
      · cases h
  | acceptFinishes j =>
      simp only [ServerState.step] at h
      split at h
      · cases h
        refine ⟨hbusy, ?_, fun as has => hs.suffix as (List.mem_of_mem_eraseIdx has)⟩
        have hle := (s.accepting.eraseIdx_sublist j).countP_le (p := fun as => !as.isEmpty)
        dsimp only
        omega
      · cases h
  | closeAcceptor =>
      cases h
      exact ⟨hbusy, hone, hs.suffix⟩
  | signal =>
      obtain ⟨-, h⟩ := Option.ite_none_right_eq_some.1 h
      cases h
      exact ⟨hbusy, hone, hs.suffix⟩
  | signalHandler =>
      obtain ⟨-, h⟩ := Option.ite_none_right_eq_some.1 h
      cases h
      exact ⟨hbusy, hone, hs.suffix⟩
  | connection id e =>
      obtain ⟨-, c, d, -, -, rfl⟩ := connection_eq_some h
      exact ⟨hbusy, hone, hs.suffix⟩

theorem disciplined (h : (serverMachine threads docRoot).Reachable s) : Disciplined threads s := by
  apply h.invariant (I := Disciplined threads)
  · rintro s rfl
    exact ⟨Nat.zero_le _, le_rfl, by simp [ServerState.constructed, ServerState.doAccept]⟩
  · intro s e t hs hstep
    exact hs.step hstep

end Runs

/-- **Threads do not matter to a connection.** In every run with any number of threads: no more handlers run at a
time than there are threads; one accept at most is outstanding or at work; and each connection, once its handler
has come to its end, is where a single thread brings it with the same completions, and the same handlers in the
order in which they began. -/
theorem http3_connections (threads : ℕ) (docRoot : List UInt8) (s : ServerState) (es : List ServerEvent)
    (hexec : (serverMachine threads docRoot).exec .constructed es = some s) :
    s.busy ≤ threads ∧ s.accepts.length + s.accepting.countP (fun as => !as.isEmpty) ≤ 1 ∧
      ∀ id c, s.conns[id]? = some c → ∃ c₀, (exchangeMachine http3 docRoot).init c₀ ∧
        (exchangeMachine http3 docRoot).exec c₀ (es.filterMap (ServerEvent.connectionEvent id)) =
          some (settled http3 docRoot c) := by
  have hs : Disciplined threads s := @disciplined threads docRoot s ⟨_, es, rfl, hexec⟩
  exact ⟨hs.busy_le, hs.oneAccept, fun id c hc => exec_connection hexec hc⟩

/-- The events of a run in which two threads serve two connections: the read handler of the first one is at work
when that of the second one begins. -/
def twoThreads : List ServerEvent :=
  [.acceptCompletes 0 ⟨none, []⟩, .acceptBegins 0, .acceptPerforms 0 0 0 .ok, .acceptPerforms 0 0 0 .ok,
    .acceptCompletes 0 ⟨none, []⟩, .acceptBegins 0, .acceptFinishes 0, .acceptPerforms 0 0 0 .ok,
    .acceptPerforms 0 0 0 .ok, .acceptFinishes 0,
    .connection 0 (.event (0, ⟨none, str " "⟩)), .connection 1 (.event (0, ⟨none, str "GET"⟩)),
    .connection 0 (.begin_ (0, fun _ => none)), .connection 0 .perform,
    .connection 1 (.begin_ (0, fun _ => none)), .connection 0 .perform, .connection 0 .perform,
    .connection 0 .perform, .connection 0 .finish]

theorem twoThreads_exec :
    ∃ s c, (serverMachine 2 []).exec .constructed twoThreads = some s ∧ s.conns[0]? = some c ∧
      c.state.received = str " " ∧ .asyncWrite (.stockReply .badRequest) ∈ c.state.conn.trace := by
  have hrun : ((serverMachine 2 []).exec .constructed twoThreads).bind (fun s => s.conns[0]?.map fun c =>
      decide (c.state.received = str " " ∧
        .asyncWrite (.stockReply .badRequest) ∈ c.state.conn.trace)) = some true := by decide +kernel
  obtain ⟨s, hs, h⟩ := Option.bind_eq_some_iff.1 hrun
  obtain ⟨c, hc, htrue⟩ := Option.map_eq_some_iff.1 h
  obtain ⟨hreceived, hwrite⟩ := of_decide_eq_true htrue
  exact ⟨s, c, hs, hc, hreceived, hwrite⟩

/-- In that run each connection has run by itself. -/
theorem http3_connections_two :
    ∃ s c c₀, (serverMachine 2 []).exec .constructed twoThreads = some s ∧ s.busy ≤ 2 ∧
      s.conns[0]? = some c ∧ (exchangeMachine http3 []).exec c₀
        (twoThreads.filterMap (ServerEvent.connectionEvent 0)) = some (settled http3 [] c) := by
  obtain ⟨s, c, hs, hc, -, -⟩ := twoThreads_exec
  obtain ⟨hbusy, -, hconn⟩ := http3_connections 2 [] s twoThreads hs
  obtain ⟨c₀, -, hexec⟩ := hconn 0 c hc
  exact ⟨s, c, c₀, hs, hbusy, hc, hexec⟩

/-- **Every reply of the server is the answer** to what its connection has received, however the threads take
turns. Where nothing was written to a connection, and no handler of it is queued or running, there is no answer
yet. -/
theorem http3_answers (threads : ℕ) (docRoot : List UInt8) (s : ServerState) (es : List ServerEvent)
    (hexec : (serverMachine threads docRoot).exec .constructed es = some s) (id : ℕ)
    (c : OnStrand Exchange Action) (hc : s.conns[id]? = some c) :
    (∀ rep, .asyncWrite rep ∈ c.state.conn.trace →
      ∃ i fs, .connection id (.begin_ (i, fs)) ∈ es ∧ answer docRoot fs c.state.received = some rep) ∧
    (c.running = none → (∀ p ∈ c.state.conn.pending, p.completion = none) →
      (∀ rep, .asyncWrite rep ∉ c.state.conn.trace) → ∀ fs, answer docRoot fs c.state.received = none) := by
  obtain ⟨c₀, hinit, hrun⟩ := exec_connection hexec hc
  obtain ⟨hwritten, hnone⟩ := Http.settled_answers hinit hrun
  refine ⟨fun rep hrep => ?_, hnone⟩
  obtain ⟨i, fs, he, hanswer⟩ := hwritten rep hrep
  obtain ⟨e, he, hlabel⟩ := List.mem_filterMap.1 he
  exact ⟨i, fs, eq_of_connectionEvent hlabel ▸ he, hanswer⟩

/-- The answer to a blank. -/
theorem http3_answers_two :
    ∃ i fs, .connection 0 (.begin_ (i, fs)) ∈ twoThreads ∧
      answer [] fs (str " ") = some (.stockReply .badRequest) := by
  obtain ⟨s, c, hs, hc, hreceived, hwrite⟩ := twoThreads_exec
  exact hreceived ▸ (http3_answers 2 [] s twoThreads hs 0 c hc).1 _ hwrite

/-! ## After a signal -/

section Stopped

variable {threads : ℕ} {docRoot : List UInt8} {s t : ServerState}

/-- Nothing begins where the `io_context` is stopped. -/
theorem begins_eq_false_of_stopped {e : ServerEvent} (hs : s.stopped = true)
    (h : s.step threads docRoot e = some t) : e.begins = false := by
  cases he : e.begins with
  | false => rfl
  | true =>
      have hrunning := (busy_lt_of_free (free_of_begins h he)).1
      rw [hs] at hrunning
      cases hrunning

theorem stopped_step {e : ServerEvent} (hs : s.stopped = true)
    (h : s.step threads docRoot e = some t) : t.stopped = true := by
  cases e with
  | acceptCompletes i c =>
      obtain ⟨ps, -, rfl⟩ := Option.map_eq_some_iff.1 h
      exact hs
  | acceptBegins i =>
      obtain ⟨-, h⟩ := Option.ite_none_right_eq_some.1 h
      obtain ⟨r, -, rfl⟩ := Option.map_eq_some_iff.1 h
      exact hs
  | acceptPerforms j major minor status =>
      simp only [ServerState.step] at h
      split at h
      · rename_i a as _
        cases h
        cases a <;> exact hs
      · cases h
  | acceptFinishes j =>
      simp only [ServerState.step] at h
      split at h
      · cases h
        exact hs
      · cases h
  | closeAcceptor =>
      cases h
      exact hs
  | signal =>
      obtain ⟨-, h⟩ := Option.ite_none_right_eq_some.1 h
      cases h
      exact hs
  | signalHandler =>
      obtain ⟨-, h⟩ := Option.ite_none_right_eq_some.1 h
      cases h
      rfl
  | connection id e =>
      obtain ⟨-, c, d, -, -, rfl⟩ := connection_eq_some h
      exact hs

/-- Where the `io_context` is stopped, what a connection does is settled. -/
theorem trace_settled_step (hr : (serverMachine threads docRoot).Reachable s) {e : ServerEvent}
    (hs : s.stopped = true) (h : s.step threads docRoot e = some t) {id : ℕ}
    {c : OnStrand Exchange Action} (hc : s.conns[id]? = some c) :
    ∃ d, t.conns[id]? = some d ∧
      (settled http3 docRoot d).conn.trace = (settled http3 docRoot c).conn.trace := by
  rcases (serverConnection threads docRoot id).step s e t hr h with ⟨hsame, -⟩ |
    ⟨c', d, f, hc', hlabel, hstep, hd⟩ | ⟨hnone, -⟩
  · exact ⟨c, hsame.trans hc, rfl⟩
  · obtain rfl : c = c' := Option.some.inj (hc.symm.trans hc')
    refine ⟨d, hd, Http.trace_settled_of_step hstep ?_⟩
    have hbegins := begins_eq_false_of_stopped hs h
    cases e with
    | connection id' f' =>
        have hlabel : (if id' = id then some f' else none) = some f := hlabel
        exact (Option.some.inj (Option.ite_none_right_eq_some.1 hlabel).2) ▸ hbegins
    | _ => cases hlabel
  · have hnone : s.conns[id]? = none := hnone
    rw [hnone] at hc
    cases hc

end Stopped

/-- **After a signal the threads come back.** From the state in which the `io_context` is stopped, whatever happens:
no handler begins; those that are running are no more than there are threads, and each comes back at most once;
and no connection does anything but what its running handler has still to perform. -/
theorem http3_stops (threads : ℕ) (docRoot : List UInt8) (s t : ServerState) (es : List ServerEvent)
    (hs : (serverMachine threads docRoot).Reachable s) (hstopped : s.stopped = true)
    (hexec : (serverMachine threads docRoot).exec s es = some t) :
    (∀ e ∈ es, e.begins = false) ∧ es.countP ServerEvent.finishes + t.busy ≤ threads ∧
      ∀ (id : ℕ) (c : OnStrand Exchange Action), s.conns[id]? = some c →
        ∃ d, t.conns[id]? = some d ∧
          (settled http3 docRoot d).conn.trace = (settled http3 docRoot c).conn.trace := by
  refine ⟨?_, ?_, ?_⟩
  · intro e he
    obtain ⟨before, after, rfl⟩ := List.append_of_mem he
    obtain ⟨u, hu, hrest⟩ := (serverMachine threads docRoot).exec_append_eq_some.1 hexec
    obtain ⟨v, hv, -⟩ := (serverMachine threads docRoot).exec_cons_eq_some.1 hrest
    have hustopped : u.stopped = true :=
      Machine.exec_preserves (I := fun s => s.stopped = true) (fun s e t hs h => stopped_step hs h)
        hstopped hu
    exact begins_eq_false_of_stopped hustopped hv
  · have hmeasure := Machine.countP_add_measure_le (I := fun s => s.stopped = true)
      (p := ServerEvent.finishes) (f := ServerState.busy) (fun s e t hs h => by
        have hbusy := busy_step h
        rw [begins_eq_false_of_stopped hs h, Bool.toNat_false] at hbusy
        refine ⟨stopped_step hs h, ?_⟩
        cases hf : e.finishes <;> rw [hf] at hbusy <;> simp at hbusy ⊢ <;> omega) hstopped hexec
    exact hmeasure.trans (disciplined hs).busy_le
  · intro id c hc
    have key := Machine.exec_preserves (M := serverMachine threads docRoot)
      (I := fun u => (serverMachine threads docRoot).Reachable u ∧ u.stopped = true ∧
        ∃ d, u.conns[id]? = some d ∧
        (settled http3 docRoot d).conn.trace = (settled http3 docRoot c).conn.trace)
      (fun u e v hu h => by
        obtain ⟨hr, hustopped, d, hd, htrace⟩ := hu
        obtain ⟨d', hd', htrace'⟩ := trace_settled_step hr hustopped h hd
        exact ⟨hr.step h, stopped_step hustopped h, d', hd', htrace'.trans htrace⟩)
      ⟨hs, hstopped, c, hc, rfl⟩ hexec
    exact key.2.2

/-- A signal comes while a handler is running, which goes on. -/
theorem http3_stops_running :
    ∃ s t, (serverMachine 2 []).Reachable s ∧ s.stopped = true ∧
      (serverMachine 2 []).exec s [.connection 0 .perform, .connection 0 .perform] = some t ∧ t.busy = 1 ∧
      ([.connection 0 .perform, .connection 0 .perform] : List ServerEvent).countP ServerEvent.finishes +
        t.busy ≤ 2 := by
  have hrun : ((serverMachine 2 []).exec .constructed [.acceptCompletes 0 ⟨none, []⟩, .acceptBegins 0,
      .acceptPerforms 0 0 0 .ok, .acceptPerforms 0 0 0 .ok, .acceptFinishes 0,
      .connection 0 (.event (0, ⟨none, str " "⟩)), .connection 0 (.begin_ (0, fun _ => none)), .signal,
      .signalHandler]).bind (fun s =>
        ((serverMachine 2 []).exec s [.connection 0 .perform, .connection 0 .perform]).map fun t =>
          decide (s.stopped = true ∧ t.busy = 1)) = some true := by decide +kernel
  obtain ⟨s, hs, h⟩ := Option.bind_eq_some_iff.1 hrun
  obtain ⟨t, ht, htrue⟩ := Option.map_eq_some_iff.1 h
  obtain ⟨hstopped, hbusy⟩ := of_decide_eq_true htrue
  have hreach : (serverMachine 2 []).Reachable s := ⟨_, _, rfl, hs⟩
  exact ⟨s, t, hreach, hstopped, ht, hbusy, (http3_stops 2 [] s t _ hreach hstopped ht).2.1⟩

end AsioExamples.Http3
