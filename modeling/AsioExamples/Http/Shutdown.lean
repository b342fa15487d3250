import Mathlib.Algebra.Order.BigOperators.Group.List
import AsioExamples.Http.Server

/-!
# The server comes to its end

When the stop handler has run, every socket is closed. What was outstanding then may still have
succeeded, and its handler starts another operation; but that one was started on a closed socket and
fails, and the handler of a failure starts nothing. So an operation of a closed connection leads to two
handlers at most, and to one if it was started after the close (`handlersLeft`). `eventsLeft` counts the
completions too: it is the measure that every step lowers (`Draining.step`).
-/

set_option autoImplicit false

namespace AsioExamples.Http

open AsioExamples.Cxx AsioExamples.Lib AsioExamples.Asio

/-! ## A connection with a closed socket -/

/-- The handlers that an operation of a closed connection can still lead to, its own included. -/
def handlersOf (p : Pending Op) : ℕ := if p.startedClosed then 1 else 2

/-- The handlers and completions that it can still lead to. -/
def eventsOf (p : Pending Op) : ℕ :=
  if p.completion = none then 2 * handlersOf p else 2 * handlersOf p - 1

namespace ConnectionState

def handlersLeft (c : ConnectionState) : ℕ := (c.pending.map handlersOf).sum

def eventsLeft (c : ConnectionState) : ℕ := (c.pending.map eventsOf).sum

variable {docRoot : List UInt8} {c c' : ConnectionState}

/-- What is started on a closed socket. -/
theorem foldl_perform_closed (acts : List Action) (hclosed : c.isOpen = false) :
    ∀ p ∈ (acts.foldl perform c).pending,
      p ∈ c.pending ∨ (p.startedClosed = true ∧ p.completion = none) := by
  induction acts generalizing c with
  | nil => exact fun p hp => Or.inl hp
  | cons a acts ih =>
      intro p hp
      have hstill : (c.perform a).isOpen = false := by
        simp only [perform, hclosed]
        split <;> rfl
      rcases ih hstill p hp with hp | hnew
      · cases a
        case asyncReadSome =>
          rcases List.mem_append.1 hp with hp | hp
          · exact Or.inl hp
          · rw [List.mem_singleton.1 hp, hclosed]
            exact Or.inr ⟨rfl, rfl⟩
        case asyncWrite rep =>
          rcases List.mem_append.1 hp with hp | hp
          · exact Or.inl hp
          · rw [List.mem_singleton.1 hp, hclosed]
            exact Or.inr ⟨rfl, rfl⟩
        all_goals exact Or.inl hp
      · exact Or.inr hnew

/-- An operation that was started on a closed socket fails. -/
theorem startedClosed_fails {srv : Server} (h : (connectionMachine srv docRoot).Reachable c) :
    ∀ p ∈ c.pending, p.startedClosed = true → ∀ done, p.completion = some done → done.ec ≠ none := by
  apply h.induct (I := fun c => ∀ p ∈ c.pending, p.startedClosed = true →
    ∀ done, p.completion = some done → done.ec ≠ none)
  · rintro c ⟨major, minor, status, rfl⟩ p hp
    rw [List.mem_singleton.1 hp]
    simp
  · intro c e d hr hc hstep
    have hlen : c.pending.length ≤ 1 := length_pending_le_one hr
    cases e with
    | complete i done =>
        obtain ⟨p, -, -, hmay, rfl⟩ := complete_eq_some hlen hstep
        intro q hq hclosed done' hdone hec
        rw [List.mem_singleton.1 hq] at hclosed hdone
        cases hdone
        have hclosed : p.startedClosed = true := hclosed
        rw [hec, mayComplete, hclosed] at hmay
        cases hmay
    | handler i fs =>
        -- what a handler starts has not completed yet
        obtain ⟨⟨d', acts⟩, hrun, rfl⟩ := Option.map_eq_some_iff.1 hstep
        obtain ⟨p, done, -, -, c', rfl, -⟩ := handler_eq_some hlen hrun
        obtain ⟨ps, hps, -, hnone⟩ := foldl_perform_pending { c with conn := c', pending := [] } acts
        intro q hq _ done' hdone
        rw [hps, List.nil_append] at hq
        rw [hnone q hq] at hdone
        cases hdone
    | stop =>
        obtain rfl := stop_eq_some hstep
        exact hc

/-- Of a failed operation nothing is left. -/
theorem pending_of_failed {p : Pending Op} {done : Completion} {conn : Connection} {fs : FileSystem}
    {acts : List Action} (hfails : done.ec ≠ none)
    (hact : (p.op = .readSome ∧ (conn, acts) =
        readHandler http (fun req rep => (handleRequest docRoot fs req rep).reply) c.conn done) ∨
      ∃ rep, p.op = .write rep ∧ conn = c.conn ∧ acts = writeHandler http done) :
    (acts.foldl perform { c with conn := conn, pending := [] }).pending = [] := by
  have hnone : startedOps acts = [] := by
    rcases hact with ⟨-, hread⟩ | ⟨rep, -, -, rfl⟩
    · rcases readHandler_cases http (fun req rep => (handleRequest docRoot fs req rep).reply) c.conn done
        with ⟨ec, -, heq⟩ | ⟨hec, -⟩ | ⟨hec, -⟩
      · obtain ⟨-, rfl⟩ := Prod.mk.inj (hread.trans heq)
        exact startedOps_failed ec _
      · exact absurd hec hfails
      · exact absurd hec hfails
    · exact startedOps_writeHandler http done
  obtain ⟨ps, hps, hops, -⟩ := foldl_perform_pending { c with conn := conn, pending := [] } acts
  rw [hnone, List.map_eq_nil_iff] at hops
  rw [hps, hops]
  rfl

/-- A handler of a closed connection uses up what its operation could still lead to. -/
theorem closed_handler {i : ℕ} {fs : FileSystem} {acts : List Action}
    (hr : (connectionMachine http docRoot).Reachable c) (hclosed : c.isOpen = false)
    (h : c.handler http docRoot i fs = some (c', acts)) :
    c'.handlersLeft + 1 ≤ c.handlersLeft ∧ c'.eventsLeft + 1 ≤ c.eventsLeft := by
  have hlen : c.pending.length ≤ 1 := length_pending_le_one hr
  have hr' : (connectionMachine http docRoot).Reachable c' :=
    hr.step (e := .handler i fs) (by simp [connectionMachine, h])
  have hlen' : c'.pending.length ≤ 1 := length_pending_le_one hr'
  obtain ⟨p, done, hp, hdone, conn, rfl, hact⟩ := handler_eq_some hlen h
  have hbefore : c.handlersLeft = handlersOf p ∧ c.eventsLeft = 2 * handlersOf p - 1 := by
    simp [handlersLeft, eventsLeft, hp, eventsOf, hdone]
  rw [hbefore.1, hbefore.2, handlersOf]
  by_cases hstarted : p.startedClosed = true
  · -- the operation failed, and its handler starts nothing
    have hfails := startedClosed_fails hr p (by simp [hp]) hstarted done hdone
    have hafter := pending_of_failed hfails hact
    simp [handlersLeft, eventsLeft, hafter, hstarted]
  · -- whatever its handler starts is started on the closed socket
    have hnew := foldl_perform_closed (c := { c with conn := conn, pending := [] }) acts hclosed
    have hafter : ∀ q ∈ (acts.foldl perform { c with conn := conn, pending := [] }).pending,
        handlersOf q = 1 ∧ eventsOf q = 2 := by
      intro q hq
      rcases hnew q hq with hq | ⟨hq, hnone⟩
      · cases hq
      · simp [handlersOf, eventsOf, hq, hnone]
    rw [handlersLeft, eventsLeft, if_neg hstarted]
    cases hps : (acts.foldl perform { c with conn := conn, pending := [] }).pending with
    | nil => simp
    | cons q qs =>
        rw [hps] at hlen' hafter
        obtain rfl : qs = [] := List.eq_nil_of_length_eq_zero (Nat.le_zero.1 (Nat.le_of_succ_le_succ hlen'))
        obtain ⟨hq₁, hq₂⟩ := hafter q (List.mem_singleton_self q)
        simp [hq₁, hq₂]

/-- A completion of an operation leaves its handler to be run. -/
theorem closed_complete {i : ℕ} {done : Completion}
    (hr : (connectionMachine http docRoot).Reachable c) (h : c.complete i done = some c') :
    c'.handlersLeft = c.handlersLeft ∧ c'.eventsLeft + 1 ≤ c.eventsLeft := by
  have hlen : c.pending.length ≤ 1 := length_pending_le_one hr
  obtain ⟨p, hp, hnone, -, rfl⟩ := complete_eq_some hlen h
  have hpos : 1 ≤ handlersOf p := by
    rw [handlersOf]
    split <;> omega
  have hsame : handlersOf { p with completion := some done } = handlersOf p := rfl
  simp only [handlersLeft, eventsLeft, hp, List.map_singleton, List.sum_singleton, eventsOf, hnone,
    hsame, if_true]
  simp
  omega

/-- What a connection in a reachable state can still do is bounded. -/
theorem left_le (hr : (connectionMachine http docRoot).Reachable c) :
    c.handlersLeft ≤ 2 ∧ c.eventsLeft ≤ 4 := by
  have hlen : c.pending.length ≤ 1 := length_pending_le_one hr
  rw [handlersLeft, eventsLeft]
  rcases hc : c.pending with _ | ⟨p, _ | ⟨q, ps⟩⟩
  · simp
  · simp only [List.map_singleton, List.sum_singleton, eventsOf, handlersOf]
    split <;> split <;> omega
  · simp [hc] at hlen

end ConnectionState

/-! ## The server after the stop handler -/

/-- At most one accept and one signal wait are outstanding. -/
structure OneWait (s : ServerState) : Prop where
  accepts : s.accepts.length ≤ 1
  signals : s.signals.length ≤ 1

theorem oneWait {docRoot : List UInt8} {s : ServerState} (h : (serverMachine docRoot).Reachable s) :
    OneWait s := by
  apply h.invariant (I := OneWait)
  · rintro s rfl
    exact ⟨le_refl 1, le_refl 1⟩
  · intro s e t hs hstep
    cases e with
    | acceptCompletes i c =>
        obtain ⟨ps, hps, rfl⟩ := Option.map_eq_some_iff.1 hstep
        obtain ⟨p, -, -, -, rfl⟩ := complete_of_length_le_one hs.accepts hps
        exact ⟨le_refl 1, hs.signals⟩
    | acceptHandler i major minor status =>
        obtain ⟨⟨_, done, ps⟩, hps, rfl⟩ := Option.map_eq_some_iff.1 hstep
        obtain ⟨p, -, -, -, rfl⟩ := dispatch_of_length_le_one hs.accepts hps
        -- the accept that ended was the only one, and at most one is started
        simp only [ServerState.acceptHandler]
        split
        · exact ⟨Nat.zero_le 1, hs.signals⟩
        · split <;> exact ⟨le_refl 1, hs.signals⟩
    | signalCompletes i c =>
        obtain ⟨ps, hps, rfl⟩ := Option.map_eq_some_iff.1 hstep
        obtain ⟨p, -, -, -, rfl⟩ := complete_of_length_le_one hs.signals hps
        exact ⟨hs.accepts, le_refl 1⟩
    | signalHandler i =>
        obtain ⟨⟨_, done, ps⟩, hps, rfl⟩ := Option.map_eq_some_iff.1 hstep
        obtain ⟨p, -, -, -, rfl⟩ := dispatch_of_length_le_one hs.signals hps
        exact ⟨hs.accepts, Nat.zero_le 1⟩
    | connectionCompletes id i c =>
        obtain ⟨conn, -, hstep⟩ := Option.bind_eq_some_iff.1 hstep
        obtain ⟨conn', -, rfl⟩ := Option.map_eq_some_iff.1 hstep
        exact ⟨hs.accepts, hs.signals⟩
    | connectionHandler id i fs =>
        obtain ⟨conn, -, hstep⟩ := Option.bind_eq_some_iff.1 hstep
        obtain ⟨⟨conn', acts⟩, -, rfl⟩ := Option.map_eq_some_iff.1 hstep
        dsimp only
        split <;> exact ⟨hs.accepts, hs.signals⟩

def ServerEvent.isAcceptHandler : ServerEvent → Bool
  | .acceptHandler _ _ _ _ => true
  | _ => false

def ServerEvent.isSignalHandler : ServerEvent → Bool
  | .signalHandler _ => true
  | _ => false

/-- A handler of the connection at position `id` runs. -/
def ServerEvent.isHandlerOf (id : ℕ) : ServerEvent → Bool
  | .connectionHandler id' _ _ => id' = id
  | _ => false

namespace ServerState

/-- The handlers that the connection at position `id` can still run. -/
def handlersLeft (s : ServerState) (id : ℕ) : ℕ :=
  match s.conns[id]? with
  | some c => c.handlersLeft
  | none => 0

/-- The completions and handlers that are still to come, once the stop handler has run. -/
def eventsLeft (s : ServerState) : ℕ :=
  (s.accepts.map fun p => if p.completion = none then 2 else 1).sum +
    (s.conns.map ConnectionState.eventsLeft).sum

/-- A step of one connection. It takes `k` from the handlers that are left to it. -/
theorem left_of_set {s t : ServerState} {id k : ℕ} {c c' : ConnectionState}
    (hid : s.conns[id]? = some c) (haccepts : t.accepts = s.accepts)
    (hconns : t.conns = s.conns.set id c') (hhandlers : k + c'.handlersLeft ≤ c.handlersLeft)
    (hevents : c'.eventsLeft + 1 ≤ c.eventsLeft) :
    t.eventsLeft + 1 ≤ s.eventsLeft ∧
      ∀ id', (if id = id' then k else 0) + t.handlersLeft id' ≤ s.handlersLeft id' := by
  constructor
  · have hsum := sum_map_set ConnectionState.eventsLeft hid c'
    rw [eventsLeft, eventsLeft, haccepts, hconns]
    omega
  · intro id'
    have hlt : id < s.conns.length := (List.getElem?_eq_some_iff.1 hid).1
    rw [handlersLeft, handlersLeft, hconns]
    by_cases hne : id = id'
    · subst hne
      rw [if_pos rfl, List.getElem?_set_self hlt, hid]
      exact hhandlers
    · rw [if_neg hne, List.getElem?_set_ne hne, Nat.zero_add]

end ServerState

/-- The stop handler has run in a reachable state, and this is one of the states after it. -/
structure Draining (docRoot : List UInt8) (n : ℕ) (s : ServerState) : Prop where
  reachable : (serverMachine docRoot).Reachable s
  stopped : Stopped n s
  signals : s.signals = []

namespace Draining

variable {docRoot : List UInt8} {n : ℕ} {s t : ServerState}

/-- The socket of every connection is closed. -/
theorem closed (hs : Draining docRoot n s) {id : ℕ} {c : ConnectionState}
    (hid : s.conns[id]? = some c) :
    (connectionMachine http docRoot).Reachable c ∧ c.isOpen = false := by
  have hconsistent := consistent hs.reachable
  refine ⟨hconsistent.run c (List.mem_of_getElem? hid), ?_⟩
  rw [← Bool.not_eq_true, ← hconsistent.mem_iff id c hid, hs.stopped.none]
  exact Finset.notMem_empty id

/-- **A step of a server that comes to its end**: it uses up an event, a handler of a connection uses up
one of those that were left to the connection, the accept handler starts no accept, and there is no
signal wait. -/
theorem step {e : ServerEvent} (hs : Draining docRoot n s) (h : s.step docRoot e = some t) :
    Draining docRoot n t ∧ t.eventsLeft + 1 ≤ s.eventsLeft ∧
      (∀ id, (if e.isHandlerOf id then 1 else 0) + t.handlersLeft id ≤ s.handlersLeft id) ∧
      (if e.isAcceptHandler then 1 else 0) + t.accepts.length ≤ s.accepts.length ∧
      e.isSignalHandler = false := by
  have hreachable := hs.reachable.step h
  have hstopped := stopped_step hs.stopped h
  have haccepts := (oneWait hs.reachable).accepts
  cases e with
  | acceptCompletes i c =>
      obtain ⟨ps, hps, rfl⟩ := Option.map_eq_some_iff.1 h
      obtain ⟨p, hp, hnone, -, rfl⟩ := complete_of_length_le_one haccepts hps
      refine ⟨⟨hreachable, hstopped, hs.signals⟩, ?_, fun id => ?_, ?_, rfl⟩
      · simp [ServerState.eventsLeft, hp, hnone]
      · simp [ServerEvent.isHandlerOf, ServerState.handlersLeft]
      · simp [ServerEvent.isAcceptHandler, hp]
  | acceptHandler i major minor status =>
      -- the handler finds the acceptor closed
      obtain ⟨⟨_, done, ps⟩, hps, rfl⟩ := Option.map_eq_some_iff.1 h
      obtain ⟨p, hp, -, hdone, rfl⟩ := dispatch_of_length_le_one haccepts hps
      have hclosed := hs.stopped.closed
      simp only [ServerState.acceptHandler, hclosed, if_true] at hreachable hstopped ⊢
      refine ⟨⟨hreachable, hstopped, hs.signals⟩, ?_, fun id => ?_, ?_, rfl⟩
      · simp [ServerState.eventsLeft, hp, hdone]
      · simp [ServerEvent.isHandlerOf, ServerState.handlersLeft]
      · simp [ServerEvent.isAcceptHandler, hp]
  | signalCompletes i c =>
      obtain ⟨ps, hps, -⟩ := Option.map_eq_some_iff.1 h
      rw [hs.signals, Asio.complete] at hps
      cases hps
  | signalHandler i =>
      obtain ⟨⟨_, done, ps⟩, hps, -⟩ := Option.map_eq_some_iff.1 h
      rw [hs.signals, dispatch] at hps
      cases hps
  | connectionCompletes id i c =>
      obtain ⟨conn, hid, h⟩ := Option.bind_eq_some_iff.1 h
      obtain ⟨conn', hcomplete, rfl⟩ := Option.map_eq_some_iff.1 h
      obtain ⟨hr, -⟩ := hs.closed hid
      obtain ⟨hsame, hevents⟩ := ConnectionState.closed_complete hr hcomplete
      obtain ⟨hleft, hhandlers⟩ := ServerState.left_of_set
        (t := { s with conns := s.conns.set id conn' }) (k := 0) hid rfl rfl (by omega) hevents
      refine ⟨⟨hreachable, hstopped, hs.signals⟩, hleft, fun id' => ?_, ?_, rfl⟩
      · simpa [ServerEvent.isHandlerOf] using hhandlers id'
      · simp [ServerEvent.isAcceptHandler]
  | connectionHandler id i fs =>
      obtain ⟨conn, hid, h⟩ := Option.bind_eq_some_iff.1 h
      obtain ⟨⟨conn', acts⟩, hrun, heq⟩ := Option.map_eq_some_iff.1 h
      have hconns : t.conns = s.conns.set id conn' ∧ t.accepts = s.accepts ∧ t.signals = s.signals := by
        rw [← heq]
        dsimp only
        split <;> exact ⟨rfl, rfl, rfl⟩
      obtain ⟨hr, hclosed⟩ := hs.closed hid
      obtain ⟨hfewer, hevents⟩ := ConnectionState.closed_handler hr hclosed hrun
      obtain ⟨hleft, hhandlers⟩ := ServerState.left_of_set (k := 1) hid hconns.2.1 hconns.1
        (by omega) hevents
      refine ⟨⟨hreachable, hstopped, hconns.2.2.trans hs.signals⟩, hleft, fun id' => ?_, ?_, rfl⟩
      · simpa [ServerEvent.isHandlerOf] using hhandlers id'
      · simp [ServerEvent.isAcceptHandler, hconns.2.1]

/-- What can happen in such a run is bounded by what is left at its beginning. -/
theorem exec {es : List ServerEvent} (hs : Draining docRoot n s)
    (h : (serverMachine docRoot).exec s es = some t) :
    Draining docRoot n t ∧ es.length ≤ s.eventsLeft ∧
      (∀ id, es.countP (ServerEvent.isHandlerOf id) ≤ s.handlersLeft id) ∧
      es.countP ServerEvent.isAcceptHandler + t.accepts.length ≤ s.accepts.length ∧
      es.countP ServerEvent.isSignalHandler = 0 := by
  have hkeeps : ∀ s e t, Draining docRoot n s → (serverMachine docRoot).step s e = some t →
      Draining docRoot n t := fun _ _ _ hs h => (step hs h).1
  refine ⟨Machine.exec_preserves hkeeps hs h, ?_, fun id => ?_, ?_, ?_⟩
  · have hlen := Machine.countP_add_measure_le (p := fun _ => true)
      (fun s e t (hs : Draining docRoot n s) h =>
        ⟨(step hs h).1, (Nat.add_comm _ _).trans_le (step hs h).2.1⟩) hs h
    rw [List.countP_true] at hlen
    omega
  · have hcount := Machine.countP_add_measure_le (f := fun s => s.handlersLeft id)
      (fun s e t (hs : Draining docRoot n s) h => ⟨(step hs h).1, (step hs h).2.2.1 id⟩) hs h
    omega
  · exact Machine.countP_add_measure_le (f := fun s => s.accepts.length)
      (fun s e t (hs : Draining docRoot n s) h => ⟨(step hs h).1, (step hs h).2.2.2.1⟩) hs h
  · have hcount := Machine.countP_add_measure_le (p := ServerEvent.isSignalHandler) (f := fun _ => 0)
      (fun s e t (hs : Draining docRoot n s) h =>
        ⟨(step hs h).1, by simp [(step hs h).2.2.2.2]⟩) hs h
    omega

/-- As long as an operation is outstanding something can happen. -/
theorem quiet (h : ∀ e, s.step docRoot e = none) :
    s.accepts = [] ∧ ∀ c ∈ s.conns, c.pending = [] := by
  constructor
  · cases haccepts : s.accepts with
    | nil => rfl
    | cons p ps =>
        cases hdone : p.completion with
        | none =>
            have hnot := h (.acceptCompletes 0 ⟨some (.other 0), []⟩)
            simp [ServerState.step, Asio.complete, haccepts, hdone, mayComplete] at hnot
        | some done =>
            have hnot := h (.acceptHandler 0 0 0 .ok)
            simp [ServerState.step, dispatch, haccepts, hdone] at hnot
  · intro c hc
    obtain ⟨id, hid⟩ := List.mem_iff_getElem?.1 hc
    cases hpending : c.pending with
    | nil => rfl
    | cons p ps =>
        cases hdone : p.completion with
        | none =>
            have hnot := h (.connectionCompletes id 0 ⟨some (.other 0), []⟩)
            simp [ServerState.step, ConnectionState.complete, Asio.complete, hid, hpending, hdone,
              mayComplete] at hnot
        | some done =>
            have hnot := h (.connectionHandler id 0 fun _ => none)
            simp [ServerState.step, ConnectionState.handler, dispatch, hid, hpending, hdone] at hnot

/-- What is left at the beginning is bounded. -/
theorem left_le (hs : Draining docRoot n s) :
    s.eventsLeft ≤ 2 + 4 * s.conns.length ∧ ∀ id, s.handlersLeft id ≤ 2 := by
  constructor
  · have haccepts : (s.accepts.map fun p => if p.completion = none then 2 else 1).sum ≤
        s.accepts.length * 2 := by
      have hle := List.sum_le_card_nsmul (s.accepts.map fun p => if p.completion = none then 2 else 1) 2
        (by intro k hk; obtain ⟨p, -, rfl⟩ := List.mem_map.1 hk; split <;> omega)
      simpa using hle
    have hconns : (s.conns.map ConnectionState.eventsLeft).sum ≤ s.conns.length * 4 := by
      have hle := List.sum_le_card_nsmul (s.conns.map ConnectionState.eventsLeft) 4 (by
        intro k hk
        obtain ⟨c, hc, rfl⟩ := List.mem_map.1 hk
        obtain ⟨id, hid⟩ := List.mem_iff_getElem?.1 hc
        exact (ConnectionState.left_le (hs.closed hid).1).2)
      simpa using hle
    have hone := (oneWait hs.reachable).accepts
    rw [ServerState.eventsLeft]
    omega
  · intro id
    rw [ServerState.handlersLeft]
    split
    · rename_i c hid
      exact (ConnectionState.left_le (hs.closed hid).1).1
    · omega

/-- The stop handler begins it. -/
theorem of_signalHandler {i : ℕ} (h : (serverMachine docRoot).Reachable s)
    (hstop : s.step docRoot (.signalHandler i) = some t) : Draining docRoot s.conns.length t := by
  have hreachable : (serverMachine docRoot).Reachable t := h.step (e := .signalHandler i) hstop
  obtain ⟨⟨_, done, ps⟩, hps, rfl⟩ := Option.map_eq_some_iff.1 hstop
  obtain ⟨p, -, -, -, rfl⟩ := dispatch_of_length_le_one (oneWait h).signals hps
  exact ⟨hreachable, stopped_stopHandler { s with signals := [] }, rfl⟩

end Draining

/-- **Shutdown drains.** After the stop handler, in whatever state it runs, every run is finite: it has at
most two events of the accept and four of each connection. Each connection runs at most two handlers, the
accept handler runs at most once and starts no accept, and there is no signal wait any more. Where
nothing can happen any more, nothing is outstanding. -/
theorem shutdown_drains (docRoot : List UInt8) (s t : ServerState) (i : ℕ)
    (h : (serverMachine docRoot).Reachable s) (hstop : s.step docRoot (.signalHandler i) = some t)
    (es : List ServerEvent) (u : ServerState) (hrun : (serverMachine docRoot).exec t es = some u) :
    es.length ≤ 2 + 4 * s.conns.length ∧
      (∀ id, es.countP (ServerEvent.isHandlerOf id) ≤ 2) ∧
      es.countP ServerEvent.isAcceptHandler + u.accepts.length ≤ 1 ∧
      es.countP ServerEvent.isSignalHandler = 0 ∧ u.signals = [] ∧
      ((∀ e, u.step docRoot e = none) → u.accepts = [] ∧ ∀ c ∈ u.conns, c.pending = []) := by
  have ht := Draining.of_signalHandler h hstop
  obtain ⟨hu, hlen, hhandlers, haccepts, hsignals⟩ := ht.exec hrun
  obtain ⟨hevents, htwo⟩ := ht.left_le
  rw [ht.stopped.started] at hevents
  refine ⟨hlen.trans hevents, fun id => (hhandlers id).trans (htwo id), ?_, hsignals, hu.signals,
    Draining.quiet⟩
  exact haccepts.trans (oneWait ht.reachable).accepts

/-- A connection whose read has succeeded before the stop handler runs, and an accept that has too: a
write is started on the closed socket. -/
theorem shutdown_drains_queuedRead :
    ∃ s t u, (serverMachine []).exec .constructed
        [.acceptCompletes 0 ⟨none, []⟩, .acceptHandler 0 0 0 .ok, .connectionCompletes 0 0 ⟨none, str " "⟩,
          .acceptCompletes 0 ⟨none, []⟩, .signalCompletes 0 ⟨none, []⟩] = some s ∧
      s.step [] (.signalHandler 0) = some t ∧
      (serverMachine []).exec t
        [.connectionHandler 0 0 fun _ => none, .connectionCompletes 0 0 ⟨some (.other 9), []⟩,
          .acceptHandler 0 0 0 .ok] = some u ∧
      1 + u.accepts.length ≤ 1 ∧ u.signals = [] := by
  obtain ⟨u, hu⟩ := Option.isSome_iff_exists.1
    (show (((serverMachine []).exec .constructed
        [.acceptCompletes 0 ⟨none, []⟩, .acceptHandler 0 0 0 .ok, .connectionCompletes 0 0 ⟨none, str " "⟩,
          .acceptCompletes 0 ⟨none, []⟩, .signalCompletes 0 ⟨none, []⟩]).bind fun s =>
      (s.step [] (.signalHandler 0)).bind fun t => (serverMachine []).exec t
        [.connectionHandler 0 0 fun _ => none, .connectionCompletes 0 0 ⟨some (.other 9), []⟩,
          .acceptHandler 0 0 0 .ok]).isSome from by decide +kernel)
  obtain ⟨s, hs, hrest⟩ := Option.bind_eq_some_iff.1 hu
  obtain ⟨t, ht, hrun⟩ := Option.bind_eq_some_iff.1 hrest
  obtain ⟨-, -, haccepts, -, hsignals, -⟩ :=
    shutdown_drains [] s t 0 ⟨_, _, rfl, hs⟩ ht _ u hrun
  exact ⟨s, t, u, hs, ht, hrun, haccepts, hsignals⟩

end AsioExamples.Http
