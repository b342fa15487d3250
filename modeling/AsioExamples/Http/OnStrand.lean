import AsioExamples.Lib.Strand
import AsioExamples.Http.Answers

/-!
# Connections between threads

A connection whose handlers perform their actions one after the other, while its operations complete and other
threads run. When its operations complete does not depend on how far a handler has come
(`component_commutes`). So where only one handler of it runs at a time, a connection does what it does on a
single thread (`exec_component`).
-/

set_option autoImplicit false

namespace AsioExamples.Http

open AsioExamples.Cxx AsioExamples.Lib AsioExamples.Asio

/-! ## The component -/

/-- A queued handler of a connection begins; with the state, what it will perform. -/
def beginHandler (srv : Server) (docRoot : List UInt8) (s : ConnectionState) (i : ℕ) (fs : FileSystem) :
    Option (ConnectionState × List Action) :=
  (dispatch s.pending i).map fun (op, done, ps) =>
    let r :=
      match op with
      | .readSome => readHandler srv (fun req rep => (handleRequest docRoot fs req rep).reply) s.conn done
      | .write _ => (s.conn, writeHandler srv done)
    ({ s with conn := r.1, pending := ps }, r.2)

/-- A connection: its operations complete, and their handlers perform actions. -/
def component (srv : Server) (docRoot : List UInt8) :
    Component Exchange (ℕ × Completion) (ℕ × FileSystem) Action where
  init := (exchangeMachine srv docRoot).init
  event s e :=
    (s.conn.complete e.1 e.2).map fun c => ⟨c, s.received ++ s.conn.arriving (.complete e.1 e.2)⟩
  begin_ s b := (beginHandler srv docRoot s.conn b.1 b.2).map fun r => (⟨r.1, s.received⟩, r.2)
  perform s a := { s with conn := s.conn.perform a }

/-- A connection after what its handler has still to perform. -/
def settled (srv : Server) (docRoot : List UInt8) (c : OnStrand Exchange Action) : Exchange :=
  (component srv docRoot).settled c

/-- What happens to a connection with a single thread. -/
def atomicEvent : AtomicEvent (ℕ × Completion) (ℕ × FileSystem) → ConnectionEvent
  | .event e => .complete e.1 e.2
  | .handler b => .handler b.1 b.2

/-- What happens to a connection, as if on a single thread: a handler runs where it begins. -/
def strandEvent (e : StrandEvent (ℕ × Completion) (ℕ × FileSystem)) : Option ConnectionEvent :=
  e.atomic.map atomicEvent

/-- A handler runs where it begins. -/
theorem eq_of_strandEvent {i : ℕ} {fs : FileSystem} {e : StrandEvent (ℕ × Completion) (ℕ × FileSystem)}
    (h : strandEvent e = some (.handler i fs)) : e = .begin_ (i, fs) := by
  cases e with
  | begin_ b =>
      cases h
      rfl
  | _ => cases h

section Connection

variable {srv : Server} {docRoot : List UInt8}

theorem foldl_perform (s : Exchange) (acts : List Action) :
    acts.foldl (component srv docRoot).perform s =
      ⟨acts.foldl ConnectionState.perform s.conn, s.received⟩ := by
  induction acts generalizing s with
  | nil => rfl
  | cons a acts ih => exact ih _

/-- A handler of a connection is its beginning and its actions. -/
theorem handler_eq (s : ConnectionState) (i : ℕ) (fs : FileSystem) :
    s.handler srv docRoot i fs =
      (beginHandler srv docRoot s i fs).map fun r => (r.2.foldl ConnectionState.perform r.1, r.2) := by
  rw [ConnectionState.handler, beginHandler, Option.map_map]
  rfl

/-- A connection whose handlers run at once is a connection. -/
theorem atomic_step (s : Exchange) (e : AtomicEvent (ℕ × Completion) (ℕ × FileSystem)) :
    (component srv docRoot).atomic.step s e = (exchangeMachine srv docRoot).step s (atomicEvent e) := by
  cases e with
  | event e => rfl
  | handler b =>
      have hsame : s.received ++ s.conn.arriving (.handler b.1 b.2) = s.received := List.append_nil _
      simp only [Component.atomic, component, exchangeMachine, atomicEvent, connectionMachine, handler_eq,
        Option.map_map, hsame]
      congr 1
      funext r
      exact @foldl_perform srv docRoot ⟨r.1, s.received⟩ r.2

theorem atomic_exec (s : Exchange) (es : List (AtomicEvent (ℕ × Completion) (ℕ × FileSystem))) :
    (component srv docRoot).atomic.exec s es = (exchangeMachine srv docRoot).exec s (es.map atomicEvent) := by
  induction es generalizing s with
  | nil => rfl
  | cons e es ih =>
      rw [List.map_cons, Machine.exec_cons, Machine.exec_cons, atomic_step]
      congr 1
      funext t
      exact ih t

/-! ## Completions and handlers -/

/-- What a socket allows stays allowed when it is closed. -/
theorem mayComplete_of_open {startedClosed isOpen isOpen' : Bool} {ec : Option ErrorCode}
    (hopen : isOpen' = true → isOpen = true) (h : mayComplete startedClosed isOpen ec = true) :
    mayComplete startedClosed isOpen' ec = true := by
  cases isOpen' with
  | true => rwa [hopen rfl] at h
  | false =>
      rcases ec with _ | _ | _
      · exact h
      · simp only [mayComplete, Bool.and_eq_true] at h ⊢
        exact ⟨h.1, rfl⟩
      · rfl

/-- An operation that is started meanwhile does not keep another one from completing. -/
theorem complete_append {isOpen isOpen' : Bool} {ps qs : List (Pending Op)} {i : ℕ} {c : Completion}
    (hopen : isOpen' = true → isOpen = true) (h : complete isOpen ps i c = some qs)
    (more : List (Pending Op)) : complete isOpen' (ps ++ more) i c = some (qs ++ more) := by
  obtain ⟨p, hp, hnone, hmay, rfl⟩ := complete_eq_some h
  have hlt : i < ps.length := (List.getElem?_eq_some_iff.1 hp).1
  rw [complete, List.getElem?_append_left hlt, hp]
  simp only [hnone, mayComplete_of_open hopen hmay, and_self, if_true]
  rw [List.set_append_left _ _ hlt]

/-- The completions of a connection do not notice how far its handler has come. -/
theorem component_commutes : (component srv docRoot).Commutes := by
  intro s e t a h
  obtain ⟨c, hc, rfl⟩ := Option.map_eq_some_iff.1 h
  obtain ⟨hsize, hc⟩ := Option.ite_none_right_eq_some.1 hc
  obtain ⟨ps, hps, rfl⟩ := Option.map_eq_some_iff.1 hc
  have hlt : e.1 < s.conn.pending.length := by
    obtain ⟨p, hp, -⟩ := complete_eq_some hps
    exact (List.getElem?_eq_some_iff.1 hp).1
  -- an action adds operations behind the ones that are there
  obtain ⟨more, hmore⟩ : ∃ more, ∀ ps, ({ s.conn with pending := ps }.perform a).pending = ps ++ more := by
    cases a with
    | asyncReadSome => exact ⟨[⟨.readSome, !s.conn.isOpen, none⟩], fun _ => rfl⟩
    | asyncWrite rep => exact ⟨[⟨.write rep, !s.conn.isOpen, none⟩], fun _ => rfl⟩
    | _ => exact ⟨[], fun ps => (List.append_nil ps).symm⟩
  have hpending : (s.conn.perform a).pending = s.conn.pending ++ more := hmore s.conn.pending
  have hopen : (s.conn.perform a).isOpen = true → s.conn.isOpen = true := by
    intro hopen
    simp only [ConnectionState.perform] at hopen
    split at hopen
    · cases hopen
    · exact hopen
  have harriving : (s.conn.perform a).arriving (.complete e.1 e.2) =
      s.conn.arriving (.complete e.1 e.2) := by
    simp only [ConnectionState.arriving, hpending, List.getElem?_append_left hlt]
  have hcomplete : (s.conn.perform a).complete e.1 e.2 =
      some ({ s.conn with pending := ps }.perform a) := by
    rw [ConnectionState.complete, if_pos hsize, hpending, complete_append hopen hps, Option.map_some]
    exact congrArg some (by rw [← hmore ps]; rfl)
  simp only [component, hcomplete, harriving, Option.map_some]

/-- **One handler at a time is a single thread.** -/
theorem exec_component {c₀ c : OnStrand Exchange Action}
    {es : List (StrandEvent (ℕ × Completion) (ℕ × FileSystem))}
    (hinit : (component srv docRoot).onStrand.init c₀)
    (h : (component srv docRoot).onStrand.exec c₀ es = some c) :
    (exchangeMachine srv docRoot).init c₀.state ∧
      (exchangeMachine srv docRoot).exec c₀.state (es.filterMap strandEvent) = some (settled srv docRoot c) := by
  obtain ⟨hinit, hidle⟩ := hinit
  have hatomic := Component.exec_onStrand component_commutes h
  have hsettled : (component srv docRoot).settled c₀ = c₀.state := by rw [Component.settled, hidle]; rfl
  have hlabel : (fun e : StrandEvent (ℕ × Completion) (ℕ × FileSystem) =>
      e.atomic.bind (some ∘ atomicEvent)) = strandEvent := by
    funext e
    cases e <;> rfl
  rw [atomic_exec, hsettled, ← List.filterMap_eq_map, List.filterMap_filterMap, hlabel] at hatomic
  exact ⟨hinit, hatomic⟩

/-- Without a new handler, what a connection does is settled. -/
theorem trace_settled_of_step {c d : OnStrand Exchange Action}
    {e : StrandEvent (ℕ × Completion) (ℕ × FileSystem)}
    (h : (component srv docRoot).onStrand.step c e = some d) (he : e.begins = false) :
    (settled srv docRoot d).conn.trace = (settled srv docRoot c).conn.trace := by
  have hsettled := Component.settled_step component_commutes h
  cases e with
  | event e =>
      have hevent := (Machine.exec_singleton _ _ _).symm.trans hsettled
      obtain ⟨u, hu, hd⟩ := Option.map_eq_some_iff.1 hevent
      obtain ⟨-, hu⟩ := Option.ite_none_right_eq_some.1 hu
      obtain ⟨ps, -, rfl⟩ := Option.map_eq_some_iff.1 hu
      rw [settled, ← hd]
      rfl
  | begin_ b => cases he
  | perform => rw [settled, settled, Option.some.inj hsettled]
  | finish => rw [settled, settled, Option.some.inj hsettled]

/-- **The replies of a connection between threads are the answers** to what it has received. -/
theorem settled_answers {c₀ : Exchange} {es : List ConnectionEvent} {c : OnStrand Exchange Action}
    (hinit : (exchangeMachine srv docRoot).init c₀)
    (hexec : (exchangeMachine srv docRoot).exec c₀ es = some (settled srv docRoot c)) :
    (∀ rep, .asyncWrite rep ∈ c.state.conn.trace →
      ∃ i fs, .handler i fs ∈ es ∧ answer docRoot fs c.state.received = some rep) ∧
    (c.running = none → (∀ p ∈ c.state.conn.pending, p.completion = none) →
      (∀ rep, .asyncWrite rep ∉ c.state.conn.trace) → ∀ fs, answer docRoot fs c.state.received = none) := by
  have hsettled : settled srv docRoot c =
      ⟨(c.running.getD []).foldl ConnectionState.perform c.state.conn, c.state.received⟩ :=
    foldl_perform _ _
  rw [hsettled] at hexec
  constructor
  · intro rep hrep
    apply answered_of_exec hinit hexec rep
    -- what has been performed will have been performed
    rw [ConnectionState.foldl_perform_trace]
    exact List.mem_append_left _ hrep
  · intro hidle hqueue hnever fs
    rw [hidle] at hexec
    exact unanswered_of_exec hinit hexec hqueue hnever fs

end Connection

end AsioExamples.Http
