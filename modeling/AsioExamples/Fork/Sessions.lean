import AsioExamples.Echo.Stream
import AsioExamples.Fork.Roles

/-!
# The sessions of the forking servers

A child process is a session on its own from its fork on, whatever else its class does
(`children_echo`): the parent has neither received nor sent anything when it forks. So what holds of
every run of a session holds of the four asynchronous echo servers (`echo_streams`).
-/

set_option autoImplicit false

namespace AsioExamples.Fork

open AsioExamples.Lib AsioExamples.Asio AsioExamples.Echo

/-- A session that has never begun. -/
structure Untouched (s : EchoSession) : Prop where
  size : s.data_.length = dataSize
  pending : s.pending = []
  received : s.received = []
  sent : s.sent = []

theorem Untouched.echoing {s : EchoSession} (hs : Untouched s) : Echoing s := by
  refine ⟨hs.size, ?_⟩
  rw [hs.pending]
  refine .idle ?_
  rw [hs.sent]
  exact List.nil_prefix

/-- A read that an untouched session begins is the first one. -/
theorem Untouched.perform {s : EchoSession} (hs : Untouched s) (conn : ℕ) :
    ({ s with socket_ := some conn } : EchoSession).perform .asyncReadSome = .started conn s.data_ := by
  obtain ⟨socket, data, pending, received, sent⟩ := s
  obtain ⟨-, hpending, hreceived, hsent⟩ := hs
  have hpending : pending = [] := hpending
  have hreceived : received = [] := hreceived
  have hsent : sent = [] := hsent
  subst hpending hreceived hsent
  rfl

/-- Calls that accept and wait again leave the session alone. -/
theorem echo_foldl_rearm {acts : List Action} (h : ∀ a ∈ acts, a.isRearm = true) (p : Process) :
    (acts.foldl Process.perform p).echo = p.echo := by
  induction acts generalizing p with
  | nil => rfl
  | cons a acts ih =>
      obtain ⟨ha, hacts⟩ := List.forall_mem_cons.1 h
      rw [List.foldl_cons, ih hacts]
      cases a
      case asyncAccept | asyncWait | waitpid => rfl
      all_goals cases ha

/-- The actions of a session, performed by its process. -/
theorem echo_foldl_echo (acts : List EchoAction) (p : Process) :
    ((acts.map Action.echo).foldl Process.perform p).echo = acts.foldl EchoSession.perform p.echo := by
  induction acts generalizing p with
  | nil => rfl
  | cons a acts ih =>
      rw [List.map_cons, List.foldl_cons, ih]
      rfl

/-- What happens within a process leaves its session as it is, or is an event of the session. -/
theorem echo_step {prog : Program} {p q : Process} {e : ProcessEvent} (h : p.step prog e = some q) :
    q.echo = p.echo ∨ ∃ e, (echoMachine prog.closesOnError).step p.echo e = some q.echo := by
  cases e with
  | acceptCompletes i c =>
      obtain ⟨ps, -, rfl⟩ := Option.map_eq_some_iff.1 h
      exact Or.inl rfl
  | acceptFailed i =>
      obtain ⟨⟨_, done, ps⟩, -, h⟩ := Option.bind_eq_some_iff.1 h
      obtain ⟨-, heq⟩ := Option.ite_none_left_eq_some.1 h
      cases heq
      exact Or.inl rfl
  | waitCompletes i c =>
      obtain ⟨ps, -, rfl⟩ := Option.map_eq_some_iff.1 h
      exact Or.inl rfl
  | waitHandler i reaped =>
      obtain ⟨⟨_, done, ps⟩, -, rfl⟩ := Option.map_eq_some_iff.1 h
      refine Or.inl (echo_foldl_rearm ?_ _)
      rw [Process.waitHandler]
      split <;> simp [Action.isRearm]
  | echo e =>
      obtain ⟨⟨t, acts⟩, ht, rfl⟩ := Option.map_eq_some_iff.1 h
      refine Or.inr ⟨e, ?_⟩
      rw [echo_foldl_echo]
      exact congrArg (Option.map _) ht

/-- The parent has an untouched session, and the children run theirs. -/
def Sessions (prog : Program) (s : ForkState) : Prop :=
  ∃ parent children, s.procs = parent :: children ∧ Untouched parent.echo ∧
    ∀ p ∈ children, (echoMachine prog.closesOnError).Reachable p.echo

/-- An event within a process. -/
theorem Sessions.within {prog : Program} {s t : ForkState} {id : ℕ} {e : ProcessEvent}
    (hs : Sessions prog s) (hr : ∃ parent children, Roles s parent children)
    (h : s.step prog (.within id e) = some t) : Sessions prog t := by
  obtain ⟨parent, children, hprocs, huntouched, hrunning⟩ := hs
  obtain ⟨p, hid, h⟩ := Option.bind_eq_some_iff.1 h
  obtain ⟨q, hq, rfl⟩ := Option.map_eq_some_iff.1 h
  rw [hprocs] at hid
  cases id with
  | zero =>
      cases hid
      -- nothing is outstanding in the session of the parent
      obtain ⟨parent', children', hroles⟩ := hr
      obtain ⟨rfl, -⟩ := List.cons.inj (hroles.procs.symm.trans hprocs)
      obtain ⟨-, -, -, -, -, -, hecho⟩ := hroles.isParent.step_cases hq
      exact ⟨q, children, by rw [hprocs]; rfl, hecho ▸ huntouched, hrunning⟩
  | succ k =>
      have hk : children[k]? = some p := by simpa using hid
      refine ⟨parent, children.set k q, by rw [hprocs]; rfl, huntouched, fun x hx => ?_⟩
      rcases List.mem_or_eq_of_mem_set hx with hx | rfl
      · exact hrunning x hx
      · have hp := hrunning p (List.mem_of_getElem? hk)
        rcases echo_step hq with hecho | ⟨e, hstep⟩
        · exact hecho ▸ hp
        · exact hp.step hstep

/-- A fork: the child begins its session. -/
theorem Sessions.acceptHandler {prog : Program} {s t : ForkState} {id i : ℕ} {pid : ℤ}
    (hs : Sessions prog s) (hr : ∃ parent children, Roles s parent children)
    (h : s.step prog (.acceptHandler id i pid) = some t) : Sessions prog t := by
  obtain ⟨parent, children, hprocs, huntouched, hrunning⟩ := hs
  obtain ⟨parent', children', hroles⟩ := hr
  obtain rfl := hroles.acceptHandler_first h
  obtain ⟨p, hid, h⟩ := Option.bind_eq_some_iff.1 h
  obtain ⟨⟨_, done, ps⟩, hd, h⟩ := Option.bind_eq_some_iff.1 h
  obtain ⟨⟨-, hpid⟩, heq⟩ := Option.ite_none_right_eq_some.1 h
  rw [hprocs] at hid heq
  cases hid
  cases heq
  refine ⟨_, _, rfl, ?_, ?_⟩
  · -- the parent only opens and closes the socket
    rcases Process.forkParent_cases prog { parent with accepts := ps } s.accepted hpid with
      ⟨-, -, hq⟩ | ⟨-, hq⟩
    · rw [hq]
      exact ⟨huntouched.size, huntouched.pending, huntouched.received, huntouched.sent⟩
    · rw [hq]
      exact ⟨huntouched.size, huntouched.pending, huntouched.received, huntouched.sent⟩
  · refine List.forall_mem_append.2 ⟨hrunning, fun x hx => ?_⟩
    split at hx
    · obtain ⟨a, b, -, -, hq⟩ :=
        Process.forkChild_eq prog { parent with accepts := ps } s.accepted
      rw [List.mem_singleton.1 hx, hq]
      exact .of_init ⟨s.accepted, parent.echo.data_, huntouched.size,
        huntouched.perform s.accepted⟩
    · cases hx

/-- **The children are sessions on their own**, in every run of a forking server. -/
theorem children_echo {prog : Program} {s : ForkState} (h : (forkMachine prog).Reachable s) :
    Sessions prog s := by
  apply h.induct (I := Sessions prog)
  · rintro s ⟨data, hdata, rfl⟩
    exact ⟨_, [], rfl, ⟨hdata, rfl, rfl, rfl⟩, fun p hp => absurd hp List.not_mem_nil⟩
  · intro s e t hr hs hstep
    cases e with
    | within id e => exact hs.within (roles hr) hstep
    | acceptHandler id i pid => exact hs.acceptHandler (roles hr) hstep

/-- **The echo servers echo.** In every state of every run of a session, whether or not its program closes
the socket after an error: at most one operation is outstanding, `data_` is not stored into while a write
is, what was sent is a prefix of what was received, and while a read is outstanding it is all of it. So
it is for each session of `async_tcp_echo_server` and `allocation_server`, and in each process of
`process_per_con` and `process_per_connection`. -/
theorem echo_streams :
    (∀ closesOnError s, (echoMachine closesOnError).Reachable s → StreamLaw closesOnError s) ∧
    (∀ s, asyncEchoServer.Reachable s → ∀ c ∈ s, StreamLaw false c) ∧
    ∀ prog s, (forkMachine prog).Reachable s → ∀ p ∈ s.procs, StreamLaw prog.closesOnError p.echo := by
  refine ⟨?_, ?_, ?_⟩
  · exact fun closesOnError s h => (echoing h).streamLaw closesOnError
  · exact fun s h c hc => (echoing (asyncEchoServer_reachable h c hc)).streamLaw false
  · intro prog s h p hp
    obtain ⟨parent, children, hprocs, huntouched, hrunning⟩ := children_echo h
    rw [hprocs] at hp
    rcases List.mem_cons.1 hp with rfl | hp
    · exact huntouched.echoing.streamLaw prog.closesOnError
    · exact (echoing (hrunning p hp)).streamLaw prog.closesOnError

end AsioExamples.Fork
