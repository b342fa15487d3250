import AsioExamples.Fork.Roles

/-!
# Whether the server goes on accepting

`Accepting` is what the parent should be in between two handlers. `process_per_con` is so in every state,
whatever its accepts and forks return. In `process_per_connection` a fork that fails takes neither branch
of the handler, and from then on no accept is outstanding any more: it is accepting just as long as no
fork has failed (`accepting_iff_forksSucceed`).
-/

set_option autoImplicit false

namespace AsioExamples.Fork

open AsioExamples.Lib AsioExamples.Asio AsioExamples.Echo

/-! ## Between two handlers -/

/-- What a call of `notify_fork` has notified the `io_context` of. -/
def Action.notification : Action → Option ForkEvent
  | .notifyFork event => some event
  | _ => none

/-- The calls of `notify_fork` of a process, in order. -/
def Process.notifications (p : Process) : List ForkEvent := p.done.filterMap Action.notification

/-- The parent between two handlers: one accept and one wait are outstanding, the socket is closed, and
each preparation of a fork was followed by its end in the parent. -/
structure Accepting (p : Process) : Prop where
  oneAccept : p.accepts.length = 1
  oneWait : p.waits.length = 1
  socket : p.echo.socket_ = none
  notified : ∃ forks, p.notifications = (List.replicate forks [.prepare, .parent]).flatten

/-- The event is no failure of `fork` that the program has no branch for. -/
def ForksSucceed : Program → ForkServerEvent → Prop
  | .processPerConnection, .acceptHandler _ _ pid => 0 < pid
  | _, _ => True

instance : ∀ prog e, Decidable (ForksSucceed prog e)
  | .processPerConnection, .acceptHandler _ _ pid => inferInstanceAs (Decidable (0 < pid))
  | .processPerConnection, .within _ _ => isTrue trivial
  | .processPerCon, _ => isTrue trivial

/-! ## One step -/

theorem notification_of_isRearm {a : Action} (h : a.isRearm = true) : a.notification = none := by
  cases a
  case asyncAccept | asyncWait | waitpid => rfl
  all_goals cases h

/-- Nothing that happens within the parent stops it from accepting. -/
theorem Accepting.step {prog : Program} {p q : Process} {e : ProcessEvent} (hp : Accepting p)
    (hparent : Parent p) (h : p.step prog e = some q) : Accepting q := by
  obtain ⟨calls, hcalls, hdone, -, haccepts, hwaits, hecho⟩ := hparent.step_cases h
  have hnone : calls.filterMap Action.notification = [] :=
    List.filterMap_eq_nil_iff.2 fun a ha => notification_of_isRearm (hcalls a ha)
  refine ⟨haccepts.trans hp.oneAccept, hwaits.trans hp.oneWait, ?_, ?_⟩
  · rw [hecho]
    exact hp.socket
  · rw [Process.notifications, hdone, List.filterMap_append, hnone, List.append_nil]
    exact hp.notified

/-- Where the program has a branch for what `fork` returns, the accept handler leaves one more accept
behind, and the socket closed. -/
theorem Accepting.forkParent {prog : Program} {p : Process} {id i conn : ℕ} {pid : ℤ} (hp : Accepting p)
    (hpid : pid ≠ 0) (hfork : ForksSucceed prog (.acceptHandler id i pid)) :
    Accepting ({ p with accepts := [] }.forkParent prog conn pid) := by
  rcases Process.forkParent_cases prog { p with accepts := [] } conn hpid with
    ⟨rfl, hneg, -⟩ | ⟨-, hq⟩
  · have hpos : 0 < pid := hfork
    omega
  · obtain ⟨forks, hforks⟩ := hp.notified
    rw [hq]
    refine ⟨rfl, hp.oneWait, rfl, forks + 1, ?_⟩
    rw [List.replicate_succ', List.flatten_append, ← hforks]
    simp only [Process.notifications, Process.done, List.map_append, List.filterMap_append,
      List.append_assoc]
    rfl

/-- The first process of a server that has accepted nothing yet. -/
theorem Accepting.constructed (data : List UInt8) : Accepting (.constructed data) :=
  ⟨rfl, rfl, rfl, 0, rfl⟩

/-! ## Runs -/

/-- The accept handler of the first process, where the accept succeeded. -/
theorem first_of_acceptHandler {prog : Program} {s t : ForkState} {p : Process} {i : ℕ} {pid : ℤ}
    (hp : s.procs[0]? = some p) (h : s.step prog (.acceptHandler 0 i pid) = some t) :
    ∃ done ps, dispatch p.accepts i = some ((), done, ps) ∧ pid ≠ 0 ∧
      t.procs[0]? = some ({ p with accepts := ps }.forkParent prog s.accepted pid) := by
  obtain ⟨hlt, -⟩ := List.getElem?_eq_some_iff.1 hp
  obtain ⟨p', hid, hstep⟩ := Option.bind_eq_some_iff.1 h
  obtain ⟨⟨_, done, ps⟩, hd, hstep⟩ := Option.bind_eq_some_iff.1 hstep
  obtain ⟨⟨-, hpid⟩, heq⟩ := Option.ite_none_right_eq_some.1 hstep
  obtain rfl : p = p' := Option.some.inj (hp.symm.trans hid)
  cases heq
  refine ⟨done, ps, hd, hpid, ?_⟩
  rw [List.getElem?_append_left (by simpa using hlt)]
  exact List.getElem?_set_self hlt

/-- Any other event is a step of the first process, or it leaves the first process as it is. -/
theorem first_of_step {prog : Program} {s t : ForkState} {p : Process} {e : ForkServerEvent}
    (hp : s.procs[0]? = some p) (h : s.step prog e = some t)
    (hother : ∀ i pid, e ≠ .acceptHandler 0 i pid) :
    ∃ q, t.procs[0]? = some q ∧ (q = p ∨ ∃ e', p.step prog e' = some q) := by
  obtain ⟨hlt, -⟩ := List.getElem?_eq_some_iff.1 hp
  cases e with
  | within id e =>
      obtain ⟨p', hid, hstep⟩ := Option.bind_eq_some_iff.1 h
      obtain ⟨q, hq, rfl⟩ := Option.map_eq_some_iff.1 hstep
      cases id with
      | zero =>
          obtain rfl : p = p' := Option.some.inj (hp.symm.trans hid)
          exact ⟨q, List.getElem?_set_self hlt, Or.inr ⟨e, hq⟩⟩
      | succ k => exact ⟨p, (List.getElem?_set_ne k.succ_ne_zero).trans hp, Or.inl rfl⟩
  | acceptHandler id i pid =>
      obtain ⟨p', -, hstep⟩ := Option.bind_eq_some_iff.1 h
      obtain ⟨⟨_, done, ps⟩, -, hstep⟩ := Option.bind_eq_some_iff.1 hstep
      obtain ⟨-, heq⟩ := Option.ite_none_right_eq_some.1 hstep
      cases heq
      dsimp only
      rw [List.getElem?_append_left (by simpa using hlt)]
      cases id with
      | zero => exact absurd rfl (hother i pid)
      | succ k => exact ⟨p, (List.getElem?_set_ne k.succ_ne_zero).trans hp, Or.inl rfl⟩

/-- The first process is the parent. -/
theorem Roles.first {s : ForkState} {parent : Process} {children : List Process}
    (hs : Roles s parent children) : s.procs[0]? = some parent := by
  rw [hs.procs]
  rfl

/-- A step that meets the condition keeps the parent accepting. -/
theorem accepting_step {prog : Program} {s t : ForkState} {p : Process} {e : ForkServerEvent}
    (hs : (forkMachine prog).Reachable s) (hfirst : s.procs[0]? = some p) (hp : Accepting p)
    (hfork : ForksSucceed prog e) (h : s.step prog e = some t) :
    ∃ q, t.procs[0]? = some q ∧ Accepting q := by
  obtain ⟨parent, children, hroles⟩ := roles hs
  obtain rfl : p = parent := Option.some.inj (hfirst.symm.trans hroles.first)
  by_cases he : ∃ i pid, e = .acceptHandler 0 i pid
  · obtain ⟨i, pid, rfl⟩ := he
    obtain ⟨done, ps, hd, hpid, hq⟩ := first_of_acceptHandler hfirst h
    obtain ⟨r, -, -, -, rfl⟩ := dispatch_of_length_le_one hp.oneAccept.le hd
    exact ⟨_, hq, hp.forkParent hpid hfork⟩
  · obtain ⟨q, hq, rfl | ⟨e', hstep⟩⟩ :=
      first_of_step hfirst h fun i pid heq => he ⟨i, pid, heq⟩
    · exact ⟨q, hq, hp⟩
    · exact ⟨q, hq, hp.step hroles.isParent hstep⟩

/-- A step that does not meet the condition leaves the parent without an accept. -/
theorem noAccept_of_forkFails {prog : Program} {s t : ForkState} {e : ForkServerEvent}
    (hs : (forkMachine prog).Reachable s) (hfork : ¬ ForksSucceed prog e) (h : s.step prog e = some t) :
    ∃ q, t.procs[0]? = some q ∧ q.accepts = [] := by
  obtain ⟨parent, children, hroles⟩ := roles hs
  cases e with
  | within id e => cases prog <;> exact absurd trivial hfork
  | acceptHandler id i pid =>
      obtain rfl := hroles.acceptHandler_first h
      obtain ⟨done, ps, hd, hpid, hq⟩ := first_of_acceptHandler hroles.first h
      obtain ⟨r, -, -, -, rfl⟩ := dispatch_of_length_le_one hroles.isParent.oneAccept hd
      refine ⟨_, hq, ?_⟩
      rcases Process.forkParent_cases prog { parent with accepts := [] } s.accepted hpid with
        ⟨-, -, hafter⟩ | ⟨hok, -⟩
      · rw [hafter]
      · cases prog with
        | processPerConnection => exact absurd (hok.resolve_left nofun) hfork
        | processPerCon => exact absurd trivial hfork

/-- A parent without an accept stays without one: what accepts again is the handler of an accept. -/
theorem noAccept_step {prog : Program} {s t : ForkState} {p : Process} {e : ForkServerEvent}
    (hs : (forkMachine prog).Reachable s) (hfirst : s.procs[0]? = some p) (hp : p.accepts = [])
    (h : s.step prog e = some t) : ∃ q, t.procs[0]? = some q ∧ q.accepts = [] := by
  obtain ⟨parent, children, hroles⟩ := roles hs
  obtain rfl : p = parent := Option.some.inj (hfirst.symm.trans hroles.first)
  by_cases he : ∃ i pid, e = .acceptHandler 0 i pid
  · obtain ⟨i, pid, rfl⟩ := he
    obtain ⟨done, ps, hd, -⟩ := first_of_acceptHandler hfirst h
    rw [hp] at hd
    cases hd
  · obtain ⟨q, hq, rfl | ⟨e', hstep⟩⟩ :=
      first_of_step hfirst h fun i pid heq => he ⟨i, pid, heq⟩
    · exact ⟨q, hq, hp⟩
    · obtain ⟨_, -, -, -, haccepts, -⟩ := hroles.isParent.step_cases hstep
      rw [hp] at haccepts
      exact ⟨q, hq, List.length_eq_zero_iff.1 haccepts⟩

/-- **The server goes on accepting just as long as no fork has failed** that the program has no branch for:
in every run, the first process is accepting after it if and only if the run has no such event. For
`process_per_con` that is every run. -/
theorem accepting_iff_forksSucceed (prog : Program) (s₀ : ForkState) (es : List ForkServerEvent)
    (s : ForkState) (h₀ : (forkMachine prog).init s₀) (hrun : (forkMachine prog).exec s₀ es = some s) :
    (∃ p, s.procs[0]? = some p ∧ Accepting p) ↔ ∀ e ∈ es, ForksSucceed prog e := by
  constructor
  · rintro ⟨p, hfirst, hp⟩ e he
    by_contra hfork
    -- the state after the failing fork, and the rest of the run
    obtain ⟨before, after, rfl⟩ := List.append_of_mem he
    obtain ⟨u, hu, hrest⟩ := (forkMachine prog).exec_append_eq_some.1 hrun
    obtain ⟨v, hv, hafter⟩ := (forkMachine prog).exec_cons_eq_some.1 hrest
    have hreach : (forkMachine prog).Reachable u := ⟨s₀, before, h₀, hu⟩
    have key : (forkMachine prog).Reachable s ∧ ∃ p, s.procs[0]? = some p ∧ p.accepts = [] := by
      refine Machine.exec_preserves
        (I := fun s => (forkMachine prog).Reachable s ∧ ∃ p, s.procs[0]? = some p ∧ p.accepts = [])
        ?_ ⟨hreach.step hv, noAccept_of_forkFails hreach hfork hv⟩ hafter
      rintro s e t ⟨hs, p, hfirst, hp⟩ hstep
      exact ⟨hs.step hstep, noAccept_step hs hfirst hp hstep⟩
    obtain ⟨-, q, hq, hq'⟩ := key
    obtain rfl : p = q := Option.some.inj (hfirst.symm.trans hq)
    have hone := hp.oneAccept
    rw [hq'] at hone
    cases hone
  · intro hforks
    have key : (forkMachine prog).Reachable s ∧ ∃ p, s.procs[0]? = some p ∧ Accepting p := by
      refine Machine.exec_preserves_of_stepsMeet (G := fun _ e => ForksSucceed prog e)
        (I := fun s => (forkMachine prog).Reachable s ∧ ∃ p, s.procs[0]? = some p ∧ Accepting p)
        ?_ ⟨.of_init h₀, ?_⟩ (Machine.stepsMeet_of_forall_mem hforks) hrun
      · rintro s e t ⟨hs, p, hfirst, hp⟩ hfork hstep
        exact ⟨hs.step hstep, accepting_step hs hfirst hp hfork hstep⟩
      · obtain ⟨data, -, rfl⟩ := h₀
        exact ⟨_, rfl, .constructed data⟩
    exact key.2

/-- `process_per_con` after a fork that failed and an accept that failed. -/
theorem accepting_iff_forksSucceed_failedFork :
    ∃ s, (forkMachine .processPerCon).exec ⟨[.constructed (List.replicate dataSize 0)], 0⟩
        [.within 0 (.acceptCompletes 0 ⟨none, []⟩), .acceptHandler 0 0 (-1),
          .within 0 (.acceptCompletes 0 ⟨some (.other 24), []⟩), .within 0 (.acceptFailed 0)] = some s ∧
      ∃ p, s.procs[0]? = some p ∧ Accepting p := by
  obtain ⟨s, hs⟩ := Option.isSome_iff_exists.1
    (show ((forkMachine .processPerCon).exec ⟨[.constructed (List.replicate dataSize 0)], 0⟩
        [.within 0 (.acceptCompletes 0 ⟨none, []⟩), .acceptHandler 0 0 (-1),
          .within 0 (.acceptCompletes 0 ⟨some (.other 24), []⟩),
          .within 0 (.acceptFailed 0)]).isSome from rfl)
  have hinit : (forkMachine .processPerCon).init ⟨[.constructed (List.replicate dataSize 0)], 0⟩ :=
    ⟨_, List.length_replicate, rfl⟩
  refine ⟨s, hs, (accepting_iff_forksSucceed .processPerCon _ _ s hinit hs).2 ?_⟩
  decide

/-- `process_per_connection` after a fork that failed: no accept is outstanding. -/
theorem failedFork_not_accepting :
    ¬ ∀ prog s, (forkMachine prog).Reachable s → ∃ p, s.procs[0]? = some p ∧ Accepting p := by
  intro h
  obtain ⟨p, hfirst, hp⟩ := h .processPerConnection _
    ⟨⟨[.constructed (List.replicate dataSize 0)], 0⟩,
      [.within 0 (.acceptCompletes 0 ⟨none, []⟩), .acceptHandler 0 0 (-1)],
      ⟨_, List.length_replicate, rfl⟩, rfl⟩
  cases hfirst
  have hone := hp.oneAccept
  cases hone

end AsioExamples.Fork
