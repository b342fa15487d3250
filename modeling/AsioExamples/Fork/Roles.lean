import Mathlib.Data.List.Nodup
import AsioExamples.Lib.Lists
import AsioExamples.Fork.Server

/-!
# Parent and children

Both roles run the same class. `Parent` and `Child` say what the first process and every other one have
in common in all runs: the parent never touches a connection, and a child does nothing but serve the
connection it was forked for, whatever handlers it has inherited. So the children are the connections
whose fork succeeded, one for each, in order (`Roles`).
-/

set_option autoImplicit false

namespace AsioExamples.Fork

open AsioExamples.Lib AsioExamples.Asio AsioExamples.Echo

/-! ## What the roles are about -/

/-- A read or a write of the connection. -/
def Action.isReadOrWrite : Action → Bool
  | .echo .asyncReadSome | .echo (.asyncWrite _) => true
  | _ => false

/-- What only the parent may do. -/
def Action.isParental : Action → Bool
  | .asyncAccept | .fork _ _ | .waitpid | .asyncWait => true
  | _ => false

/-- The connection of a `fork` that succeeded. -/
def Action.forkedConn : Action → Option ℕ
  | .fork conn pid => if pid > 0 then some conn else none
  | _ => none

/-- What the handlers of a wait and of an accept that failed call to go on. -/
def Action.isRearm : Action → Bool
  | .asyncAccept | .asyncWait | .waitpid => true
  | _ => false

theorem Action.isRearm_spec {a : Action} (h : a.isRearm = true) :
    a.isReadOrWrite = false ∧ a.forkedConn = none := by
  cases a
  case asyncAccept | asyncWait | waitpid => exact ⟨rfl, rfl⟩
  all_goals cases h

namespace Process

/-- What a process has done. -/
def done (p : Process) : List Action := p.trace.map Prod.snd

/-- The connections for which a process has forked with success, in order. -/
def forkedConns (p : Process) : List ℕ := p.done.filterMap Action.forkedConn

/-- A process that has read from the connection or written to it. -/
def serves (p : Process) (conn : ℕ) : Bool := p.trace.any fun x => x.1 = some conn && x.2.isReadOrWrite

end Process

/-- The process that accepts. -/
structure Parent (p : Process) : Prop where
  acceptor : p.acceptorIsOpen = true
  oneAccept : p.accepts.length ≤ 1
  idle : p.echo.pending = []
  calls : ∀ a ∈ p.done, a.isReadOrWrite = false

/-- A process that serves `conn`. -/
structure Child (conn : ℕ) (p : Process) : Prop where
  acceptor : p.acceptorIsOpen = false
  noAccept : p.accepts = []
  chained : Chained p.echo
  socket : p.echo.socket_ = some conn ∨ p.echo.socket_ = none
  calls : ∀ x ∈ p.trace, x.2.isParental = false ∧ (x.2.isReadOrWrite = true → x.1 = some conn)
  served : (some conn, .echo .asyncReadSome) ∈ p.trace

/-- The first process is the parent, and the others serve the connections for which it has forked. -/
structure Roles (s : ForkState) (parent : Process) (children : List Process) : Prop where
  procs : s.procs = parent :: children
  isParent : Parent parent
  areChildren : List.Forall₂ Child parent.forkedConns children
  distinct : parent.forkedConns.Nodup
  accepted : ∀ conn ∈ parent.forkedConns, conn < s.accepted

/-! ## What a handler leaves behind -/

namespace Process

@[simp] theorem done_foldl_perform (acts : List Action) (p : Process) :
    (acts.foldl perform p).done = p.done ++ acts := by
  induction acts generalizing p with
  | nil => simp
  | cons a acts ih =>
      rw [List.foldl_cons, ih]
      simp [done, perform]

theorem forkedConns_foldl_perform (acts : List Action) (p : Process) :
    (acts.foldl perform p).forkedConns = p.forkedConns ++ acts.filterMap Action.forkedConn := by
  rw [forkedConns, done_foldl_perform, List.filterMap_append]
  rfl

theorem foldl_waitpid (n : ℕ) (p : Process) :
    (List.replicate n .waitpid).foldl perform p =
      { p with trace := p.trace ++ List.replicate n (p.echo.socket_, .waitpid) } := by
  induction n generalizing p with
  | zero => simp
  | succ n ih =>
      rw [List.replicate_succ, List.foldl_cons, ih]
      simp [perform, effect, List.replicate_succ]

/-- The handler of a wait, in the parent: it waits again. -/
theorem foldl_waitHandler {p : Process} (hopen : p.acceptorIsOpen = true) (ps : List (Pending Unit))
    (reaped : ℕ) :
    (p.waitHandler reaped).foldl perform { p with waits := ps } =
      { p with
        waits := ps ++ [⟨(), false, none⟩]
        trace := p.trace ++ List.replicate (reaped + 1) (p.echo.socket_, .waitpid) ++
          [(p.echo.socket_, .asyncWait)] } := by
  rw [waitHandler, if_pos hopen, List.foldl_append, foldl_waitpid]
  rfl

end Process

/-- What the process that has forked goes on to do. -/
theorem Program.afterFork_parent (prog : Program) {pid : ℤ} (hpid : pid ≠ 0) :
    (prog = .processPerConnection ∧ pid < 0 ∧ prog.afterFork pid = []) ∨
      ((prog = .processPerCon ∨ 0 < pid) ∧
        prog.afterFork pid = [.notifyFork .parent, .echo .close, .asyncAccept]) := by
  cases prog with
  | processPerConnection =>
      rcases Int.lt_or_gt_of_ne hpid with hneg | hpos
      · refine Or.inl ⟨rfl, hneg, ?_⟩
        rw [afterFork, if_neg hpid, if_neg (by omega)]
      · refine Or.inr ⟨Or.inr hpos, ?_⟩
        rw [afterFork, if_neg hpid, if_pos hpos]
  | processPerCon =>
      refine Or.inr ⟨Or.inl rfl, ?_⟩
      rw [afterFork, if_neg hpid]

namespace Process

/-- **What a fork does to the process that forks**: it closes the connection and accepts the next one, or,
where `process_per_connection` fails to fork, it does nothing more. -/
theorem forkParent_cases (prog : Program) (p : Process) (conn : ℕ) {pid : ℤ} (hpid : pid ≠ 0) :
    let trace := p.trace ++ [(p.echo.socket_, .takeSocket conn), (some conn, .notifyFork .prepare),
      (some conn, .fork conn pid)]
    (prog = .processPerConnection ∧ pid < 0 ∧
      p.forkParent prog conn pid = { p with
        echo := { p.echo with socket_ := some conn }
        trace := trace }) ∨
    ((prog = .processPerCon ∨ 0 < pid) ∧
      p.forkParent prog conn pid = { p with
        accepts := p.accepts ++ [⟨(), !p.acceptorIsOpen, none⟩]
        echo := { p.echo with socket_ := none }
        trace := trace ++
          [(some conn, .notifyFork .parent), (some conn, .echo .close), (none, .asyncAccept)] }) := by
  intro trace
  rcases prog.afterFork_parent hpid with ⟨hprog, hneg, hafter⟩ | ⟨hok, hafter⟩
  · refine Or.inl ⟨hprog, hneg, ?_⟩
    simp [forkParent, forking, trace, hafter, perform, effect]
  · refine Or.inr ⟨hok, ?_⟩
    simp [forkParent, forking, trace, hafter, perform, effect, EchoSession.perform]

/-- **What a fork does to the copy**: it closes the acceptor and cancels the wait, in one order or the
other, and reads from the connection. -/
theorem forkChild_eq (prog : Program) (p : Process) (conn : ℕ) :
    ∃ a b, a.isParental = false ∧ b.isParental = false ∧
      p.forkChild prog conn = { p with
        acceptorIsOpen := false
        waits := p.waits.map cancelled
        echo := ({ p.echo with socket_ := some conn } : EchoSession).perform .asyncReadSome
        trace := [(some conn, .notifyFork .child), (some conn, a), (some conn, b),
          (some conn, .echo .asyncReadSome)] } := by
  cases prog with
  | processPerConnection =>
      refine ⟨.cancelSignal, .closeAcceptor, rfl, rfl, ?_⟩
      simp [forkChild, forking, Program.afterFork, perform, effect]
  | processPerCon =>
      refine ⟨.closeAcceptor, .cancelSignal, rfl, rfl, ?_⟩
      simp [forkChild, forking, Program.afterFork, perform, effect]

end Process

/-! ## Within a process -/

/-- **What happens within the parent**: it accepts and waits again, so that as many accepts and waits are
outstanding as before, and its session stays as it is. -/
theorem Parent.step_cases {prog : Program} {p q : Process} {e : ProcessEvent} (hp : Parent p)
    (h : p.step prog e = some q) :
    ∃ calls, (∀ a ∈ calls, a.isRearm = true) ∧ q.done = p.done ++ calls ∧
      q.acceptorIsOpen = p.acceptorIsOpen ∧ q.accepts.length = p.accepts.length ∧
      q.waits.length = p.waits.length ∧ q.echo = p.echo := by
  cases e with
  | acceptCompletes i c =>
      obtain ⟨ps, hps, rfl⟩ := Option.map_eq_some_iff.1 h
      exact ⟨[], nofun, (List.append_nil _).symm, rfl, length_of_complete hps, rfl, rfl⟩
  | acceptFailed i =>
      obtain ⟨⟨_, done, ps⟩, hd, h⟩ := Option.bind_eq_some_iff.1 h
      obtain ⟨-, heq⟩ := Option.ite_none_left_eq_some.1 h
      cases heq
      refine ⟨[.asyncAccept], by simp [Action.isRearm],
        Process.done_foldl_perform [.asyncAccept] { p with accepts := ps }, rfl, ?_, rfl, rfl⟩
      exact List.length_append.trans (length_of_dispatch hd)
  | waitCompletes i c =>
      obtain ⟨ps, hps, rfl⟩ := Option.map_eq_some_iff.1 h
      exact ⟨[], nofun, (List.append_nil _).symm, rfl, rfl, length_of_complete hps, rfl⟩
  | waitHandler i reaped =>
      obtain ⟨⟨_, done, ps⟩, hd, rfl⟩ := Option.map_eq_some_iff.1 h
      have hdone := Process.done_foldl_perform (p.waitHandler reaped) { p with waits := ps }
      have hcalls : ∀ a ∈ p.waitHandler reaped, a.isRearm = true := by
        rw [Process.waitHandler, if_pos hp.acceptor]
        simp [Action.isRearm]
      refine ⟨p.waitHandler reaped, hcalls, hdone, ?_⟩
      dsimp only
      rw [Process.foldl_waitHandler hp.acceptor]
      exact ⟨rfl, rfl, List.length_append.trans (length_of_dispatch hd), rfl⟩
  | echo e =>
      -- nothing is outstanding in its session
      obtain ⟨⟨t, acts⟩, ht, -⟩ := Option.map_eq_some_iff.1 h
      rw [EchoSession.step_eq_none hp.idle] at ht
      cases ht

/-- The parent stays the parent. -/
theorem Parent.step {prog : Program} {p q : Process} {e : ProcessEvent} (hp : Parent p)
    (h : p.step prog e = some q) : Parent q ∧ q.forkedConns = p.forkedConns := by
  obtain ⟨calls, hcalls, hdone, hopen, haccepts, -, hecho⟩ := hp.step_cases h
  constructor
  · refine ⟨hopen.trans hp.acceptor, haccepts.trans_le hp.oneAccept, ?_, ?_⟩
    · rw [hecho]
      exact hp.idle
    · rw [hdone]
      exact List.forall_mem_append.2 ⟨hp.calls, fun a ha => (Action.isRearm_spec (hcalls a ha)).1⟩
  · have hnone : calls.filterMap Action.forkedConn = [] :=
      List.filterMap_eq_nil_iff.2 fun a ha => (Action.isRearm_spec (hcalls a ha)).2
    rw [Process.forkedConns, hdone, List.filterMap_append, hnone, List.append_nil]
    rfl

/-- A child stays a child. -/
theorem Child.step {prog : Program} {conn : ℕ} {p q : Process} {e : ProcessEvent} (hp : Child conn p)
    (h : p.step prog e = some q) : Child conn q := by
  cases e with
  | acceptCompletes i c =>
      obtain ⟨ps, hps, -⟩ := Option.map_eq_some_iff.1 h
      rw [hp.noAccept] at hps
      cases hps
  | acceptFailed i =>
      obtain ⟨⟨_, done, ps⟩, hd, -⟩ := Option.bind_eq_some_iff.1 h
      rw [hp.noAccept] at hd
      cases hd
  | waitCompletes i c =>
      obtain ⟨ps, -, rfl⟩ := Option.map_eq_some_iff.1 h
      exact ⟨hp.acceptor, hp.noAccept, hp.chained, hp.socket, hp.calls, hp.served⟩
  | waitHandler i reaped =>
      -- an inherited handler finds the acceptor closed
      obtain ⟨⟨_, done, ps⟩, -, rfl⟩ := Option.map_eq_some_iff.1 h
      have hnone : p.waitHandler reaped = [] := by
        rw [Process.waitHandler, hp.acceptor]
        rfl
      rw [hnone]
      exact ⟨hp.acceptor, hp.noAccept, hp.chained, hp.socket, hp.calls, hp.served⟩
  | echo e =>
      obtain ⟨⟨t, acts⟩, ht, rfl⟩ := Option.map_eq_some_iff.1 h
      obtain ⟨hsocket, hchained, rfl | ⟨a, conn', rfl, hconn', hpending⟩⟩ :=
        EchoSession.step_spec hp.chained ht
      · exact ⟨hp.acceptor, hp.noAccept, hchained, hsocket ▸ hp.socket, hp.calls, hp.served⟩
      · -- the socket is open, and it is the one the child was forked for
        obtain rfl : conn' = conn := by
          rcases hp.socket with hconn | hnone
          · exact Option.some.inj (hconn'.symm.trans hconn)
          · rw [hconn'] at hnone
            cases hnone
        have ht' : t.socket_ = some conn' := hsocket.trans hconn'
        change Child conn' { p with
          echo := t.perform a
          trace := p.trace ++ [(t.socket_, .echo a)] }
        refine ⟨hp.acceptor, hp.noAccept, EchoSession.chained_perform ht' hpending a, ?_, ?_, ?_⟩
        · cases a with
          | asyncReadSome => exact Or.inl ht'
          | asyncWrite length => exact Or.inl ht'
          | close => exact Or.inr rfl
        · intro x hx
          rcases List.mem_append.1 hx with hx | hx
          · exact hp.calls x hx
          · rw [List.mem_singleton.1 hx]
            exact ⟨rfl, fun _ => ht'⟩
        · exact List.mem_append_left _ hp.served

/-! ## A fork -/

/-- The parent after a fork. -/
theorem Parent.forkParent {prog : Program} {p : Process} {conn : ℕ} {pid : ℤ} (hp : Parent p)
    (hnone : p.accepts = []) (hpid : pid ≠ 0) : Parent (p.forkParent prog conn pid) := by
  rcases p.forkParent_cases prog conn hpid with ⟨-, -, hq⟩ | ⟨-, hq⟩
  · -- the fork failed, and nothing is accepted any more
    rw [hq]
    refine ⟨hp.acceptor, hp.oneAccept, hp.idle, ?_⟩
    simp only [Process.done, List.map_append]
    exact List.forall_mem_append.2 ⟨hp.calls, by simp [Action.isReadOrWrite]⟩
  · rw [hq]
    refine ⟨hp.acceptor, by simp [hnone], hp.idle, ?_⟩
    simp only [Process.done, List.map_append, List.append_assoc]
    exact List.forall_mem_append.2 ⟨hp.calls, by simp [Action.isReadOrWrite]⟩

theorem forkedConns_forkParent (prog : Program) (p : Process) (conn : ℕ) {pid : ℤ} (hpid : pid ≠ 0) :
    (p.forkParent prog conn pid).forkedConns = p.forkedConns ++ if pid > 0 then [conn] else [] := by
  have hlast : (prog.afterFork pid).filterMap Action.forkedConn = [] := by
    rcases prog.afterFork_parent hpid with ⟨-, -, hafter⟩ | ⟨-, hafter⟩ <;> rw [hafter] <;> rfl
  have hfirst : (p.forking conn).forkedConns = p.forkedConns := by
    rw [Process.forking, Process.forkedConns_foldl_perform]
    exact List.append_nil _
  rw [Process.forkParent, Process.forkedConns_foldl_perform, hfirst, List.filterMap_cons, hlast]
  simp only [Action.forkedConn]
  split <;> simp_all

/-- The child after a fork. -/
theorem Parent.forkChild {prog : Program} {p : Process} {conn : ℕ} (hp : Parent p)
    (hnone : p.accepts = []) : Child conn (p.forkChild prog conn) := by
  obtain ⟨a, b, ha, hb, hq⟩ := p.forkChild_eq prog conn
  have hchained : ∀ s : EchoSession, s.socket_ = some conn → s.pending = [] →
      Chained (s.perform .asyncReadSome) := fun s hsocket hpending =>
    EchoSession.chained_perform hsocket hpending .asyncReadSome
  rw [hq]
  refine ⟨rfl, hnone, hchained _ rfl hp.idle, Or.inl rfl, ?_, .tail _ (.tail _ (.tail _ (.head _)))⟩
  intro x hx
  simp only [List.mem_cons, List.not_mem_nil, or_false] at hx
  rcases hx with rfl | rfl | rfl | rfl
  · exact ⟨rfl, fun _ => rfl⟩
  · exact ⟨ha, fun _ => rfl⟩
  · exact ⟨hb, fun _ => rfl⟩
  · exact ⟨rfl, fun _ => rfl⟩

/-! ## All processes -/

/-- The connection of a child. -/
theorem Roles.getElem?_children {s : ForkState} {parent p : Process} {children : List Process} {k : ℕ}
    (hs : Roles s parent children) (hk : children[k]? = some p) :
    ∃ conn, parent.forkedConns[k]? = some conn ∧ Child conn p := by
  obtain ⟨hlt, rfl⟩ := List.getElem?_eq_some_iff.1 hk
  have hlt' : k < parent.forkedConns.length := hs.areChildren.length_eq ▸ hlt
  exact ⟨_, List.getElem?_eq_getElem hlt', hs.areChildren.get hlt' hlt⟩

/-- Only the parent has an accept whose handler could run. -/
theorem Roles.acceptHandler_first {prog : Program} {s t : ForkState} {parent : Process}
    {children : List Process} {id i : ℕ} {pid : ℤ} (hs : Roles s parent children)
    (h : s.step prog (.acceptHandler id i pid) = some t) : id = 0 := by
  obtain ⟨p, hid, hstep⟩ := Option.bind_eq_some_iff.1 h
  obtain ⟨⟨_, done, ps⟩, hd, -⟩ := Option.bind_eq_some_iff.1 hstep
  rw [hs.procs] at hid
  cases id with
  | zero => rfl
  | succ k =>
      have hk : children[k]? = some p := by simpa using hid
      obtain ⟨conn, -, hchild⟩ := hs.getElem?_children hk
      rw [hchild.noAccept] at hd
      cases hd

/-- An event within a process leaves each process in its role. -/
theorem Roles.within {prog : Program} {s t : ForkState} {parent : Process} {children : List Process}
    {id : ℕ} {e : ProcessEvent} (hs : Roles s parent children)
    (h : s.step prog (.within id e) = some t) : ∃ parent children, Roles t parent children := by
  obtain ⟨p, hid, h⟩ := Option.bind_eq_some_iff.1 h
  obtain ⟨q, hq, rfl⟩ := Option.map_eq_some_iff.1 h
  rw [hs.procs] at hid ⊢
  cases id with
  | zero =>
      cases hid
      obtain ⟨hparent, hconns⟩ := hs.isParent.step hq
      exact ⟨q, children, rfl, hparent, hconns ▸ hs.areChildren, hconns ▸ hs.distinct,
        hconns ▸ hs.accepted⟩
  | succ k =>
      have hk : children[k]? = some p := by simpa using hid
      obtain ⟨conn, hconn, -⟩ := hs.getElem?_children hk
      exact ⟨parent, children.set k q, rfl, hs.isParent,
        forall₂_set hs.areChildren hconn hk fun hchild => hchild.step hq, hs.distinct,
        hs.accepted⟩

/-- A fork adds a child for the connection that was accepted, if it succeeds. -/
theorem Roles.acceptHandler {prog : Program} {s t : ForkState} {parent : Process}
    {children : List Process} {id i : ℕ} {pid : ℤ} (hs : Roles s parent children)
    (h : s.step prog (.acceptHandler id i pid) = some t) : ∃ parent children, Roles t parent children := by
  obtain rfl := hs.acceptHandler_first h
  obtain ⟨p, hid, h⟩ := Option.bind_eq_some_iff.1 h
  obtain ⟨⟨_, done, ps⟩, hd, h⟩ := Option.bind_eq_some_iff.1 h
  obtain ⟨⟨-, hpid⟩, heq⟩ := Option.ite_none_right_eq_some.1 h
  rw [hs.procs] at hid heq
  cases hid
  obtain ⟨r, -, -, -, rfl⟩ := dispatch_of_length_le_one hs.isParent.oneAccept hd
  have hparent : Parent { parent with accepts := [] } :=
    ⟨hs.isParent.acceptor, Nat.zero_le 1, hs.isParent.idle, hs.isParent.calls⟩
  cases heq
  have hconns := forkedConns_forkParent prog { parent with accepts := [] } s.accepted hpid
  refine ⟨_, _, rfl, hparent.forkParent rfl hpid, ?_, ?_, ?_⟩
  · rw [hconns]
    refine List.rel_append hs.areChildren ?_
    split
    · exact .cons (hparent.forkChild rfl) .nil
    · exact .nil
  · rw [hconns]
    split
    · exact List.Nodup.append hs.distinct (List.nodup_singleton _) (List.disjoint_singleton.2
        fun hmem => Nat.lt_irrefl _ (hs.accepted _ hmem))
    · exact (List.append_nil _).symm ▸ hs.distinct
  · intro conn hconn
    rw [hconns] at hconn
    rcases List.mem_append.1 hconn with hold | hnew
    · exact Nat.lt_succ_of_lt (hs.accepted conn hold)
    · split at hnew
      · exact List.mem_singleton.1 hnew ▸ Nat.lt_succ_self _
      · cases hnew

/-- **Every run keeps the roles.** -/
theorem roles {prog : Program} {s : ForkState} (h : (forkMachine prog).Reachable s) :
    ∃ parent children, Roles s parent children := by
  apply h.invariant (I := fun s => ∃ parent children, Roles s parent children)
  · rintro s ⟨data, -, rfl⟩
    refine ⟨_, [], rfl, ⟨rfl, le_refl 1, rfl, ?_⟩, .nil, .nil, by simp [Process.forkedConns,
      Process.done, Process.constructed, Process.perform, Action.forkedConn]⟩
    simp [Process.constructed, Process.done, Process.perform, Action.isReadOrWrite]
  · rintro s e t ⟨parent, children, hs⟩ hstep
    cases e with
    | within id e => exact hs.within hstep
    | acceptHandler id i pid => exact hs.acceptHandler hstep

/-! ## Who serves a connection -/

theorem Parent.serves {p : Process} (hp : Parent p) (conn : ℕ) : p.serves conn = false := by
  rw [Process.serves, List.any_eq_false]
  intro x hx
  have hcall := hp.calls x.2 (List.mem_map_of_mem hx)
  simp [hcall]

theorem Child.serves {conn' : ℕ} {p : Process} (hp : Child conn' p) (conn : ℕ) :
    (conn' == conn) = p.serves conn := by
  rw [Bool.eq_iff_iff, beq_iff_eq, Process.serves, List.any_eq_true]
  constructor
  · rintro rfl
    exact ⟨_, hp.served, by simp [Action.isReadOrWrite]⟩
  · rintro ⟨x, hx, hserves⟩
    simp only [Bool.and_eq_true, decide_eq_true_eq] at hserves
    exact Option.some.inj (((hp.calls x hx).2 hserves.2).symm.trans hserves.1)

/-- As many processes serve a connection as there are forks for it. -/
theorem Roles.countP_serves {s : ForkState} {parent : Process} {children : List Process}
    (hs : Roles s parent children) (conn : ℕ) :
    s.procs.countP (·.serves conn) = parent.forkedConns.count conn := by
  have hchildren := countP_eq_of_forall₂ (fun _ _ hchild => hchild.serves conn) hs.areChildren
  rw [hs.procs, List.countP_cons_of_neg (by simp [hs.isParent.serves]), ← hchildren]
  rfl

/-- **Role separation.** In every state of every run the first process has neither read from a connection
nor written to one, and the other processes are children: each of them has done nothing that only the
parent may do, and it serves the connection it was forked for, with one operation at a time. So no
connection is served by two processes, and one does serve it where the fork for it succeeded. -/
theorem roles_separated (prog : Program) (s : ForkState) (h : (forkMachine prog).Reachable s) :
    ∃ parent children, s.procs = parent :: children ∧
      (∀ a ∈ parent.done, a.isReadOrWrite = false) ∧
      List.Forall₂ Child parent.forkedConns children ∧
      (∀ conn, s.procs.countP (·.serves conn) ≤ 1) ∧
      ∀ conn ∈ parent.forkedConns, s.procs.countP (·.serves conn) = 1 := by
  obtain ⟨parent, children, hs⟩ := roles h
  refine ⟨parent, children, hs.procs, hs.isParent.calls, hs.areChildren, ?_, ?_⟩
  · intro conn
    rw [hs.countP_serves]
    exact List.nodup_iff_count_le_one.1 hs.distinct conn
  · intro conn hconn
    rw [hs.countP_serves]
    exact List.count_eq_one_of_mem hs.distinct hconn

/-- A signal has been delivered when the parent forks. The child runs the handler that it has inherited
and echoes one byte. -/
theorem roles_separated_inheritedHandler :
    ∃ s, (forkMachine .processPerConnection).exec ⟨[.constructed (List.replicate dataSize 0)], 0⟩
        [.within 0 (.waitCompletes 0 ⟨none, []⟩), .within 0 (.acceptCompletes 0 ⟨none, []⟩),
          .acceptHandler 0 0 7, .within 1 (.waitHandler 0 1),
          .within 1 (.echo (.complete 0 ⟨none, [65]⟩)), .within 1 (.echo (.handler 0))] = some s ∧
      s.procs.countP (·.serves 0) ≤ 1 := by
  obtain ⟨s, hs⟩ := Option.isSome_iff_exists.1
    (show ((forkMachine .processPerConnection).exec ⟨[.constructed (List.replicate dataSize 0)], 0⟩
        [.within 0 (.waitCompletes 0 ⟨none, []⟩), .within 0 (.acceptCompletes 0 ⟨none, []⟩),
          .acceptHandler 0 0 7, .within 1 (.waitHandler 0 1),
          .within 1 (.echo (.complete 0 ⟨none, [65]⟩)), .within 1 (.echo (.handler 0))]).isSome from rfl)
  obtain ⟨_, _, -, -, -, hatMost, -⟩ :=
    roles_separated .processPerConnection s ⟨_, _, ⟨_, List.length_replicate, rfl⟩, hs⟩
  exact ⟨s, hs, hatMost 0⟩

end AsioExamples.Fork
