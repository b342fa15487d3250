import AsioExamples.Http2.Threads

/-!
# Runs of the threads of http2/

No two handlers run at a time in the thread of an `io_context` (`busy_le_one`). So each connection does what it
does on a single thread, and its reply is the answer to what it has received (`http2_connections`,
`http2_answers`). `Stopping` says how far `pool_.stop()` has come; where an `io_context` is stopped, its thread
comes back from what it is at, and begins nothing more (`http2_stops`).
-/

set_option autoImplicit false

namespace AsioExamples.Http2

open AsioExamples.Cxx AsioExamples.Lib AsioExamples.Asio
open AsioExamples.Http (Action Exchange StatusType answer component exchangeMachine http2 settled)

section Steps

variable {poolSize : ℕ} {docRoot : List UInt8} {s t : PoolServer} {e : PoolEvent}

/-! ## The threads -/

/-- The `io_context` in whose thread the event happens, if it is one of a handler. -/
def PoolServer.place (s : PoolServer) : PoolEvent → Option IoContext
  | .acceptBegins _ | .acceptPerforms _ _ _ | .acceptFinishes => some s.acceptor_
  | .signalBegins | .signalPerforms | .signalFinishes => some s.signals_
  | .connection id _ => s.conns[id]?.map Slot.ioContext
  | _ => none

/-- A handler begins in the thread of `c`. -/
def PoolServer.beginsOn (s : PoolServer) (c : IoContext) (e : PoolEvent) : Bool :=
  e.begins && s.place e = some c

/-- The thread of `c` comes back from a handler. -/
def PoolServer.finishesOn (s : PoolServer) (c : IoContext) (e : PoolEvent) : Bool :=
  e.finishes && s.place e = some c

/-- A handler begins in a thread that has nothing to do. -/
theorem free_of_beginsOn {c : IoContext} (h : Stepped docRoot s e t) (hc : s.beginsOn c e = true) :
    c ∉ s.stopped ∧ s.busy c = 0 := by
  obtain ⟨hbegins, hplace⟩ := Bool.and_eq_true_iff.1 hc
  have hplace : s.place e = some c := of_decide_eq_true hplace
  have hfree : s.free c = true := by
    cases h with
    | acceptBegins hfree =>
        cases hplace
        exact hfree
    | signalBegins hfree =>
        cases hplace
        exact hfree
    | @connection id f slot l d hslot hlive hfree hstep =>
        have hslot' : s.conns[id]?.map Slot.ioContext = some c := hplace
        rw [hslot] at hslot'
        cases hslot'
        rcases hfree with hfree | hfree
        · rw [PoolEvent.begins, hfree] at hbegins
          cases hbegins
        · exact hfree
    | _ => cases hbegins
  simpa [PoolServer.free] using hfree

theorem busy_startNew (c : IoContext) : s.startNew.busy c = s.busy c := by
  rw [PoolServer.startNew]
  split
  · have hsame : ∀ slot : Slot, (slot.start.busy c).toNat = (slot.busy c).toNat := by
      intro slot
      rw [Slot.busy, Slot.start, Slot.busy]
      cases slot.live <;> rfl
    rw [PoolServer.busy, PoolServer.busy, map_modify_of_eq _ hsame]
  · rfl

theorem busy_doAccept {major minor : Int32} {status : StatusType} (h : s.doAccept major minor status = some t)
    (c : IoContext) : t.busy c = s.busy c := by
  obtain ⟨⟨c', pool⟩, -, rfl⟩ := Option.map_eq_some_iff.1 h
  simp [PoolServer.busy, Slot.busy]

/-- How many handlers run in the thread of an `io_context` after a step. -/
theorem busy_step (h : Stepped docRoot s e t) (c : IoContext) :
    t.busy c + (s.finishesOn c e).toNat ≤ s.busy c + (s.beginsOn c e).toNat := by
  cases h with
  | acceptCompletes | closeAcceptor | signal => exact le_rfl
  | @acceptBegins i ps acts hfree hps hacts =>
      have hbegins : s.beginsOn c (.acceptBegins i) = decide (s.acceptor_ = c) := by
        simp [PoolServer.beginsOn, PoolEvent.begins, PoolServer.place]
      have hfinishes : s.finishesOn c (.acceptBegins i) = false := rfl
      rw [hbegins, hfinishes, PoolServer.busy, PoolServer.busy]
      simp only [Option.isSome_some, Bool.and_true, Bool.toNat_false]
      omega
  | @start major minor status as haccepting =>
      have hsame : ({ s with accepting := some as } : PoolServer).busy c = s.busy c := by
        rw [PoolServer.busy, PoolServer.busy, haccepting]
        rfl
      exact Nat.le_of_eq ((busy_startNew c).trans hsame)
  | @doAccept major minor status as t haccepting ht =>
      have hsame : ({ s with accepting := some as } : PoolServer).busy c = s.busy c := by
        rw [PoolServer.busy, PoolServer.busy, haccepting]
        rfl
      exact Nat.le_of_eq ((busy_doAccept ht c).trans hsame)
  | acceptFinishes haccepting =>
      have hfinishes : s.finishesOn c .acceptFinishes = decide (s.acceptor_ = c) := by
        simp [PoolServer.finishesOn, PoolEvent.finishes, PoolServer.place]
      have hbegins : s.beginsOn c .acceptFinishes = false := rfl
      rw [hbegins, hfinishes, PoolServer.busy, PoolServer.busy, haccepting]
      simp only [Option.isSome_some, Option.isSome_none, Bool.and_true, Bool.and_false, Bool.toNat_false]
      omega
  | signalBegins hfree hsignalled =>
      have hbegins : s.beginsOn c .signalBegins = decide (s.signals_ = c) := by
        simp [PoolServer.beginsOn, PoolEvent.begins, PoolServer.place]
      have hfinishes : s.finishesOn c .signalBegins = false := rfl
      rw [hbegins, hfinishes, PoolServer.busy, PoolServer.busy]
      simp only [Option.isSome_some, Bool.and_true, Bool.toNat_false]
      omega
  | @signalPerforms c' cs hstopping =>
      have hsame : ({ s with stopped := s.stopped ++ [c'], stopping := some cs } : PoolServer).busy c =
          s.busy c := by
        rw [PoolServer.busy, PoolServer.busy, hstopping]
        rfl
      exact Nat.le_of_eq hsame
  | signalFinishes hstopping =>
      have hfinishes : s.finishesOn c .signalFinishes = decide (s.signals_ = c) := by
        simp [PoolServer.finishesOn, PoolEvent.finishes, PoolServer.place]
      have hbegins : s.beginsOn c .signalFinishes = false := rfl
      rw [hbegins, hfinishes, PoolServer.busy, PoolServer.busy, hstopping]
      simp only [Option.isSome_some, Option.isSome_none, Bool.and_true, Bool.and_false, Bool.toNat_false]
      omega
  | @connection id f slot l d hslot hlive hfree hstep =>
      have hsum := sum_map_set (fun slot => (slot.busy c).toNat) hslot { slot with live := some d }
      have hrunning := Component.running_of_step hstep
      have hplace : s.place (.connection id f) = some slot.ioContext :=
        congrArg (Option.map Slot.ioContext) hslot
      have hbusy : slot.busy c = (decide (slot.ioContext = c) && l.running.isSome) := by
        rw [Slot.busy, hlive, Option.any_some]
      have hbusy' : ({ slot with live := some d } : Slot).busy c =
          (decide (slot.ioContext = c) && d.running.isSome) := rfl
      have hfinishes : s.finishesOn c (.connection id f) = (f.finishes && decide (slot.ioContext = c)) := by
        rw [PoolServer.finishesOn, hplace, PoolEvent.finishes]
        simp only [Option.some.injEq]
      have hbegins : s.beginsOn c (.connection id f) = (f.begins && decide (slot.ioContext = c)) := by
        rw [PoolServer.beginsOn, hplace, PoolEvent.begins]
        simp only [Option.some.injEq]
      rw [hbegins, hfinishes, PoolServer.busy, PoolServer.busy]
      simp only [hbusy, hbusy'] at hsum
      by_cases hc : slot.ioContext = c
      · simp only [hc, decide_true, Bool.true_and, Bool.and_true] at hsum ⊢
        omega
      · simp only [hc, decide_false, Bool.false_and, Bool.and_false, Bool.toNat_false] at hsum ⊢
        omega

/-- **One handler at a time** runs in the thread of an `io_context`. -/
theorem busy_le_one (h : (poolMachine poolSize docRoot).Reachable s) (c : IoContext) : s.busy c ≤ 1 := by
  apply h.invariant (I := fun s => s.busy c ≤ 1)
  · intro s hinit
    obtain ⟨pool, signals, acceptor, major, minor, status, -, -, -, hs⟩ := exists_doAccept_of_init hinit
    rw [busy_doAccept hs]
    simp [PoolServer.busy]
  · intro s e t hs hstep
    have hbusy := busy_step (stepped hstep) c
    cases hbegins : s.beginsOn c e with
    | false =>
        rw [hbegins, Bool.toNat_false] at hbusy
        omega
    | true =>
        have hfree := (free_of_beginsOn (stepped hstep) hbegins).2
        rw [hbegins, Bool.toNat_true] at hbusy
        omega

/-! ## After a signal -/

/-- How far `pool_.stop()` has come: not yet called, at work, or at its end. -/
structure Stopping (s : PoolServer) : Prop where
  once : s.awaiting = true → s.signalled = false
  before : s.awaiting = true ∨ s.signalled = true → s.stopped = [] ∧ s.stopping = none
  running : ∀ rest, s.stopping = some rest → s.pool_.ioContexts_ = s.stopped ++ rest
  after : s.awaiting = false → s.signalled = false → s.stopping = none → s.stopped = s.pool_.ioContexts_

/-- The pool keeps its `io_context`s. -/
theorem ioContexts_doAccept {major minor : Int32} {status : StatusType}
    (h : s.doAccept major minor status = some t) : t.pool_.ioContexts_ = s.pool_.ioContexts_ := by
  obtain ⟨⟨c, pool⟩, hget, rfl⟩ := Option.map_eq_some_iff.1 h
  obtain ⟨c', -, heq⟩ := Option.map_eq_some_iff.1 hget
  cases heq
  rfl

theorem Stopping.step (hs : Stopping s) (h : Stepped docRoot s e t) : Stopping t := by
  cases h with
  | acceptCompletes | acceptBegins | acceptFinishes | closeAcceptor | connection =>
      exact ⟨hs.once, hs.before, hs.running, hs.after⟩
  | start haccepting =>
      rw [PoolServer.startNew]
      split <;> exact ⟨hs.once, hs.before, hs.running, hs.after⟩
  | doAccept haccepting ht =>
      have hcontexts := ioContexts_doAccept ht
      obtain ⟨⟨c, pool⟩, -, rfl⟩ := Option.map_eq_some_iff.1 ht
      refine ⟨hs.once, hs.before, fun rest hrest => ?_, fun h₁ h₂ h₃ => ?_⟩
      · rw [hcontexts]
        exact hs.running rest hrest
      · rw [hcontexts]
        exact hs.after h₁ h₂ h₃
  | signal hawaiting =>
      refine ⟨fun h => absurd h Bool.false_ne_true, fun _ => hs.before (Or.inl hawaiting), hs.running, ?_⟩
      intro _ h
      cases h
  | signalBegins hfree hsignalled =>
      have hawaiting : s.awaiting = false := by
        cases hs' : s.awaiting with
        | false => rfl
        | true =>
            rw [hs.once hs'] at hsignalled
            cases hsignalled
      refine ⟨fun _ => rfl, ?_, ?_, fun _ _ h => absurd h (Option.some_ne_none _)⟩
      · rintro (h | h)
        · rw [hawaiting] at h
          cases h
        · cases h
      · rintro rest ⟨⟩
        rw [(hs.before (Or.inr hsignalled)).1]
        rfl
  | signalPerforms hstopping =>
      refine ⟨hs.once, ?_, ?_, fun _ _ h => absurd h (Option.some_ne_none _)⟩
      · intro h
        rw [(hs.before h).2] at hstopping
        cases hstopping
      · rintro rest ⟨⟩
        rw [hs.running _ hstopping, List.append_assoc]
        rfl
  | signalFinishes hstopping =>
      refine ⟨hs.once, ?_, fun rest h => absurd h.symm (Option.some_ne_none _), ?_⟩
      · intro h
        rw [(hs.before h).2] at hstopping
        cases hstopping
      · intro _ _ _
        rw [hs.running _ hstopping, List.append_nil]

theorem stopping_of_reachable (h : (poolMachine poolSize docRoot).Reachable s) : Stopping s := by
  apply h.invariant (I := Stopping)
  · intro s hinit
    obtain ⟨pool, signals, acceptor, major, minor, status, -, -, -, hs⟩ := exists_doAccept_of_init hinit
    obtain ⟨⟨c, pool'⟩, -, rfl⟩ := Option.map_eq_some_iff.1 hs
    exact ⟨fun _ => rfl, fun _ => ⟨rfl, rfl⟩, nofun, nofun⟩
  · intro s e t hs hstep
    exact hs.step (stepped hstep)

/-- What is stopped stays stopped. -/
theorem Stepped.stopped_subset (h : Stepped docRoot s e t) : s.stopped ⊆ t.stopped := by
  cases h with
  | start haccepting =>
      rw [PoolServer.startNew]
      split <;> exact List.Subset.refl _
  | doAccept haccepting ht =>
      obtain ⟨⟨c, pool⟩, -, rfl⟩ := Option.map_eq_some_iff.1 ht
      exact List.Subset.refl _
  | signalPerforms => exact List.subset_append_left _ _
  | _ => exact List.Subset.refl _

/-- Everything stays on its `io_context`. -/
theorem Stepped.keeps_contexts (h : Stepped docRoot s e t) :
    t.acceptor_ = s.acceptor_ ∧ t.signals_ = s.signals_ ∧ ∀ (id : ℕ) (slot : Slot), s.conns[id]? = some slot →
      ∃ slot', t.conns[id]? = some slot' ∧ slot'.ioContext = slot.ioContext := by
  cases h with
  | start haccepting =>
      rw [PoolServer.startNew]
      split
      · rename_i k hk
        refine ⟨rfl, rfl, fun id slot hslot => ?_⟩
        by_cases hid : k = id
        · subst hid
          refine ⟨slot.start, ?_, rfl⟩
          rw [List.getElem?_modify_eq, hslot]
          rfl
        · exact ⟨slot, (List.getElem?_modify_ne _ _ hid).trans hslot, rfl⟩
      · exact ⟨rfl, rfl, fun id slot hslot => ⟨slot, hslot, rfl⟩⟩
  | doAccept haccepting ht =>
      obtain ⟨⟨c, pool⟩, -, rfl⟩ := Option.map_eq_some_iff.1 ht
      refine ⟨rfl, rfl, fun id slot hslot => ⟨slot, ?_, rfl⟩⟩
      exact (List.getElem?_append_left (List.getElem?_eq_some_iff.1 hslot).1).trans hslot
  | @connection id' f slot' l d hslot' hlive hfree hstep =>
      refine ⟨rfl, rfl, fun id slot hslot => ?_⟩
      by_cases hid : id' = id
      · subst hid
        obtain rfl := Option.some.inj (hslot'.symm.trans hslot)
        exact ⟨_, List.getElem?_set_self (List.getElem?_eq_some_iff.1 hslot).1, rfl⟩
      · exact ⟨slot, (List.getElem?_set_ne hid).trans hslot, rfl⟩
  | _ => exact ⟨rfl, rfl, fun id slot hslot => ⟨slot, hslot, rfl⟩⟩

/-- So does every event. -/
theorem Stepped.place_eq (h : Stepped docRoot s e t) {f : PoolEvent} {c : IoContext} (hf : s.place f = some c) :
    t.place f = some c := by
  obtain ⟨hacceptor, hsignals, hconns⟩ := h.keeps_contexts
  cases f with
  | acceptBegins | acceptPerforms | acceptFinishes =>
      rw [PoolServer.place, hacceptor]
      exact hf
  | signalBegins | signalPerforms | signalFinishes =>
      rw [PoolServer.place, hsignals]
      exact hf
  | connection id f =>
      obtain ⟨slot, hslot, rfl⟩ := Option.map_eq_some_iff.1 hf
      obtain ⟨slot', hslot', hsame⟩ := hconns id slot hslot
      rw [PoolServer.place, hslot', Option.map_some, hsame]
  | _ => cases hf

theorem place_exec {es : List PoolEvent} (h : (poolMachine poolSize docRoot).exec s es = some t) {f : PoolEvent}
    {c : IoContext} (hf : s.place f = some c) : t.place f = some c :=
  Machine.exec_preserves (I := fun u => u.place f = some c)
    (fun _ _ _ hu hstep => (stepped hstep).place_eq hu) hf h

/-- What begins or finishes does so in some thread. -/
theorem exists_place (h : Stepped docRoot s e t) (he : e.begins = true ∨ e.finishes = true) :
    ∃ c, s.place e = some c := by
  cases h with
  | acceptBegins | acceptFinishes | signalBegins | signalFinishes => exact ⟨_, rfl⟩
  | connection hslot => exact ⟨_, congrArg (Option.map Slot.ioContext) hslot⟩
  | _ => exact absurd he (by simp [PoolEvent.begins, PoolEvent.finishes])

/-- **A thread that was stopped comes back.** Nothing begins in it, and it finishes at most what it was at. -/
theorem stopped_exec {c : IoContext} (hc : c ∈ s.stopped) {es : List PoolEvent}
    (h : (poolMachine poolSize docRoot).exec s es = some t) :
    (∀ e ∈ es, t.beginsOn c e = false) ∧ es.countP (t.finishesOn c) + t.busy c ≤ s.busy c := by
  induction es generalizing s with
  | nil =>
      cases h
      exact ⟨nofun, Nat.le_of_eq (Nat.zero_add _)⟩
  | cons e es ih =>
      obtain ⟨u, hu, hrest⟩ := (poolMachine poolSize docRoot).exec_cons_eq_some.1 h
      have hstep := stepped hu
      obtain ⟨hbegins, hcount⟩ := ih (hstep.stopped_subset hc) hrest
      -- the event is in the same thread at the end of the run
      have hsame : e.begins = true ∨ e.finishes = true → t.place e = s.place e := by
        intro he
        obtain ⟨c', hc'⟩ := exists_place hstep he
        rw [place_exec h hc', hc']
      have hnot : s.beginsOn c e = false := by
        cases hb : s.beginsOn c e with
        | false => rfl
        | true => exact absurd hc (free_of_beginsOn hstep hb).1
      have hnot' : t.beginsOn c e = false := by
        cases hb : e.begins with
        | false => rw [PoolServer.beginsOn, hb, Bool.false_and]
        | true => rw [PoolServer.beginsOn, hsame (Or.inl hb), ← PoolServer.beginsOn, hnot]
      have hfinishes : t.finishesOn c e = s.finishesOn c e := by
        cases hf : e.finishes with
        | false => rw [PoolServer.finishesOn, PoolServer.finishesOn, hf, Bool.false_and, Bool.false_and]
        | true => rw [PoolServer.finishesOn, hsame (Or.inr hf), ← PoolServer.finishesOn]
      have hbusy := busy_step hstep c
      rw [hnot, Bool.toNat_false, Nat.add_zero] at hbusy
      refine ⟨List.forall_mem_cons.2 ⟨hnot', hbegins⟩, ?_⟩
      rw [List.countP_cons, hfinishes]
      cases hf : s.finishesOn c e <;> rw [hf] at hbusy <;> simp at hbusy ⊢ <;> omega

/-- A connection whose `io_context` is stopped does what its running handler has still to perform. -/
theorem trace_exec (hr : (poolMachine poolSize docRoot).Reachable s) {c : IoContext} (hc : c ∈ s.stopped)
    {es : List PoolEvent} (h : (poolMachine poolSize docRoot).exec s es = some t) {id : ℕ} {slot : Slot}
    {l : OnStrand Exchange Action} (hslot : s.conns[id]? = some slot) (hplace : slot.ioContext = c)
    (hl : slot.live = some l) :
    ∃ l', t.live id = some l' ∧
      (settled http2 docRoot l').conn.trace = (settled http2 docRoot l).conn.trace := by
  have key := Machine.exec_preserves (M := poolMachine poolSize docRoot)
    (I := fun u => (poolMachine poolSize docRoot).Reachable u ∧ c ∈ u.stopped ∧
      (∀ f, u.place (.connection id f) = some c) ∧ ∃ l', u.live id = some l' ∧
        (settled http2 docRoot l').conn.trace = (settled http2 docRoot l).conn.trace)
    (fun u e v hu hstep => ?_) ⟨hr, hc, fun f => ?_, l, (live_of_getElem? hslot).trans hl, rfl⟩ h
  · exact key.2.2.2
  · obtain ⟨hr, hc, hplace, l', hl', htrace⟩ := hu
    have hstepped := stepped hstep
    obtain ⟨k, hpaced⟩ := exists_paced hr
    refine ⟨hr.step hstep, hstepped.stopped_subset hc, fun f => hstepped.place_eq (hplace f), ?_⟩
    rcases hpaced.live_step hstepped id with ⟨hsame, -⟩ | ⟨c', d, f, hc', hf, hd, hlive⟩ | ⟨hnone, -⟩
    · exact ⟨l', hsame.trans hl', htrace⟩
    · obtain rfl : l' = c' := Option.some.inj (hl'.symm.trans hc')
      refine ⟨d, hlive, (Http.trace_settled_of_step hd ?_).trans htrace⟩
      cases hb : f.begins with
      | false => rfl
      | true =>
          cases e with
          | connection id' f' =>
              have hf : (if id' = id then some f' else none) = some f := hf
              obtain ⟨rfl, heq⟩ := Option.ite_none_right_eq_some.1 hf
              obtain rfl := Option.some.inj heq
              have hbegins : u.beginsOn c (.connection id' f') = true := by
                rw [PoolServer.beginsOn, hplace, PoolEvent.begins, hb]
                simp
              exact absurd hc (free_of_beginsOn hstepped hbegins).1
          | _ => cases hf
    · rw [hl'] at hnone
      cases hnone
  · rw [PoolServer.place, hslot, Option.map_some, hplace]

end Steps

/-! ## Results -/

/-- **Each connection runs on one thread**, in every run with any size of the pool: no `io_context` has more
than one handler at work; the connections have got the `io_context`s in turn, so that each has its share of
them, and `do_accept` never finds `get_io_context` out of range; and each connection, once its handler has come
to its end, is where a single thread brings it with the same completions, and the same handlers in the order in
which they began. -/
theorem http2_connections (poolSize : ℕ) (docRoot : List UInt8) (s₀ s : PoolServer) (es : List PoolEvent)
    (hinit : (poolMachine poolSize docRoot).init s₀)
    (hexec : (poolMachine poolSize docRoot).exec s₀ es = some s) :
    (∀ c, s.busy c ≤ 1) ∧
    (∀ (id : ℕ) (slot : Slot), s.conns[id]? = some slot → slot.ioContext = ⟨(2 + id) % poolSize⟩) ∧
    (∀ c ∈ s.pool_.ioContexts_,
      (s.conns.map Slot.ioContext).count c = s.conns.length / poolSize ∨
        (s.conns.map Slot.ioContext).count c = s.conns.length ⌈/⌉ poolSize) ∧
    (∀ as, s.accepting = some (.doAccept :: as) →
      ∀ major minor status, (s.doAccept major minor status).isSome = true) ∧
    ∀ id c, s.live id = some c → ∃ c₀, (exchangeMachine http2 docRoot).init c₀ ∧
      (exchangeMachine http2 docRoot).exec c₀ (es.filterMap (PoolEvent.connectionEvent id)) =
        some (settled http2 docRoot c) := by
  have hreach : (poolMachine poolSize docRoot).Reachable s := ⟨s₀, es, hinit, hexec⟩
  obtain ⟨k, hs⟩ := exists_paced hreach
  have hlength : (IoContextPool.made poolSize).length = poolSize := IoContextPool.length_made poolSize
  refine ⟨busy_le_one hreach, ?_, ?_, ?_, fun id c hc => exec_connection hinit hexec hc⟩
  · intro id slot hslot
    have hmap : (s.conns.map Slot.ioContext)[id]? = some slot.ioContext := by rw [List.getElem?_map, hslot]; rfl
    have hturn := hs.turns id (List.getElem?_eq_some_iff.1 hmap).1
    have hlt := Nat.mod_lt (2 + id) hs.size_pos
    rw [hmap, hlength, IoContextPool.made, List.getElem?_map, List.getElem?_range hlt] at hturn
    exact Option.some.inj hturn
  · intro c hc
    have hfair := hs.turns.balanced (IoContextPool.nodup_made poolSize) (hs.contexts ▸ hc)
    rwa [hlength, List.length_map] at hfair
  · intro as _ major minor status
    have hlt : s.pool_.nextIoContext_ < s.pool_.ioContexts_.length := by
      rw [hs.next, hs.contexts, hlength]
      exact Nat.mod_lt _ hs.size_pos
    obtain ⟨c, -, hcall⟩ := IoContextPool.getIoContext_spec hlt
    rw [PoolServer.doAccept, hcall]
    rfl

/-- Two accepts, on a pool of two. -/
def twoAccepts : List PoolEvent :=
  [.acceptCompletes 0 ⟨none, []⟩, .acceptBegins 0, .acceptPerforms 0 0 .ok, .acceptPerforms 0 0 .ok,
    .acceptFinishes, .acceptCompletes 0 ⟨none, []⟩, .acceptBegins 0, .acceptPerforms 0 0 .ok,
    .acceptPerforms 0 0 .ok, .acceptFinishes]

/-- The events of a run in which the two threads serve two connections: the read handler of the first one is at
work when that of the second one begins. -/
def twoConnections : List PoolEvent :=
  twoAccepts ++
  [.connection 0 (.event (0, ⟨none, str " "⟩)), .connection 1 (.event (0, ⟨none, str "GET"⟩)),
    .connection 0 (.begin_ (0, fun _ => none)), .connection 0 .perform,
    .connection 1 (.begin_ (0, fun _ => none)), .connection 0 .perform, .connection 0 .perform,
    .connection 0 .perform, .connection 0 .finish]

/-- The pool of two, and the server that is constructed with it. -/
theorem exists_init_two {p : PoolServer → Prop} (h : ∃ s₀,
      PoolServer.constructed ⟨IoContextPool.made 2, IoContextPool.made 2, 0⟩ 0 0 .ok = some s₀ ∧ p s₀) :
    ∃ s₀, (poolMachine 2 []).init s₀ ∧ p s₀ := by
  obtain ⟨s₀, hs₀, hp⟩ := h
  have hnew : IoContextPool.new 2 = .ok ⟨IoContextPool.made 2, IoContextPool.made 2, 0⟩ :=
    IoContextPool.new_eq_ok_iff.2 ⟨by decide, by decide, rfl⟩
  exact ⟨s₀, ⟨_, 0, 0, .ok, hnew, hs₀⟩, hp⟩

theorem twoConnections_exec :
    ∃ s₀, (poolMachine 2 []).init s₀ ∧ ∃ s c, (poolMachine 2 []).exec s₀ twoConnections = some s ∧
      s.live 0 = some c ∧ c.state.received = str " " ∧
      .asyncWrite (.stockReply .badRequest) ∈ c.state.conn.trace := by
  apply exists_init_two
  have hrun : ((PoolServer.constructed ⟨IoContextPool.made 2, IoContextPool.made 2, 0⟩ 0 0 .ok).bind fun s₀ =>
      ((poolMachine 2 []).exec s₀ twoConnections).bind fun s => (s.live 0).map fun c =>
        decide (c.state.received = str " " ∧
          .asyncWrite (.stockReply .badRequest) ∈ c.state.conn.trace)) = some true := by decide +kernel
  obtain ⟨s₀, hs₀, hrun⟩ := Option.bind_eq_some_iff.1 hrun
  obtain ⟨s, hs, hrun⟩ := Option.bind_eq_some_iff.1 hrun
  obtain ⟨c, hc, htrue⟩ := Option.map_eq_some_iff.1 hrun
  exact ⟨s₀, hs₀, s, c, hs, hc, of_decide_eq_true htrue⟩

/-- In that run each connection has run by itself. -/
theorem http2_connections_two :
    ∃ s₀ s c c₀, (poolMachine 2 []).exec s₀ twoConnections = some s ∧ s.busy ⟨1⟩ ≤ 1 ∧ s.live 0 = some c ∧
      (exchangeMachine http2 []).exec c₀ (twoConnections.filterMap (PoolEvent.connectionEvent 0)) =
        some (settled http2 [] c) := by
  obtain ⟨s₀, hinit, s, c, hs, hc, -⟩ := twoConnections_exec
  obtain ⟨hbusy, -, -, -, hconn⟩ := http2_connections 2 [] s₀ s twoConnections hinit hs
  obtain ⟨c₀, -, hexec⟩ := hconn 0 c hc
  exact ⟨s₀, s, c, c₀, hs, hbusy _, hc, hexec⟩

/-- **Every reply of the server is the answer** to what its connection has received, whichever threads are at
work at the same time. Where nothing was written to a connection, and no handler of it is queued or running,
there is no answer yet. -/
theorem http2_answers (poolSize : ℕ) (docRoot : List UInt8) (s₀ s : PoolServer) (es : List PoolEvent)
    (hinit : (poolMachine poolSize docRoot).init s₀)
    (hexec : (poolMachine poolSize docRoot).exec s₀ es = some s) (id : ℕ) (c : OnStrand Exchange Action)
    (hc : s.live id = some c) :
    (∀ rep, .asyncWrite rep ∈ c.state.conn.trace →
      ∃ i fs, .connection id (.begin_ (i, fs)) ∈ es ∧ answer docRoot fs c.state.received = some rep) ∧
    (c.running = none → (∀ p ∈ c.state.conn.pending, p.completion = none) →
      (∀ rep, .asyncWrite rep ∉ c.state.conn.trace) → ∀ fs, answer docRoot fs c.state.received = none) := by
  obtain ⟨c₀, hc₀, hrun⟩ := exec_connection hinit hexec hc
  obtain ⟨hwritten, hnone⟩ := Http.settled_answers hc₀ hrun
  refine ⟨fun rep hrep => ?_, hnone⟩
  obtain ⟨i, fs, he, hanswer⟩ := hwritten rep hrep
  obtain ⟨e, he, hlabel⟩ := List.mem_filterMap.1 he
  exact ⟨i, fs, eq_of_connectionEvent hlabel ▸ he, hanswer⟩

/-- The answer to a blank. -/
theorem http2_answers_two :
    ∃ i fs, .connection 0 (.begin_ (i, fs)) ∈ twoConnections ∧
      answer [] fs (str " ") = some (.stockReply .badRequest) := by
  obtain ⟨s₀, hinit, s, c, hs, hc, hreceived, hwrite⟩ := twoConnections_exec
  exact hreceived ▸ (http2_answers 2 [] s₀ s twoConnections hinit hs 0 c hc).1 _ hwrite

/-- **After a signal the threads come back**, one `io_context` after the other. `pool_.stop()` goes through the
pool in order, and has stopped every `io_context` when its handler has ended, also its own. Where an
`io_context` is stopped, whatever happens from then on: no handler begins in its thread; the one that is running
comes back at most once; and its connections do nothing but what that handler has still to perform. -/
theorem http2_stops (poolSize : ℕ) (docRoot : List UInt8) (s t : PoolServer) (es : List PoolEvent)
    (hs : (poolMachine poolSize docRoot).Reachable s)
    (hexec : (poolMachine poolSize docRoot).exec s es = some t) :
    (∀ rest, s.stopping = some rest → s.pool_.ioContexts_ = s.stopped ++ rest) ∧
    (s.awaiting = false → s.signalled = false → s.stopping = none → s.stopped = s.pool_.ioContexts_) ∧
    ∀ c ∈ s.stopped, (∀ e ∈ es, t.beginsOn c e = false) ∧ es.countP (t.finishesOn c) + t.busy c ≤ 1 ∧
      ∀ (id : ℕ) (slot : Slot) (l : OnStrand Exchange Action), s.conns[id]? = some slot →
        slot.ioContext = c → slot.live = some l →
        ∃ l', t.live id = some l' ∧
          (settled http2 docRoot l').conn.trace = (settled http2 docRoot l).conn.trace := by
  have hstopping := stopping_of_reachable hs
  refine ⟨hstopping.running, hstopping.after, fun c hc => ?_⟩
  obtain ⟨hbegins, hcount⟩ := stopped_exec hc hexec
  refine ⟨hbegins, hcount.trans (busy_le_one hs c), ?_⟩
  intro id slot l hslot hplace hl
  exact trace_exec hs hc hexec hslot hplace hl

/-- The second connection is at work when both `io_context`s are stopped. -/
def stopBoth : List PoolEvent :=
  twoAccepts ++
  [.connection 1 (.event (0, ⟨none, str "GET"⟩)), .connection 1 (.begin_ (0, fun _ => none)), .signal,
    .signalBegins, .signalPerforms, .signalPerforms]

/-- Both `io_context`s are stopped while the second one runs a handler, which goes on. -/
theorem http2_stops_running :
    ∃ s t, (poolMachine 2 []).Reachable s ∧
      (poolMachine 2 []).exec s [.connection 1 .perform, .signalFinishes] = some t ∧ t.busy ⟨1⟩ = 1 ∧
      ([.connection 1 .perform, .signalFinishes] : List PoolEvent).countP (t.finishesOn ⟨1⟩) +
        t.busy ⟨1⟩ ≤ 1 := by
  have hrun : ((PoolServer.constructed ⟨IoContextPool.made 2, IoContextPool.made 2, 0⟩ 0 0 .ok).bind fun s₀ =>
      ((poolMachine 2 []).exec s₀ stopBoth).bind fun s =>
        ((poolMachine 2 []).exec s [.connection 1 .perform, .signalFinishes]).map fun t =>
          decide ((⟨1⟩ : IoContext) ∈ s.stopped ∧ t.busy ⟨1⟩ = 1)) = some true := by decide +kernel
  obtain ⟨s₀, hs₀, hrun⟩ := Option.bind_eq_some_iff.1 hrun
  obtain ⟨s, hs, hrun⟩ := Option.bind_eq_some_iff.1 hrun
  obtain ⟨t, ht, htrue⟩ := Option.map_eq_some_iff.1 hrun
  obtain ⟨hstopped, hbusy⟩ := of_decide_eq_true htrue
  obtain ⟨s₀, hinit, hs⟩ : ∃ s₀, (poolMachine 2 []).init s₀ ∧ (poolMachine 2 []).exec s₀ stopBoth = some s :=
    exists_init_two ⟨s₀, hs₀, hs⟩
  have hreach : (poolMachine 2 []).Reachable s := ⟨s₀, stopBoth, hinit, hs⟩
  exact ⟨s, t, hreach, ht, hbusy, ((http2_stops 2 [] s t _ hreach ht).2.2 ⟨1⟩ hstopped).2.1⟩

end AsioExamples.Http2
