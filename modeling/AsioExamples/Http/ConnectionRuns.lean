import AsioExamples.Http.Connection

/-!
# Every run of a connection

A reachable state has one of two shapes. In `Reading` the only operation that can be outstanding is
a read and every parse so far has asked for more. In `Writing` a parse has given its verdict, one reply
has been filled and given to one write, and nothing but the end of that write can follow. `shape`
proves this for all three servers, `connection_sendsOnce` reads off what holds of every run.
-/

set_option autoImplicit false

namespace AsioExamples.Http

open AsioExamples.Cxx AsioExamples.Lib AsioExamples.Asio

/-! ## What a handler can do -/

/-- The three ends of a read handler: an error, a request that asks for more, and a verdict with the
reply to it. -/
theorem readHandler_cases (srv : Server) (handle : Request → Reply → Reply) (c : Connection)
    (done : Completion) :
    (∃ ec, done.ec = some ec ∧ readHandler srv handle c done =
      (c, .readHandled (some ec) :: if srv.stopsAfterRead ec then [.managerStop] else [])) ∨
    (done.ec = none ∧ ∃ c' n, c'.reply_ = c.reply_ ∧ readHandler srv handle c done =
      (c', [.readHandled none, .parse .indeterminate n, .asyncReadSome])) ∨
    (done.ec = none ∧ ∃ c' r n, r ≠ .indeterminate ∧ readHandler srv handle c done =
      (c', [.readHandled none, .parse r n, .fillReply, .asyncWrite c'.reply_])) := by
  rw [readHandler]
  cases hec : done.ec with
  | some ec => exact Or.inl ⟨ec, rfl, rfl⟩
  | none =>
      -- the branch on the result of `parse`
      apply Or.inr
      cases hr : (c.requestParser_.parse c.request_ done.bytes).result with
      | good =>
          simp only [hr]
          exact Or.inr ⟨trivial, _, .good, _, by simp, rfl⟩
      | bad =>
          simp only [hr]
          exact Or.inr ⟨trivial, _, .bad, _, by simp, rfl⟩
      | indeterminate =>
          simp only [hr]
          exact Or.inl ⟨trivial, _, _, by rfl, rfl⟩

namespace ConnectionState

@[simp] theorem foldl_perform_conn (s : ConnectionState) (acts : List Action) :
    (acts.foldl perform s).conn = s.conn := by
  induction acts generalizing s with
  | nil => rfl
  | cons a acts ih => rw [List.foldl_cons, ih]; rfl

@[simp] theorem foldl_perform_trace (s : ConnectionState) (acts : List Action) :
    (acts.foldl perform s).trace = s.trace ++ acts := by
  induction acts generalizing s with
  | nil => simp
  | cons a acts ih => rw [List.foldl_cons, ih]; simp [perform]

/-- The operations that a list of actions starts, in order. -/
def startedOps : List Action → List Op
  | [] => []
  | .asyncReadSome :: acts => .readSome :: startedOps acts
  | .asyncWrite rep :: acts => .write rep :: startedOps acts
  | _ :: acts => startedOps acts

/-- A failed read starts nothing. -/
theorem startedOps_failed (ec : ErrorCode) (stops : Bool) :
    startedOps (.readHandled (some ec) :: if stops then [.managerStop] else []) = [] := by
  cases stops <;> rfl

/-- The end of a write starts nothing. -/
theorem startedOps_writeHandler (srv : Server) (done : Completion) :
    startedOps (writeHandler srv done) = [] := by
  rw [writeHandler]
  split <;> split <;> rfl

/-- A handler adds the operations it starts, and no others. -/
theorem foldl_perform_pending (s : ConnectionState) (acts : List Action) :
    ∃ ps, (acts.foldl perform s).pending = s.pending ++ ps ∧ ps.map (·.op) = startedOps acts ∧
      ∀ p ∈ ps, p.completion = none := by
  induction acts generalizing s with
  | nil => exact ⟨[], by simp, rfl, by simp⟩
  | cons a acts ih =>
      -- the first action starts one operation or none, the others come behind it
      obtain ⟨ps, hps, hops, hnone⟩ := ih (s.perform a)
      rw [List.foldl_cons, hps]
      cases a
      case asyncReadSome =>
        exact ⟨⟨.readSome, !s.isOpen, none⟩ :: ps, by simp [perform], by simp [startedOps, hops],
          by simpa using hnone⟩
      case asyncWrite rep =>
        exact ⟨⟨.write rep, !s.isOpen, none⟩ :: ps, by simp [perform], by simp [startedOps, hops],
          by simpa using hnone⟩
      all_goals exact ⟨ps, by simp [perform], by simp [startedOps, hops], hnone⟩

theorem foldl_perform_isOpen (s : ConnectionState) (acts : List Action) :
    (acts.foldl perform s).isOpen = (s.isOpen && !decide (.managerStop ∈ acts)) := by
  induction acts generalizing s with
  | nil => simp
  | cons a acts ih =>
      rw [List.foldl_cons, ih]
      by_cases ha : a = .managerStop
      · simp [perform, ha]
      · simp [perform, ha, Ne.symm ha]

/-- Where at most one operation is outstanding, a handler that runs is the handler of that one. -/
theorem handler_eq_some {srv : Server} {docRoot : List UInt8} {s t : ConnectionState} {i : Nat}
    {fs : FileSystem} {acts : List Action} (hlen : s.pending.length ≤ 1)
    (h : s.handler srv docRoot i fs = some (t, acts)) :
    ∃ p done, s.pending = [p] ∧ p.completion = some done ∧
      ∃ c', t = acts.foldl perform { s with conn := c', pending := [] } ∧
        ((p.op = .readSome ∧ (c', acts) =
          readHandler srv (fun req rep => (handleRequest docRoot fs req rep).reply) s.conn done) ∨
        (∃ rep, p.op = .write rep ∧ c' = s.conn ∧ acts = writeHandler srv done)) := by
  rw [handler] at h
  simp only [Option.map_eq_some_iff] at h
  obtain ⟨⟨op, done, ps⟩, hd, heq⟩ := h
  obtain ⟨p, hp, hop, hdone, rfl⟩ := dispatch_of_length_le_one hlen hd
  simp only [Prod.mk.injEq] at heq
  obtain ⟨rfl, rfl⟩ := heq
  refine ⟨p, done, hp, hdone, _, rfl, ?_⟩
  cases op with
  | readSome => exact Or.inl ⟨hop, rfl⟩
  | write rep => exact Or.inr ⟨rep, hop, rfl, rfl⟩

end ConnectionState

/-! ## The two shapes of a reachable state -/

/-- An action before the verdict of the parser. -/
def Action.early : Action → Bool
  | .parse r _ => r = .indeterminate
  | .fillReply => false
  | .asyncWrite _ => false
  | _ => true

/-- An action after the write was started. -/
def Action.late : Action → Bool
  | .writeHandled _ => true
  | .shutdown => true
  | .managerStop => true
  | _ => false

theorem failed_early (ec : ErrorCode) (stops : Bool) :
    ∀ a ∈ Action.readHandled (some ec) :: (if stops then [Action.managerStop] else []),
      a.early = true := by
  cases stops <;> simp [Action.early]

theorem writeHandler_late (srv : Server) (done : Completion) :
    ∀ a ∈ writeHandler srv done, a.late = true := by
  rw [writeHandler]
  split <;> split <;> simp [Action.late]

/-- The connection is reading its request, or its read has failed. -/
structure Reading (s : ConnectionState) : Prop where
  atMostOne : s.pending.length ≤ 1
  isRead : ∀ p ∈ s.pending, p.op = .readSome
  early : ∀ a ∈ s.trace, a.early = true

/-- The connection writes its reply, or has done so. -/
structure Writing (s : ConnectionState) : Prop where
  atMostOne : s.pending.length ≤ 1
  isWrite : ∀ p ∈ s.pending, p.op = .write s.conn.reply_
  trace : ∃ before r n after,
    s.trace = before ++ [.parse r n, .fillReply, .asyncWrite s.conn.reply_] ++ after ∧
      r ≠ .indeterminate ∧ (∀ a ∈ before, a.early = true) ∧ ∀ a ∈ after, a.late = true

namespace ConnectionState

variable {srv : Server} {docRoot : List UInt8} {s t : ConnectionState}

/-- A handler keeps the shape of a reading connection, or makes it a writing one. -/
theorem reading_handler {i : Nat} {fs : FileSystem} {acts : List Action} (hs : Reading s)
    (h : s.handler srv docRoot i fs = some (t, acts)) : Reading t ∨ Writing t := by
  obtain ⟨p, done, hp, -, c', rfl, ⟨-, hread⟩ | ⟨rep, hop, -, -⟩⟩ := handler_eq_some hs.atMostOne h
  · obtain ⟨ps, hps, hops, -⟩ :=
      foldl_perform_pending { s with conn := c', pending := [] } acts
    rw [List.nil_append] at hps
    -- what is outstanding afterwards is what the handler has started
    have hlen : (startedOps acts).length = ps.length := by rw [← hops, List.length_map]
    have hmem : ∀ q ∈ ps, q.op ∈ startedOps acts := fun q hq => hops ▸ List.mem_map_of_mem hq
    rcases readHandler_cases srv (fun req rep => (handleRequest docRoot fs req rep).reply) s.conn done
      with ⟨ec, -, heq⟩ | ⟨-, c₁, n, -, heq⟩ | ⟨-, c₁, r, n, hr, heq⟩
    · -- the read failed: nothing is started
      obtain ⟨rfl, rfl⟩ := Prod.mk.inj (hread.trans heq)
      rw [startedOps_failed] at hlen hmem
      apply Or.inl
      refine ⟨by rw [hps, ← hlen]; simp, ?_, ?_⟩
      · intro q hq
        apply absurd (hmem q (hps ▸ hq))
        simp
      · rw [foldl_perform_trace]
        exact List.forall_mem_append.2 ⟨hs.early, failed_early ec _⟩
    · -- the parser asks for more: one more read
      obtain ⟨rfl, rfl⟩ := Prod.mk.inj (hread.trans heq)
      apply Or.inl
      refine ⟨by rw [hps, ← hlen]; simp [startedOps], ?_, ?_⟩
      · intro q hq
        simpa [startedOps] using hmem q (hps ▸ hq)
      · rw [foldl_perform_trace]
        exact List.forall_mem_append.2 ⟨hs.early, by simp [Action.early]⟩
    · -- a verdict: the reply is filled and written
      obtain ⟨rfl, rfl⟩ := Prod.mk.inj (hread.trans heq)
      apply Or.inr
      refine ⟨by rw [hps, ← hlen]; simp [startedOps], ?_, ?_⟩
      · intro q hq
        rw [foldl_perform_conn]
        simpa [startedOps] using hmem q (hps ▸ hq)
      · refine ⟨s.trace ++ [.readHandled none], r, n, [], ?_, hr, ?_, by simp⟩
        · rw [foldl_perform_trace, foldl_perform_conn]
          simp
        · exact List.forall_mem_append.2 ⟨hs.early, by simp [Action.early]⟩
  · -- no write is outstanding while reading
    have hread := hs.isRead p (by rw [hp]; simp)
    rw [hop] at hread
    cases hread

/-- A handler of a writing connection ends its write. -/
theorem writing_handler {i : Nat} {fs : FileSystem} {acts : List Action} (hs : Writing s)
    (h : s.handler srv docRoot i fs = some (t, acts)) : Writing t := by
  obtain ⟨p, done, hp, -, c', rfl, ⟨hop, -⟩ | ⟨rep, hop, rfl, rfl⟩⟩ := handler_eq_some hs.atMostOne h
  · -- no read is outstanding while writing
    have hwrite := hs.isWrite p (by rw [hp]; simp)
    rw [hop] at hwrite
    cases hwrite
  · -- the end of the write starts nothing
    obtain ⟨ps, hps, hops, -⟩ :=
      foldl_perform_pending { s with pending := [] } (writeHandler srv done)
    rw [startedOps_writeHandler, List.map_eq_nil_iff] at hops
    rw [hops, List.append_nil] at hps
    refine ⟨by rw [hps]; simp, ?_, ?_⟩
    · intro q hq
      rw [hps] at hq
      simp at hq
    · obtain ⟨before, r, n, after, htrace, hr, hbefore, hafter⟩ := hs.trace
      refine ⟨before, r, n, after ++ writeHandler srv done, ?_, hr, hbefore, ?_⟩
      · rw [foldl_perform_trace, foldl_perform_conn, htrace]
        simp
      · exact List.forall_mem_append.2 ⟨hafter, writeHandler_late srv done⟩

/-- A completion changes no operation. -/
theorem complete_eq_some {i : Nat} {c : Completion} (hlen : s.pending.length ≤ 1)
    (h : s.complete i c = some t) :
    ∃ p, s.pending = [p] ∧ p.completion = none ∧ mayComplete p.startedClosed s.isOpen c.ec = true ∧
      t = { s with pending := [{ p with completion := some c }] } := by
  rw [complete] at h
  split at h
  · obtain ⟨ps, hps, rfl⟩ := Option.map_eq_some_iff.1 h
    obtain ⟨p, hp, hnone, hmay, rfl⟩ := complete_of_length_le_one hlen hps
    exact ⟨p, hp, hnone, hmay, rfl⟩
  · simp at h

theorem reading_complete {i : Nat} {c : Completion} (hs : Reading s)
    (h : s.complete i c = some t) : Reading t := by
  obtain ⟨p, hp, -, -, rfl⟩ := complete_eq_some hs.atMostOne h
  exact ⟨by simp, by simpa using hs.isRead p (by rw [hp]; simp), hs.early⟩

theorem writing_complete {i : Nat} {c : Completion} (hs : Writing s)
    (h : s.complete i c = some t) : Writing t := by
  obtain ⟨p, hp, -, -, rfl⟩ := complete_eq_some hs.atMostOne h
  exact ⟨by simp, by simpa using hs.isWrite p (by rw [hp]; simp), hs.trace⟩

end ConnectionState

/-- Where there is a manager, its call closes the socket and nothing else. -/
theorem stop_eq_some {srv : Server} {docRoot : List UInt8} {s t : ConnectionState}
    (h : (connectionMachine srv docRoot).step s .stop = some t) : t = s.stop := by
  simp only [connectionMachine] at h
  split at h
  · exact (Option.some.inj h).symm
  · cases h

/-- A connection that has just been started is reading. -/
theorem reading_started (c : Connection) : Reading (.started c) :=
  ⟨by simp [ConnectionState.started, doRead, ConnectionState.perform],
    by simp [ConnectionState.started, doRead, ConnectionState.perform],
    by simp [ConnectionState.started, doRead, ConnectionState.perform, Action.early]⟩

/-- **Every reachable state of a connection is reading or writing.** -/
theorem shape {srv : Server} {docRoot : List UInt8} {s : ConnectionState}
    (h : (connectionMachine srv docRoot).Reachable s) : Reading s ∨ Writing s := by
  apply h.invariant (I := fun s => Reading s ∨ Writing s)
  · rintro s ⟨major, minor, status, rfl⟩
    apply Or.inl
    exact reading_started _
  · intro s e t hs hstep
    cases e with
    | complete i c =>
        have hstep : s.complete i c = some t := hstep
        rcases hs with hs | hs
        · apply Or.inl
          exact ConnectionState.reading_complete hs hstep
        · apply Or.inr
          exact ConnectionState.writing_complete hs hstep
    | handler i fs =>
        obtain ⟨⟨t', acts⟩, hrun, rfl⟩ := Option.map_eq_some_iff.1 hstep
        rcases hs with hs | hs
        · exact ConnectionState.reading_handler hs hrun
        · apply Or.inr
          exact ConnectionState.writing_handler hs hrun
    | stop =>
        obtain rfl := stop_eq_some hstep
        rcases hs with hs | hs
        · apply Or.inl
          exact ⟨hs.atMostOne, hs.isRead, hs.early⟩
        · apply Or.inr
          exact ⟨hs.atMostOne, hs.isWrite, hs.trace⟩

/-- At most one operation of a connection is outstanding. -/
theorem length_pending_le_one {srv : Server} {docRoot : List UInt8} {s : ConnectionState}
    (h : (connectionMachine srv docRoot).Reachable s) : s.pending.length ≤ 1 := by
  rcases shape h with hs | hs
  · exact hs.atMostOne
  · exact hs.atMostOne

/-! ## One reply -/

/-- The parser gave its verdict. -/
def Action.isVerdict : Action → Bool
  | .parse r _ => r ≠ .indeterminate
  | _ => false

/-- `request_parser::parse` was called. -/
def Action.isParse : Action → Bool
  | .parse _ _ => true
  | _ => false

/-- A write of the reply was started. -/
def Action.isWrite : Action → Bool
  | .asyncWrite _ => true
  | _ => false

/-- What a connection has done by a state `s` of a run:

- at most one operation is outstanding;
- after a verdict of the parser it was not called again;
- the reply was filled at most once, and not after it was given to a write;
- at most one write was started, and while it is outstanding `reply_` is what was given to it. -/
structure SendsOnce (s : ConnectionState) : Prop where
  atMostOne : s.pending.length ≤ 1
  noParseAfterVerdict : s.trace.Pairwise fun a b => a.isVerdict = true → b.isParse = false
  oneFill : s.trace.count .fillReply ≤ 1
  noFillAfterWrite : s.trace.Pairwise fun a b => a.isWrite = true → b ≠ .fillReply
  oneWrite : (s.trace.filter Action.isWrite).length ≤ 1
  sameReply : ∀ p ∈ s.pending, ∀ rep, p.op = .write rep → rep = s.conn.reply_

theorem Action.early_spec {a : Action} (h : a.early = true) :
    a.isVerdict = false ∧ a ≠ .fillReply ∧ a.isWrite = false := by
  cases a <;> simp_all [early, isVerdict, isWrite]

theorem Action.late_spec {a : Action} (h : a.late = true) :
    a.isParse = false ∧ a ≠ .fillReply ∧ a.isWrite = false := by
  cases a <;> simp_all [late, isParse, isWrite]

/-- A condition on the pairs whose first member `R` picks out holds where `R` picks out nothing. -/
theorem pairwise_of_left {R : Action → Bool} {S : Action → Prop} {l : List Action}
    (h : ∀ a ∈ l, R a = false) : l.Pairwise fun a b => R a = true → S b :=
  List.pairwise_of_forall_mem_list fun a ha _ _ hR => absurd hR (by simp [h a ha])

theorem Reading.sendsOnce {s : ConnectionState} (h : Reading s) : SendsOnce s where
  atMostOne := h.atMostOne
  noParseAfterVerdict := pairwise_of_left fun a ha => (Action.early_spec (h.early a ha)).1
  oneFill := by
    rw [List.count_eq_zero_of_not_mem fun ha => (Action.early_spec (h.early _ ha)).2.1 rfl]
    exact Nat.zero_le 1
  noFillAfterWrite := pairwise_of_left fun a ha => (Action.early_spec (h.early a ha)).2.2
  oneWrite := by
    rw [List.filter_eq_nil_iff.2 fun a ha => by simp [(Action.early_spec (h.early a ha)).2.2]]
    exact Nat.zero_le 1
  sameReply p hp rep hop := by
    rw [h.isRead p hp] at hop
    cases hop

theorem Writing.sendsOnce {s : ConnectionState} (h : Writing s) : SendsOnce s := by
  obtain ⟨before, r, n, after, htrace, hr, hbefore, hafter⟩ := h.trace
  have hnoFill : ∀ l : List Action, (∀ a ∈ l, a ≠ .fillReply) → l.count .fillReply = 0 :=
    fun l hl => List.count_eq_zero_of_not_mem fun hmem => hl _ hmem rfl
  have hnoWrite : ∀ l : List Action, (∀ a ∈ l, a.isWrite = false) → l.filter Action.isWrite = [] :=
    fun l hl => List.filter_eq_nil_iff.2 fun a ha => by simp [hl a ha]
  refine ⟨h.atMostOne, ?_, ?_, ?_, ?_, ?_⟩
  · -- the verdict is the only one, and no parse is late
    rw [htrace, List.append_assoc, List.pairwise_append]
    refine ⟨pairwise_of_left fun a ha => (Action.early_spec (hbefore a ha)).1, ?_, ?_⟩
    · -- what follows the verdict: the reply is filled and written, and the rest is late
      have hnoParse : ∀ b ∈ [.fillReply, .asyncWrite s.conn.reply_] ++ after, b.isParse = false := by
        intro b hb
        simp only [List.cons_append, List.nil_append, List.mem_cons] at hb
        rcases hb with rfl | rfl | hb
        · rfl
        · rfl
        · exact (Action.late_spec (hafter b hb)).1
      rw [List.cons_append, List.pairwise_cons]
      refine ⟨fun b hb _ => hnoParse b hb, ?_⟩
      apply List.pairwise_of_forall_mem_list
      intro a _ b hb _
      exact hnoParse b hb
    · intro a ha b _ hverdict
      apply absurd hverdict
      simp [(Action.early_spec (hbefore a ha)).1]
  · -- the one `fillReply` is neither early nor late
    rw [htrace, List.count_append, List.count_append,
      hnoFill before fun a ha => (Action.early_spec (hbefore a ha)).2.1,
      hnoFill after fun a ha => (Action.late_spec (hafter a ha)).2.1]
    simp
  · -- the one write comes after the one `fillReply`
    rw [htrace, List.append_assoc, List.pairwise_append]
    refine ⟨pairwise_of_left fun a ha => (Action.early_spec (hbefore a ha)).2.2, ?_, ?_⟩
    · have hlate : ∀ b ∈ after, b ≠ .fillReply := fun b hb => (Action.late_spec (hafter b hb)).2.1
      have hafter' : after.Pairwise fun a b => a.isWrite = true → b ≠ .fillReply :=
        pairwise_of_left fun a ha => (Action.late_spec (hafter a ha)).2.2
      simp only [List.cons_append, List.nil_append, List.pairwise_cons]
      exact ⟨fun b _ hw => by simp [Action.isWrite] at hw, fun b _ hw => by simp [Action.isWrite] at hw,
        fun b hb _ => hlate b hb, hafter'⟩
    · intro a ha b _ hwrite
      apply absurd hwrite
      simp [(Action.early_spec (hbefore a ha)).2.2]
  · rw [htrace, List.filter_append, List.filter_append,
      hnoWrite before fun a ha => (Action.early_spec (hbefore a ha)).2.2,
      hnoWrite after fun a ha => (Action.late_spec (hafter a ha)).2.2]
    simp [List.filter_cons, Action.isWrite]
  · intro p hp rep hop
    rw [h.isWrite p hp] at hop
    cases hop
    rfl

/-- **A connection sends at most one reply**, in every run of every server: whatever the sizes and
bytes of its reads and whatever the errors, one operation at a time, no parse after a verdict, and one
reply that stays as it was given to its one write. -/
theorem connection_sendsOnce (srv : Server) (docRoot : List UInt8) (s : ConnectionState)
    (h : (connectionMachine srv docRoot).Reachable s) : SendsOnce s :=
  (shape h).elim Reading.sendsOnce Writing.sendsOnce

/-- A connection of http2/ that answers a bad request. -/
theorem connection_sendsOnce_badRequest :
    ∃ s, (connectionMachine http2 []).exec (.started ⟨.fresh 0 0, .new, ⟨.ok, [], []⟩⟩)
        [.complete 0 ⟨none, str " "⟩, .handler 0 fun _ => none] = some s ∧ SendsOnce s := by
  obtain ⟨s, hs⟩ := Option.isSome_iff_exists.1
    (show ((connectionMachine http2 []).exec (.started ⟨.fresh 0 0, .new, ⟨.ok, [], []⟩⟩)
      [.complete 0 ⟨none, str " "⟩, .handler 0 fun _ => none]).isSome from by decide +kernel)
  exact ⟨s, hs, connection_sendsOnce http2 [] s ⟨_, _, ⟨0, 0, .ok, rfl⟩, hs⟩⟩

end AsioExamples.Http
