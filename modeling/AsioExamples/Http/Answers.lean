import AsioExamples.Http.Chunks
import AsioExamples.Http.ReplyDecode
import AsioExamples.Http.ReplyReuse
import AsioExamples.Http.RequestGrammar
import AsioExamples.Http.UrlDecode
import AsioExamples.Http.ViablePrefix

/-!
# What a connection answers

`Exchange` is a connection together with the bytes that its reads have brought. `answer` is what a connection
is for: the reply to these bytes, once they decide it. Every run of a connection keeps to it, however the bytes
were cut into reads and whatever else happened (`connection_answers`). So a client that asks for a file, in any
encoding of its path, gets a reply from which it decodes the file (`connection_serves_file`).
-/

set_option autoImplicit false

namespace AsioExamples.Http

open AsioExamples.Cxx AsioExamples.Lib AsioExamples.Asio

/-! ## Connections with what they receive -/

/-- A connection, and what its reads have brought. -/
structure Exchange where
  conn : ConnectionState
  received : List UInt8
  deriving DecidableEq, Repr

/-- The bytes that a read has brought. -/
def arrived : Completion → List UInt8
  | ⟨none, bytes⟩ => bytes
  | ⟨some _, _⟩ => []

/-- The bytes that an event brings to a connection. -/
def ConnectionState.arriving (s : ConnectionState) : ConnectionEvent → List UInt8
  | .complete i c => if (s.pending[i]?).map (·.op) = some .readSome then arrived c else []
  | _ => []

/-- The connection, with a record of what it receives. -/
def exchangeMachine (srv : Server) (docRoot : List UInt8) : Machine Exchange ConnectionEvent where
  init s := ∃ c, (connectionMachine srv docRoot).init c ∧ s = ⟨c, []⟩
  step s e :=
    ((connectionMachine srv docRoot).step s.conn e).map fun c => ⟨c, s.received ++ s.conn.arriving e⟩

/-- The record changes nothing. -/
def exchangeConnection (srv : Server) (docRoot : List UInt8) :
    Machine.Simulation (exchangeMachine srv docRoot) (connectionMachine srv docRoot) where
  abs := Exchange.conn
  label _ e := [e]
  init := by
    rintro s ⟨c, hc, rfl⟩
    exact hc
  step := by
    intro s e t _ hstep
    obtain ⟨c, hc, rfl⟩ := Option.map_eq_some_iff.1 hstep
    exact (Machine.exec_singleton _ _ _).trans hc

/-! ## The answer -/

/-- The reply to what has been received, when it decides one. -/
def answer (docRoot : List UInt8) (fs : FileSystem) (received : List UInt8) : Option Reply :=
  let r := RequestParser.new.parse (.fresh 0 0) received
  match r.result with
  | .good => some (handleRequest docRoot fs r.request ⟨.ok, [], []⟩).reply
  | .bad => some (.stockReply .badRequest)
  | .indeterminate => none

/-- What is accepted does not depend on the version numbers of before. -/
theorem accepts_good_congr (major minor major' minor' : Int32) {s : List UInt8}
    {t : RequestParser × Request} (h : feeder.Accepts .good (feederStart major minor) s t) :
    feeder.Accepts .good (feederStart major' minor') s t := by
  -- the request line gives both numbers
  have hline := accepts_requestLine.1 h
  exact accepts_requestLine.2 hline

/-- Nor does the verdict on anything else. -/
theorem verdict_eq_none_congr (major minor major' minor' : Int32) {s : List UInt8}
    (h : (feeder.run (feederStart major minor) s).verdict = none) :
    (feeder.run (feederStart major' minor') s).verdict = none := by
  rw [Feeder.verdict_eq_none_iff (v := .good) feeder_complete] at h ⊢
  obtain ⟨ys, t, hys, ht⟩ := h
  exact ⟨ys, t, hys, accepts_good_congr major minor major' minor' ht⟩

/-- Nor does the reply to a request depend on the status of before. -/
theorem handleRequest_reply_congr (docRoot : List UInt8) (fs : FileSystem) (req : Request) {r₁ r₂ : Reply}
    (h : r₁.content = r₂.content) :
    (handleRequest docRoot fs req r₁).reply = (handleRequest docRoot fs req r₂).reply := by
  by_cases hfile : NamesFile docRoot fs req
  · obtain ⟨bytes, type, hreply⟩ := handleRequest_reply_of_namesFile hfile
    rw [hreply r₁, hreply r₂, h]
  · exact handleRequest_reply_of_not_namesFile r₁ r₂ hfile

/-- The answer in terms of the feeder, whatever the members that the constructor leaves uninitialised
hold. -/
theorem replyAfter_eq_answer (docRoot : List UInt8) (fs : FileSystem) (major minor : Int32)
    (status : StatusType) (received : List UInt8) {t : RequestParser × Request} {v : Verdict}
    {rest : List UInt8} (h : feeder.run (feederStart major minor) received = ⟨t, some v, rest⟩) :
    answer docRoot fs received =
      some (replyAfter (fun req rep => (handleRequest docRoot fs req rep).reply) (some v) t.2
        ⟨status, [], []⟩) := by
  rw [answer]
  simp only [parse_eq_run]
  cases v with
  | good =>
      obtain ⟨pre, rfl, hpre⟩ := feeder.exists_accepts_of_run h
      have hp := accepts_good_congr major minor 0 0 hpre
      have hrun : feeder.run (feederStart 0 0) (pre ++ rest) = ⟨t, some .good, rest⟩ := by
        rw [feeder.run_append_of_some rest (by rw [hp]), hp]
        rfl
      simp only [hrun, ResultType.ofVerdict, replyAfter]
      exact congrArg some (handleRequest_reply_congr docRoot fs t.2 rfl)
  | bad =>
      cases hv : (feeder.run (feederStart 0 0) received).verdict with
      | none =>
          have hnone := verdict_eq_none_congr 0 0 major minor hv
          rw [h] at hnone
          cases hnone
      | some w =>
          cases w with
          | bad => rfl
          | good =>
              rcases hrun : feeder.run (feederStart 0 0) received with ⟨u, w, rest'⟩
              rw [hrun] at hv
              subst hv
              obtain ⟨pre, rfl, hpre⟩ := feeder.exists_accepts_of_run hrun
              have hp := accepts_good_congr 0 0 major minor hpre
              rw [feeder.run_append_of_some rest' (by rw [hp])] at h
              cases h

/-- What decides no reply leaves the parser without a verdict, and the other way round. -/
theorem answer_eq_none_of_run (docRoot : List UInt8) (fs : FileSystem) {major minor : Int32}
    {received : List UInt8} (h : (feeder.run (feederStart major minor) received).verdict = none) :
    answer docRoot fs received = none := by
  rw [answer]
  simp only [parse_eq_run, verdict_eq_none_congr major minor 0 0 h, ResultType.ofVerdict]

/-! ## Runs -/

/-- What has been read and not yet handled. -/
def ConnectionState.queued (s : ConnectionState) : List UInt8 :=
  s.pending.flatMap fun p => (p.completion.map arrived).getD []

/-- No reply has been decided. -/
def Undecided (s : ConnectionState) : Prop := ∀ a ∈ s.trace, a.early = true

/-- How far a connection has come with what it has received. `P` holds of the file systems that its handlers
have found. -/
structure Answering (docRoot : List UInt8) (P : FileSystem → Prop) (major minor : Int32)
    (status : StatusType) (s : Exchange) : Prop where
  parsed : Undecided s.conn → ∃ handled, s.received = handled ++ s.conn.queued ∧
    feeder.run (feederStart major minor) handled =
      ⟨(s.conn.conn.requestParser_, s.conn.conn.request_), none, []⟩ ∧
    s.conn.conn.reply_ = ⟨status, [], []⟩
  answered : ∀ rep, .asyncWrite rep ∈ s.conn.trace →
    ∃ fs, P fs ∧ answer docRoot fs s.received = some rep

section Runs

variable {srv : Server} {docRoot : List UInt8} {P : FileSystem → Prop} {major minor : Int32}
  {status : StatusType} {s t : Exchange}

theorem undecided_foldl_perform {c : ConnectionState} {acts : List Action} :
    Undecided (acts.foldl ConnectionState.perform c) ↔ Undecided c ∧ ∀ a ∈ acts, a.early = true := by
  rw [Undecided, ConnectionState.foldl_perform_trace, List.forall_mem_append]
  rfl

theorem asyncWrite_mem_foldl_perform {c : ConnectionState} {acts : List Action}
    (h : ∀ a ∈ acts, a.isWrite = false) {rep : Reply} :
    .asyncWrite rep ∈ (acts.foldl ConnectionState.perform c).trace ↔ .asyncWrite rep ∈ c.trace := by
  rw [ConnectionState.foldl_perform_trace, List.mem_append, or_iff_left]
  intro hmem
  cases h _ hmem

/-- A connection that has not decided on a reply has written none. -/
theorem Undecided.notMem {c : ConnectionState} (h : Undecided c) (rep : Reply) :
    .asyncWrite rep ∉ c.trace := by
  intro hmem
  cases h _ hmem

/-- It reads. -/
theorem Undecided.reading {c : ConnectionState} (hs : Undecided c)
    (h : (connectionMachine srv docRoot).Reachable c) : Reading c := by
  rcases shape h with hr | hw
  · exact hr
  · obtain ⟨before, r, n, after, htrace, -⟩ := hw.trace
    have hearly := hs .fillReply (by rw [htrace]; simp)
    cases hearly

/-- A connection that has written nothing has decided on nothing. -/
theorem undecided_of_notMem {c : ConnectionState} (h : (connectionMachine srv docRoot).Reachable c)
    (hnone : ∀ rep, .asyncWrite rep ∉ c.trace) : Undecided c := by
  rcases shape h with hr | hw
  · exact hr.early
  · obtain ⟨before, r, n, after, htrace, -⟩ := hw.trace
    exact absurd (by rw [htrace]; simp) (hnone c.conn.reply_)

namespace Answering

/-- The handler of a read that has brought bytes. -/
theorem of_read (srv : Server) {c : ConnectionState} {handled : List UInt8} (bytes : List UInt8) {fs : FileSystem}
    (hundecided : Undecided c) (hpending : c.pending = [])
    (hrun : feeder.run (feederStart major minor) handled =
      ⟨(c.conn.requestParser_, c.conn.request_), none, []⟩)
    (hreply : c.conn.reply_ = ⟨status, [], []⟩) (hfs : P fs) :
    let r := readHandler srv (fun req rep => (handleRequest docRoot fs req rep).reply) c.conn
      ⟨none, bytes⟩
    Answering docRoot P major minor status
      ⟨r.2.foldl ConnectionState.perform { c with conn := r.1 }, handled ++ bytes⟩ := by
  intro r
  have hr : r = _ := readHandler_eq_run srv
    (fun req rep => (handleRequest docRoot fs req rep).reply) c.conn bytes
  -- the parser goes on where it has stopped
  have hfed := feeder.run_append_of_none bytes (congrArg Feeder.Outcome.verdict hrun)
  rw [hrun] at hfed
  rw [hr]
  dsimp only
  rcases ho : feeder.run (c.conn.requestParser_, c.conn.request_) bytes with ⟨u, v, rest⟩
  have hfed : feeder.run (feederStart major minor) (handled ++ bytes) = ⟨u, v, rest⟩ := hfed.trans ho
  cases v with
  | none =>
      obtain rfl : rest = [] := by
        have hrest := feeder.rest_eq_nil (congrArg Feeder.Outcome.verdict ho)
        rwa [ho] at hrest
      constructor
      · intro _
        refine ⟨handled ++ bytes, ?_, ?_, ?_⟩
        · simp [afterParse, doRead, ConnectionState.queued, ConnectionState.perform, hpending]
        · rw [ConnectionState.foldl_perform_conn]
          exact hfed
        · rw [ConnectionState.foldl_perform_conn]
          exact hreply
      · intro rep hrep
        rw [asyncWrite_mem_foldl_perform (by simp [afterParse, doRead, Action.isWrite])] at hrep
        exact absurd hrep (hundecided.notMem rep)
  | some v =>
      have hdecided : ∀ t : ConnectionState, ¬ Undecided ((([.readHandled none,
          .parse (.ofVerdict (some v)) (bytes.length - rest.length)] : List Action) ++
          .fillReply :: doWrite (connectionAfter
            (fun req rep => (handleRequest docRoot fs req rep).reply) c.conn.reply_ u (some v))).foldl
          ConnectionState.perform t) := by
        intro t hu
        have hearly := (undecided_foldl_perform.1 hu).2 .fillReply (by simp)
        cases hearly
      refine ⟨fun hu => absurd hu (hdecided _), ?_⟩
      intro rep hrep
      rw [ConnectionState.foldl_perform_trace, List.mem_append] at hrep
      obtain rfl : rep = replyAfter (fun req rep => (handleRequest docRoot fs req rep).reply)
          (some v) u.2 c.conn.reply_ := by
        simpa [afterParse, doWrite, connectionAfter] using hrep.resolve_left (hundecided.notMem rep)
      refine ⟨fs, hfs, ?_⟩
      rw [hreply]
      exact replyAfter_eq_answer docRoot fs major minor status _ hfed

/-- The handler of a read that has failed. -/
theorem of_failed (srv : Server) {c : ConnectionState} {handled : List UInt8} (ec : ErrorCode) (bytes : List UInt8)
    (fs : FileSystem) (hundecided : Undecided c) (hpending : c.pending = [])
    (hrun : feeder.run (feederStart major minor) handled =
      ⟨(c.conn.requestParser_, c.conn.request_), none, []⟩)
    (hreply : c.conn.reply_ = ⟨status, [], []⟩) :
    let r := readHandler srv (fun req rep => (handleRequest docRoot fs req rep).reply) c.conn
      ⟨some ec, bytes⟩
    Answering docRoot P major minor status
      ⟨r.2.foldl ConnectionState.perform { c with conn := r.1 }, handled⟩ := by
  intro r
  have hr : r = (c.conn, .readHandled (some ec) ::
    if srv.stopsAfterRead ec then [.managerStop] else []) := rfl
  rw [hr]
  constructor
  · intro _
    refine ⟨handled, ?_, ?_, ?_⟩
    · cases srv.stopsAfterRead ec <;> simp [ConnectionState.queued, ConnectionState.perform, hpending]
    · rw [ConnectionState.foldl_perform_conn]
      exact hrun
    · rw [ConnectionState.foldl_perform_conn]
      exact hreply
  · intro rep hrep
    rw [asyncWrite_mem_foldl_perform
      fun a ha => (Action.early_spec (failed_early ec _ a ha)).2.2] at hrep
    exact absurd hrep (hundecided.notMem rep)

theorem handler (hs : Answering docRoot P major minor status s)
    (h : (connectionMachine srv docRoot).Reachable s.conn) {i : ℕ} {fs : FileSystem} (hfs : P fs)
    {u : ConnectionState} {acts : List Action} (hstep : s.conn.handler srv docRoot i fs = some (u, acts)) :
    Answering docRoot P major minor status ⟨u, s.received⟩ := by
  obtain ⟨p, done, hp, hdone, c', rfl, ⟨hop, hread⟩ | ⟨rep, hop, rfl, rfl⟩⟩ :=
    ConnectionState.handler_eq_some (length_pending_le_one h) hstep
  · -- a read: nothing has been decided before it
    have hundecided : Undecided s.conn := by
      rcases shape h with hr | hw
      · exact hr.early
      · have hwrite := hw.isWrite p (by rw [hp]; simp)
        rw [hop] at hwrite
        cases hwrite
    obtain ⟨handled, hreceived, hrun, hreply⟩ := hs.parsed hundecided
    have hqueued : s.conn.queued = arrived done := by simp [ConnectionState.queued, hp, hdone]
    rw [hqueued] at hreceived
    obtain rfl := congrArg Prod.fst hread
    obtain rfl := congrArg Prod.snd hread
    rcases done with ⟨_ | ec, bytes⟩
    · rw [hreceived]
      exact of_read srv bytes (c := { s.conn with pending := [] }) hundecided rfl hrun hreply hfs
    · rw [hreceived, arrived, List.append_nil]
      exact of_failed srv ec bytes fs (c := { s.conn with pending := [] }) hundecided rfl hrun hreply
  · -- the end of the write
    have hdecided : ¬ Undecided ((writeHandler srv done).foldl ConnectionState.perform
        { s.conn with pending := [] }) := by
      intro hu
      have hundecided : Undecided s.conn := (undecided_foldl_perform.1 hu).1
      have hreads := (hundecided.reading h).isRead p (by rw [hp]; simp)
      rw [hop] at hreads
      cases hreads
    refine ⟨fun hu => absurd hu hdecided, ?_⟩
    intro rep hrep
    rw [asyncWrite_mem_foldl_perform
      fun a ha => (Action.late_spec (writeHandler_late srv done a ha)).2.2] at hrep
    exact hs.answered rep hrep

theorem complete (hs : Answering docRoot P major minor status s)
    (h : (connectionMachine srv docRoot).Reachable s.conn) {i : ℕ} {c : Completion}
    {u : ConnectionState} (hstep : s.conn.complete i c = some u) :
    Answering docRoot P major minor status ⟨u, s.received ++ s.conn.arriving (.complete i c)⟩ := by
  have hlen := length_pending_le_one h
  obtain ⟨p, hp, hnone, -, rfl⟩ := ConnectionState.complete_eq_some hlen hstep
  have harriving : s.conn.arriving (.complete i c) = if p.op = .readSome then arrived c else [] := by
    obtain ⟨-, hstep⟩ := Option.ite_none_right_eq_some.1 hstep
    obtain ⟨ps, hps, -⟩ := Option.map_eq_some_iff.1 hstep
    obtain ⟨q, hq, -, -, -⟩ := Asio.complete_eq_some hps
    obtain ⟨hsingle, -⟩ := eq_singleton_of_length_le_one hlen hq
    obtain rfl : p = q := (List.cons.inj (hp.symm.trans hsingle)).1
    simp [ConnectionState.arriving, hq]
  rw [harriving]
  constructor
  · intro hundecided
    have hundecided : Undecided s.conn := hundecided
    have hread := (hundecided.reading h).isRead p (by rw [hp]; simp)
    obtain ⟨handled, hreceived, hrun, hreply⟩ := hs.parsed hundecided
    refine ⟨handled, ?_, hrun, hreply⟩
    have hqueued : s.conn.queued = [] := by simp [ConnectionState.queued, hp, hnone]
    rw [hreceived, hqueued, List.append_nil, if_pos hread]
    simp [ConnectionState.queued]
  · intro rep hrep
    obtain ⟨fs, hfs, hanswer⟩ := hs.answered rep hrep
    refine ⟨fs, hfs, ?_⟩
    -- a connection that writes reads nothing
    rcases shape h with hr | hw
    · exact absurd hrep (Undecided.notMem hr.early rep)
    · have hwrite := hw.isWrite p (by rw [hp]; simp)
      rw [if_neg (by simp [hwrite]), List.append_nil]
      exact hanswer

end Answering

/-- Every run keeps the account. -/
theorem answering {s₀ : Exchange} {es : List ConnectionEvent}
    (hinit : (exchangeMachine srv docRoot).init s₀) (hexec : (exchangeMachine srv docRoot).exec s₀ es = some s)
    (hP : ∀ i fs, .handler i fs ∈ es → P fs) :
    ∃ major minor status, Answering docRoot P major minor status s := by
  obtain ⟨c, ⟨major, minor, status, rfl⟩, rfl⟩ := hinit
  refine ⟨major, minor, status, ?_⟩
  have hmeets : ∀ e ∈ es, ∀ i fs, e = .handler i fs → P fs := by
    rintro e he i fs rfl
    exact hP i fs he
  have key : (connectionMachine srv docRoot).Reachable s.conn ∧
      Answering docRoot P major minor status s := by
    apply Machine.exec_preserves_of_stepsMeet
      (I := fun s => (connectionMachine srv docRoot).Reachable s.conn ∧
        Answering docRoot P major minor status s)
      (G := fun _ e => ∀ i fs, e = .handler i fs → P fs) _ _
      (Machine.stepsMeet_of_forall_mem hmeets) hexec
    · rintro s e t ⟨hr, hs⟩ hmeets hstep
      obtain ⟨u, hu, rfl⟩ := Option.map_eq_some_iff.1 hstep
      refine ⟨hr.step hu, ?_⟩
      cases e with
      | complete i c => exact hs.complete hr hu
      | handler i fs =>
          obtain ⟨⟨u', acts⟩, hrun, rfl⟩ := Option.map_eq_some_iff.1 hu
          have hsame : s.received ++ s.conn.arriving (.handler i fs) = s.received := List.append_nil _
          exact hsame.symm ▸ hs.handler hr (hmeets i fs rfl) hrun
      | stop =>
          obtain rfl := stop_eq_some hu
          have hsame : s.received ++ s.conn.arriving .stop = s.received := List.append_nil _
          exact hsame.symm ▸ ⟨hs.parsed, hs.answered⟩
    · refine ⟨.of_init ⟨major, minor, status, rfl⟩, ?_, ?_⟩
      · intro _
        exact ⟨[], rfl, rfl, rfl⟩
      · intro rep hrep
        simp [ConnectionState.started, doRead, ConnectionState.perform] at hrep
  exact key.2

/-- What is written is the answer. -/
theorem answered_of_exec {s₀ : Exchange} {es : List ConnectionEvent}
    (hinit : (exchangeMachine srv docRoot).init s₀) (hexec : (exchangeMachine srv docRoot).exec s₀ es = some s)
    (rep : Reply) (hrep : .asyncWrite rep ∈ s.conn.trace) :
    ∃ i fs, .handler i fs ∈ es ∧ answer docRoot fs s.received = some rep := by
  obtain ⟨major, minor, status, hs⟩ := answering (P := fun fs => ∃ i, .handler i fs ∈ es) hinit hexec
    fun i fs he => ⟨i, he⟩
  obtain ⟨fs, ⟨i, he⟩, hanswer⟩ := hs.answered rep hrep
  exact ⟨i, fs, he, hanswer⟩

/-- Where nothing was written, there is no answer. -/
theorem unanswered_of_exec {s₀ : Exchange} {es : List ConnectionEvent}
    (hinit : (exchangeMachine srv docRoot).init s₀) (hexec : (exchangeMachine srv docRoot).exec s₀ es = some s)
    (hidle : ∀ p ∈ s.conn.pending, p.completion = none) (hnone : ∀ rep, .asyncWrite rep ∉ s.conn.trace)
    (fs : FileSystem) : answer docRoot fs s.received = none := by
  obtain ⟨major, minor, status, hs⟩ := answering (P := fun _ => True) hinit hexec fun _ _ _ => trivial
  have hundecided : Undecided s.conn :=
    undecided_of_notMem ((exchangeConnection srv docRoot).reachable ⟨s₀, es, hinit, hexec⟩) hnone
  obtain ⟨handled, hreceived, hrun, -⟩ := hs.parsed hundecided
  have hqueued : s.conn.queued = [] := by
    rw [ConnectionState.queued, List.flatMap_eq_nil_iff]
    intro p hp
    rw [hidle p hp]
    rfl
  rw [hreceived, hqueued, List.append_nil]
  exact answer_eq_none_of_run docRoot fs (congrArg Feeder.Outcome.verdict hrun)

/-- **A connection answers what it has received**, in every run of every server. A reply that is written is the
answer to the bytes received so far, however they were cut into reads, with the files as a handler of the
connection found them. Where nothing was written and no handler is queued, the bytes received decide no
answer. -/
theorem connection_answers (srv : Server) (docRoot : List UInt8) (s₀ s : Exchange)
    (es : List ConnectionEvent) (hinit : (exchangeMachine srv docRoot).init s₀)
    (hexec : (exchangeMachine srv docRoot).exec s₀ es = some s) :
    (∀ rep, .asyncWrite rep ∈ s.conn.trace →
      ∃ i fs, .handler i fs ∈ es ∧ answer docRoot fs s.received = some rep) ∧
    ((∀ p ∈ s.conn.pending, p.completion = none) → (∀ rep, .asyncWrite rep ∉ s.conn.trace) →
      ∀ fs, answer docRoot fs s.received = none) :=
  ⟨answered_of_exec hinit hexec, unanswered_of_exec hinit hexec⟩

end Runs

/-- A request that is split in the middle of a line, with a byte behind it. -/
theorem connection_answers_split :
    ∃ s, (exchangeMachine http3 (str "/srv")).exec
        ⟨.started ⟨.fresh 7 7, .new, ⟨.notFound, [], []⟩⟩, []⟩
        [.complete 0 ⟨none, str "GET /a HT"⟩, .handler 0 fun _ => none,
          .complete 0 ⟨none, str "TP/1.0\r\n\r\nX"⟩, .handler 0 fun _ => some (str "hi")] = some s ∧
      ∃ i fs, .handler i fs ∈ ([.complete 0 ⟨none, str "GET /a HT"⟩, .handler 0 fun _ => none,
          .complete 0 ⟨none, str "TP/1.0\r\n\r\nX"⟩, .handler 0 fun _ => some (str "hi")] :
          List ConnectionEvent) ∧
        answer (str "/srv") fs (str "GET /a HTTP/1.0\r\n\r\nX") = some s.conn.conn.reply_ := by
  have hrun : ((exchangeMachine http3 (str "/srv")).exec
      ⟨.started ⟨.fresh 7 7, .new, ⟨.notFound, [], []⟩⟩, []⟩
      [.complete 0 ⟨none, str "GET /a HT"⟩, .handler 0 fun _ => none,
        .complete 0 ⟨none, str "TP/1.0\r\n\r\nX"⟩, .handler 0 fun _ => some (str "hi")]).map
      (fun s => decide (s.received = str "GET /a HTTP/1.0\r\n\r\nX" ∧
        .asyncWrite s.conn.conn.reply_ ∈ s.conn.trace)) = some true := by decide +kernel
  obtain ⟨s, hs, htrue⟩ := Option.map_eq_some_iff.1 hrun
  obtain ⟨hreceived, hwrite⟩ := of_decide_eq_true htrue
  exact ⟨s, hs, hreceived ▸ (connection_answers http3 _ _ s _ ⟨_, ⟨7, 7, .notFound, rfl⟩, rfl⟩ hs).1 _
    hwrite⟩

/-! ## A file is served -/

/-- The answer to a well-formed request, whatever stands behind it. -/
theorem answer_of_requestText (docRoot : List UInt8) (fs : FileSystem) (g : RequestText)
    (more : List UInt8) :
    answer docRoot fs (g.render ++ more) =
      some (handleRequest docRoot fs g.request ⟨.ok, [], []⟩).reply := by
  have haccepts : feeder.Accepts .good (feederStart 0 0) g.render (⟨.expectingNewline3⟩, g.request) := by
    have hlines := foldl_addTo_nil g.startsWithField
    refine accepts_requestLine.2 ⟨g.method, g.uri, g.major, g.minor,
      g.lines.flatMap HeaderLine.render ++ crlf, by simp [RequestText.render],
      accepts_headerLines.2 ⟨g.lines, fun line hl _ => g.startsWithField line hl, rfl, ?_⟩⟩
    simp [RequestText.request, Request.fresh, hlines]
  have hrun : feeder.run (feederStart 0 0) (g.render ++ more) =
      ⟨(⟨.expectingNewline3⟩, g.request), some .good, more⟩ := by
    rw [feeder.run_append_of_some more (by rw [haccepts]), haccepts]
    rfl
  rw [answer]
  simp only [parse_eq_run, hrun, ResultType.ofVerdict]

/-- The path of the file for a path in the uri. -/
def filePath (p : List UInt8) : List UInt8 :=
  if p.getLast? = some (chr '/') then p ++ str "index.html" else p

theorem cStr_filePath {docRoot p : List UInt8} (h : 0 ∉ docRoot ++ p) :
    cStr (docRoot ++ filePath p) = docRoot ++ filePath p := by
  have hnul : 0 ∉ docRoot ++ filePath p := by
    rw [filePath]
    split
    · rw [← List.append_assoc, List.mem_append]
      exact not_or.2 ⟨h, by decide⟩
    · exact h
  have hcut := @cStr_append_of_notMem _ [] hnul
  rw [List.append_nil] at hcut
  exact hcut.trans (List.append_nil _)

/-- **A file that is asked for is served**, in every run of every server. The request may encode the path in any
way, have any method, version and header lines, come in any pieces and be followed by anything. Once it has
been received, where no handler is queued, the connection has written a reply, and what is written decodes to
the file with its length and its type. -/
theorem connection_serves_file (srv : Server) (docRoot : List UInt8) (s₀ s : Exchange)
    (es : List ConnectionEvent) (hinit : (exchangeMachine srv docRoot).init s₀)
    (hexec : (exchangeMachine srv docRoot).exec s₀ es = some s) (g : RequestText)
    (more p : List UInt8) (parts : List (List UInt8)) (hreceived : s.received = g.render ++ more)
    (huri : g.uri.1 = parts.flatten) (hparts : List.Forall₂ EncodesByte p parts)
    (hhead : p.head? = some (chr '/')) (hdots : ¬ str ".." <:+: p) (hnul : 0 ∉ docRoot ++ p)
    (bytes : List UInt8) (hfile : ∀ i fs, .handler i fs ∈ es → fs (docRoot ++ filePath p) = some bytes) :
    (∀ rep, .asyncWrite rep ∈ s.conn.trace → decodeReply rep.toBuffers.flatten =
      some ⟨.ok, [⟨str "Content-Length", stdToString bytes.length⟩,
        ⟨str "Content-Type", extensionToType (extensionOf (filePath p))⟩], bytes⟩) ∧
    ((∀ p ∈ s.conn.pending, p.completion = none) → ∃ rep, .asyncWrite rep ∈ s.conn.trace) := by
  have hpath : requestPath g.request = some (filePath p) := by
    refine requestPath_eq_some_iff.2 ⟨p, ?_, hhead, hdots, rfl⟩
    rw [RequestText.request, huri]
    obtain ⟨hencoding, hdecoded⟩ := decoded_flatten hparts
    exact (urlDecodeLoop_valid [] _ hencoding).trans (congrArg (Prod.mk true) hdecoded)
  have hcut : cStr (docRoot ++ filePath p) = docRoot ++ filePath p := cStr_filePath hnul
  constructor
  · intro rep hrep
    obtain ⟨i, fs, he, hanswer⟩ := answered_of_exec hinit hexec rep hrep
    rw [hreceived, answer_of_requestText] at hanswer
    obtain rfl := Option.some.inj hanswer
    obtain ⟨-, hok, hcontent, hheaders⟩ := handleRequest_of_file ⟨.ok, [], []⟩ hpath
      (hcut.symm ▸ hfile i fs he)
    rw [decodeReply_toBuffers (Sendable.handled docRoot fs g.request .ok).framed]
    cases hreply : (handleRequest docRoot fs g.request ⟨.ok, [], []⟩).reply
    rw [hreply] at hok hcontent hheaders
    simp_all only [List.nil_append]
  · intro hidle
    by_contra hno
    have hdecided := unanswered_of_exec hinit hexec hidle (fun rep hrep => hno ⟨rep, hrep⟩) fun _ => none
    rw [hreceived, answer_of_requestText] at hdecided
    cases hdecided

section Example

theorem escapedRequest_wellFormed :
    (str "GET" ≠ [] ∧ ∀ b ∈ str "GET", TokenByte b) ∧
      (∀ b ∈ str "/a%2Etxt", b ≠ chr ' ' ∧ ¬ Control b) ∧
      (str "1" ≠ [] ∧ ∀ b ∈ str "1", DigitByte b) ∧ str "0" ≠ [] ∧ ∀ b ∈ str "0", DigitByte b := by
  decide +kernel

/-- A request for `/a.txt`, with an escape for the dot. -/
def escapedRequest : RequestText where
  method := ⟨str "GET", escapedRequest_wellFormed.1⟩
  uri := ⟨str "/a%2Etxt", escapedRequest_wellFormed.2.1⟩
  major := ⟨str "1", escapedRequest_wellFormed.2.2.1⟩
  minor := ⟨str "0", escapedRequest_wellFormed.2.2.2⟩
  lines := []
  startsWithField _ h := absurd h (Option.not_mem_none _)

/-- It arrives in two pieces, and the file is sent. -/
theorem connection_serves_file_escaped :
    ∃ s rep, (exchangeMachine http2 (str "/srv")).exec
        ⟨.started ⟨.fresh 7 7, .new, ⟨.notFound, [], []⟩⟩, []⟩
        [.complete 0 ⟨none, str "GET /a%2"⟩, .handler 0 fun _ => some (str "hi"),
          .complete 0 ⟨none, str "Etxt HTTP/1.0\r\n\r\n"⟩, .handler 0 fun _ => some (str "hi")] = some s ∧
      .asyncWrite rep ∈ s.conn.trace ∧ decodeReply rep.toBuffers.flatten =
        some ⟨.ok, [⟨str "Content-Length", stdToString 2⟩, ⟨str "Content-Type", str "text/plain"⟩],
          str "hi"⟩ := by
  have hrun : ((exchangeMachine http2 (str "/srv")).exec
      ⟨.started ⟨.fresh 7 7, .new, ⟨.notFound, [], []⟩⟩, []⟩
      [.complete 0 ⟨none, str "GET /a%2"⟩, .handler 0 fun _ => some (str "hi"),
        .complete 0 ⟨none, str "Etxt HTTP/1.0\r\n\r\n"⟩, .handler 0 fun _ => some (str "hi")]).map
      (fun s => decide (s.received = escapedRequest.render ++ [] ∧
        ∀ p ∈ s.conn.pending, p.completion = none)) = some true := by decide +kernel
  obtain ⟨s, hs, htrue⟩ := Option.map_eq_some_iff.1 hrun
  obtain ⟨hreceived, hidle⟩ := of_decide_eq_true htrue
  have hparts : List.Forall₂ EncodesByte (str "/a.txt")
      [str "/", str "a", str "%2E", str "t", str "x", str "t"] := by
    have hdot : EncodesByte (chr '.') (str "%2E") :=
      @EncodesByte.escape (chr '2') (chr 'E') (by decide) (by decide)
    exact .cons (.literal (by decide) (by decide)) (.cons (.literal (by decide) (by decide)) (.cons hdot
      (.cons (.literal (by decide) (by decide)) (.cons (.literal (by decide) (by decide))
        (.cons (.literal (by decide) (by decide)) .nil)))))
  obtain ⟨hdecodes, hwritten⟩ := connection_serves_file http2 (str "/srv") _ s _
    ⟨_, ⟨7, 7, .notFound, rfl⟩, rfl⟩ hs escapedRequest [] (str "/a.txt") _ hreceived (by decide) hparts
    (by decide) (by decide) (by decide) (str "hi") (by simp)
  obtain ⟨rep, hrep⟩ := hwritten hidle
  exact ⟨s, rep, hs, hrep, hdecodes rep hrep⟩

end Example

end AsioExamples.Http
