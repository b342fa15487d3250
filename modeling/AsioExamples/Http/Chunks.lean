import AsioExamples.Http.ConnectionRuns

/-!
# Requests in pieces

A request arrives in as many reads as the network likes. `feedChunks` is the loop of `do_read` over
the pieces: while a read is outstanding it brings the next one. The parser is a feeder, so what the
loop ends with is what one call of `parse` over the concatenation gives (`feedChunks_eq_parse`): the
result, the number of bytes consumed, the request and the reply.
-/

set_option autoImplicit false

namespace AsioExamples.Http

open AsioExamples.Cxx AsioExamples.Lib AsioExamples.Asio

/-! ## The loop -/

/-- The loop of `do_read`: as long as a read is outstanding, it completes with the next chunk and its
handler runs. -/
def feedChunks (srv : Server) (docRoot : List UInt8) (fs : FileSystem) (s : ConnectionState) :
    List (List UInt8) → Option ConnectionState
  | [] => some s
  | chunk :: chunks =>
      if s.pending.map (·.op) = [.readSome] then
        ((connectionMachine srv docRoot).exec s [.complete 0 ⟨none, chunk⟩, .handler 0 fs]).bind
          fun t => feedChunks srv docRoot fs t chunks
      else some s

/-- The calls of `parse` in a trace: what each returned and how many bytes it consumed. -/
def parses (trace : List Action) : List (ResultType × Nat) :=
  trace.filterMap fun
    | .parse r n => some (r, n)
    | _ => none

/-- The result of the last call of `parse`; before any call the request is incomplete. -/
def lastResult (trace : List Action) : ResultType :=
  ((parses trace).getLast?.map (·.1)).getD .indeterminate

/-- The bytes that all calls of `parse` consumed. -/
def totalConsumed (trace : List Action) : Nat := ((parses trace).map (·.2)).sum

@[simp] theorem parses_append (l₁ l₂ : List Action) : parses (l₁ ++ l₂) = parses l₁ ++ parses l₂ :=
  List.filterMap_append

/-! ## One read -/

/-- What `reply_` holds after a verdict. -/
def replyAfter (handle : Request → Reply → Reply) (v : Option Verdict) (req : Request)
    (rep : Reply) : Reply :=
  match v with
  | none => rep
  | some .good => handle req rep
  | some .bad => .stockReply .badRequest

/-- The connection after a run of the feeder. -/
def connectionAfter (handle : Request → Reply → Reply) (rep : Reply)
    (s : RequestParser × Request) (v : Option Verdict) : Connection :=
  ⟨s.2, s.1, replyAfter handle v s.2 rep⟩

/-- What the read handler does after it has parsed. -/
def afterParse (c : Connection) : Option Verdict → List Action
  | none => doRead
  | some _ => .fillReply :: doWrite c

/-- The read handler in terms of the feeder. -/
theorem readHandler_eq_run (srv : Server) (handle : Request → Reply → Reply) (c : Connection)
    (bytes : List UInt8) :
    let o := feeder.run (c.requestParser_, c.request_) bytes
    let c' := connectionAfter handle c.reply_ o.state o.verdict
    readHandler srv handle c ⟨none, bytes⟩ =
      (c', [.readHandled none, .parse (.ofVerdict o.verdict) (bytes.length - o.rest.length)] ++
        afterParse c' o.verdict) := by
  intro o c'
  have hparse := parse_eq_run c.requestParser_ c.request_ bytes
  rw [readHandler]
  simp only [hparse]
  cases hv : o.verdict with
  | none => simp [o, c', hv, ResultType.ofVerdict, connectionAfter, replyAfter, afterParse]
  | some v =>
      cases v <;> simp [o, c', hv, ResultType.ofVerdict, connectionAfter, replyAfter, afterParse]

/-- A connection that waits for its next read. -/
def waiting (c : Connection) (trace : List Action) : ConnectionState :=
  ⟨c, true, [⟨.readSome, false, none⟩], trace⟩

/-- One turn of the loop is one run of the read handler. -/
theorem exec_waiting (srv : Server) (docRoot : List UInt8) (fs : FileSystem) (c : Connection)
    (trace : List Action) {chunk : List UInt8} (h : chunk.length ≤ bufferSize) :
    let r := readHandler srv (fun req rep => (handleRequest docRoot fs req rep).reply) c ⟨none, chunk⟩
    (connectionMachine srv docRoot).exec (waiting c trace)
        [.complete 0 ⟨none, chunk⟩, .handler 0 fs] =
      some (r.2.foldl ConnectionState.perform ⟨r.1, true, [], trace⟩) := by
  intro r
  rw [Machine.exec_cons]
  simp only [Machine.exec_singleton]
  -- the read completes, and then its handler runs
  have hcomplete : (waiting c trace).complete 0 ⟨none, chunk⟩ =
      some ⟨c, true, [⟨.readSome, false, some ⟨none, chunk⟩⟩], trace⟩ := by
    simp [waiting, ConnectionState.complete, Asio.complete, mayComplete, h]
  simp only [connectionMachine, hcomplete, Option.bind_some]
  simp [ConnectionState.handler, dispatch, r]

/-! ## All reads -/

/-- Without a read outstanding the loop has ended. -/
theorem feedChunks_of_ended (srv : Server) (docRoot : List UInt8) (fs : FileSystem)
    {s : ConnectionState} (h : s.pending.map (·.op) ≠ [.readSome]) (chunks : List (List UInt8)) :
    feedChunks srv docRoot fs s chunks = some s := by
  cases chunks with
  | nil => rfl
  | cons chunk chunks => rw [feedChunks, if_neg h]

/-- What the loop leaves behind, from a connection that waits for its next read. -/
structure FedAs (handle : Request → Reply → Reply) (c : Connection) (trace : List Action)
    (t : ConnectionState) (state : RequestParser × Request) (v : Option Verdict) (n : Nat) :
    Prop where
  conn : t.conn = connectionAfter handle c.reply_ state v
  trace : ∃ ps, parses t.trace = parses trace ++ ps ∧
    (ps.getLast?.map (·.1)).getD .indeterminate = .ofVerdict v ∧ (ps.map (·.2)).sum = n

/-- The loop is the feeder, fed in chunks. -/
theorem feedChunks_eq_runChunks (srv : Server) (docRoot : List UInt8) (fs : FileSystem)
    (c : Connection) (trace : List Action) (chunks : List (List UInt8))
    (h : ∀ chunk ∈ chunks, chunk.length ≤ bufferSize) :
    let o := feeder.runChunks (c.requestParser_, c.request_) chunks
    ∃ t, feedChunks srv docRoot fs (waiting c trace) chunks = some t ∧
      FedAs (fun req rep => (handleRequest docRoot fs req rep).reply) c trace t o.1 o.2.1 o.2.2 := by
  -- the parser and the request move on with every chunk, so the induction is over all connections
  induction chunks generalizing c trace with
  | nil =>
      refine ⟨waiting c trace, rfl, ?_, [], ?_, rfl, rfl⟩
      · rfl
      · simp [waiting]
  | cons chunk chunks ih =>
      obtain ⟨hchunk, hchunks⟩ := List.forall_mem_cons.1 h
      have hexec := exec_waiting srv docRoot fs c trace hchunk
      simp only [readHandler_eq_run] at hexec
      rw [feedChunks, if_pos (by rfl), hexec, Option.bind_some, Feeder.runChunks]
      cases hv : (feeder.run (c.requestParser_, c.request_) chunk).verdict with
      | none =>
          -- the parser asks for more, and the next turn waits again
          have hrest := feeder.rest_eq_nil hv
          obtain ⟨t, ht, hconn, ps, hps, hlast, hsum⟩ := ih
            (connectionAfter (fun req rep => (handleRequest docRoot fs req rep).reply) c.reply_
              (feeder.run (c.requestParser_, c.request_) chunk).state none)
            (trace ++ [.readHandled none, .parse .indeterminate chunk.length, .asyncReadSome]) hchunks
          refine ⟨t, ?_, hconn, (.indeterminate, chunk.length) :: ps, ?_, ?_, ?_⟩
          · rw [← ht]
            simp [waiting, afterParse, doRead, ConnectionState.perform, hrest, ResultType.ofVerdict]
          · rw [hps, parses_append, List.append_assoc]
            rfl
          · cases ps with
            | nil => exact hlast
            | cons q ps => rw [List.getLast?_cons_cons]; exact hlast
          · rw [List.map_cons, List.sum_cons, hsum]
            rfl
      | some v =>
          -- a verdict: a write is outstanding, and the loop has ended
          rw [feedChunks_of_ended _ _ _ (by simp [afterParse, doWrite, ConnectionState.perform])]
          refine ⟨_, rfl, ?_, [(.ofVerdict (some v), _)], ?_, rfl, by simp; rfl⟩
          · rw [ConnectionState.foldl_perform_conn]
          · rw [ConnectionState.foldl_perform_trace, parses_append]
            rfl

/-- **A request may be cut anywhere**: whatever the chunks, the loop of `do_read` ends with the result,
the number of bytes consumed, the request and the parser of one call of `parse` over the whole input,
and with the reply of one read of it. -/
theorem feedChunks_eq_parse (srv : Server) (docRoot : List UInt8) (fs : FileSystem) (c : Connection)
    (chunks : List (List UInt8)) (h : ∀ chunk ∈ chunks, chunk.length ≤ bufferSize) :
    let r := c.requestParser_.parse c.request_ chunks.flatten
    let handle := fun req rep => (handleRequest docRoot fs req rep).reply
    ∃ t, feedChunks srv docRoot fs (.started c) chunks = some t ∧
      lastResult t.trace = r.result ∧
      totalConsumed t.trace = chunks.flatten.length - r.rest.length ∧
      t.conn.request_ = r.request ∧ t.conn.requestParser_ = r.parser ∧
      t.conn.reply_ = (readHandler srv handle c ⟨none, chunks.flatten⟩).1.reply_ := by
  intro r handle
  obtain ⟨t, ht, hconn, ps, hps, hlast, hsum⟩ :=
    feedChunks_eq_runChunks srv docRoot fs c [.asyncReadSome] chunks h
  rw [feeder.runChunks_eq] at hconn hlast hsum
  have hps : parses t.trace = ps := by rw [hps]; rfl
  have hr := parse_eq_run c.requestParser_ c.request_ chunks.flatten
  refine ⟨t, ht, ?_, ?_, ?_, ?_, ?_⟩
  · rw [lastResult, hps, hlast]
    simp [r, hr]
  · rw [totalConsumed, hps, hsum]
    simp [r, hr]
  · rw [hconn]
    simp [r, hr, connectionAfter]
  · rw [hconn]
    simp [r, hr, connectionAfter]
  · rw [hconn]
    simp only [readHandler_eq_run]
    rfl

/-- A request line cut inside its method. -/
theorem feedChunks_eq_parse_method :
    let c : Connection := ⟨.fresh 0 0, .new, ⟨.ok, [], []⟩⟩
    ∃ t, feedChunks http [] (fun _ => none) (.started c) [str "GE", str "T /"] = some t ∧
      lastResult t.trace = (c.requestParser_.parse c.request_ (str "GET /")).result ∧
      t.conn.request_ = (c.requestParser_.parse c.request_ (str "GET /")).request := by
  intro c
  obtain ⟨t, ht, hresult, -, hreq, -⟩ :=
    feedChunks_eq_parse http [] (fun _ => none) c [str "GE", str "T /"] (by decide)
  exact ⟨t, ht, hresult, hreq⟩

end AsioExamples.Http
