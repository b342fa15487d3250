import AsioExamples.Asio.Operation
import AsioExamples.Lib.Machine

/-!
# Blocking echo sessions

The functions `session` of `blocking_tcp_echo_server.cpp` and of `echo_server.cpp`. A session is in one
of its two blocking calls, and how the call ends decides how it goes on. `read_some` reports an error in
its `error_code`, `boost::asio::write` throws.

In both programs a connection ends with a failed call. `echo_server` returns then. In
`blocking_tcp_echo_server` nothing leaves the loop: a failed read closes the socket and the next turn
reads from the closed socket, over and over, and a failed write leaves the function by an exception,
which in a detached thread ends the whole server (`blockingTcp_never_ends`, `failed_write_terminates`).
-/

set_option autoImplicit false

namespace AsioExamples.Echo

open AsioExamples.Lib AsioExamples.Asio

/-! ## The two sessions -/

/-- `boost::asio::error::eof` -/
def eof : ErrorCode := .other 2

/-- Where a session is: in one of its calls, or at its end. -/
inductive Phase where
  | reading
  | writing (bytes : List UInt8)
  | returned
  | escaped (ec : ErrorCode)
  deriving DecidableEq, Repr

/-- How a call ends. A write that fails may have sent some of its bytes. -/
inductive CallResult where
  | readSome (ec : Option ErrorCode) (bytes : List UInt8)
  | write (ec : Option ErrorCode) (sent : ℕ)
  deriving DecidableEq, Repr

/-- A session: whether `sock` is open, where it is, and how its calls have ended so far. -/
structure BlockingSession where
  isOpen : Bool
  phase : Phase
  calls : List CallResult
  deriving DecidableEq, Repr

/-- The end of the function destroys its parameter `sock`. -/
def BlockingSession.leave (s : BlockingSession) (phase : Phase) : BlockingSession :=
  { s with isOpen := false, phase := phase }

/-- The code of a session: the size of its buffer, how the loop goes on after a call or what it throws,
and what becomes of an exception. -/
structure SessionCode where
  bufferSize : ℕ
  afterRead : BlockingSession → Option ErrorCode → List UInt8 → Except ErrorCode BlockingSession
  afterWrite : BlockingSession → Option ErrorCode → Except ErrorCode BlockingSession
  thrown : BlockingSession → ErrorCode → BlockingSession

/-- `boost::asio::write` is the last statement of both loops. -/
def afterWrite (s : BlockingSession) : Option ErrorCode → Except ErrorCode BlockingSession
  | none => .ok { s with phase := .reading }
  | some ec => .error ec

/-- `session` in `blocking_tcp_echo_server.cpp`. -/
def blockingTcp : SessionCode where
  bufferSize := 1024
  afterRead s ec bytes :=
    if ec = none then .ok { s with phase := .writing bytes }
    -- `sock.close()`, and the next turn of the loop
    else .ok { s with isOpen := false, phase := .reading }
  afterWrite := afterWrite
  thrown s ec := s.leave (.escaped ec)

/-- `session` in `echo_server.cpp`. -/
def echoServer : SessionCode where
  bufferSize := 128
  afterRead s ec bytes :=
    match ec with
    | none => .ok { s with phase := .writing bytes }
    | some ec => if ec = eof then .ok (s.leave .returned) else .error ec
  afterWrite := afterWrite
  -- the exception is printed
  thrown s _ := s.leave .returned

/-! ## The calls -/

/-- A session at its first call. -/
def BlockingSession.start : BlockingSession := ⟨true, .reading, []⟩

/-- A statement of the loop body ends, normally or by an exception. -/
def SessionCode.resume (code : SessionCode) (s : BlockingSession) :
    Except ErrorCode BlockingSession → BlockingSession
  | .ok t => t
  | .error ec => code.thrown s ec

/-- The call that the session is in ends. On a closed socket every call fails. A read that fails brings
no bytes, and a write that does not fail has sent all of them. -/
def SessionCode.step (code : SessionCode) (s : BlockingSession) (r : CallResult) :
    Option BlockingSession :=
  let s' := { s with calls := s.calls ++ [r] }
  match s.phase, r with
  | .reading, .readSome none bytes =>
      if s.isOpen ∧ bytes.length ≤ code.bufferSize then
        some (code.resume s' (code.afterRead s' none bytes))
      else none
  | .reading, .readSome (some ec) [] => some (code.resume s' (code.afterRead s' (some ec) []))
  | .writing bytes, .write none sent =>
      if s.isOpen ∧ sent = bytes.length then some (code.resume s' (code.afterWrite s' none)) else none
  | .writing bytes, .write (some ec) sent =>
      if sent ≤ bytes.length then some (code.resume s' (code.afterWrite s' (some ec))) else none
  | _, _ => none

/-- The runs of a session. -/
def SessionCode.machine (code : SessionCode) : Machine BlockingSession CallResult where
  init s := s = .start
  step := code.step

/-- The bytes of one read. -/
abbrev Chunk (size : ℕ) := { bytes : List UInt8 // bytes.length ≤ size }

/-- How a connection ends: a read fails, or the write of a chunk. -/
inductive Failure (size : ℕ) where
  | readSome (ec : ErrorCode)
  | write (chunk : Chunk size) (ec : ErrorCode) (sent : Fin (chunk.1.length + 1))

/-- The results of the calls of a connection: chunks that are read and written back, and a failure. -/
structure Script (size : ℕ) where
  echoed : List (Chunk size)
  failure : Failure size

/-- The results of the calls that echo a chunk. -/
def Chunk.results {size : ℕ} (chunk : Chunk size) : List CallResult :=
  [.readSome none chunk.1, .write none chunk.1.length]

/-- The results of the last calls. -/
def Failure.results {size : ℕ} : Failure size → List CallResult
  | .readSome ec => [.readSome (some ec) []]
  | .write chunk ec sent => [.readSome none chunk.1, .write (some ec) sent]

/-- The results of all calls. -/
def Script.results {size : ℕ} (script : Script size) : List CallResult :=
  script.echoed.flatMap Chunk.results ++ script.failure.results

/-- After the first call that fails the session makes no further one and has returned. -/
def SessionCode.EndsAt (code : SessionCode) (script : Script code.bufferSize) : Prop :=
  ∃ s, code.machine.exec .start script.results = some s ∧ s.phase = .returned ∧
    ∀ r, code.step s r = none

/-! ## Chunks that are echoed -/

/-- The code writes back what it has read, and then reads again. -/
structure SessionCode.Echoes (code : SessionCode) : Prop where
  afterRead : ∀ s bytes, code.afterRead s none bytes = .ok { s with phase := .writing bytes }
  afterWrite : ∀ s, code.afterWrite s none = .ok { s with phase := .reading }

theorem blockingTcp_echoes : blockingTcp.Echoes := ⟨fun _ _ => rfl, fun _ => rfl⟩

theorem echoServer_echoes : echoServer.Echoes := ⟨fun _ _ => rfl, fun _ => rfl⟩

variable {code : SessionCode}

/-- An open session that has read a chunk writes it. -/
theorem step_chunk (h : code.Echoes) (calls : List CallResult) (chunk : Chunk code.bufferSize) :
    code.step ⟨true, .reading, calls⟩ (.readSome none chunk.1) =
      some ⟨true, .writing chunk.1, calls ++ [.readSome none chunk.1]⟩ := by
  simp [SessionCode.step, chunk.2, h.afterRead, SessionCode.resume]

theorem exec_chunk (h : code.Echoes) (calls : List CallResult) (chunk : Chunk code.bufferSize) :
    code.machine.exec ⟨true, .reading, calls⟩ (Chunk.results chunk) =
      some ⟨true, .reading, calls ++ Chunk.results chunk⟩ := by
  have hwrite : code.step ⟨true, .writing chunk.1, calls ++ [.readSome none chunk.1]⟩
      (.write none chunk.1.length) = some ⟨true, .reading, calls ++ Chunk.results chunk⟩ := by
    simp [SessionCode.step, h.afterWrite, SessionCode.resume, Chunk.results]
  rw [Chunk.results, Machine.exec_cons]
  simp only [SessionCode.machine, step_chunk h]
  exact (Machine.exec_singleton _ _ _).trans hwrite

/-- Any number of chunks is echoed, and the session is where it was. -/
theorem exec_echoed (h : code.Echoes) (calls : List CallResult)
    (chunks : List (Chunk code.bufferSize)) :
    code.machine.exec ⟨true, .reading, calls⟩ (chunks.flatMap Chunk.results) =
      some ⟨true, .reading, calls ++ chunks.flatMap Chunk.results⟩ := by
  induction chunks generalizing calls with
  | nil => simp
  | cons chunk chunks ih =>
      rw [List.flatMap_cons, Machine.exec_append, exec_chunk h, Option.bind_some, ih,
        List.append_assoc]

/-- What remains of a connection when its chunks have been echoed. -/
theorem exec_results (h : code.Echoes) (script : Script code.bufferSize) :
    code.machine.exec .start script.results =
      code.machine.exec ⟨true, .reading, script.echoed.flatMap Chunk.results⟩
        script.failure.results := by
  rw [Script.results, Machine.exec_append, BlockingSession.start, exec_echoed h, Option.bind_some,
    List.nil_append]

/-- The write of a chunk that was read fails. -/
theorem exec_failed_write (h : code.Echoes) (calls : List CallResult)
    (chunk : Chunk code.bufferSize) (ec : ErrorCode) (sent : Fin (chunk.1.length + 1)) :
    let calls' := calls ++ Failure.results (.write chunk ec sent)
    code.machine.exec ⟨true, .reading, calls⟩ (Failure.results (.write chunk ec sent)) =
      some (code.resume ⟨true, .writing chunk.1, calls'⟩
        (code.afterWrite ⟨true, .writing chunk.1, calls'⟩ (some ec))) := by
  intro calls'
  have hsent : sent.1 ≤ chunk.1.length := Nat.le_of_lt_succ sent.2
  have hwrite : code.step ⟨true, .writing chunk.1, calls ++ [.readSome none chunk.1]⟩
      (.write (some ec) sent) =
        some (code.resume ⟨true, .writing chunk.1, calls'⟩
          (code.afterWrite ⟨true, .writing chunk.1, calls'⟩ (some ec))) := by
    simp [SessionCode.step, hsent, calls', Failure.results]
  rw [Failure.results, Machine.exec_cons]
  simp only [SessionCode.machine, step_chunk h]
  exact (Machine.exec_singleton _ _ _).trans hwrite

/-! ## Sessions that end -/

/-- The end of the stream breaks the loop of `echo_server`, another error is thrown and caught. -/
theorem step_failed_read (calls : List CallResult) (ec : ErrorCode) :
    echoServer.step ⟨true, .reading, calls⟩ (.readSome (some ec) []) =
      some ⟨false, .returned, calls ++ [.readSome (some ec) []]⟩ := by
  by_cases hec : ec = eof
  · subst hec
    rfl
  · simp only [SessionCode.step, echoServer, if_neg hec]
    rfl

/-- **`echo_server`: the first call that fails ends the session.** -/
theorem echoServer_endsAt (script : Script echoServer.bufferSize) : echoServer.EndsAt script := by
  rw [SessionCode.EndsAt, exec_results echoServer_echoes]
  cases script.failure with
  | readSome ec =>
      rw [Failure.results, Machine.exec_singleton]
      exact ⟨_, step_failed_read _ ec, rfl, fun r => rfl⟩
  | write chunk ec sent =>
      rw [exec_failed_write echoServer_echoes]
      exact ⟨_, rfl, rfl, fun r => rfl⟩

/-! ## Sessions that do not end -/

/-- The session reads from the socket it has closed. -/
structure Spinning (s : BlockingSession) : Prop where
  closed : s.isOpen = false
  reading : s.phase = .reading

/-- A read that has failed. -/
def CallResult.FailedRead (r : CallResult) : Prop := ∃ ec, r = .readSome (some ec) []

/-- The read of a spinning session fails, and it goes on to the next one. -/
theorem Spinning.step {s t : BlockingSession} {r : CallResult} (hs : Spinning s)
    (hstep : blockingTcp.machine.step s r = some t) : Spinning t ∧ r.FailedRead := by
  obtain ⟨isOpen, phase, calls⟩ := s
  obtain ⟨hclosed, hreading⟩ := hs
  have hclosed : isOpen = false := hclosed
  have hreading : phase = .reading := hreading
  subst hclosed hreading
  cases r with
  | readSome ec bytes =>
      cases ec with
      | none => simp [SessionCode.machine, SessionCode.step] at hstep
      | some ec =>
          cases bytes with
          | nil =>
              cases hstep
              exact ⟨⟨rfl, rfl⟩, ec, rfl⟩
          | cons b bytes => cases hstep
  | write ec sent => cases hstep

/-- A spinning session goes on spinning. -/
theorem Spinning.exec {s t : BlockingSession} {rs : List CallResult} (hs : Spinning s)
    (hexec : blockingTcp.machine.exec s rs = some t) : Spinning t ∧ ∀ r ∈ rs, r.FailedRead := by
  induction rs generalizing s with
  | nil =>
      cases hexec
      exact ⟨hs, by simp⟩
  | cons r rs ih =>
      obtain ⟨u, hu, ht⟩ := (Machine.exec_cons_eq_some _).1 hexec
      obtain ⟨hspin, hr⟩ := hs.step hu
      obtain ⟨hspin, hrs⟩ := ih hspin ht
      exact ⟨hspin, List.forall_mem_cons.2 ⟨hr, hrs⟩⟩

/-- A spinning session reads as often as one likes. -/
theorem Spinning.exists_exec {s : BlockingSession} (hs : Spinning s) (n : ℕ) :
    ∃ rs t, rs.length = n ∧ blockingTcp.machine.exec s rs = some t := by
  have hagain : ∀ s, Spinning s →
      ∃ r t, True ∧ blockingTcp.machine.step s r = some t ∧ Spinning t := by
    rintro ⟨isOpen, phase, calls⟩ ⟨hclosed, hreading⟩
    have hreading : phase = .reading := hreading
    subst hreading
    exact ⟨.readSome (some eof) [], _, trivial, rfl, rfl, rfl⟩
  obtain ⟨rs, t, hlen, -, hrs, -⟩ := Machine.exists_exec_of_length hagain n hs
  exact ⟨rs, t, hlen, hrs⟩

/-- What becomes of a session of `blocking_tcp_echo_server` at its first failed call. -/
theorem blockingTcp_after_failure (script : Script blockingTcp.bufferSize) :
    ∃ s, blockingTcp.machine.exec .start script.results = some s ∧
      ((∃ ec, script.failure = .readSome ec ∧ Spinning s) ∨
        ∃ chunk ec sent, script.failure = .write chunk ec sent ∧ s.phase = .escaped ec) := by
  rw [exec_results blockingTcp_echoes]
  cases script.failure with
  | readSome ec => exact ⟨_, rfl, Or.inl ⟨ec, rfl, rfl, rfl⟩⟩
  | write chunk ec sent =>
      rw [exec_failed_write blockingTcp_echoes]
      exact ⟨_, rfl, Or.inr ⟨chunk, ec, sent, rfl, rfl⟩⟩

/-- **No session of `blocking_tcp_echo_server` ends as it should.** After a failed read it never returns:
in every continuation it reads on from the socket it has closed, and it does so as often as one likes. A
failed write leaves the function by an exception. The sessions of `echo_server` all return at the first
call that fails. -/
theorem blockingTcp_never_ends (script : Script blockingTcp.bufferSize) :
    ¬ blockingTcp.EndsAt script ∧
    (∃ s, blockingTcp.machine.exec .start script.results = some s ∧
      ((∃ ec, script.failure = .readSome ec ∧
          (∀ rs t, blockingTcp.machine.exec s rs = some t →
            t.phase = .reading ∧ ∀ r ∈ rs, r.FailedRead) ∧
          ∀ n, ∃ rs t, rs.length = n ∧ blockingTcp.machine.exec s rs = some t) ∨
        ∃ chunk ec sent, script.failure = .write chunk ec sent ∧ s.phase = .escaped ec)) ∧
    ∀ script' : Script echoServer.bufferSize, echoServer.EndsAt script' := by
  obtain ⟨s, hs, hfailed⟩ := blockingTcp_after_failure script
  refine ⟨?_, ⟨s, hs, ?_⟩, echoServer_endsAt⟩
  · rintro ⟨t, ht, hreturned, -⟩
    obtain rfl : s = t := Option.some.inj (hs.symm.trans ht)
    -- the state after the failed call is neither of the two
    rcases hfailed with ⟨ec, -, hspin⟩ | ⟨chunk, ec, sent, -, hescaped⟩
    · rw [hspin.reading] at hreturned
      cases hreturned
    · rw [hescaped] at hreturned
      cases hreturned
  · rcases hfailed with ⟨ec, hfailure, hspin⟩ | hescaped
    · refine Or.inl ⟨ec, hfailure, fun rs t hexec => ?_, hspin.exists_exec⟩
      obtain ⟨hspin, hrs⟩ := hspin.exec hexec
      exact ⟨hspin.reading, hrs⟩
    · exact Or.inr hescaped

/-- A client that disconnects at once. -/
theorem blockingTcp_endless_eof :
    ¬ ∀ script : Script blockingTcp.bufferSize, blockingTcp.EndsAt script := by
  intro h
  obtain ⟨s, hs, hreturned, -⟩ := h ⟨[], .readSome eof⟩
  cases hs
  cases hreturned

/-! ## The server -/

/-- `main` of `blocking_tcp_echo_server.cpp`: the detached threads of the sessions. An exception that
leaves the function of a thread terminates the process. -/
structure BlockingServer where
  sessions : List BlockingSession
  terminated : Bool

/-- What can happen to the server: a connection is accepted, or a call of a session ends. -/
inductive BlockingEvent where
  | accept
  | call (i : ℕ) (r : CallResult)

/-- An exception has left the function. -/
def Phase.hasEscaped : Phase → Bool
  | .escaped _ => true
  | _ => false

/-- The server, from its first `accept` on. -/
def blockingServer : Machine BlockingServer BlockingEvent where
  init s := s = ⟨[], false⟩
  step s
    | .accept => if s.terminated then none else some { s with sessions := s.sessions ++ [.start] }
    | .call i r =>
        if s.terminated then none
        else
          (s.sessions[i]?.bind fun c => blockingTcp.step c r).map fun c =>
            ⟨s.sessions.set i c, c.phase.hasEscaped⟩

/-- **One failed write ends the server**, with all other sessions, whatever they are doing. -/
theorem failed_write_terminates {s t : BlockingServer} {i : ℕ} {ec : ErrorCode} {sent : ℕ}
    (hstep : blockingServer.step s (.call i (.write (some ec) sent)) = some t) :
    t.terminated = true ∧ ∀ e, blockingServer.step t e = none := by
  have hterminated : t.terminated = true := by
    simp only [blockingServer] at hstep
    split at hstep
    · cases hstep
    · obtain ⟨c, hc, rfl⟩ := Option.map_eq_some_iff.1 hstep
      obtain ⟨⟨isOpen, phase, calls⟩, -, hc⟩ := Option.bind_eq_some_iff.1 hc
      cases phase with
      | writing bytes =>
          simp only [SessionCode.step] at hc
          split at hc
          · cases hc
            rfl
          · cases hc
      | reading => cases hc
      | returned => cases hc
      | escaped ec => cases hc
  refine ⟨hterminated, fun e => ?_⟩
  cases e with
  | accept => exact if_pos hterminated
  | call j r => exact if_pos hterminated

end AsioExamples.Echo
