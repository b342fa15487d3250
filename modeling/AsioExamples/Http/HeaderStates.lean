import AsioExamples.Http.ConnectionRuns
import AsioExamples.Http.Transitions

/-!
# The header states of the parser

In five of its states the parser relies on a header that it does not hold: `consume` appends to
`req.headers.back()`, and the request is the caller's. `HeaderAtHand` is that reliance. `consume` keeps it,
whatever its result is (`consume_headerAtHand`), `reset` leaves the states that have it, and so it holds
through every sequence of calls on one request (`headers_nonempty`), those that a connection makes among
them (`connectionCalls`).
-/

set_option autoImplicit false

namespace AsioExamples.Http

open AsioExamples.Cxx AsioExamples.Lib AsioExamples.Asio

/-! ## What `consume` relies on -/

/-- The states between the first byte of a header and the end of its last line. -/
def State.inHeader : State → Bool
  | .headerLws => true
  | .headerName => true
  | .spaceBeforeHeaderValue => true
  | .headerValue => true
  | .expectingNewline2 => true
  | _ => false

/-- In a header state the request has a header. -/
def HeaderAtHand (t : RequestParser × Request) : Prop :=
  t.1.state_.inHeader = true → t.2.headers ≠ []

/-- The vector whose `back()` a call of `consume` executes, when it executes one. -/
def RequestParser.backOf (p : RequestParser) (req : Request) (input : UInt8) :
    Option (List Header) :=
  let c := charToInt input
  match p.state_ with
  | .headerLineStart =>
      if input = chr '\r' then none
      else if !req.headers.isEmpty && (input = chr ' ' || input = chr '\t') then none
      else if !isChar c || isCtl c || isTspecial c then none
      else some (req.headers ++ [⟨[], []⟩])
  | .headerLws =>
      if input = chr '\r' then none
      else if input = chr ' ' || input = chr '\t' then none
      else if isCtl c then none
      else some req.headers
  | .headerName =>
      if input = chr ':' then none
      else if !isChar c || isCtl c || isTspecial c then none
      else some req.headers
  | .headerValue =>
      if input = chr '\r' then none
      else if isCtl c then none
      else some req.headers
  | _ => none

/-- The calls on one parser, with one request. -/
inductive ParserCall where
  | parse (s : List UInt8)
  | reset
  deriving DecidableEq, Repr

/-- What a call leaves of the parser and the request. -/
def ParserCall.perform (t : RequestParser × Request) : ParserCall → RequestParser × Request
  | .parse s => ((t.1.parse t.2 s).parser, (t.1.parse t.2 s).request)
  | .reset => (t.1.reset, t.2)

/-- A new parser and a new request, and calls in any order. -/
def parserMachine : Machine (RequestParser × Request) ParserCall where
  init t := ∃ major minor, t = (.new, .fresh major minor)
  step t call := some (call.perform t)

/-! ## One byte -/

theorem modifyBack_eq_nil_iff {f : Header → Header} {hs : List Header} :
    modifyBack f hs = [] ↔ hs = [] := by
  match hs with
  | [] => simp [modifyBack]
  | [h] => simp [modifyBack]
  | h :: h' :: hs => simp [modifyBack]

/-- The headers change in the last one of the vector whose `back()` is executed, and nowhere else. -/
theorem consume_headers (p : RequestParser) (req : Request) (b : UInt8) :
    (p.consume req b).2.2.headers =
      match p.backOf req b with
      | some hs =>
          modifyBack (if p.state_ = .headerLineStart ∨ p.state_ = .headerName then pushName b
            else pushValue b) hs
      | none => req.headers := by
  rcases p with ⟨q⟩
  cases q <;> simp only [RequestParser.consume, RequestParser.backOf] <;> split_ifs <;> simp_all

variable {p : RequestParser} {req : Request} {b : UInt8}

/-- The vector is that of the request, to which the first byte of a header has just added one. -/
theorem backOf_eq_some {hs : List Header} (h : p.backOf req b = some hs) :
    hs = req.headers ++ [⟨[], []⟩] ∨ p.state_.inHeader = true ∧ hs = req.headers := by
  rcases p with ⟨q⟩
  cases q
  case headerLineStart =>
    simp only [RequestParser.backOf] at h
    split_ifs at h
    cases h
    exact Or.inl rfl
  case headerLws | headerName | headerValue =>
    simp only [RequestParser.backOf] at h
    split_ifs at h
    cases h
    exact Or.inr ⟨rfl, rfl⟩
  all_goals simp [RequestParser.backOf] at h

/-- Where `consume` executes `back()`, the vector is not empty. -/
theorem backOf_ne_nil {hs : List Header} (h : HeaderAtHand (p, req))
    (hback : p.backOf req b = some hs) : hs ≠ [] := by
  rcases backOf_eq_some hback with rfl | ⟨hin, rfl⟩
  · simp
  · exact h hin

/-- A header state is entered from a header state, or at the beginning of a line: with the name of a
header that is added, or where there is one to continue. -/
theorem Transition.headerAtHand {q q' : State} {r r' : Request} (h : Transition q r b q' r')
    (hat : HeaderAtHand (⟨q⟩, r)) : HeaderAtHand (⟨q'⟩, r') := by
  intro hin
  cases h with
  | continuation hne _ => exact hne
  | headerStart _ =>
      rw [ne_eq, modifyBack_eq_nil_iff]
      simp
  | name _ | lwsText _ | value _ =>
      rw [ne_eq, modifyBack_eq_nil_iff]
      exact hat rfl
  | nameEnd | space | valueEnd | lwsEnd | lws _ => exact hat rfl
  | _ => cases hin

/-- One byte keeps a header at hand, whatever the result. -/
theorem consume_headerAtHand (h : HeaderAtHand (p, req)) : HeaderAtHand (p.consume req b).2 := by
  by_cases hmore : (p.consume req b).1 = .indeterminate
  · have hc : p.consume req b = (.indeterminate, (p.consume req b).2) := by rw [← hmore]
    exact (transition_of_consume hc).headerAtHand h
  · rw [consume_of_verdict hmore]
    exact h

/-! ## Every sequence of calls -/

/-- A run of the parser keeps a header at hand. -/
theorem run_headerAtHand {t : RequestParser × Request} (h : HeaderAtHand t) (s : List UInt8) :
    HeaderAtHand (feeder.run t s).state :=
  feeder.run_preserves (fun _ _ => consume_headerAtHand) h s

theorem reachable_headerAtHand {t : RequestParser × Request} (h : parserMachine.Reachable t) :
    HeaderAtHand t := by
  apply h.invariant (I := HeaderAtHand)
  · rintro t ⟨major, minor, rfl⟩ hin
    cases hin
  · rintro t call u ht hstep
    cases hstep
    cases call with
    | parse s =>
        rw [ParserCall.perform, parse_eq_run]
        exact run_headerAtHand ht s
    | reset =>
        -- the first state is no header state
        intro hin
        cases hin

/-- **`back()` is executed on a vector that is not empty.** After any calls of `parse` and `reset` on a new
parser with a new request, and at every byte of the next `parse`: in a header state the request has
a header, and where `consume` executes `back()` the vector has an element. -/
theorem headers_nonempty (t : RequestParser × Request) (h : parserMachine.Reachable t) :
    HeaderAtHand t ∧
      ∀ s, ∀ call ∈ feeder.calls t s, HeaderAtHand call.1 ∧
        ∀ hs, call.1.1.backOf call.1.2 call.2 = some hs → hs ≠ [] := by
  have ht := reachable_headerAtHand h
  refine ⟨ht, ?_⟩
  rintro s ⟨u, b⟩ hcall
  have hu : HeaderAtHand u := feeder.calls_preserve (fun _ _ => consume_headerAtHand) ht hcall
  exact ⟨hu, fun hs hback => backOf_ne_nil hu hback⟩

/-- A byte that is `bad` leaves the parser inside a header, and further calls find that header. -/
theorem headers_nonempty_after_bad :
    ∃ t, parserMachine.exec (.new, .fresh 0 0)
        [.parse (str "GET / HTTP/1.0\r\nHost\n"), .parse (str ": a")] = some t ∧
      t.1.state_ = .headerValue ∧ t.2.headers ≠ [] := by
  let t := [.parse (str "GET / HTTP/1.0\r\nHost\n"), .parse (str ": a")].foldl ParserCall.perform
    (.new, .fresh 0 0)
  have hrun : parserMachine.exec (.new, .fresh 0 0)
      [.parse (str "GET / HTTP/1.0\r\nHost\n"), .parse (str ": a")] = some t := rfl
  have hstate : t.1.state_ = .headerValue := by decide +kernel
  refine ⟨t, hrun, hstate, ?_⟩
  apply (headers_nonempty t ⟨_, _, ⟨0, 0, rfl⟩, hrun⟩).1
  rw [hstate]
  rfl

/-! ## The calls of a connection -/

/-- The calls on its parser that an event of a connection makes. -/
def parserCalls (s : ConnectionState) : ConnectionEvent → List ParserCall
  | .handler i _ =>
      match dispatch s.pending i with
      | some (.readSome, ⟨none, bytes⟩, _) => [.parse bytes]
      | _ => []
  | _ => []

/-- A read handler calls the parser once, or with an error not at all. -/
theorem readHandler_calls (srv : Server) (handle : Request → Reply → Reply) (c : Connection)
    (done : Completion) :
    ((readHandler srv handle c done).1.requestParser_, (readHandler srv handle c done).1.request_) =
      match done.ec with
      | none => ParserCall.perform (c.requestParser_, c.request_) (.parse done.bytes)
      | some _ => (c.requestParser_, c.request_) := by
  rw [readHandler]
  cases hec : done.ec with
  | some ec => rfl
  | none =>
      simp only [ParserCall.perform]
      cases (c.requestParser_.parse c.request_ done.bytes).result <;> rfl

/-- A connection of any of the three servers makes a sequence of calls on its one parser with its one
request. -/
def connectionCalls (srv : Server) (docRoot : List UInt8) :
    Machine.Simulation (connectionMachine srv docRoot) parserMachine where
  abs s := (s.conn.requestParser_, s.conn.request_)
  label := parserCalls
  init := by
    rintro s ⟨major, minor, status, rfl⟩
    exact ⟨major, minor, rfl⟩
  step := by
    intro s e t hr hstep
    cases e with
    | complete i c =>
        have hlen : s.pending.length ≤ 1 := length_pending_le_one hr
        obtain ⟨p, -, -, -, rfl⟩ := ConnectionState.complete_eq_some hlen hstep
        rfl
    | handler i fs =>
        obtain ⟨⟨t', acts⟩, hrun, rfl⟩ := Option.map_eq_some_iff.1 hstep
        obtain ⟨⟨op, done, ps⟩, hd, heq⟩ := Option.map_eq_some_iff.1 hrun
        obtain ⟨rfl, -⟩ := Prod.mk.inj heq
        rw [ConnectionState.foldl_perform_conn]
        cases op with
        | readSome =>
            simp only [readHandler_calls]
            rcases done with ⟨_ | ec, bytes⟩
            · simp only [parserCalls, hd]
              rfl
            · simp only [parserCalls, hd]
              rfl
        | write rep =>
            simp only [parserCalls, hd]
            rfl
    | stop =>
        obtain rfl := stop_eq_some hstep
        rfl

/-- In every state of a connection a header is at hand where its parser is in a header state. -/
theorem connection_headerAtHand {srv : Server} {docRoot : List UInt8} {s : ConnectionState}
    (h : (connectionMachine srv docRoot).Reachable s) :
    HeaderAtHand (s.conn.requestParser_, s.conn.request_) :=
  reachable_headerAtHand ((connectionCalls srv docRoot).reachable h)

end AsioExamples.Http
