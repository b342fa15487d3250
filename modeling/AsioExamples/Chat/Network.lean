import AsioExamples.Cxx.GetLine
import AsioExamples.Chat.Relay
import AsioExamples.Chat.RoundTrip
import AsioExamples.Chat.Streams

/-!
# The chat as a system

The server and any number of clients, with a connection between each client and its session: what one side
has read is always the beginning of what the other side has sent. `main` of `chat_client.cpp` reads lines,
composes messages from them and has them written; a client prints the messages that it accepts. `typed`,
`received`, `heard` and `printed` record what has happened.

The network adds no behaviour of its own: its server is the server (`networkServer`) and its clients are clients,
each in an environment in which the other side sends what it reads.
-/

set_option autoImplicit false

namespace AsioExamples.Chat

open AsioExamples.Cxx AsioExamples.Lib AsioExamples.Asio

/-! ## Clients -/

/-- A process of `chat_client.cpp`: the client, and the main thread with the standard input. -/
structure ClientProcess where
  client : ChatClient
  stdin : IStream
  joining : Bool
  typed : List (List UInt8)
  heard : List UInt8
  printed : List ChatMessage
  deriving DecidableEq, Repr

/-- The bytes that an event has read from the socket. -/
def ClientEvent.bytes : ClientEvent → List UInt8
  | .readHandler _ _ bytes => bytes
  | _ => []

/-- The main thread makes these calls, and nobody else does. -/
def ClientEvent.fromMain : ClientEvent → Bool
  | .write _ => true
  | .close => true
  | _ => false

/-- What the handler of an event prints. -/
def ChatClient.prints (c : ChatClient) : ClientEvent → List ChatMessage
  | .readHandler i ec bytes =>
      match c.reads[i]? with
      | some r => accepted (r.handler c.readMsg_ ec bytes).2
      | none => []
  | _ => []

namespace ClientProcess

/-- The process when `main` has constructed the client. -/
def new (msg : ChatMessage) (input : List UInt8) : ClientProcess :=
  ⟨.new msg, .new input, false, [], [], []⟩

/-- The loop of `main` reads a line into `line` and writes a message with it, or ends; then `main` calls
`close` and waits for the other thread. -/
def mainLoop (p : ClientProcess) (storage : Storage) : Option ClientProcess :=
  if p.joining then none
  else
    let r := p.stdin.getline (maxBodyLength + 1)
    if r.2.fail then some { p with stdin := r.2, client := p.client.close, joining := true }
    else
      some { p with
        stdin := r.2
        client := p.client.write (compose storage (cStr r.1))
        typed := p.typed ++ [cStr r.1] }

/-- The thread that runs the `io_context`. What is read comes from what the session has sent. -/
def handle (p : ClientProcess) (wire : List UInt8) (e : ClientEvent) : Option ClientProcess :=
  if e.fromMain then none
  else if p.heard ++ e.bytes <+: wire then
    (clientMachine.step p.client e).map fun c =>
      { p with client := c, heard := p.heard ++ e.bytes, printed := p.printed ++ p.client.prints e }
  else none

end ClientProcess

/-! ## The network -/

/-- The session that an event of the server is about. -/
def ServerEvent.session : ServerEvent → ℕ
  | .acceptHandler _ id => id
  | .readHandler id _ _ _ => id
  | .transfer id _ _ => id
  | .writeHandler id _ _ => id

/-- The bytes that an event has read from the socket. -/
def ServerEvent.bytes : ServerEvent → List UInt8
  | .readHandler _ _ _ bytes => bytes
  | _ => []

/-- The server, what each session has read, and the clients. The client `id` is connected to the session
`id`. -/
structure ChatNetwork where
  server : ChatState
  received : ℕ → List UInt8
  clients : ℕ → ClientProcess

/-- What can happen: something in the server, one round of the loop of a `main`, or something in the other
thread of a client. -/
inductive NetworkEvent where
  | server (e : ServerEvent)
  | mainLoop (id : ℕ) (storage : Storage)
  | client (id : ℕ) (e : ClientEvent)

namespace ChatNetwork

/-- Everybody has just started. -/
def initial (input : ℕ → List UInt8) (sessionMsgs clientMsgs : ℕ → ChatMessage) : ChatNetwork :=
  ⟨.initial sessionMsgs, fun _ => [], fun id => .new (clientMsgs id) (input id)⟩

/-- What the session `id` has sent. -/
def sentBySession (s : ChatNetwork) (id : ℕ) : List UInt8 := (s.server.sessions id).out.wire

/-- What the client `id` has sent. -/
def sentByClient (s : ChatNetwork) (id : ℕ) : List UInt8 := (s.clients id).client.out.wire

end ChatNetwork

/-- The network, where the users type `input`. -/
def networkMachine (input : ℕ → List UInt8) : Machine ChatNetwork NetworkEvent where
  init s := ∃ sessionMsgs clientMsgs, s = .initial input sessionMsgs clientMsgs
  step s
    | .server e =>
        if s.received e.session ++ e.bytes <+: s.sentByClient e.session then
          (serverMachine.step s.server e).map fun t =>
            { s with
              server := t
              received := Function.update s.received e.session (s.received e.session ++ e.bytes) }
        else none
    | .mainLoop id storage =>
        ((s.clients id).mainLoop storage).map fun p =>
          { s with clients := Function.update s.clients id p }
    | .client id e =>
        ((s.clients id).handle (s.sentBySession id) e).map fun p =>
          { s with clients := Function.update s.clients id p }

/-! ## Steps -/

variable {input : ℕ → List UInt8} {s t : ChatNetwork}

/-- The steps of the network. -/
inductive ChatNetwork.Step (s : ChatNetwork) : NetworkEvent → ChatNetwork → Prop
  | server {e : ServerEvent} {t : ChatState}
      (hread : s.received e.session ++ e.bytes <+: s.sentByClient e.session)
      (hstep : serverMachine.step s.server e = some t) :
      Step s (.server e)
        { s with
          server := t
          received := Function.update s.received e.session (s.received e.session ++ e.bytes) }
  | mainLoop {id : ℕ} {storage : Storage} {p : ClientProcess}
      (hmain : (s.clients id).mainLoop storage = some p) :
      Step s (.mainLoop id storage) { s with clients := Function.update s.clients id p }
  | client {id : ℕ} {e : ClientEvent} {c : ChatClient} (hmain : e.fromMain = false)
      (hread : (s.clients id).heard ++ e.bytes <+: s.sentBySession id)
      (hstep : clientMachine.step (s.clients id).client e = some c) :
      Step s (.client id e)
        { s with
          clients := Function.update s.clients id
            { s.clients id with
              client := c
              heard := (s.clients id).heard ++ e.bytes
              printed := (s.clients id).printed ++ (s.clients id).client.prints e } }

/-- The lines that `main` reads from an input, each of them up to its first NUL. -/
def inputLines (input : List UInt8) : List (List UInt8) :=
  (getlines (maxBodyLength + 1) (.new input)).map cStr

/-- The lines that `main` has still to read. -/
def ClientProcess.linesLeft (p : ClientProcess) : List (List UInt8) :=
  if p.joining then [] else (getlines (maxBodyLength + 1) p.stdin).map cStr

/-- A round of the loop of `main` calls `close`, or writes the next line. -/
theorem ClientProcess.mainLoop_eq_some {p q : ClientProcess} {storage : Storage}
    (h : p.mainLoop storage = some q) :
    ∃ is, (q = { p with stdin := is, client := p.client.close, joining := true } ∧ p.linesLeft = []) ∨
      ∃ line, line.length ≤ maxBodyLength ∧ p.linesLeft = line :: q.linesLeft ∧
        q = { p with
          stdin := is
          client := p.client.write (compose storage line)
          typed := p.typed ++ [line] } := by
  obtain ⟨hjoining, h⟩ := Option.ite_none_left_eq_some.1 h
  have hleft : p.linesLeft = (getlines (maxBodyLength + 1) p.stdin).map cStr := if_neg hjoining
  have hlen := (cStr_isPrefix _).length_le.trans (p.stdin.length_getline_le (maxBodyLength + 1))
  refine ⟨(p.stdin.getline (maxBodyLength + 1)).2, ?_⟩
  rw [hleft, getlines]
  dsimp only at h
  split at h
  · rename_i hfail
    cases h
    exact Or.inl ⟨rfl, by rw [if_neg (by simp [hfail]), List.map_nil]⟩
  · rename_i hok
    cases h
    refine Or.inr ⟨_, hlen, ?_, rfl⟩
    rw [if_pos (by simpa using hok), List.map_cons, linesLeft, if_neg hjoining]

theorem network_step {e : NetworkEvent} (h : (networkMachine input).step s e = some t) :
    s.Step e t := by
  cases e with
  | server e =>
      obtain ⟨hread, h⟩ := Option.ite_none_right_eq_some.1 h
      obtain ⟨t, hstep, rfl⟩ := Option.map_eq_some_iff.1 h
      exact .server hread hstep
  | mainLoop id storage =>
      obtain ⟨p, hmain, rfl⟩ := Option.map_eq_some_iff.1 h
      exact .mainLoop hmain
  | client id e =>
      obtain ⟨p, hp, rfl⟩ := Option.map_eq_some_iff.1 h
      obtain ⟨hmain, hp⟩ := Option.ite_none_left_eq_some.1 hp
      obtain ⟨hread, hp⟩ := Option.ite_none_right_eq_some.1 hp
      obtain ⟨c, hstep, rfl⟩ := Option.map_eq_some_iff.1 hp
      exact .client (by simpa using hmain) hread hstep

/-- The server of the network is the server. -/
def networkServer (input : ℕ → List UInt8) :
    Machine.Simulation (networkMachine input) serverMachine where
  abs := ChatNetwork.server
  label
    | _, .server e => [e]
    | _, _ => []
  init := by
    rintro s ⟨sessionMsgs, clientMsgs, rfl⟩
    exact ⟨sessionMsgs, rfl⟩
  step := by
    intro s e t _ hstep
    cases network_step hstep with
    | server _ hserver => exact (Machine.exec_singleton _ _ _).trans hserver
    | mainLoop _ => rfl
    | client _ _ _ => rfl

end AsioExamples.Chat
