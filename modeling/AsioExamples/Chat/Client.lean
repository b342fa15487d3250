import AsioExamples.Lib.Machine
import AsioExamples.Lib.SendQueue
import AsioExamples.Chat.Reader

/-!
# The chat client

`chat_client.cpp`. The main thread posts its calls of `write` and `close` to the `io_context`; what is
posted, the connect, the reads and the writes have their handlers run there one at a time, in any order.
-/

set_option autoImplicit false

namespace AsioExamples.Chat

open AsioExamples.Cxx AsioExamples.Lib AsioExamples.Asio

/-- The two handlers that the client posts. -/
inductive Posted where
  | write (msg : ChatMessage)
  | close
  deriving DecidableEq, Repr

/-- The data members of `class chat_client`, with its outstanding operations and what it has posted.
`write_msgs_` is the queue of `out`. -/
structure ChatClient where
  isOpen : Bool
  connecting : Bool
  readMsg_ : ChatMessage
  reads : List Read
  out : SendQueue ChatMessage UInt8
  posted : List Posted
  deriving DecidableEq, Repr

namespace ChatClient

/-- `chat_client::do_connect` -/
def doConnect (c : ChatClient) : ChatClient := { c with isOpen := true, connecting := true }

/-- `chat_client::do_read_header` -/
def doReadHeader (c : ChatClient) : ChatClient := { c with reads := c.reads ++ [.header] }

/-- `chat_client::do_read_body` -/
def doReadBody (c : ChatClient) : ChatClient := { c with reads := c.reads ++ [.body] }

/-- `sock_.close()` -/
def closeSocket (c : ChatClient) : ChatClient := { c with isOpen := false }

/-- The constructor. -/
def new (msg : ChatMessage) : ChatClient := doConnect ⟨false, false, msg, [], .empty, []⟩

/-- The handler that `do_connect` passes to `async_connect`. -/
def connectHandler (c : ChatClient) (ec : Option ErrorCode) : ChatClient :=
  let c := { c with connecting := false }
  if ec = none then c.doReadHeader else c

/-- One action of the read chain. An accepted message is written to the standard output. -/
def perform (c : ChatClient) : ReadAction → ChatClient
  | .asyncReadHeader => c.doReadHeader
  | .asyncReadBody => c.doReadBody
  | .accept _ => c
  | .stop => c.closeSocket

/-- The handlers that `do_read_header` and `do_read_body` pass to `async_read`. -/
def readHandler (c : ChatClient) (i : ℕ) (ec : Option ErrorCode) (bytes : List UInt8) :
    Option ChatClient :=
  match c.reads[i]? with
  | some r =>
      if r.mayEnd c.readMsg_ ec bytes then
        let h := r.handler c.readMsg_ ec bytes
        some (h.2.foldl perform { c with readMsg_ := h.1, reads := c.reads.eraseIdx i })
      else none
  | none => none

/-- `chat_client::write` -/
def write (c : ChatClient) (msg : ChatMessage) : ChatClient :=
  { c with posted := c.posted ++ [.write msg] }

/-- `chat_client::close` -/
def close (c : ChatClient) : ChatClient := { c with posted := c.posted ++ [.close] }

/-- The handlers that `write` and `close` post. That of `close` evaluates `sock_,close()`, a call of
`chat_client::close`. -/
def postedHandler (c : ChatClient) : Posted → ChatClient
  | .write msg => { c with out := c.out.enqueue ChatMessage.bytes msg }
  | .close => c.close

/-- The handler that `do_write` passes to `async_write`. -/
def writeHandler (c : ChatClient) (i : ℕ) (ec : Option ErrorCode) : Option ChatClient :=
  (c.out.finish ChatMessage.bytes i (ec = none)).map fun q =>
    let c := { c with out := q }
    -- unlike the server, the client closes its socket, which ends its read chain
    if ec = none then c else c.closeSocket

end ChatClient

/-- What can happen to a client: the main thread calls `write` or `close`, or a handler runs, or a
write makes progress. -/
inductive ClientEvent where
  | write (msg : ChatMessage)
  | close
  | connectHandler (ec : Option ErrorCode)
  | readHandler (i : ℕ) (ec : Option ErrorCode) (bytes : List UInt8)
  | postedHandler (i : ℕ)
  | transfer (i n : ℕ)
  | writeHandler (i : ℕ) (ec : Option ErrorCode)

/-- The client, from its constructor on. -/
def clientMachine : Machine ChatClient ClientEvent where
  init c := ∃ msg, c = .new msg
  step c
    | .write msg => some (c.write msg)
    | .close => some c.close
    | .connectHandler ec => if c.connecting then some (c.connectHandler ec) else none
    | .readHandler i ec bytes => c.readHandler i ec bytes
    | .postedHandler i =>
        match c.posted[i]? with
        | some p => some ({ c with posted := c.posted.eraseIdx i }.postedHandler p)
        | none => none
    | .transfer i n => (c.out.transfer i n).map fun q => { c with out := q }
    | .writeHandler i ec => c.writeHandler i ec

/-! ## What a step of the client does -/

namespace ChatClient

/-- The steps of the client, one constructor for each end of a handler. -/
inductive Step (c : ChatClient) : ClientEvent → ChatClient → Prop where
  | write (msg : ChatMessage) : Step c (.write msg) (c.write msg)
  | close : Step c .close c.close
  | connected (hc : c.connecting = true) :
      Step c (.connectHandler none) { c with connecting := false, reads := c.reads ++ [.header] }
  | connectFailed (ec : ErrorCode) (hc : c.connecting = true) :
      Step c (.connectHandler (some ec)) { c with connecting := false }
  | read {i : ℕ} {r : Read} {ec : Option ErrorCode} {bytes : List UInt8} (hr : c.reads[i]? = some r)
      (hmay : r.mayEnd c.readMsg_ ec bytes = true) :
      Step c (.readHandler i ec bytes) ((r.handler c.readMsg_ ec bytes).2.foldl perform
        { c with readMsg_ := (r.handler c.readMsg_ ec bytes).1, reads := c.reads.eraseIdx i })
  | posted {i : ℕ} {p : Posted} (hp : c.posted[i]? = some p) :
      Step c (.postedHandler i) ({ c with posted := c.posted.eraseIdx i }.postedHandler p)
  | transfer {i n : ℕ} {q : SendQueue ChatMessage UInt8} (hq : c.out.transfer i n = some q) :
      Step c (.transfer i n) { c with out := q }
  | written {i : ℕ} {q : SendQueue ChatMessage UInt8}
      (hq : c.out.finish ChatMessage.bytes i true = some q) :
      Step c (.writeHandler i none) { c with out := q }
  | writeFailed {i : ℕ} {q : SendQueue ChatMessage UInt8} (ec : ErrorCode)
      (hq : c.out.finish ChatMessage.bytes i false = some q) :
      Step c (.writeHandler i (some ec)) { c with isOpen := false, out := q }

end ChatClient

/-- Every step of the client is one of them. -/
theorem client_step {c d : ChatClient} {e : ClientEvent} (h : clientMachine.step c e = some d) :
    c.Step e d := by
  cases e with
  | write msg =>
      cases h
      exact .write msg
  | close =>
      cases h
      exact .close
  | connectHandler ec =>
      obtain ⟨hc, heq⟩ := Option.ite_none_right_eq_some.1 h
      cases heq
      cases ec with
      | none => exact .connected hc
      | some ec => exact .connectFailed ec hc
  | readHandler i ec bytes =>
      simp only [clientMachine, ChatClient.readHandler] at h
      split at h
      · rename_i r hr
        obtain ⟨hmay, heq⟩ := Option.ite_none_right_eq_some.1 h
        cases heq
        exact .read hr hmay
      · cases h
  | postedHandler i =>
      simp only [clientMachine] at h
      split at h
      · rename_i p hp
        cases h
        exact .posted hp
      · cases h
  | transfer i n =>
      obtain ⟨q, hq, rfl⟩ := Option.map_eq_some_iff.1 h
      exact .transfer hq
  | writeHandler i ec =>
      obtain ⟨q, hq, rfl⟩ := Option.map_eq_some_iff.1 h
      cases ec with
      | none => exact .written hq
      | some ec => exact .writeFailed ec hq

end AsioExamples.Chat
