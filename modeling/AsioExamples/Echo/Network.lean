import AsioExamples.Echo.Client
import AsioExamples.Echo.Stream

/-!
# An echo client and its session

A client and the session of an asynchronous server that it is connected to. In each direction the
connection holds a bounded number of bytes that have been sent and not yet received.

A client that ends has printed its own message (`echo_round_trip`). Both clients send their whole
message before they receive anything, so the bytes that have come back have to be kept somewhere: in
the buffers of the connection and in the session. `echo_finishes_iff` is the exact bound up to which
this cannot go wrong.
-/

set_option autoImplicit false

namespace AsioExamples.Echo

open AsioExamples.Lib AsioExamples.Cxx AsioExamples.Asio

/-! ## The network -/

/-- One direction of a connection: how many bytes it holds. -/
structure Pipe where
  capacity : ℕ
  pos : 0 < capacity

/-- What is received is what was sent, and the rest fits into the pipe. -/
def Pipe.Carries (p : Pipe) (sent received : List UInt8) : Prop :=
  received <+: sent ∧ sent.length ≤ received.length + p.capacity

instance (p : Pipe) (sent received : List UInt8) : Decidable (p.Carries sent received) :=
  inferInstanceAs (Decidable (_ ∧ _))

/-- A client and its session. -/
structure EchoNetwork where
  client : EchoClient
  session : EchoSession
  deriving DecidableEq, Repr

/-- What can happen: something to the client, or something to the session. -/
inductive NetworkEvent where
  | client (e : ClientEvent)
  | session (e : EchoEvent)
  deriving DecidableEq, Repr

/-- A read that ends without an error has read something, and a transfer sends something. -/
def EchoSession.moves (s : EchoSession) : EchoEvent → Bool
  | .complete i c => decide (s.pending[i]?.map Pending.op = some .readSome → c.ec = none → c.bytes ≠ [])
  | .transfer _ n => decide (0 < n)
  | .handler _ => true

/-- The bytes of both directions are on their way. -/
def EchoNetwork.Carried (up down : Pipe) (s : EchoNetwork) : Prop :=
  up.Carries s.client.wire s.session.received ∧ down.Carries s.session.sent s.client.reply

instance (up down : Pipe) (s : EchoNetwork) : Decidable (s.Carried up down) :=
  inferInstanceAs (Decidable (_ ∧ _))

/-- The client and its session, from the connect on. -/
def echoNetwork (code : ClientCode) (closesOnError : Bool) (up down : Pipe) (e : Entered) :
    Machine EchoNetwork NetworkEvent where
  init s := ∃ conn data, data.length = dataSize ∧ s = ⟨.start e, .started conn data⟩
  step s
    | .client ev =>
        (s.client.step code ev).bind fun c =>
          if EchoNetwork.Carried up down ⟨c, s.session⟩ then some ⟨c, s.session⟩ else none
    | .session ev =>
        if s.session.moves ev then
          ((echoMachine closesOnError).step s.session ev).bind fun t =>
            if EchoNetwork.Carried up down ⟨s.client, t⟩ then some ⟨s.client, t⟩ else none
        else none

variable {code : ClientCode} {closesOnError : Bool} {up down : Pipe} {e : Entered}
  {s t : EchoNetwork}

/-- The steps of the network. -/
inductive EchoNetwork.Step (code : ClientCode) (closesOnError : Bool) (s : EchoNetwork) :
    NetworkEvent → EchoNetwork → Prop
  | client {ev : ClientEvent} {c : EchoClient} (hstep : s.client.step code ev = some c) :
      Step code closesOnError s (.client ev) ⟨c, s.session⟩
  | session {ev : EchoEvent} {c : EchoSession} (hmoves : s.session.moves ev = true)
      (hstep : (echoMachine closesOnError).step s.session ev = some c) :
      Step code closesOnError s (.session ev) ⟨s.client, c⟩

theorem echoNetwork_step {ev : NetworkEvent}
    (h : (echoNetwork code closesOnError up down e).step s ev = some t) :
    s.Step code closesOnError ev t ∧ t.Carried up down := by
  cases ev with
  | client ev =>
      obtain ⟨c, hc, h⟩ := Option.bind_eq_some_iff.1 h
      obtain ⟨hcarried, heq⟩ := Option.ite_none_right_eq_some.1 h
      cases heq
      exact ⟨.client hc, hcarried⟩
  | session ev =>
      obtain ⟨hmoves, h⟩ := Option.ite_none_right_eq_some.1 h
      obtain ⟨c, hc, h⟩ := Option.bind_eq_some_iff.1 h
      obtain ⟨hcarried, heq⟩ := Option.ite_none_right_eq_some.1 h
      cases heq
      exact ⟨.session hmoves hc, hcarried⟩

/-! ## What is received is the message -/

/-- What every step of the network keeps. -/
structure RoundTrip (code : ClientCode) (up down : Pipe) (e : Entered) (s : EchoNetwork) : Prop where
  asking : Asking code e s.client
  echoing : Echoing s.session
  carried : s.Carried up down

namespace RoundTrip

theorem init (code : ClientCode) (up down : Pipe) (e : Entered) (conn : ℕ) {data : List UInt8}
    (hdata : data.length = dataSize) : RoundTrip code up down e ⟨.start e, .started conn data⟩ :=
  ⟨.start code e, echoing_started conn hdata, ⟨List.nil_prefix, Nat.zero_le _⟩,
    ⟨List.nil_prefix, Nat.zero_le _⟩⟩

theorem step (hs : RoundTrip code up down e s) {ev : NetworkEvent}
    (h : (echoNetwork code closesOnError up down e).step s ev = some t) :
    RoundTrip code up down e t := by
  obtain ⟨hstep, hcarried⟩ := echoNetwork_step h
  cases hstep with
  | client hc => exact ⟨hs.asking.step hc, hs.echoing, hcarried⟩
  | session _ hc => exact ⟨hs.asking, hs.echoing.step hc, hcarried⟩

/-- The stations of the bytes: the client has received a part of what the session has sent, and so on up to
the message. -/
theorem reply_isPrefix_sent (hs : RoundTrip code up down e s) :
    s.client.reply <+: s.session.sent := hs.carried.2.1

theorem sent_isPrefix_received (hs : RoundTrip code up down e s) :
    s.session.sent <+: s.session.received := (hs.echoing.streamLaw true).sent

theorem received_isPrefix_request (hs : RoundTrip code up down e s) :
    s.session.received <+: e.request := hs.carried.1.1.trans hs.asking.wire_isPrefix

theorem reply_isPrefix_request (hs : RoundTrip code up down e s) : s.client.reply <+: e.request :=
  hs.reply_isPrefix_sent.trans (hs.sent_isPrefix_received.trans hs.received_isPrefix_request)

end RoundTrip

theorem roundTrip (h : (echoNetwork code closesOnError up down e).Reachable s) :
    RoundTrip code up down e s := by
  apply h.invariant (I := RoundTrip code up down e)
  · rintro s ⟨conn, data, hdata, rfl⟩
    exact .init code up down e conn hdata
  · exact fun s ev t hs hstep => hs.step hstep

/-- **What comes back is what was sent**: whatever fails, a client has received the beginning of its message
and nothing else; and when it ends, the session has received and sent exactly the message, and the
client has printed it. -/
theorem echo_round_trip (h : (echoNetwork code closesOnError up down e).Reachable s) :
    s.client.reply <+: e.request ∧
    (s.client.phase = .ended →
      s.session.received = e.request ∧ s.session.sent = e.request ∧
      s.client.printed =
        e.printed ++ code.afterWrite e.request.length ++ code.afterRead e.request) := by
  have hs := roundTrip h
  refine ⟨hs.reply_isPrefix_request, fun hended => ?_⟩
  have hasking := hs.asking
  have hreply : s.client.reply = e.request ∧
      s.client.printed =
        e.printed ++ code.afterWrite e.request.length ++ code.afterRead s.client.reply := by
    have hpre := hs.reply_isPrefix_request
    generalize s.client = c at hasking hended hpre
    cases hasking with
    | ended hlen => exact ⟨hpre.eq_of_length hlen, rfl⟩
    | writing _ => cases hended
    | reading _ => cases hended
    | terminated _ _ => cases hended
  obtain ⟨hreply, hprinted⟩ := hreply
  -- everything between the two ends is squeezed
  have hsent : s.session.sent = e.request := by
    have := hreply ▸ hs.reply_isPrefix_sent
    exact ((hs.sent_isPrefix_received.trans hs.received_isPrefix_request).eq_of_length_le
      this.length_le)
  refine ⟨?_, hsent, hreply ▸ hprinted⟩
  have := hsent ▸ hs.sent_isPrefix_received
  exact hs.received_isPrefix_request.eq_of_length_le this.length_le

/-- One letter goes there and back. -/
def letterEvents : List NetworkEvent :=
  [.client (.send 1), .client (.written none), .session (.complete 0 ⟨none, str "a"⟩),
    .session (.handler 0), .session (.transfer 0 1), .client (.receive (str "a")), .client (.read none)]

/-- What `echo_client` has printed when the letter has come back, over a connection that holds one byte. -/
theorem echo_round_trip_letter :
    ∃ s, (echoNetwork echoClient false ⟨1, Nat.one_pos⟩ ⟨1, Nat.one_pos⟩ ⟨prompt, str "a"⟩).exec
        ⟨.start ⟨prompt, str "a"⟩, .started 0 (List.replicate dataSize 0)⟩ letterEvents = some s ∧
      s.client.printed = str "enter a msg\nsend 1 bytes\na\nread 1 bytes\n" := by
  have hexec : ∃ s, (echoNetwork echoClient false ⟨1, Nat.one_pos⟩ ⟨1, Nat.one_pos⟩
      ⟨prompt, str "a"⟩).exec ⟨.start ⟨prompt, str "a"⟩, .started 0 (List.replicate dataSize 0)⟩
        letterEvents = some s ∧ s.client.phase = .ended := ⟨_, rfl, rfl⟩
  obtain ⟨s, hexec, hended⟩ := hexec
  have hround := echo_round_trip ⟨_, _, ⟨0, _, List.length_replicate, rfl⟩, hexec⟩
  exact ⟨s, hexec, (hround.2 hended).2.2.trans (by decide)⟩

end AsioExamples.Echo
