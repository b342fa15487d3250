import AsioExamples.Asio.Operation
import AsioExamples.Echo.Client

/-!
# Datagram services

`blocking_udp_echo_server.cpp` and `udpdaytimesrv.cpp` with any number of their clients. A server receives a
datagram and sends one to where it came from; a client sends one datagram and prints the first one that it
receives, from whomever it is. A datagram that is longer than the buffer is cut.

The network may lose, repeat and reorder datagrams: what has been sent can be received at any time, any
number of times, or never. Two things are assumed: nobody else sends datagrams to them, and the endpoint of a
client is its own for good, so that no client is given the port of one that has ended while old datagrams to it
are about. Under these a client never has the answer to another one (`udp_answers`), although it does not look at
where its answer comes from.
-/

set_option autoImplicit false

namespace AsioExamples.Udp

open AsioExamples.Lib AsioExamples.Cxx AsioExamples.Asio
open AsioExamples.Echo (enterMessage maxLength length_enterMessage_lt)

/-! ## The programs -/

/-- A server: the size of its buffer, what it answers, and whether it goes on when it cannot send. What else an
answer depends on is an `α`. -/
structure Service (α : Type) where
  room : ℕ
  answer : α → List UInt8 → List UInt8
  ignoresSendErrors : Bool

/-- `server` in `blocking_udp_echo_server.cpp`. -/
def blockingUdpEchoServer : Service Unit := ⟨maxLength, fun _ bytes => bytes, false⟩

/-- `main` of `udpdaytimesrv.cpp`, where the time is that of the answer. -/
def udpdaytimesrv : Service (List UInt8) := ⟨1, fun message _ => message, true⟩

/-- A client: its datagram, and the size of the buffer for the answer. -/
structure ClientCode where
  request : List UInt8
  room : ℕ
  deriving DecidableEq, Repr

/-- `main` of `blocking_udp_echo_client.cpp`, with its standard input. -/
def blockingUdpEchoClient (input : List UInt8) : ClientCode :=
  ⟨(enterMessage (.new input)).request, maxLength⟩

/-- `main` of `udpdaytimecli.cpp`. -/
def udpdaytimecli : ClientCode := ⟨[0], 128⟩

/-! ## The system -/

/-- Where a datagram comes from, or goes to. No two clients ever have the same endpoint. -/
inductive Endpoint where
  | server
  | client (i : ℕ)
  deriving DecidableEq, Repr

/-- A datagram that was sent. -/
structure Datagram where
  source : Endpoint
  target : Endpoint
  bytes : List UInt8
  deriving DecidableEq, Repr

/-- Where a server is: in `receive_from`, in `send_to`, or at its end by an exception. -/
inductive ServerPhase where
  | receiving
  | sending (bytes : List UInt8) (target : Endpoint)
  | terminated (ec : ErrorCode)
  deriving DecidableEq, Repr

/-- Where a client is. It ends with its answer, or by an exception. -/
inductive ClientPhase where
  | sending
  | receiving
  | ended (reply : List UInt8)
  | terminated (ec : ErrorCode)
  deriving DecidableEq, Repr

/-- The server, the clients, and all datagrams that were ever sent. -/
structure UdpState where
  server : ServerPhase
  clients : ℕ → ClientPhase
  sent : List Datagram

/-- What can happen. -/
inductive UdpEvent (α : Type) where
  | serverReceives (d : Datagram)
  | serverSends (a : α)
  | serverFails (ec : ErrorCode)
  | clientSends (i : ℕ)
  | clientReceives (i : ℕ) (d : Datagram)
  | clientFails (i : ℕ) (ec : ErrorCode)

/-- A client goes on. -/
def UdpState.setClient (s : UdpState) (i : ℕ) (phase : ClientPhase) : UdpState :=
  { s with clients := Function.update s.clients i phase }

/-- The server has sent a datagram, and receives again. -/
def UdpState.reply (s : UdpState) (d : Datagram) : UdpState :=
  { s with server := .receiving, sent := s.sent ++ [d] }

/-- A service and its clients. -/
def udpMachine {α : Type} (S : Service α) (code : ℕ → ClientCode) : Machine UdpState (UdpEvent α) where
  init s := s = ⟨.receiving, fun _ => .sending, []⟩
  step s
    | .serverReceives d =>
        if s.server = .receiving ∧ d ∈ s.sent ∧ d.target = .server then
          some { s with server := .sending (d.bytes.take S.room) d.source }
        else none
    | .serverSends a =>
        match s.server with
        | .sending bytes target => some (s.reply ⟨.server, target, S.answer a bytes⟩)
        | _ => none
    | .serverFails ec =>
        match s.server with
        | .receiving => some { s with server := .terminated ec }
        | .sending _ _ =>
            some { s with server := if S.ignoresSendErrors then .receiving else .terminated ec }
        | .terminated _ => none
    | .clientSends i =>
        if s.clients i = .sending then
          some { s.setClient i .receiving with sent := s.sent ++ [⟨.client i, .server, (code i).request⟩] }
        else none
    | .clientReceives i d =>
        if s.clients i = .receiving ∧ d ∈ s.sent ∧ d.target = .client i then
          some (s.setClient i (.ended (d.bytes.take (code i).room)))
        else none
    | .clientFails i ec =>
        if s.clients i = .sending ∨ s.clients i = .receiving then some (s.setClient i (.terminated ec))
        else none

/-! ## What a step does -/

/-- What one step makes of a state. -/
inductive Stepped {α : Type} (S : Service α) (code : ℕ → ClientCode) (s : UdpState) : UdpState → Prop
  | received {d : Datagram} (hserver : s.server = .receiving) (hd : d ∈ s.sent)
      (htarget : d.target = .server) :
      Stepped S code s { s with server := .sending (d.bytes.take S.room) d.source }
  | answered {bytes : List UInt8} {target : Endpoint} (hserver : s.server = .sending bytes target) (a : α) :
      Stepped S code s (s.reply ⟨.server, target, S.answer a bytes⟩)
  | failed {phase : ServerPhase} (hserver : ∀ ec, s.server ≠ .terminated ec)
      (hphase : ∀ bytes target, phase ≠ .sending bytes target) : Stepped S code s { s with server := phase }
  | asked {i : ℕ} (hclient : s.clients i = .sending) :
      Stepped S code s
        { s.setClient i .receiving with sent := s.sent ++ [⟨.client i, .server, (code i).request⟩] }
  | ended {i : ℕ} {d : Datagram} (hclient : s.clients i = .receiving) (hd : d ∈ s.sent)
      (htarget : d.target = .client i) :
      Stepped S code s (s.setClient i (.ended (d.bytes.take (code i).room)))
  | gaveUp (i : ℕ) (ec : ErrorCode) : Stepped S code s (s.setClient i (.terminated ec))

section Steps

variable {α : Type} {S : Service α} {code : ℕ → ClientCode} {s t : UdpState}

theorem stepped {e : UdpEvent α} (h : (udpMachine S code).step s e = some t) : Stepped S code s t := by
  cases e with
  | serverReceives d =>
      obtain ⟨⟨hserver, hd, htarget⟩, heq⟩ := Option.ite_none_right_eq_some.1 h
      cases heq
      exact .received hserver hd htarget
  | serverSends a =>
      simp only [udpMachine] at h
      split at h
      · rename_i bytes target hserver
        cases h
        exact .answered hserver a
      · cases h
  | serverFails ec =>
      simp only [udpMachine] at h
      split at h
      · rename_i hserver
        cases h
        exact .failed (by simp [hserver]) nofun
      · rename_i bytes target hserver
        cases h
        exact .failed (by simp [hserver]) (by split <;> nofun)
      · cases h
  | clientSends i =>
      obtain ⟨hclient, heq⟩ := Option.ite_none_right_eq_some.1 h
      cases heq
      exact .asked hclient
  | clientReceives i d =>
      obtain ⟨⟨hclient, hd, htarget⟩, heq⟩ := Option.ite_none_right_eq_some.1 h
      cases heq
      exact .ended hclient hd htarget
  | clientFails i ec =>
      obtain ⟨-, heq⟩ := Option.ite_none_right_eq_some.1 h
      cases heq
      exact .gaveUp i ec

/-- What has been sent stays sent. -/
theorem Stepped.sent_subset (h : Stepped S code s t) : s.sent ⊆ t.sent := by
  cases h with
  | answered | asked => exact List.subset_append_left _ _
  | received | failed | ended | gaveUp => exact List.Subset.refl _

/-- A client that went on. -/
theorem clients_setClient {i j : ℕ} {phase : ClientPhase} :
    (s.setClient i phase).clients j = if j = i then phase else s.clients j := by
  simp [UdpState.setClient, Function.update_apply]

/-- What a step makes of a client: nothing, or it has asked, was answered, or has given up. -/
theorem Stepped.client_cases (h : Stepped S code s t) (i : ℕ) :
    t.clients i = s.clients i ∨
    (t.clients i = .receiving ∧ ⟨.client i, .server, (code i).request⟩ ∈ t.sent) ∨
    (∃ d ∈ s.sent, d.target = .client i ∧ t.clients i = .ended (d.bytes.take (code i).room)) ∨
    ∃ ec, t.clients i = .terminated ec := by
  cases h with
  | received | answered | failed => exact Or.inl rfl
  | @asked j =>
      rcases eq_or_ne i j with rfl | hij
      · exact Or.inr (Or.inl
          ⟨clients_setClient.trans (if_pos rfl), List.mem_append_right _ List.mem_cons_self⟩)
      · exact Or.inl (clients_setClient.trans (if_neg hij))
  | @ended j d hclient hd htarget =>
      rcases eq_or_ne i j with rfl | hij
      · exact Or.inr (Or.inr (Or.inl ⟨d, hd, htarget, clients_setClient.trans (if_pos rfl)⟩))
      · exact Or.inl (clients_setClient.trans (if_neg hij))
  | gaveUp j ec =>
      rcases eq_or_ne i j with rfl | hij
      · exact Or.inr (Or.inr (Or.inr ⟨ec, clients_setClient.trans (if_pos rfl)⟩))
      · exact Or.inl (clients_setClient.trans (if_neg hij))

/-- A client that ends has received a datagram. -/
theorem Stepped.ended_received (h : Stepped S code s t) {i : ℕ} {reply : List UInt8}
    (ht : t.clients i = .ended reply) : s.clients i = .ended reply ∨
      ∃ d ∈ s.sent, d.target = .client i ∧ reply = d.bytes.take (code i).room := by
  rcases h.client_cases i with hsame | ⟨hasked, -⟩ | ⟨d, hd, htarget, hended⟩ | ⟨ec, hfailed⟩
  · exact Or.inl (hsame ▸ ht)
  · cases hasked.symm.trans ht
  · cases hended.symm.trans ht
    exact Or.inr ⟨d, hd, htarget, rfl⟩
  · cases hfailed.symm.trans ht

/-- A client that waits has sent its datagram. -/
theorem Stepped.receiving_asked (h : Stepped S code s t) {i : ℕ} (ht : t.clients i = .receiving) :
    s.clients i = .receiving ∨ ⟨.client i, .server, (code i).request⟩ ∈ t.sent := by
  rcases h.client_cases i with hsame | ⟨-, hasked⟩ | ⟨d, -, -, hended⟩ | ⟨ec, hfailed⟩
  · exact Or.inl (hsame ▸ ht)
  · exact Or.inr hasked
  · cases hended.symm.trans ht
  · cases hfailed.symm.trans ht

/-! ## Who has which answer -/

/-- What every step keeps. A datagram to the server is the request of the client that it comes from, and a
datagram to a client is an answer to it. A client that waits has asked, and one that has ended was answered. -/
structure Addressed (S : Service α) (code : ℕ → ClientCode) (s : UdpState) : Prop where
  requests : ∀ d ∈ s.sent, d.target = .server → ∃ i, d.source = .client i ∧ d.bytes = (code i).request
  answers : ∀ d ∈ s.sent, ∀ i, d.target = .client i →
    d.source = .server ∧ ∃ a, d.bytes = S.answer a ((code i).request.take S.room)
  sending : ∀ bytes target, s.server = .sending bytes target →
    ∃ i, target = .client i ∧ bytes = (code i).request.take S.room
  asked : ∀ i, s.clients i = .receiving → ⟨.client i, .server, (code i).request⟩ ∈ s.sent
  ended : ∀ i reply, s.clients i = .ended reply →
    ∃ d ∈ s.sent, d.target = .client i ∧ reply = d.bytes.take (code i).room

theorem Addressed.init : Addressed S code ⟨.receiving, fun _ => .sending, []⟩ :=
  ⟨nofun, nofun, nofun, nofun, nofun⟩

/-- **Every step keeps it.** -/
theorem Addressed.step (hs : Addressed S code s) (h : Stepped S code s t) : Addressed S code t := by
  have hasked : ∀ i, t.clients i = .receiving → ⟨.client i, .server, (code i).request⟩ ∈ t.sent := fun i ht =>
    (h.receiving_asked ht).elim (fun hi => h.sent_subset (hs.asked i hi)) id
  have hended : ∀ i reply, t.clients i = .ended reply →
      ∃ d ∈ t.sent, d.target = .client i ∧ reply = d.bytes.take (code i).room := by
    intro i reply ht
    obtain ⟨d, hd, hanswer⟩ := (h.ended_received ht).elim (hs.ended i reply) id
    exact ⟨d, h.sent_subset hd, hanswer⟩
  cases h with
  | received hserver hd htarget =>
      obtain ⟨i, hsource, hbytes⟩ := hs.requests _ hd htarget
      refine ⟨hs.requests, hs.answers, ?_, hasked, hended⟩
      rintro bytes target ⟨⟩
      exact ⟨i, hsource, congrArg (List.take S.room) hbytes⟩
  | answered hserver a =>
      obtain ⟨i, rfl, rfl⟩ := hs.sending _ _ hserver
      refine ⟨?_, ?_, nofun, hasked, hended⟩
      · exact List.forall_mem_append.2 ⟨hs.requests, List.forall_mem_singleton.2 nofun⟩
      · refine List.forall_mem_append.2 ⟨hs.answers, List.forall_mem_singleton.2 ?_⟩
        rintro j ⟨⟩
        exact ⟨rfl, a, rfl⟩
  | failed hserver hphase =>
      refine ⟨hs.requests, hs.answers, ?_, hasked, hended⟩
      exact fun bytes target heq => absurd heq (hphase bytes target)
  | asked hclient =>
      refine ⟨?_, ?_, hs.sending, hasked, hended⟩
      · exact List.forall_mem_append.2 ⟨hs.requests, List.forall_mem_singleton.2 fun _ => ⟨_, rfl, rfl⟩⟩
      · exact List.forall_mem_append.2 ⟨hs.answers, List.forall_mem_singleton.2 nofun⟩
  | ended | gaveUp => exact ⟨hs.requests, hs.answers, hs.sending, hasked, hended⟩

theorem addressed_of_reachable (h : (udpMachine S code).Reachable s) : Addressed S code s := by
  refine h.invariant ?_ fun s e t hs hstep => hs.step (stepped hstep)
  rintro s rfl
  exact .init

/-! ## Who can still be answered -/

/-- The server has ended, the client waits, and there is no answer to it. -/
structure Unanswered (i : ℕ) (s : UdpState) : Prop where
  server : ∃ ec, s.server = .terminated ec
  client : ∀ reply, s.clients i ≠ .ended reply
  sent : ∀ d ∈ s.sent, d.target ≠ .client i

/-- **Nobody ever answers it.** -/
theorem Unanswered.step {i : ℕ} (hs : Unanswered i s) (h : Stepped S code s t) : Unanswered i t := by
  obtain ⟨ec, hserver⟩ := hs.server
  have hclient : ∀ reply, t.clients i ≠ .ended reply := by
    intro reply ht
    rcases h.ended_received ht with hi | ⟨d, hd, htarget, -⟩
    · exact hs.client reply hi
    · exact hs.sent d hd htarget
  cases h with
  | received hreceiving => rw [hserver] at hreceiving; cases hreceiving
  | answered hsending => rw [hserver] at hsending; cases hsending
  | failed hlives => exact absurd hserver (hlives ec)
  | asked =>
      refine ⟨⟨ec, hserver⟩, hclient, ?_⟩
      exact List.forall_mem_append.2 ⟨hs.sent, List.forall_mem_singleton.2 nofun⟩
  | ended | gaveUp => exact ⟨⟨ec, hserver⟩, hclient, hs.sent⟩

/-- A client that waits takes an answer that was sent. -/
theorem exists_exec_of_answer {i : ℕ} {d : Datagram} (hclient : s.clients i = .receiving) (hd : d ∈ s.sent)
    (htarget : d.target = .client i) :
    ∃ es t reply, (udpMachine S code).exec s es = some t ∧ t.clients i = .ended reply := by
  have hreceives : (udpMachine S code).step s (.clientReceives i d) =
      some (s.setClient i (.ended (d.bytes.take (code i).room))) :=
    if_pos ⟨hclient, hd, htarget⟩
  exact ⟨[.clientReceives i d], _, _, (Machine.exec_singleton _ _ _).trans hreceives,
    clients_setClient.trans (if_pos rfl)⟩

/-- A server that receives answers a client that waits. -/
theorem exists_exec_of_receiving (a : α) {i : ℕ} (hs : Addressed S code s)
    (hclient : s.clients i = .receiving) (hserver : s.server = .receiving) :
    ∃ es t reply, (udpMachine S code).exec s es = some t ∧ t.clients i = .ended reply := by
  set d : Datagram := ⟨.client i, .server, (code i).request⟩
  set r : Datagram := ⟨.server, .client i, S.answer a (d.bytes.take S.room)⟩
  have hreceives : (udpMachine S code).step s (.serverReceives d) =
      some { s with server := .sending (d.bytes.take S.room) d.source } :=
    if_pos ⟨hserver, hs.asked i hclient, rfl⟩
  obtain ⟨es, t, reply, hes, ht⟩ :=
    @exists_exec_of_answer α S code (s.reply r) i r hclient (List.mem_append_right _ List.mem_cons_self) rfl
  refine ⟨.serverReceives d :: .serverSends a :: es, t, reply, ?_, ht⟩
  exact (Machine.exec_cons_eq_some _).2 ⟨_, hreceives, (Machine.exec_cons_eq_some _).2 ⟨_, rfl, hes⟩⟩

end Steps

/-! ## The services -/

/-- **Nobody has the answer to another**, where every client has an endpoint of its own. The messages fit into the
buffers of the echo service, so its clients have what they have sent. What a daytime client prints was sent to
it, and may be cut. -/
theorem udp_answers :
    (∀ (input : ℕ → List UInt8) s,
      (udpMachine blockingUdpEchoServer fun i => blockingUdpEchoClient (input i)).Reachable s →
      ∀ i reply, s.clients i = .ended reply → reply = (enterMessage (.new (input i))).request) ∧
    ∀ s, (udpMachine udpdaytimesrv fun _ => udpdaytimecli).Reachable s →
      ∀ i reply, s.clients i = .ended reply →
        ∃ d ∈ s.sent, d.source = .server ∧ d.target = .client i ∧ reply = d.bytes.take 128 := by
  constructor
  · intro input s h i reply hend
    have hs := addressed_of_reachable h
    obtain ⟨d, hd, htarget, hreply⟩ := hs.ended i reply hend
    obtain ⟨-, _, hbytes⟩ := hs.answers d hd i htarget
    have hfits : (enterMessage (.new (input i))).request.length ≤ maxLength :=
      (length_enterMessage_lt _).le
    calc reply = ((enterMessage (.new (input i))).request.take maxLength).take maxLength :=
          hreply.trans (congrArg (List.take maxLength) hbytes)
      _ = (enterMessage (.new (input i))).request := by
          rw [List.take_of_length_le hfits, List.take_of_length_le hfits]
  · intro s h i reply hend
    have hs := addressed_of_reachable h
    obtain ⟨d, hd, htarget, hreply⟩ := hs.ended i reply hend
    exact ⟨d, hd, (hs.answers d hd i htarget).1, htarget, hreply⟩

/-- Both clients ask before the server answers, and the first one reads last. -/
def twoClients : List (UdpEvent Unit) :=
  [.clientSends 0, .clientSends 1, .serverReceives ⟨.client 1, .server, str "b"⟩, .serverSends (),
    .serverReceives ⟨.client 0, .server, str "a"⟩, .serverSends (),
    .clientReceives 1 ⟨.server, .client 1, str "b"⟩, .clientReceives 0 ⟨.server, .client 0, str "a"⟩]

/-- Both have what they have sent. -/
theorem udp_answers_two :
    ∃ s, (udpMachine blockingUdpEchoServer fun i =>
        blockingUdpEchoClient (if i = 0 then str "a\n" else str "b\n")).exec
          ⟨.receiving, fun _ => .sending, []⟩ twoClients = some s ∧
      s.clients 0 = .ended (str "a") ∧ s.clients 1 = .ended (str "b") := by
  have hexec : ∃ s, (udpMachine blockingUdpEchoServer fun i =>
      blockingUdpEchoClient (if i = 0 then str "a\n" else str "b\n")).exec
        ⟨.receiving, fun _ => .sending, []⟩ twoClients = some s ∧
      (∃ reply, s.clients 0 = .ended reply) ∧ ∃ reply, s.clients 1 = .ended reply :=
    ⟨_, rfl, ⟨_, rfl⟩, _, rfl⟩
  obtain ⟨s, hexec, ⟨reply, hreply⟩, reply', hreply'⟩ := hexec
  have hreach := Machine.Reachable.exec (.of_init rfl) hexec
  have hfirst := udp_answers.1 _ s hreach 0 reply hreply
  have hsecond := udp_answers.1 _ s hreach 1 reply' hreply'
  refine ⟨s, hexec, hreply.trans (congrArg _ (hfirst.trans (by decide))),
    hreply'.trans (congrArg _ (hsecond.trans (by decide)))⟩

/-- **A client that waits can still be answered if the server still runs, or has answered it already.** Nothing
else ends its wait but a failure of its own. -/
theorem udp_can_end_iff {α : Type} [Inhabited α] {S : Service α} {code : ℕ → ClientCode} {s : UdpState}
    (h : (udpMachine S code).Reachable s) {i : ℕ} (hclient : s.clients i = .receiving) :
    (∃ es t reply, (udpMachine S code).exec s es = some t ∧ t.clients i = .ended reply) ↔
      (∀ ec, s.server ≠ .terminated ec) ∨ ∃ d ∈ s.sent, d.target = .client i := by
  have hs := addressed_of_reachable h
  constructor
  · rintro ⟨es, t, reply, hes, ht⟩
    by_contra hnot
    obtain ⟨hserver, hsent⟩ := not_or.1 hnot
    have hun : Unanswered i s := by
      refine ⟨by simpa using hserver, by simp [hclient], ?_⟩
      intro d hd htarget
      exact hsent ⟨d, hd, htarget⟩
    have hun' : Unanswered i t :=
      Machine.exec_preserves (fun s e t hs hstep => hs.step (stepped hstep)) hun hes
    exact hun'.client reply ht
  · rintro (hserver | ⟨d, hd, htarget⟩)
    · cases hphase : s.server with
      | receiving => exact exists_exec_of_receiving default hs hclient hphase
      | sending bytes target =>
          -- what is in the way is sent first
          have hsends : (udpMachine S code).step s (.serverSends default) =
              some (s.reply ⟨.server, target, S.answer default bytes⟩) := by
            simp only [udpMachine, hphase]
          have hs' := hs.step (stepped hsends)
          obtain ⟨es, t, reply, hes, ht⟩ := exists_exec_of_receiving default hs' hclient rfl
          exact ⟨.serverSends default :: es, t, reply, (Machine.exec_cons_eq_some _).2 ⟨_, hsends, hes⟩, ht⟩
      | terminated ec => exact absurd hphase (hserver ec)
    · exact exists_exec_of_answer hclient hd htarget

/-- A client that has asked a daytime server, which has then failed, waits for good. -/
theorem udp_can_end_iff_failed :
    ∃ s, (udpMachine udpdaytimesrv fun _ => udpdaytimecli).exec ⟨.receiving, fun _ => .sending, []⟩
        [.clientSends 0, .serverFails (.other 1)] = some s ∧
      ¬ ∃ es t reply, (udpMachine udpdaytimesrv fun _ => udpdaytimecli).exec s es = some t ∧
        t.clients 0 = .ended reply := by
  have hexec : ∃ s, (udpMachine udpdaytimesrv fun _ => udpdaytimecli).exec
      ⟨.receiving, fun _ => .sending, []⟩ [.clientSends 0, .serverFails (.other 1)] = some s ∧
      s.clients 0 = .receiving ∧ s.server = .terminated (.other 1) ∧
      s.sent = [⟨.client 0, .server, [0]⟩] := ⟨_, rfl, rfl, rfl, rfl⟩
  obtain ⟨s, hexec, hclient, hserver, hsent⟩ := hexec
  refine ⟨s, hexec, fun hcan => ?_⟩
  rcases (udp_can_end_iff (.exec (.of_init rfl) hexec) hclient).1 hcan with hruns | ⟨d, hd, htarget⟩
  · exact hruns _ hserver
  · rw [hsent, List.mem_singleton] at hd
    rw [hd] at htarget
    cases htarget

end AsioExamples.Udp
