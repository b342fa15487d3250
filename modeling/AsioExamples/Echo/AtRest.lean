import AsioExamples.Echo.Network

/-!
# When an echo client ends

Runs in which no operation fails. Such a run is short (`work`), so what remains is where it can stop. When the
client has not ended, something can go on, except in one situation (`Stuck`): the client is still
sending, both directions of the connection are full, and the session has read something that it cannot
send. There has to be room for one byte less than the message for that, and when there is not, reading
byte by byte leads to it.
-/

set_option autoImplicit false

namespace AsioExamples.Echo

open AsioExamples.Lib AsioExamples.Cxx AsioExamples.Asio

/-! ## Runs without an error -/

/-- An operation ends with an error. -/
def NetworkEvent.fails : NetworkEvent → Bool
  | .client (.written ec) => ec.isSome
  | .client (.read ec) => ec.isSome
  | .session (.complete _ c) => c.ec.isSome
  | _ => false

/-- No operation ends with an error, and no read of the session brings more than one byte. -/
def NetworkEvent.byteByByte : NetworkEvent → Bool
  | .session (.complete _ c) => c.ec.isNone && decide (c.bytes.length ≤ 1)
  | ev => !ev.fails

theorem NetworkEvent.not_fails_of_byteByByte {ev : NetworkEvent} (h : ev.byteByByte = true) :
    (!ev.fails) = true := by
  match ev with
  | .client _ => exact h
  | .session (.transfer _ _) => rfl
  | .session (.handler _) => rfl
  | .session (.complete _ c) =>
      obtain ⟨hec, -⟩ := Bool.and_eq_true_iff.1 h
      simpa [fails] using hec

/-- The client and its session, where no operation ends with an error. -/
def undisturbed (code : ClientCode) (closesOnError : Bool) (up down : Pipe) (e : Entered) :
    Machine EchoNetwork NetworkEvent :=
  (echoNetwork code closesOnError up down e).restrict fun ev => !ev.fails

/-- What is outstanding in a session in which nothing has failed. -/
inductive Ready : List (Pending EchoOp) → Prop
  | reading : Ready [⟨.readSome, false, none⟩]
  | hasRead (c : Completion) (hec : c.ec = none) (hne : c.bytes ≠ []) : Ready [⟨.readSome, false, some c⟩]
  | writing (length sent : ℕ) : Ready [⟨.write length sent, false, none⟩]
  | written (length sent : ℕ) (c : Completion) (hec : c.ec = none) :
      Ready [⟨.write length sent, false, some c⟩]

/-- What happens to a session in which nothing has failed. -/
inductive EchoSession.Goes (s : EchoSession) : EchoEvent → EchoSession → Prop
  | read {c : Completion} (hpending : s.pending = [⟨.readSome, false, none⟩]) (hec : c.ec = none)
      (hne : c.bytes ≠ []) :
      Goes s (.complete 0 c) { s with
        pending := [⟨.readSome, false, some c⟩]
        data_ := c.bytes ++ s.data_.drop c.bytes.length
        received := s.received ++ c.bytes }
  | written {length : ℕ} {c : Completion} (hpending : s.pending = [⟨.write length length, false, none⟩])
      (hec : c.ec = none) :
      Goes s (.complete 0 c) { s with pending := [⟨.write length length, false, some c⟩] }
  | transfer {length sent n : ℕ} (hpending : s.pending = [⟨.write length sent, false, none⟩])
      (hpos : 0 < n) (hle : sent + n ≤ length) :
      Goes s (.transfer 0 n) { s with
        pending := [⟨.write length (sent + n), false, none⟩]
        sent := s.sent ++ ((s.data_.take length).drop sent).take n }
  | readHandler {c : Completion} (hpending : s.pending = [⟨.readSome, false, some c⟩]) :
      Goes s (.handler 0) { s with pending := [⟨.write c.bytes.length 0, false, none⟩] }
  | writeHandler {length sent : ℕ} {c : Completion}
      (hpending : s.pending = [⟨.write length sent, false, some c⟩]) :
      Goes s (.handler 0) { s with pending := [⟨.readSome, false, none⟩] }

namespace EchoSession

variable {closesOnError : Bool} {s t : EchoSession} {ev : EchoEvent}

/-- **Every step of a session without an error is one of them.** -/
theorem goes (hopen : s.socket_.isSome = true) (hready : Ready s.pending) (hmoves : s.moves ev = true)
    (hfails : (NetworkEvent.session ev).fails = false)
    (hstep : (echoMachine closesOnError).step s ev = some t) : s.Goes ev t := by
  have honly : s.pending.length ≤ 1 := by
    generalize s.pending = ps at hready
    cases hready
    all_goals exact le_rfl
  obtain ⟨⟨u, acts⟩, hu, rfl⟩ := Option.map_eq_some_iff.1 hstep
  cases ev with
  | complete i c =>
      obtain ⟨u', hu', heq⟩ := Option.map_eq_some_iff.1 hu
      cases heq
      have hec : c.ec = none := Option.isNone_iff_eq_none.1 (by simpa [NetworkEvent.fails] using hfails)
      obtain ⟨⟨op, startedClosed, done⟩, hp, hnone, hcase⟩ := EchoSession.complete_cases hu'
      obtain ⟨hpending, rfl⟩ := eq_singleton_of_length_le_one honly hp
      have hnone : done = none := hnone
      subst hnone
      have hclosed : startedClosed = false := by
        rw [hpending] at hready
        cases hready <;> rfl
      subst hclosed
      rcases hcase with ⟨rfl, -, rfl⟩ | ⟨length, sent, rfl, hdone, rfl⟩
      · have hne : c.bytes ≠ [] := by
          have := of_decide_eq_true hmoves
          exact this (by rw [hpending]; rfl) hec
        simp only [hpending, List.set_cons_zero, List.foldl_nil]
        exact .read hpending hec hne
      · obtain rfl := hdone hec
        simp only [hpending, List.set_cons_zero, List.foldl_nil]
        exact .written hpending hec
  | transfer i n =>
      obtain ⟨u', hu', heq⟩ := Option.map_eq_some_iff.1 hu
      cases heq
      obtain ⟨length, sent, startedClosed, hp, hle, rfl⟩ := EchoSession.transfer_cases hu'
      obtain ⟨hpending, rfl⟩ := eq_singleton_of_length_le_one honly hp
      have hclosed : startedClosed = false := by
        rw [hpending] at hready
        cases hready
        rfl
      subst hclosed
      simp only [hpending, List.set_cons_zero, List.foldl_nil]
      exact .transfer hpending (of_decide_eq_true hmoves) hle
  | handler i =>
      obtain ⟨⟨op, done, ps⟩, hd, heq⟩ := Option.map_eq_some_iff.1 hu
      obtain ⟨⟨op', startedClosed, completion⟩, hp, rfl, hdone, rfl⟩ := dispatch_eq_some hd
      obtain ⟨hpending, rfl⟩ := eq_singleton_of_length_le_one honly hp
      have hdone : completion = some done := hdone
      subst hdone
      cases heq
      have hsocket : s.socket_.isNone = false := by
        obtain ⟨conn, hconn⟩ := Option.isSome_iff_exists.1 hopen
        rw [hconn]
        rfl
      rw [hpending] at hready
      cases hready with
      | hasRead _ hec _ =>
          simp only [EchoOp.handler, readHandler, hec, if_true, List.foldl_cons, List.foldl_nil, perform,
            hpending, List.eraseIdx_cons_zero, List.nil_append, hsocket]
          exact .readHandler hpending
      | written length sent _ hec =>
          simp only [EchoOp.handler, writeHandler, hec, if_true, List.foldl_cons, List.foldl_nil, perform,
            hpending, List.eraseIdx_cons_zero, List.nil_append, hsocket]
          exact .writeHandler hpending

/-- What happens keeps it so. -/
theorem Goes.ready (h : s.Goes ev t) : t.socket_ = s.socket_ ∧ (Ready s.pending → Ready t.pending) := by
  cases h with
  | read _ hec hne => exact ⟨rfl, fun _ => .hasRead _ hec hne⟩
  | written _ hec => exact ⟨rfl, fun _ => .written _ _ _ hec⟩
  | transfer _ _ _ => exact ⟨rfl, fun _ => .writing _ _⟩
  | readHandler _ => exact ⟨rfl, fun _ => .writing _ _⟩
  | writeHandler _ => exact ⟨rfl, fun _ => .reading⟩

/-- **A session goes on**: silently, or it can read the next byte, or it can send one of the bytes that it
has received and not yet sent. -/
theorem goesOn (closesOnError : Bool) (hs : Echoing s) (hopen : s.socket_.isSome = true)
    (hready : Ready s.pending) :
    (∃ ev t, (NetworkEvent.session ev).byteByByte = true ∧ s.moves ev = true ∧
      (echoMachine closesOnError).step s ev = some t ∧ t.received = s.received ∧ t.sent = s.sent) ∨
    (s.received = s.sent ∧ ∀ x, ∃ ev t, (NetworkEvent.session ev).byteByByte = true ∧
      s.moves ev = true ∧ (echoMachine closesOnError).step s ev = some t ∧
      t.received = s.received ++ [x] ∧ t.sent = s.sent) ∨
    ∃ length sent, s.pending = [⟨.write length sent, false, none⟩] ∧ sent < length ∧
      s.sent.length < s.received.length ∧ ∃ ev t x, (NetworkEvent.session ev).byteByByte = true ∧
        s.moves ev = true ∧ (echoMachine closesOnError).step s ev = some t ∧
        t.received = s.received ∧ t.sent = s.sent ++ [x] := by
  have hprogress := hs.progress
  have hsize := hs.size
  obtain ⟨socket_, data_, pending, received, sent'⟩ := s
  obtain ⟨conn, rfl⟩ := Option.isSome_iff_exists.1 hopen
  have hready : Ready pending := hready
  cases hready with
  | reading =>
      cases hprogress with
      | reading _ heq =>
          refine Or.inr (Or.inl ⟨heq, fun x => ⟨.complete 0 ⟨none, [x]⟩, _, rfl, ?_, rfl, rfl, rfl⟩⟩)
          simp [moves]
  | hasRead c hec hne =>
      refine Or.inl ⟨.handler 0, _, rfl, rfl, rfl, ?_⟩
      simp [EchoOp.handler, readHandler, hec, perform]
  | written length sent c hec =>
      refine Or.inl ⟨.handler 0, _, rfl, rfl, rfl, ?_⟩
      simp [EchoOp.handler, writeHandler, hec, perform]
  | writing length sent =>
      cases hprogress with
      | writing _ _ _ _ hsent hlength heq _ =>
          rcases hsent.eq_or_lt with rfl | hlt
          · -- everything has been sent, so the write can end
            refine Or.inl ⟨.complete 0 ⟨none, []⟩,
              ⟨some conn, data_, [⟨.write sent sent, false, some ⟨none, []⟩⟩], received, sent'⟩,
              rfl, ?_, ?_, rfl, rfl⟩
            · simp [moves]
            · simp [echoMachine, EchoSession.step, EchoSession.complete, Asio.complete, mayComplete]
          · -- the next byte of the buffer
            have hsize : data_.length = dataSize := hsize
            have hleft : ((data_.take length).drop sent).length = length - sent := by
              rw [List.length_drop, List.length_take]
              omega
            obtain ⟨x, hx⟩ := List.length_eq_one_iff.1
              (show (((data_.take length).drop sent).take 1).length = 1 by
                rw [List.length_take, hleft]
                omega)
            have hmore : sent'.length < received.length := by
              have := congrArg List.length heq
              rw [List.length_append, hleft] at this
              dsimp only at this
              omega
            refine Or.inr (Or.inr ⟨length, sent, rfl, hlt, hmore, .transfer 0 1,
              ⟨some conn, data_, [⟨.write length (sent + 1), false, none⟩], received, sent' ++ [x]⟩,
              x, rfl, rfl, ?_, rfl, rfl⟩)
            simp only [echoMachine, EchoSession.step, EchoSession.transfer, List.getElem?_cons_zero,
              Option.isSome_some, and_true, if_pos (Nat.succ_le_of_lt hlt), hx, Option.map_some,
              List.set_cons_zero, List.foldl_nil]

end EchoSession

/-! ## How long a run is -/

/-- What a session has still to do with the bytes that it has read. -/
def EchoSession.work (s : EchoSession) : ℕ :=
  match s.pending with
  | [⟨.readSome, _, some c⟩] => c.bytes.length + 3
  | [⟨.write length sent, _, none⟩] => length - sent + 2
  | [⟨.write _ _, _, some _⟩] => 1
  | _ => 0

/-- What a client has still to do. -/
def EchoClient.work (c : EchoClient) : ℕ :=
  (c.request.length - c.sent) + (c.request.length - c.reply.length) +
    match c.phase with
    | .writing => 2
    | .reading => 1
    | _ => 0

/-- An upper bound for what can still happen. A byte that the session reads costs five steps at most. -/
def EchoNetwork.work (s : EchoNetwork) : ℕ :=
  s.client.work + 5 * (s.client.request.length - s.session.received.length) + s.session.work

/-- What every step keeps where nothing fails. -/
structure Undisturbed (code : ClientCode) (up down : Pipe) (e : Entered) (s : EchoNetwork) : Prop where
  roundTrip : RoundTrip code up down e s
  isOpen : s.session.socket_.isSome = true
  ready : Ready s.session.pending
  phase : ∀ ec, s.client.phase ≠ .terminated ec

variable {code : ClientCode} {closesOnError : Bool} {up down : Pipe} {e : Entered}
  {s t : EchoNetwork} {ev : NetworkEvent}

/-- A step of the client makes its work less. -/
theorem Asking.work_lt {c d : EchoClient} (h : Asking code e c) {ev : ClientEvent}
    (hstep : c.step code ev = some d) : d.work < c.work := by
  have hd := h.step hstep
  cases ev with
  | send n =>
      obtain ⟨⟨hphase, hpos, hle⟩, heq⟩ := Option.ite_none_right_eq_some.1 hstep
      cases heq
      simp only [EchoClient.work, hphase]
      omega
  | receive bytes =>
      obtain ⟨⟨hphase, hne, hle⟩, heq⟩ := Option.ite_none_right_eq_some.1 hstep
      cases heq
      have := List.length_pos_of_ne_nil hne
      simp only [EchoClient.work, hphase, List.length_append]
      omega
  | written ec =>
      cases ec with
      | none =>
          obtain ⟨⟨hphase, hsent⟩, heq⟩ := Option.ite_none_right_eq_some.1 hstep
          cases heq
          simp only [EchoClient.work, hphase]
          omega
      | some ec =>
          obtain ⟨hphase, heq⟩ := Option.ite_none_right_eq_some.1 hstep
          cases heq
          simp only [EchoClient.work, hphase]
          omega
  | read ec =>
      cases ec with
      | none =>
          obtain ⟨⟨hphase, hreply⟩, heq⟩ := Option.ite_none_right_eq_some.1 hstep
          cases heq
          simp only [EchoClient.work, hphase]
          omega
      | some ec =>
          obtain ⟨hphase, heq⟩ := Option.ite_none_right_eq_some.1 hstep
          cases heq
          simp only [EchoClient.work, hphase]
          omega

/-- A step of the session makes its work less, or brings bytes that pay for the work with them. -/
theorem EchoSession.Goes.work_lt {s t : EchoSession} {ev : EchoEvent} (h : s.Goes ev t) {n : ℕ}
    (hle : t.received.length ≤ n) :
    5 * (n - t.received.length) + t.work < 5 * (n - s.received.length) + s.work := by
  cases h with
  | read hpending _ hne =>
      have := List.length_pos_of_ne_nil hne
      simp only [List.length_append] at hle
      simp only [EchoSession.work, hpending, List.length_append]
      omega
  | written hpending _ => simp [EchoSession.work, hpending]
  | transfer hpending hpos hle' =>
      simp only [EchoSession.work, hpending]
      omega
  | readHandler hpending => simp [EchoSession.work, hpending]
  | writeHandler hpending => simp [EchoSession.work, hpending]

namespace Undisturbed

/-- **A step without an error** keeps it, and leaves less to do. -/
theorem step (hs : Undisturbed code up down e s)
    (h : (undisturbed code closesOnError up down e).step s ev = some t) :
    Undisturbed code up down e t ∧ t.work < s.work := by
  obtain ⟨hok, h⟩ := Machine.restrict_step_eq_some.1 h
  have hok : ev.fails = false := by simpa using hok
  have ht := hs.roundTrip.step h
  obtain ⟨hstep, -⟩ := echoNetwork_step h
  have hrequest : t.client.request.length = s.client.request.length := by
    rw [ht.asking.request_eq, hs.roundTrip.asking.request_eq]
  have hreceived : t.session.received.length ≤ t.client.request.length := by
    rw [ht.asking.request_eq]
    exact ht.received_isPrefix_request.length_le
  cases hstep with
  | @client ev c hc =>
      refine ⟨⟨ht, hs.isOpen, hs.ready, ?_⟩, ?_⟩
      · intro ec hphase
        have hphase : c.phase = .terminated ec := hphase
        cases ev with
        | send n =>
            obtain ⟨⟨hw, -⟩, heq⟩ := Option.ite_none_right_eq_some.1 hc
            cases heq
            exact hs.phase ec hphase
        | receive bytes =>
            obtain ⟨⟨hw, -⟩, heq⟩ := Option.ite_none_right_eq_some.1 hc
            cases heq
            exact hs.phase ec hphase
        | written ec' =>
            obtain rfl : ec' = none := by simpa [NetworkEvent.fails] using hok
            obtain ⟨-, heq⟩ := Option.ite_none_right_eq_some.1 hc
            cases heq
            cases hphase
        | read ec' =>
            obtain rfl : ec' = none := by simpa [NetworkEvent.fails] using hok
            obtain ⟨-, heq⟩ := Option.ite_none_right_eq_some.1 hc
            cases heq
            cases hphase
      · have hless := hs.roundTrip.asking.work_lt hc
        simp only [EchoNetwork.work] at *
        rw [hrequest]
        omega
  | session hmoves hc =>
      have hgoes := EchoSession.goes hs.isOpen hs.ready hmoves hok hc
      obtain ⟨hsocket, hready⟩ := hgoes.ready
      refine ⟨⟨ht, hsocket ▸ hs.isOpen, hready hs.ready, hs.phase⟩, ?_⟩
      have hless := hgoes.work_lt hreceived
      simp only [EchoNetwork.work]
      omega

/-! ## Where a run can stop -/

end Undisturbed

/-- Nobody can do anything: the client has not sent everything, both directions of the connection are full,
and the session is sending. -/
structure Stuck (up down : Pipe) (s : EchoNetwork) : Prop where
  phase : s.client.phase = .writing
  unsent : s.client.sent < s.client.request.length
  up_full : s.client.wire.length = s.session.received.length + up.capacity
  down_full : s.session.sent.length = s.client.reply.length + down.capacity
  sending : ∃ length sent, s.session.pending = [⟨.write length sent, false, none⟩] ∧ sent < length
  unechoed : s.session.sent.length < s.session.received.length

theorem step_client {c : EchoClient} {ev : ClientEvent} (hstep : s.client.step code ev = some c)
    (hcarried : EchoNetwork.Carried up down ⟨c, s.session⟩) :
    (echoNetwork code closesOnError up down e).step s (.client ev) = some ⟨c, s.session⟩ := by
  simp only [echoNetwork, hstep, Option.bind_some, if_pos hcarried]

theorem step_session {c : EchoSession} {ev : EchoEvent} (hmoves : s.session.moves ev = true)
    (hstep : (echoMachine closesOnError).step s.session ev = some c)
    (hcarried : EchoNetwork.Carried up down ⟨s.client, c⟩) :
    (echoNetwork code closesOnError up down e).step s (.session ev) = some ⟨s.client, c⟩ := by
  simp only [echoNetwork, if_pos hmoves, hstep, Option.bind_some, if_pos hcarried]

namespace Undisturbed

/-- The session goes on where the connection has something for it to read, and room for what it sends. -/
theorem session_goesOn (closesOnError : Bool) (hs : Undisturbed code up down e s)
    (hread : s.session.received = s.session.sent →
      s.session.received.length < s.client.wire.length) :
    (∃ ev t, ev.byteByByte = true ∧ (echoNetwork code closesOnError up down e).step s ev = some t) ∨
      s.session.sent.length = s.client.reply.length + down.capacity ∧
      (∃ length sent, s.session.pending = [⟨.write length sent, false, none⟩] ∧ sent < length) ∧
      s.session.sent.length < s.session.received.length := by
  obtain ⟨⟨hreceived, hup⟩, hreply, hdown⟩ := hs.roundTrip.carried
  rcases EchoSession.goesOn closesOnError hs.roundTrip.echoing hs.isOpen hs.ready with
    ⟨ev, t, hok, hmoves, hstep, hr, hsent⟩ | ⟨heq, hnext⟩ |
    ⟨length, sent, hpending, hlt, hunechoed, ev, t, x, hok, hmoves, hstep, hr, hsent⟩
  · refine Or.inl ⟨_, _, hok, step_session hmoves hstep ⟨?_, ?_⟩⟩
    · rw [hr]
      exact ⟨hreceived, hup⟩
    · rw [hsent]
      exact ⟨hreply, hdown⟩
  · -- the next byte has been sent
    obtain ⟨x, hx⟩ := exists_concat_isPrefix hreceived (hread heq)
    obtain ⟨ev, t, hok, hmoves, hstep, hr, hsent⟩ := hnext x
    refine Or.inl ⟨_, _, hok, step_session hmoves hstep ⟨?_, ?_⟩⟩
    · rw [hr]
      refine ⟨hx, hup.trans ?_⟩
      rw [List.length_append]
      omega
    · rw [hsent]
      exact ⟨hreply, hdown⟩
  · by_cases hroom : s.session.sent.length < s.client.reply.length + down.capacity
    · refine Or.inl ⟨_, _, hok, step_session hmoves hstep ⟨?_, ?_⟩⟩
      · rw [hr]
        exact ⟨hreceived, hup⟩
      · rw [hsent]
        refine ⟨hreply.trans (List.prefix_append _ _), ?_⟩
        rw [List.length_append]
        exact hroom
    · exact Or.inr ⟨le_antisymm hdown (not_lt.1 hroom), ⟨length, sent, hpending, hlt⟩, hunechoed⟩

/-- **Something can go on**, unless the client has ended or nobody can do anything. It can do so byte by
byte. -/
theorem goesOn_or_stuck (closesOnError : Bool) (hs : Undisturbed code up down e s)
    (hended : s.client.phase ≠ .ended) :
    (∃ ev t, ev.byteByByte = true ∧ (echoNetwork code closesOnError up down e).step s ev = some t) ∨
      Stuck up down s := by
  obtain ⟨⟨hreceived, hup⟩, hreply, hdown⟩ := hs.roundTrip.carried
  have hasking := hs.roundTrip.asking
  have hwire := hasking.length_wire
  have hsent := hasking.sent_le
  cases hphase : s.client.phase with
  | ended => exact absurd hphase hended
  | terminated ec => exact absurd hphase (hs.phase ec)
  | writing =>
      rw [← hasking.request_eq] at hsent
      rcases hsent.eq_or_lt with hall | hlt
      · -- everything has been sent
        refine Or.inl ⟨.client (.written none), _, rfl, step_client (if_pos ⟨hphase, hall⟩) ?_⟩
        exact ⟨⟨hreceived, hup⟩, hreply, hdown⟩
      · by_cases hroom : s.client.wire.length < s.session.received.length + up.capacity
        · refine Or.inl ⟨.client (.send 1), _, rfl,
            step_client (if_pos ⟨hphase, Nat.one_pos, hlt⟩) ⟨⟨?_, ?_⟩, hreply, hdown⟩⟩
          · exact hreceived.trans (List.take_prefix_take_left (Nat.le_succ _))
          · rw [EchoClient.wire, List.length_take_of_le hlt]
            dsimp only
            omega
        · have hfull := le_antisymm hup (not_lt.1 hroom)
          have hpos := up.pos
          rcases hs.session_goesOn closesOnError (fun _ => by omega) with hgo | ⟨hback, hsending, hun⟩
          · exact Or.inl hgo
          · exact Or.inr ⟨hphase, hlt, hfull, hback, hsending, hun⟩
  | reading =>
      have hall : s.client.wire.length = e.request.length := by
        rw [hwire]
        generalize s.client = c at hasking hphase
        cases hasking with
        | reading _ => rfl
        | writing _ => cases hphase
        | ended _ => cases hphase
        | terminated _ _ => cases hphase
      rcases hasking.reply_le.eq_or_lt with hfull | hmissing
      · -- everything has come back
        rw [← hasking.request_eq] at hfull
        refine Or.inl ⟨.client (.read none), _, rfl, step_client (if_pos ⟨hphase, hfull⟩) ?_⟩
        exact ⟨⟨hreceived, hup⟩, hreply, hdown⟩
      · rcases hreply.length_le.eq_or_lt with heq | hlt
        · have hback := hreply.eq_of_length heq
          have hpos := down.pos
          rcases hs.session_goesOn closesOnError
            (fun h => by rw [h, ← hback, hall]; exact hmissing) with hgo | ⟨hback', -, -⟩
          · exact Or.inl hgo
          · omega
        · obtain ⟨x, hx⟩ := exists_concat_isPrefix hreply hlt
          refine Or.inl ⟨.client (.receive [x]), _, rfl,
            step_client (if_pos ⟨hphase, by simp, ?_⟩) ⟨⟨hreceived, hup⟩, hx, ?_⟩⟩
          · rw [List.length_append]
            dsimp only
            omega
          · rw [hasking.request_eq]
            exact hmissing

end Undisturbed

/-! ## Where nothing can go on -/

namespace Stuck

/-- The message does not fit into the two directions of the connection and one byte of the session. -/
theorem lt_length (h : Stuck up down s) (hs : RoundTrip code up down e s) :
    up.capacity + down.capacity + 1 < e.request.length := by
  have hunsent := h.unsent
  have hup := h.up_full
  have hdown := h.down_full
  have hunechoed := h.unechoed
  rw [hs.asking.request_eq] at hunsent
  rw [hs.asking.length_wire] at hup
  omega

/-- **Nothing happens**, in whatever way the session reads. -/
theorem step_eq_none (closesOnError : Bool) (h : Stuck up down s) (hs : Undisturbed code up down e s)
    (ev : NetworkEvent) : (undisturbed code closesOnError up down e).step s ev = none := by
  rw [Option.eq_none_iff_forall_ne_some]
  intro t hstep
  obtain ⟨hok, hstep⟩ := Machine.restrict_step_eq_some.1 hstep
  obtain ⟨hstep, ht⟩ := echoNetwork_step hstep
  obtain ⟨length, sent, hpending, hlt⟩ := h.sending
  cases hstep with
  | @client ev c hc =>
      cases ev with
      | send n =>
          obtain ⟨⟨-, hpos, hle⟩, heq⟩ := Option.ite_none_right_eq_some.1 hc
          cases heq
          -- there is no room for what is sent
          have hroom := ht.1.2
          have hfull := h.up_full
          simp only [EchoClient.wire, List.length_take] at hroom hfull
          omega
      | receive bytes =>
          obtain ⟨⟨hphase, -⟩, -⟩ := Option.ite_none_right_eq_some.1 hc
          rw [h.phase] at hphase
          cases hphase
      | written ec =>
          obtain rfl : ec = none := by simpa [NetworkEvent.fails] using hok
          obtain ⟨⟨-, hsent⟩, -⟩ := Option.ite_none_right_eq_some.1 hc
          exact h.unsent.ne hsent
      | read ec =>
          obtain rfl : ec = none := by simpa [NetworkEvent.fails] using hok
          obtain ⟨⟨hphase, -⟩, -⟩ := Option.ite_none_right_eq_some.1 hc
          rw [h.phase] at hphase
          cases hphase
  | @session ev c hmoves hc =>
      have hok : (NetworkEvent.session ev).fails = false := by simpa using hok
      cases EchoSession.goes hs.isOpen hs.ready hmoves hok hc with
      | read hpending' _ _ =>
          rw [hpending] at hpending'
          cases hpending'
      | written hpending' _ =>
          rw [hpending] at hpending'
          cases hpending'
          exact lt_irrefl _ hlt
      | transfer hpending' hpos hle =>
          rw [hpending] at hpending'
          cases hpending'
          have hroom := ht.2.2
          have hfull := h.down_full
          have hdata := hs.roundTrip.echoing.size
          have hprogress := hs.roundTrip.echoing.progress
          rw [hpending] at hprogress
          cases hprogress with
          | writing _ _ _ _ _ hlength _ _ =>
              simp only [List.length_append, List.length_take, List.length_drop] at hroom
              omega
      | readHandler hpending' =>
          rw [hpending] at hpending'
          cases hpending'
      | writeHandler hpending' =>
          rw [hpending] at hpending'
          cases hpending'

end Stuck

/-! ## Reading byte by byte -/

/-- A client that has more to send than fits, and a session that has not read more than it has sent and one
byte. -/
structure Filling (code : ClientCode) (up down : Pipe) (e : Entered) (s : EchoNetwork) : Prop where
  running : Undisturbed code up down e s
  phase : s.client.phase = .writing
  ahead : s.session.received.length ≤ s.session.sent.length + 1

theorem Filling.step (hlong : up.capacity + down.capacity + 1 < e.request.length)
    (hs : Filling code up down e s)
    (h : ((echoNetwork code closesOnError up down e).restrict NetworkEvent.byteByByte).step s ev =
      some t) : Filling code up down e t ∧ t.work < s.work := by
  obtain ⟨hok, h⟩ := Machine.restrict_step_eq_some.1 h
  have hundisturbed : (undisturbed code closesOnError up down e).step s ev = some t :=
    Machine.restrict_step_eq_some.2 ⟨NetworkEvent.not_fails_of_byteByByte hok, h⟩
  obtain ⟨ht, hless⟩ := hs.running.step hundisturbed
  obtain ⟨hstep, -⟩ := echoNetwork_step h
  have hphase := hs.phase
  have hahead := hs.ahead
  cases hstep with
  | @client ev c hc =>
      refine ⟨⟨ht, ?_, hahead⟩, hless⟩
      cases ev with
      | send n =>
          obtain ⟨-, heq⟩ := Option.ite_none_right_eq_some.1 hc
          cases heq
          exact hphase
      | written ec =>
          cases ec with
          | some ec => cases hok
          | none =>
              -- for that everything would have been sent
              obtain ⟨⟨-, hsent⟩, -⟩ := Option.ite_none_right_eq_some.1 hc
              have hasking := hs.running.roundTrip.asking
              have hup := hs.running.roundTrip.carried.1.2
              have hdown := hs.running.roundTrip.carried.2.2
              rw [hasking.length_wire] at hup
              rw [hasking.request_eq] at hsent
              rw [hasking.reply_eq_nil hphase, List.length_nil] at hdown
              omega
      | receive bytes =>
          obtain ⟨⟨hreading, -⟩, -⟩ := Option.ite_none_right_eq_some.1 hc
          rw [hphase] at hreading
          cases hreading
      | read ec =>
          have hreading : s.client.phase = .reading := by
            cases ec with
            | none => exact (Option.ite_none_right_eq_some.1 hc).1.1
            | some ec => exact (Option.ite_none_right_eq_some.1 hc).1
          rw [hphase] at hreading
          cases hreading
  | @session ev c hmoves hc =>
      refine ⟨⟨ht, hphase, ?_⟩, hless⟩
      have hu := hs.running
      have hfails : (NetworkEvent.session ev).fails = false := by
        simpa using NetworkEvent.not_fails_of_byteByByte hok
      cases EchoSession.goes hu.isOpen hu.ready hmoves hfails hc with
      | @read c hpending _ _ =>
          obtain ⟨-, hlen⟩ := Bool.and_eq_true_iff.1 hok
          have hlen : c.bytes.length ≤ 1 := of_decide_eq_true hlen
          have hprogress := hu.roundTrip.echoing.progress
          rw [hpending] at hprogress
          cases hprogress with
          | reading _ heq =>
              simp only [List.length_append, heq]
              omega
      | written _ _ => exact hahead
      | transfer _ _ _ =>
          simp only [List.length_append]
          omega
      | readHandler _ => exact hahead
      | writeHandler _ => exact hahead

/-! ## The bound -/

/-- At the beginning of a run. -/
theorem Undisturbed.init (h : (undisturbed code closesOnError up down e).init s) :
    Undisturbed code up down e s ∧ s.work = 7 * e.request.length + 2 := by
  obtain ⟨conn, data, hdata, rfl⟩ := h
  refine ⟨⟨.init code up down e conn hdata, rfl, .reading, fun ec => by simp [EchoClient.start]⟩, ?_⟩
  simp only [EchoNetwork.work, EchoClient.work, EchoClient.start, EchoSession.work,
    EchoSession.started, EchoSession.perform, List.nil_append, List.length_nil]
  omega

/-- A client with a short message has ended when nothing can happen any more. -/
theorem ended_of_atRest (hshort : e.request.length ≤ up.capacity + down.capacity + 1)
    (hs : (undisturbed code closesOnError up down e).Reachable s)
    (hrest : ∀ ev, (undisturbed code closesOnError up down e).step s ev = none) :
    s.client.phase = .ended := by
  by_contra hended
  have hu : Undisturbed code up down e s := by
    apply hs.invariant (I := Undisturbed code up down e)
    · exact fun s hs => (Undisturbed.init hs).1
    · exact fun s ev t hs hstep => (hs.step hstep).1
  rcases hu.goesOn_or_stuck closesOnError hended with ⟨ev, t, hok, hstep⟩ | hstuck
  · have hstep : (undisturbed code closesOnError up down e).step s ev = some t :=
      Machine.restrict_step_eq_some.2 ⟨NetworkEvent.not_fails_of_byteByByte hok, hstep⟩
    rw [hrest ev] at hstep
    cases hstep
  · exact absurd (hstuck.lt_length hu.roundTrip) (not_lt.2 hshort)

/-- A client with a long message may get stuck. -/
theorem exists_stuck (code : ClientCode) (closesOnError : Bool)
    (hlong : up.capacity + down.capacity + 1 < e.request.length) :
    ∃ s, (undisturbed code closesOnError up down e).Reachable s ∧
      (∀ ev, (undisturbed code closesOnError up down e).step s ev = none) ∧
      s.client.phase = .writing := by
  have hdata : (List.replicate dataSize (0 : UInt8)).length = dataSize := List.length_replicate
  have hinit : (undisturbed code closesOnError up down e).init
      ⟨.start e, .started 0 (List.replicate dataSize 0)⟩ := ⟨0, _, hdata, rfl⟩
  have hstart : Filling code up down e ⟨.start e, .started 0 (List.replicate dataSize 0)⟩ :=
    ⟨(Undisturbed.init hinit).1, rfl, Nat.zero_le _⟩
  -- byte by byte, until nothing can happen
  have hfilling : ∀ s ev t, Filling code up down e s →
      ((echoNetwork code closesOnError up down e).restrict NetworkEvent.byteByByte).step s ev = some t →
        Filling code up down e t ∧ t.work < s.work := fun s ev t hs hstep => hs.step hlong hstep
  obtain ⟨es, s, hexec, hs, hrest⟩ := Machine.exists_exec_to_rest hfilling hstart
  rcases hs.running.goesOn_or_stuck closesOnError (by rw [hs.phase]; exact ClientPhase.noConfusion) with
    ⟨ev, t, hok, hstep⟩ | hstuck
  · have := (Machine.restrict_step_eq_some.2 ⟨hok, hstep⟩).symm.trans (hrest ev)
    cases this
  · refine ⟨s, ?_, hstuck.step_eq_none closesOnError hs.running, hs.phase⟩
    apply Machine.Reachable.restrict_mono (fun _ => NetworkEvent.not_fails_of_byteByByte)
    exact ⟨_, es, hinit, hexec⟩

/-- **When a client ends**, if nothing fails. A run has at most seven steps for each byte of the message, and
two. Where nothing can happen any more the client has ended, in all runs exactly if the message fits into
the two directions of the connection and one byte of the session. -/
theorem echo_finishes_iff (code : ClientCode) (closesOnError : Bool) (up down : Pipe) (e : Entered) :
    (∀ s₀ es s, (undisturbed code closesOnError up down e).init s₀ →
      (undisturbed code closesOnError up down e).exec s₀ es = some s →
        es.length ≤ 7 * e.request.length + 2) ∧
    ((∀ s, (undisturbed code closesOnError up down e).Reachable s →
        (∀ ev, (undisturbed code closesOnError up down e).step s ev = none) →
          s.client.phase = .ended) ↔
      e.request.length ≤ up.capacity + down.capacity + 1) := by
  refine ⟨fun s₀ es s hs₀ hexec => ?_, fun hends => ?_, fun hshort s hs hrest => ?_⟩
  · obtain ⟨hs, hwork⟩ := Undisturbed.init hs₀
    have hle := Machine.length_add_measure_le (fun s ev t hs hstep => hs.step hstep) hs hexec
    omega
  · by_contra hlong
    obtain ⟨s, hs, hrest, hwriting⟩ := exists_stuck code closesOnError (not_le.1 hlong)
    have hended := hends s hs hrest
    rw [hwriting] at hended
    cases hended
  · exact ended_of_atRest hshort hs hrest

/-- **The two programs end**, if nothing fails and the connection holds 1022 bytes in both directions
together: their arrays are too small for the bound. -/
theorem clients_end
    (he : (∃ is, e = enterMessage is) ∨ ∃ rounds is, promptLoop rounds is = some e)
    (hcapacity : 1022 ≤ up.capacity + down.capacity)
    (hs : (undisturbed code closesOnError up down e).Reachable s)
    (hrest : ∀ ev, (undisturbed code closesOnError up down e).step s ev = none) :
    s.client.phase = .ended := by
  have hlength : e.request.length < 1024 := by
    rcases he with ⟨is, rfl⟩ | ⟨rounds, is, h⟩
    · exact length_enterMessage_lt is
    · exact (length_promptLoop_lt h).2.trans (by decide)
  exact ended_of_atRest (by omega) hs hrest

end AsioExamples.Echo
