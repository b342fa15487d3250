import AsioExamples.Chat.Network

/-!
# The chat agrees

What the chat is for. Whatever the order of events and whichever operations fail, what a client prints are
messages of the one sequence that the room has delivered, without a gap, from at most 100 messages before its
session started (`chat_agrees`). And this sequence is what was typed: the messages of one sender in it are lines
that its user has typed, none of them twice, and where a client runs its posted handlers in the order in which
they were posted they are the first of those lines (`chat_delivers`).
-/

set_option autoImplicit false

namespace AsioExamples.Chat

open AsioExamples.Cxx AsioExamples.Lib AsioExamples.Asio

/-! ## What the server reads -/

/-- The messages that a session has delivered to the room. -/
def deliveredBy (id : ℕ) (log : List RoomCall) : List ChatMessage :=
  log.filterMap fun
    | .deliver j msg => if j = id then some msg else none
    | _ => none

theorem deliveredBy_concat (id : ℕ) (log : List RoomCall) (call : RoomCall) :
    deliveredBy id (log ++ [call]) = deliveredBy id log ++ deliveredBy id [call] :=
  List.filterMap_append

namespace ChatState

/-- The actions of a read chain start its reads and deliver its messages. -/
theorem foldl_perform (s : ChatState) (id j : ℕ) (acts : List ReadAction) :
    ((acts.foldl (fun s a => s.perform id a) s).sessions j).readMsg_ = (s.sessions j).readMsg_ ∧
      ((acts.foldl (fun s a => s.perform id a) s).sessions j).reads =
        (s.sessions j).reads ++ (if j = id then nextReads acts else []) ∧
      deliveredBy j (acts.foldl (fun s a => s.perform id a) s).log =
        deliveredBy j s.log ++ (if j = id then accepted acts else []) ∧
      ∀ k, RoomCall.start k ∈ (acts.foldl (fun s a => s.perform id a) s).log ↔ .start k ∈ s.log := by
  induction acts generalizing s with
  | nil => simp [nextReads, accepted]
  | cons a acts ih =>
      obtain ⟨hmsg, hreads, hdelivered, hstart⟩ := ih (s.perform id a)
      rw [List.foldl_cons, hmsg, hreads, hdelivered]
      simp only [hstart]
      by_cases hj : j = id
      · subst hj
        cases a <;>
          simp [perform, modify, ChatSession.doReadHeader, ChatSession.doReadBody, nextReads, accepted,
            leave, deliveredBy]
      · cases a <;>
          simp [perform, modify, hj, leave, deliveredBy, Ne.symm hj]

/-- The end of the one read of a session. -/
theorem readHandler_performs {s t : ChatState} {id i : ℕ} {ec : Option ErrorCode}
    {bytes : List UInt8} (hone : (s.sessions id).reads.length ≤ 1)
    (h : s.readHandler id i ec bytes = some t) :
    ∃ r, (s.sessions id).reads = [r] ∧ r.mayEnd (s.sessions id).readMsg_ ec bytes = true ∧
      t = (r.handler (s.sessions id).readMsg_ ec bytes).2.foldl (fun s a => s.perform id a)
        (s.readEnded id (r.handler (s.sessions id).readMsg_ ec bytes).1) := by
  rw [readHandler] at h
  split at h
  · rename_i r hr
    obtain ⟨hmay, h⟩ := Option.ite_none_right_eq_some.1 h
    obtain ⟨hreads, rfl⟩ := eq_singleton_of_length_le_one hone hr
    refine ⟨r, hreads, hmay, ?_⟩
    cases h
    simp only [readEnded, modify, hreads, List.eraseIdx_cons_zero]
  · cases h

end ChatState

/-- What each session has read is what it has delivered, and what it has read of the next message. -/
structure SessionsRead (server : ChatState) (received : ℕ → List UInt8) : Prop where
  chain : ∀ id, ReadsStream (received id) (deliveredBy id server.log) (server.sessions id).readMsg_
    (server.sessions id).reads
  fresh : ∀ id, .start id ∉ server.log → received id = [] ∧ deliveredBy id server.log = []

namespace SessionsRead

variable {server server' : ChatState} {received : ℕ → List UInt8}

/-- A change that leaves the read chains and the deliveries alone. -/
theorem congr (h : SessionsRead server received)
    (hmsg : ∀ id, (server'.sessions id).readMsg_ = (server.sessions id).readMsg_)
    (hreads : ∀ id, (server'.sessions id).reads = (server.sessions id).reads)
    (hdelivered : ∀ id, deliveredBy id server'.log = deliveredBy id server.log)
    (hstart : ∀ id, RoomCall.start id ∈ server'.log ↔ .start id ∈ server.log) :
    SessionsRead server' received := by
  constructor
  · intro id
    rw [hmsg, hreads, hdelivered]
    exact h.chain id
  · intro id hid
    rw [hdelivered]
    exact h.fresh id fun hstarted => hid ((hstart id).2 hstarted)

theorem write (h : SessionsRead server received) (id : ℕ) (q : SendQueue ChatMessage UInt8) :
    SessionsRead (server.modify id fun c => { c with out := q }) received :=
  h.congr (ChatState.readMsg_modify rfl) (ChatState.reads_modify rfl) (fun _ => rfl) (fun _ => Iff.rfl)

theorem leave (h : SessionsRead server received) (id : ℕ) :
    SessionsRead (server.leave id) received := by
  refine h.congr (fun _ => rfl) (fun _ => rfl) ?_ ?_
  · intro j
    rw [ChatState.leave, deliveredBy_concat]
    exact List.append_nil _
  · intro j
    simp [ChatState.leave]

theorem step (h : SessionsRead server received) (hone : OneRead server) {e : ServerEvent}
    (hstep : serverMachine.step server e = some server') :
    SessionsRead server'
      (Function.update received e.session (received e.session ++ e.bytes)) := by
  cases e with
  | acceptHandler ec id =>
      have hsame : Function.update received id (received id ++ []) = received := by
        rw [List.append_nil, Function.update_eq_self]
      simp only [ServerEvent.session, ServerEvent.bytes, hsame]
      rcases ChatState.acceptHandler_eq_some hstep with rfl | ⟨hid, rfl⟩
      · exact h
      · constructor
        · intro j
          rw [ChatState.readMsg_start, ChatState.reads_start, ChatState.log_start, deliveredBy_concat]
          split
          · rename_i hj
            subst hj
            obtain ⟨hreceived, hdelivered⟩ := h.fresh j hid
            rw [hone.fresh j hid, hreceived, hdelivered]
            exact .start _
          · exact (List.append_nil (deliveredBy j server.log)).symm ▸ h.chain j
        · intro j hj
          rw [ChatState.log_start, List.mem_append, not_or] at hj
          rw [ChatState.log_start, deliveredBy_concat]
          exact (List.append_nil (deliveredBy j server.log)).symm ▸ h.fresh j hj.1
  | readHandler id i ec bytes =>
      obtain ⟨r, hreads, hmay, rfl⟩ := ChatState.readHandler_performs (hone.atMostOne id) hstep
      constructor
      · intro j
        obtain ⟨hmsg', hreads', hdelivered', -⟩ := ChatState.foldl_perform
          (server.readEnded id (r.handler (server.sessions id).readMsg_ ec bytes).1) id j
          (r.handler (server.sessions id).readMsg_ ec bytes).2
        rw [hmsg', hreads', hdelivered']
        simp only [ServerEvent.session, ServerEvent.bytes, Function.update_apply]
        by_cases hj : j = id
        · subst hj
          simp only [if_true, ChatState.sessions_readEnded, ChatState.log_readEnded, List.nil_append]
          exact ReadsStream.handler (hreads ▸ h.chain j) hmay
        · simp only [if_neg hj, ChatState.readEnded, ChatState.sessions_modify, List.append_nil]
          exact h.chain j
      · intro j hj
        obtain ⟨-, -, hdelivered', hstart'⟩ := ChatState.foldl_perform
          (server.readEnded id (r.handler (server.sessions id).readMsg_ ec bytes).1) id j
          (r.handler (server.sessions id).readMsg_ ec bytes).2
        rw [hstart'] at hj
        -- a session that reads has been started
        have hne : j ≠ id := by
          rintro rfl
          exact hj (hone.started hreads)
        rw [hdelivered', if_neg hne, List.append_nil]
        simp only [ServerEvent.session, Function.update_of_ne hne]
        exact h.fresh j hj
  | transfer id i n =>
      obtain ⟨q, -, rfl⟩ := ChatState.transfer_eq_some hstep
      simp only [ServerEvent.session, ServerEvent.bytes, List.append_nil, Function.update_eq_self]
      exact h.write id q
  | writeHandler id i ec =>
      obtain ⟨q, -, hcase⟩ := ChatState.writeHandler_eq_some hstep
      simp only [ServerEvent.session, ServerEvent.bytes, List.append_nil, Function.update_eq_self]
      rcases hcase with ⟨-, rfl⟩ | ⟨-, rfl⟩
      · exact h.write id q
      · exact (h.write id q).leave id

end SessionsRead

/-! ## What the clients read -/

/-- The actions of a read chain start its reads. -/
theorem ChatClient.foldl_perform (c : ChatClient) (acts : List ReadAction) :
    (acts.foldl ChatClient.perform c).readMsg_ = c.readMsg_ ∧
      (acts.foldl ChatClient.perform c).reads = c.reads ++ nextReads acts ∧
      (acts.foldl ChatClient.perform c).connecting = c.connecting ∧
      (acts.foldl ChatClient.perform c).posted = c.posted := by
  induction acts generalizing c with
  | nil => simp [nextReads]
  | cons a acts ih =>
      obtain ⟨hmsg, hreads, hconnecting, hposted⟩ := ih (c.perform a)
      rw [List.foldl_cons, hmsg, hreads, hconnecting, hposted]
      cases a <;> simp [perform, doReadHeader, doReadBody, closeSocket, nextReads]

/-- What a client has read is what it has printed, and what it has read of the next message. Before it is
connected it has read nothing. -/
structure ClientReads (c : ChatClient) (heard : List UInt8) (printed : List ChatMessage) : Prop where
  chain : ReadsStream heard printed c.readMsg_ c.reads
  connecting : c.connecting = true → heard = [] ∧ printed = [] ∧ c.reads = []

theorem ClientReads.step {c d : ChatClient} {heard : List UInt8} {printed : List ChatMessage}
    (h : ClientReads c heard printed) {e : ClientEvent} (hstep : clientMachine.step c e = some d) :
    ClientReads d (heard ++ e.bytes) (printed ++ c.prints e) := by
  -- all events but the end of a read leave the account alone
  have hsame : ∀ d : ChatClient, d.readMsg_ = c.readMsg_ → d.reads = c.reads →
      (d.connecting = true → c.connecting = true) →
      ClientReads d (heard ++ []) (printed ++ []) := by
    intro d hmsg hreads hconnecting
    rw [List.append_nil, List.append_nil]
    constructor
    · rw [hmsg, hreads]
      exact h.chain
    · rw [hreads]
      exact fun hd => h.connecting (hconnecting hd)
  cases client_step hstep with
  | write msg => exact hsame _ rfl rfl id
  | close => exact hsame _ rfl rfl id
  | connected hc =>
      obtain ⟨rfl, rfl, hreads⟩ := h.connecting hc
      constructor
      · rw [hreads]
        exact .start _
      · intro hfalse
        cases hfalse
  | connectFailed ec hc => exact hsame _ rfl rfl nofun
  | @read i r ec bytes hr hmay =>
      obtain ⟨hreads, rfl⟩ := eq_singleton_of_length_le_one h.chain.length_reads_le hr
      obtain ⟨hmsg', hreads', hconnecting', -⟩ := ChatClient.foldl_perform
        { c with readMsg_ := (r.handler c.readMsg_ ec bytes).1, reads := c.reads.eraseIdx 0 }
        (r.handler c.readMsg_ ec bytes).2
      constructor
      · rw [hmsg', hreads']
        simp only [ClientEvent.bytes, ChatClient.prints, hreads, List.eraseIdx_cons_zero,
          List.nil_append]
        exact ReadsStream.handler (hreads ▸ h.chain) hmay
      · intro hconnecting
        -- a client that is still connecting does not read
        have hnone := (h.connecting (hconnecting' ▸ hconnecting)).2.2
        rw [hreads] at hnone
        cases hnone
  | @posted i p hp => cases p <;> exact hsame _ rfl rfl id
  | transfer hq => exact hsame _ rfl rfl id
  | written hq => exact hsame _ rfl rfl id
  | writeFailed ec hq => exact hsame _ rfl rfl id

/-- The main thread leaves all that alone. -/
theorem ClientReads.mainLoop {p q : ClientProcess} {storage : Storage}
    (h : ClientReads p.client p.heard p.printed) (hmain : p.mainLoop storage = some q) :
    q.client.out = p.client.out ∧ q.heard = p.heard ∧ ClientReads q.client q.heard q.printed := by
  obtain ⟨is, ⟨rfl, -⟩ | ⟨line, -, -, rfl⟩⟩ := p.mainLoop_eq_some hmain
  · exact ⟨rfl, rfl, h.chain, h.connecting⟩
  · exact ⟨rfl, rfl, h.chain, h.connecting⟩

/-! ## What the clients write -/

/-- The message that a posted handler writes. -/
def Posted.message : Posted → Option ChatMessage
  | .write msg => some msg
  | .close => none

/-- The messages that `main` has handed over: those that the other thread has put into the queue, and those
that it has not come to. -/
def ChatClient.handed (c : ChatClient) : List ChatMessage :=
  c.out.enqueued ++ c.posted.filterMap Posted.message

/-- A posted handler takes the message that it was posted with; that of `close` posts itself again. -/
theorem handed_postedHandler (c : ChatClient) (p : Posted) :
    (c.postedHandler p).handed = c.out.enqueued ++ (p :: c.posted).filterMap Posted.message := by
  cases p <;>
    simp [ChatClient.handed, ChatClient.postedHandler, ChatClient.close, Posted.message,
      List.filterMap_cons]

/-- A posted handler that runs is the oldest one. -/
def ClientEvent.fifo : ClientEvent → Bool
  | .postedHandler i => i = 0
  | _ => true

/-- The other thread takes over what has been handed to it, in the order in which its handlers run. -/
theorem handed_step {c d : ChatClient} {e : ClientEvent} (hstep : clientMachine.step c e = some d)
    (hmain : e.fromMain = false) :
    d.handed.Perm c.handed ∧ (e.fifo = true → d.handed = c.handed) := by
  have hsame : ∀ d : ChatClient, d.out.enqueued = c.out.enqueued → d.posted = c.posted →
      d.handed.Perm c.handed ∧ (e.fifo = true → d.handed = c.handed) := by
    intro d henqueued hposted
    have heq : d.handed = c.handed := by rw [ChatClient.handed, henqueued, hposted, ChatClient.handed]
    exact ⟨heq ▸ List.Perm.refl _, fun _ => heq⟩
  cases client_step hstep with
  | write msg => cases hmain
  | close => cases hmain
  | connected hc => exact hsame _ rfl rfl
  | connectFailed ec hc => exact hsame _ rfl rfl
  | read hr hmay =>
      apply hsame
      · rw [ChatClient.out_foldl_perform]
      · rw [(ChatClient.foldl_perform _ _).2.2.2]
  | @posted i p hp =>
      obtain ⟨hi, rfl⟩ := List.getElem?_eq_some_iff.1 hp
      rw [handed_postedHandler, ChatClient.handed]
      constructor
      · exact ((List.getElem_cons_eraseIdx_perm hi).filterMap _).append_left _
      · intro hfirst
        obtain rfl : i = 0 := by simpa [ClientEvent.fifo] using hfirst
        obtain ⟨q, ps, hposted⟩ := List.exists_cons_of_length_pos hi
        simp [hposted]
  | transfer hq => exact hsame _ (SendQueue.enqueued_transfer hq) rfl
  | written hq => exact hsame _ (SendQueue.enqueued_finish hq) rfl
  | writeFailed ec hq => exact hsame _ (SendQueue.enqueued_finish hq) rfl

/-- What a client writes is composed from the lines that have been typed. -/
structure ClientWrites (input : List UInt8) (p : ClientProcess) : Prop where
  phase : SendQueue.Phase ChatMessage.bytes p.client.out
  synced : ∀ msg ∈ p.client.handed, msg.Synced
  handed : (p.client.handed.map ChatMessage.body).Perm p.typed
  typed : p.typed ++ p.linesLeft = inputLines input

namespace ClientWrites

variable {line : List UInt8} {p q : ClientProcess}

theorem new (msg : ChatMessage) (line : List UInt8) : ClientWrites line (.new msg line) :=
  ⟨SendQueue.phase_empty, by simp [ClientProcess.new, ChatClient.new, ChatClient.doConnect,
    ChatClient.handed, SendQueue.empty], .refl _, rfl⟩

/-- A message that is written is the last one handed over. -/
theorem handed_write (c : ChatClient) (msg : ChatMessage) :
    (c.write msg).handed = c.handed ++ [msg] := by
  simp [ChatClient.handed, ChatClient.write, Posted.message]

theorem handed_close (c : ChatClient) : c.close.handed = c.handed := by
  simp [ChatClient.handed, ChatClient.close, Posted.message]

theorem body_compose (storage : Storage) {line : List UInt8} (h : line.length ≤ maxBodyLength) :
    (compose storage line).body = line := by
  rw [(compose_spec storage line).2, List.take_of_length_le h]

theorem mainLoop {input : List UInt8} (h : ClientWrites input p) {storage : Storage}
    (hmain : p.mainLoop storage = some q) : ClientWrites input q := by
  obtain ⟨is, ⟨rfl, hleft⟩ | ⟨line, hlen, hleft, rfl⟩⟩ := p.mainLoop_eq_some hmain
  · refine ⟨h.phase, ?_, ?_, ?_⟩
    · rw [handed_close]
      exact h.synced
    · rw [handed_close]
      exact h.handed
    · have htyped := h.typed
      rw [hleft] at htyped
      exact htyped
  · refine ⟨h.phase, ?_, ?_, ?_⟩
    · rw [handed_write, List.forall_mem_append, List.forall_mem_singleton]
      exact ⟨h.synced, (compose_spec storage line).1⟩
    · rw [handed_write, List.map_append, List.map_singleton, body_compose storage hlen]
      exact h.handed.append_right _
    · rw [← h.typed, hleft, List.append_assoc, List.singleton_append]

theorem handle {input : List UInt8} (h : ClientWrites input p) {c : ChatClient} {e : ClientEvent}
    (hmain : e.fromMain = false) (hstep : clientMachine.step p.client e = some c)
    (heard : List UInt8) (printed : List ChatMessage) :
    ClientWrites input { p with client := c, heard := heard, printed := printed } := by
  obtain ⟨hperm, -⟩ := handed_step hstep hmain
  refine ⟨(client_drives.step _ _ _ hstep).phase h.phase, ?_, (hperm.map _).trans h.handed, h.typed⟩
  exact fun msg hmsg => h.synced msg (hperm.subset hmsg)

end ClientWrites

/-! ## The invariant of the network -/

/-- Each side of a connection has read the beginning of what the other side has sent, and made of it what
its read chain makes of it. -/
structure Wired (input : ℕ → List UInt8) (s : ChatNetwork) : Prop where
  sessions : SessionsRead s.server s.received
  received : ∀ id, s.received id <+: s.sentByClient id
  clients : ∀ id, ClientReads (s.clients id).client (s.clients id).heard (s.clients id).printed
  heard : ∀ id, (s.clients id).heard <+: s.sentBySession id
  writes : ∀ id, ClientWrites (input id) (s.clients id)

/-- What a session has sent stays sent. -/
theorem server_wire_isPrefix {s t : ChatState} {e : ServerEvent} (h : serverMachine.Reachable s)
    (hstep : serverMachine.step s e = some t) (id : ℕ) :
    (s.sessions id).out.wire <+: (t.sessions id).out.wire :=
  Machine.exec_preserves (I := fun u => (s.sessions id).out.wire <+: (u.sessions id).out.wire)
    (fun u e v hu hstep => hu.trans ((room_drives id).step u e v hstep).wire_isPrefix)
    List.prefix_rfl (serverRoom.step s e t h hstep)

variable {input : ℕ → List UInt8} {s t : ChatNetwork}

/-- **The connections keep their account**, in every run of the network. -/
theorem wired (h : (networkMachine input).Reachable s) : Wired input s := by
  apply h.induct (I := Wired input)
  · rintro s ⟨sessionMsgs, clientMsgs, rfl⟩
    refine ⟨⟨?_, ?_⟩, ?_, ?_, ?_, ?_⟩
    · exact fun id => .ended (by simp [deliveredBy, ChatNetwork.initial, ChatState.initial]) (by
        simp [deliveredBy, ChatNetwork.initial, ChatState.initial])
    · exact fun id _ => ⟨rfl, rfl⟩
    · exact fun id => List.nil_prefix
    · exact fun id => ⟨.ended (by simp [ChatNetwork.initial, ClientProcess.new]) (by
        simp [ChatNetwork.initial, ClientProcess.new]), fun _ => ⟨rfl, rfl, rfl⟩⟩
    · exact fun id => List.nil_prefix
    · exact fun id => .new _ _
  · intro s e t hr hs hstep
    cases network_step hstep with
    | server hread hserver =>
        have hreachable := (networkServer input).reachable hr
        refine ⟨hs.sessions.step (oneRead hreachable) hserver, ?_, hs.clients, ?_, hs.writes⟩
        · exact (Function.forall_update_iff s.received fun id r => r <+: s.sentByClient id).2
            ⟨hread, fun id _ => hs.received id⟩
        · exact fun id => (hs.heard id).trans (server_wire_isPrefix hreachable hserver id)
    | @mainLoop id storage p hmain =>
        -- the main thread reads and sends nothing itself
        obtain ⟨hwire, hheard, hreads⟩ := (hs.clients id).mainLoop hmain
        refine ⟨hs.sessions, ?_, ?_, ?_, ?_⟩
        · exact (Function.forall_update_iff s.clients fun j p => s.received j <+: p.client.out.wire).2
            ⟨hwire ▸ hs.received id, fun j _ => hs.received j⟩
        · exact (Function.forall_update_iff s.clients fun _ p =>
            ClientReads p.client p.heard p.printed).2 ⟨hreads, fun j _ => hs.clients j⟩
        · exact (Function.forall_update_iff s.clients fun j p => p.heard <+: s.sentBySession j).2
            ⟨hheard ▸ hs.heard id, fun j _ => hs.heard j⟩
        · exact (Function.forall_update_iff s.clients fun j p => ClientWrites (input j) p).2
            ⟨(hs.writes id).mainLoop hmain, fun j _ => hs.writes j⟩
    | @client id e c hmain hread hclient =>
        have hwire := (client_drives.step _ _ _ hclient).wire_isPrefix
        refine ⟨hs.sessions, ?_, ?_, ?_, ?_⟩
        · exact (Function.forall_update_iff s.clients fun j p => s.received j <+: p.client.out.wire).2
            ⟨(hs.received id).trans hwire, fun j _ => hs.received j⟩
        · exact (Function.forall_update_iff s.clients fun _ p =>
            ClientReads p.client p.heard p.printed).2
            ⟨(hs.clients id).step hclient, fun j _ => hs.clients j⟩
        · exact (Function.forall_update_iff s.clients fun j p => p.heard <+: s.sentBySession j).2
            ⟨hread, fun j _ => hs.heard j⟩
        · exact (Function.forall_update_iff s.clients fun j p => ClientWrites (input j) p).2
            ⟨(hs.writes id).handle hmain hclient _ _, fun j _ => hs.writes j⟩

/-! ## Agreement -/

theorem map_body_isPrefix {msgs msgs' : List ChatMessage}
    (h : msgs.map ChatMessage.toFrame <+: msgs'.map ChatMessage.toFrame) :
    msgs.map ChatMessage.body <+: msgs'.map ChatMessage.body := by
  have hbodies := h.map Frame.body
  simpa only [List.map_map, Function.comp_def, ChatMessage.body_toFrame] using hbodies

theorem map_body_congr {msgs msgs' : List ChatMessage}
    (h : msgs.map ChatMessage.toFrame = msgs'.map ChatMessage.toFrame) :
    msgs.map ChatMessage.body = msgs'.map ChatMessage.body := by
  have hbodies := congrArg (List.map Frame.body) h
  simpa only [List.map_map, Function.comp_def, ChatMessage.body_toFrame] using hbodies

/-- Whatever a session is sent has a header that tells its length. -/
theorem synced_of_enqueued {s : ChatState} (h : serverMachine.Reachable s) (id : ℕ) :
    ∀ msg ∈ (s.sessions id).out.enqueued, msg.Synced := fun msg hmsg =>
  (chained h).accepted msg (((relayed (serverRoom.reachable h)).enqueued_isInfix id).subset hmsg)

/-- A client prints the first messages that its session was sent. -/
theorem printed_isPrefix (h : (networkMachine input).Reachable s) (id : ℕ) :
    (s.clients id).printed.map ChatMessage.toFrame <+:
      (s.server.sessions id).out.enqueued.map ChatMessage.toFrame := by
  have hserver := (networkServer input).reachable h
  have hphase : SendQueue.Phase ChatMessage.bytes (s.server.sessions id).out :=
    (room_drives id).phase (serverRoom.reachable hserver)
  exact ((wired h).clients id).chain.found_isPrefix (synced_of_enqueued hserver id)
    (((wired h).heard id).trans hphase.wire_isPrefix)

/-- A session delivers the first messages that its client has put into its queue. -/
theorem deliveredBy_isPrefix (h : (networkMachine input).Reachable s) (id : ℕ) :
    (deliveredBy id s.server.log).map ChatMessage.toFrame <+:
      (s.clients id).client.out.enqueued.map ChatMessage.toFrame := by
  have hwrites := (wired h).writes id
  apply ((wired h).sessions.chain id).found_isPrefix _
    (((wired h).received id).trans hwrites.phase.wire_isPrefix)
  exact fun msg hmsg => hwrites.synced msg (List.mem_append_left _ hmsg)

/-- **The chat agrees**, in every run of the network, whatever fails. What the client of a session prints that
started when `k` messages had been delivered to the room are the messages delivered to the room from the
`k - 100`th on, in their order and without a gap, up to some point. A client whose session has not started
prints nothing. -/
theorem chat_agrees (s : ChatNetwork) (h : (networkMachine input).Reachable s) (id : ℕ) :
    (.start id ∉ s.server.log → (s.clients id).printed = []) ∧
    ∀ before after, s.server.log = before ++ .start id :: after →
      (s.clients id).printed.map ChatMessage.body <+:
        ((delivered s.server.log).drop ((delivered before).length - 100)).map ChatMessage.body := by
  have hroom : roomMachine.Reachable s.server :=
    serverRoom.reachable ((networkServer input).reachable h)
  have hprinted := printed_isPrefix h id
  constructor
  · intro hid
    rw [((relayed hroom).absent id hid).2, List.map_nil, List.prefix_nil, List.map_eq_nil_iff]
      at hprinted
    exact hprinted
  · intro before after hlog
    rw [(relayed hroom).enqueued_eq hlog] at hprinted
    -- what the session was sent stops where it left
    exact (map_body_isPrefix hprinted).trans (((List.take_prefix _ _).drop _).map _)

section Hello

/-- Messages as a constructor may leave them. -/
abbrev zeros : ChatMessage := ⟨List.replicate 516 0, 0, List.length_replicate⟩

/-- A user types `hi`, and another client is there to print it. -/
abbrev helloInput (id : ℕ) : List UInt8 := if id = 0 then str "hi\n" else []

/-- The run in which it is printed. -/
def helloEvents : List NetworkEvent :=
  [.server (.acceptHandler none 0), .server (.acceptHandler none 1), .client 0 (.connectHandler none),
    .client 1 (.connectHandler none), .mainLoop 0 ⟨zeros.data_, zeros.size⟩,
    .client 0 (.postedHandler 0), .client 0 (.transfer 0 6), .client 0 (.writeHandler 0 none),
    .server (.readHandler 0 0 none (str "   2")), .server (.readHandler 0 0 none (str "hi")),
    .server (.transfer 1 0 6), .client 1 (.readHandler 0 none (str "   2")),
    .client 1 (.readHandler 0 none (str "hi"))]

theorem hello_exec :
    ∃ s, (networkMachine helloInput).exec (.initial helloInput (fun _ => zeros) fun _ => zeros)
        helloEvents = some s ∧
      s.server.log = [.start 0] ++ .start 1 :: s.server.log.drop 2 ∧
      (s.clients 1).printed.map ChatMessage.body = [str "hi"] := by
  have hrun : ((networkMachine helloInput).exec
      (.initial helloInput (fun _ => zeros) fun _ => zeros) helloEvents).map
      (fun s => (s.server.log.take 2, (s.clients 1).printed.map ChatMessage.body)) =
      some ([.start 0, .start 1], [str "hi"]) := by decide +kernel
  obtain ⟨s, hs, heq⟩ := Option.map_eq_some_iff.1 hrun
  obtain ⟨hlog, hprinted⟩ := Prod.mk.inj heq
  refine ⟨s, hs, ?_, hprinted⟩
  calc s.server.log = s.server.log.take 2 ++ s.server.log.drop 2 := (List.take_append_drop _ _).symm
    _ = [.start 0] ++ .start 1 :: s.server.log.drop 2 := by rw [hlog]; rfl

/-- One client types, another one prints. -/
theorem chat_agrees_hello :
    ∃ s before after, (networkMachine helloInput).Reachable s ∧
      s.server.log = before ++ .start 1 :: after ∧
      (s.clients 1).printed.map ChatMessage.body = [str "hi"] ∧
      [str "hi"] <+: ((delivered s.server.log).drop ((delivered before).length - 100)).map
        ChatMessage.body := by
  obtain ⟨s, hs, hlog, hprinted⟩ := hello_exec
  have h : (networkMachine helloInput).Reachable s := ⟨_, _, ⟨_, _, rfl⟩, hs⟩
  exact ⟨s, _, _, h, hlog, hprinted, hprinted ▸ (chat_agrees s h 1).2 _ _ hlog⟩

end Hello

/-- A posted handler of a client that runs is the oldest one. -/
def NetworkEvent.fifo : NetworkEvent → Bool
  | .client _ e => e.fifo
  | _ => true

/-- Where posted handlers run in the order in which they were posted, the lines stay in their order. -/
theorem handed_of_fifo {s₀ : ChatNetwork} {es : List NetworkEvent}
    (hinit : (networkMachine input).init s₀) (hexec : (networkMachine input).exec s₀ es = some s)
    (hfifo : ∀ e ∈ es, e.fifo = true) (id : ℕ) :
    (s.clients id).client.handed.map ChatMessage.body = (s.clients id).typed := by
  revert id
  apply Machine.exec_preserves_of_stepsMeet
    (I := fun s => ∀ id, (s.clients id).client.handed.map ChatMessage.body = (s.clients id).typed) _ _
    (Machine.stepsMeet_of_forall_mem hfifo) hexec
  · intro s e t hs hfifo hstep
    cases network_step hstep with
    | server _ _ => exact hs
    | @mainLoop id storage p hmain =>
        refine (Function.forall_update_iff s.clients fun _ p =>
          p.client.handed.map ChatMessage.body = p.typed).2 ⟨?_, fun j _ => hs j⟩
        obtain ⟨is, ⟨rfl, -⟩ | ⟨line, hlen, -, rfl⟩⟩ := (s.clients id).mainLoop_eq_some hmain
        · rw [ClientWrites.handed_close]
          exact hs id
        · rw [ClientWrites.handed_write, List.map_append, List.map_singleton,
            ClientWrites.body_compose storage hlen, hs id]
    | @client id e c hmain _ hclient =>
        refine (Function.forall_update_iff s.clients fun _ p =>
          p.client.handed.map ChatMessage.body = p.typed).2 ⟨?_, fun j _ => hs j⟩
        rw [(handed_step hclient hmain).2 hfifo]
        exact hs id
  · obtain ⟨sessionMsgs, clientMsgs, rfl⟩ := hinit
    exact fun _ => rfl

/-- **What is delivered was typed**, whatever fails. The messages that the session of a client delivers to the
room are lines of that client's input, each at most as often as it was typed. Where the posted handlers of
the clients run in the order in which they were posted, they are the first lines, in their order. -/
theorem chat_delivers (s₀ s : ChatNetwork) (es : List NetworkEvent)
    (hinit : (networkMachine input).init s₀) (hexec : (networkMachine input).exec s₀ es = some s)
    (id : ℕ) :
    ((deliveredBy id s.server.log).map ChatMessage.body).Subperm (inputLines (input id)) ∧
      ((∀ e ∈ es, e.fifo = true) →
        (deliveredBy id s.server.log).map ChatMessage.body <+: inputLines (input id)) := by
  have h : (networkMachine input).Reachable s := ⟨s₀, es, hinit, hexec⟩
  have hwrites := (wired h).writes id
  have htyped : (s.clients id).typed <+: inputLines (input id) :=
    hwrites.typed ▸ List.prefix_append _ _
  have hhanded : (deliveredBy id s.server.log).map ChatMessage.body <+:
      (s.clients id).client.handed.map ChatMessage.body :=
    (map_body_isPrefix (deliveredBy_isPrefix h id)).trans ((List.prefix_append _ _).map _)
  constructor
  · exact hhanded.sublist.subperm.trans (hwrites.handed.subperm.trans htyped.sublist.subperm)
  · intro hfifo
    exact hhanded.trans (handed_of_fifo hinit hexec hfifo id ▸ htyped)

/-- What is delivered in that run was typed. -/
theorem chat_delivers_hello :
    ∃ s, (networkMachine helloInput).exec (.initial helloInput (fun _ => zeros) fun _ => zeros)
        helloEvents = some s ∧
      (deliveredBy 0 s.server.log).map ChatMessage.body <+: inputLines (helloInput 0) := by
  obtain ⟨s, hs, -, -⟩ := hello_exec
  exact ⟨s, hs, (chat_delivers _ s helloEvents ⟨_, _, rfl⟩ hs 0).2 (by decide)⟩

end AsioExamples.Chat
