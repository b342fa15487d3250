import AsioExamples.Chat.Agreement
import AsioExamples.Chat.Headers

/-!
# Nothing is lost in the chat

In a run without errors no session leaves the room and no read chain ends, since every header that arrives is
one that was sent (`Undisturbed`). So when nothing more can happen to a client and its session but new lines and
new sessions, every line that was typed has been delivered to the room, and everything delivered to the room
has been printed (`chat_loses_nothing`).
-/

set_option autoImplicit false

namespace AsioExamples.Chat

open AsioExamples.Cxx AsioExamples.Lib AsioExamples.Asio

/-! ## Runs without errors -/

/-- No connect, read or write fails. -/
def NetworkEvent.ok : NetworkEvent → Bool
  | .server (.readHandler _ _ ec _) => ec = none
  | .server (.writeHandler _ _ ec) => ec = none
  | .client _ (.connectHandler ec) => ec = none
  | .client _ (.readHandler _ ec _) => ec = none
  | .client _ (.writeHandler _ ec) => ec = none
  | _ => true

/-- What a read does that ends without an error, where only messages arrive whose headers tell their
lengths. -/
theorem ReadsStream.handler_goes_on {received bytes : List UInt8} {found sent : List ChatMessage}
    {msg : ChatMessage} {r : Read} (h : ReadsStream received found msg [r])
    (hsent : ∀ m ∈ sent, m.Synced) (hmay : r.mayEnd msg none bytes = true)
    (hreceived : received ++ bytes <+: sent.flatMap ChatMessage.bytes) :
    (r.handler msg none bytes).2 = [.asyncReadBody] ∨
      ∃ msg', (r.handler msg none bytes).2 = [.accept msg', .asyncReadHeader] := by
  rcases r.handler_actions msg none bytes with hstop | ⟨hbody, -⟩ | haccept
  · exact absurd hstop (h.handler_ne_stop hsent hmay hreceived)
  · exact Or.inl hbody
  · exact Or.inr haccept

namespace ChatState

variable {s : ChatState}

@[simp] theorem failed_deliver (s : ChatState) (id : ℕ) (msg : ChatMessage) (j : ℕ) :
    ((s.deliver id msg).sessions j).out.failed = (s.sessions j).out.failed := by
  rw [s.deliver_eq]
  simp

theorem failed_start (s : ChatState) (id j : ℕ) :
    ((s.start id).sessions j).out.failed = (s.sessions j).out.failed := by
  rw [s.start_eq]
  by_cases hj : j = id
  · subst hj
    simp [ChatSession.doReadHeader]
  · simp [hj]

theorem failed_modify {id : ℕ} {f : ChatSession → ChatSession}
    (hf : (f (s.sessions id)).out.failed = (s.sessions id).out.failed) (j : ℕ) :
    ((s.modify id f).sessions j).out.failed = (s.sessions j).out.failed :=
  s.forall_sessions_modify (P := fun j c => c.out.failed = (s.sessions j).out.failed) (fun _ => rfl)
    hf j

end ChatState

/-- All sessions that have started are in the room and read, and no write has failed. -/
structure SessionsGoOn (server : ChatState) : Prop where
  stays : ∀ id, .leave id ∉ server.log
  reading : ∀ id, .start id ∈ server.log → (server.sessions id).reads ≠ []
  sending : ∀ id, (server.sessions id).out.failed = false

/-- The client connects or reads, and no write has failed. -/
structure ClientGoesOn (c : ChatClient) : Prop where
  reading : c.connecting = false → c.reads ≠ []
  sending : c.out.failed = false

/-- One session changes and goes on, and all others have gone on. -/
theorem SessionsGoOn.modify {server : ChatState} {id : ℕ} {f : ChatSession → ChatSession}
    (hstays : ∀ j, .leave j ∉ server.log)
    (hothers : ∀ j, j ≠ id → .start j ∈ server.log → (server.sessions j).reads ≠ [])
    (hsending : ∀ j, (server.sessions j).out.failed = false)
    (hreading : .start id ∈ server.log → (f (server.sessions id)).reads ≠ [])
    (hfailed : (f (server.sessions id)).out.failed = (server.sessions id).out.failed) :
    SessionsGoOn (server.modify id f) := by
  refine ⟨hstays, ?_, fun j => (ChatState.failed_modify hfailed j).trans (hsending j)⟩
  intro j hstart
  rw [ChatState.sessions_modify]
  split
  · rename_i hj
    exact hreading (hj ▸ hstart)
  · rename_i hj
    exact hothers j hj hstart

/-- A session writes. -/
theorem SessionsGoOn.write {server : ChatState} (hs : SessionsGoOn server) {id : ℕ}
    {q : SendQueue ChatMessage UInt8} (hq : q.failed = (server.sessions id).out.failed) :
    SessionsGoOn (server.modify id fun c => { c with out := q }) :=
  .modify hs.stays (fun j _ => hs.reading j) hs.sending (hs.reading id) hq

/-- A session whose read has ended reads on. -/
theorem SessionsGoOn.readOn {server : ChatState} (hs : SessionsGoOn server) (id : ℕ)
    (msg : ChatMessage) {acts : List ReadAction}
    (hacts : acts = [.asyncReadBody] ∨ ∃ msg', acts = [.accept msg', .asyncReadHeader]) :
    SessionsGoOn (acts.foldl (fun s a => s.perform id a) (server.readEnded id msg)) := by
  have hothers : ∀ j, j ≠ id → .start j ∈ server.log →
      ((server.readEnded id msg).sessions j).reads ≠ [] := by
    intro j hj hstart
    rw [ChatState.readEnded, ChatState.sessions_modify, if_neg hj]
    exact hs.reading j hstart
  have hsending : ∀ j, ((server.readEnded id msg).sessions j).out.failed = false := by
    intro j
    rw [ChatState.readEnded, ChatState.failed_modify rfl]
    exact hs.sending j
  rcases hacts with rfl | ⟨msg', rfl⟩
  · exact .modify hs.stays hothers hsending (fun _ => by simp [ChatSession.doReadBody]) rfl
  · -- the message goes to everybody in the room, and nobody's reads change by it
    have hlog : ((server.readEnded id msg).deliver id msg').log = server.log ++ [.deliver id msg'] :=
      ChatState.log_deliver _ _ _
    simp only [List.foldl_cons, List.foldl_nil, ChatState.perform]
    refine .modify ?_ ?_ ?_ (fun _ => by simp [ChatSession.doReadHeader]) rfl
    · intro j
      rw [hlog]
      simpa using hs.stays j
    · intro j hj hstart
      rw [hlog] at hstart
      rw [ChatState.reads_deliver]
      exact hothers j hj (by simpa using hstart)
    · intro j
      rw [ChatState.failed_deliver]
      exact hsending j

variable {input : ℕ → List UInt8} {s t : ChatNetwork}

/-- An event of the server that is no error. -/
theorem SessionsGoOn.step {server : ChatState} {e : ServerEvent} (h : (networkMachine input).Reachable s)
    (hs : SessionsGoOn s.server) (hok : (NetworkEvent.server e).ok = true)
    (hread : s.received e.session ++ e.bytes <+: s.sentByClient e.session)
    (hstep : serverMachine.step s.server e = some server) : SessionsGoOn server := by
  have hone : OneRead s.server := oneRead ((networkServer input).reachable h)
  cases e with
  | acceptHandler ec id =>
      rcases ChatState.acceptHandler_eq_some hstep with rfl | ⟨-, rfl⟩
      · exact hs
      · refine ⟨?_, ?_, fun j => (ChatState.failed_start _ _ _).trans (hs.sending j)⟩
        · intro j
          rw [ChatState.log_start]
          simpa using hs.stays j
        · intro j hj
          rw [ChatState.log_start, List.mem_append, List.mem_singleton] at hj
          rw [ChatState.reads_start]
          split
          · simp
          · rename_i hne
            exact hs.reading j (hj.resolve_right fun heq => hne (RoomCall.start.inj heq))
  | readHandler id i ec bytes =>
      obtain rfl : ec = none := by simpa [NetworkEvent.ok] using hok
      obtain ⟨r, hreads, hmay, rfl⟩ := ChatState.readHandler_performs (hone.atMostOne id) hstep
      -- what arrives is what the client has sent, whose headers tell lengths
      have hwrites := (wired h).writes id
      exact hs.readOn id _ (ReadsStream.handler_goes_on (hreads ▸ (wired h).sessions.chain id)
        (fun msg hmsg => hwrites.synced msg (List.mem_append_left _ hmsg)) hmay
        (hread.trans hwrites.phase.wire_isPrefix))
  | transfer id i n =>
      obtain ⟨q, hq, rfl⟩ := ChatState.transfer_eq_some hstep
      exact hs.write (SendQueue.failed_transfer hq)
  | writeHandler id i ec =>
      obtain rfl : ec = none := by simpa [NetworkEvent.ok] using hok
      obtain ⟨q, hq, ⟨-, rfl⟩ | ⟨hec, -⟩⟩ := ChatState.writeHandler_eq_some hstep
      · exact hs.write (SendQueue.failed_finish hq)
      · exact absurd rfl hec

/-- An event of a client that is no error. -/
theorem ClientGoesOn.step {id : ℕ} {e : ClientEvent} {d : ChatClient}
    (h : (networkMachine input).Reachable s) (hc : ClientGoesOn (s.clients id).client)
    (hok : (NetworkEvent.client id e).ok = true)
    (hread : (s.clients id).heard ++ e.bytes <+: s.sentBySession id)
    (hstep : clientMachine.step (s.clients id).client e = some d) : ClientGoesOn d := by
  have hchain := ((wired h).clients id).chain
  cases client_step hstep with
  | write msg => exact ⟨hc.reading, hc.sending⟩
  | close => exact ⟨hc.reading, hc.sending⟩
  | connected _ => exact ⟨fun _ => by simp, hc.sending⟩
  | connectFailed ec _ => cases hok
  | @read i r ec bytes hr hmay =>
      obtain rfl : ec = none := by simpa [NetworkEvent.ok] using hok
      obtain ⟨hreads, rfl⟩ := eq_singleton_of_length_le_one hchain.length_reads_le hr
      -- what arrives is what the session has sent, whose headers tell lengths
      have hserver : serverMachine.Reachable s.server := (networkServer input).reachable h
      have hphase : SendQueue.Phase ChatMessage.bytes (s.server.sessions id).out :=
        (room_drives id).phase (serverRoom.reachable hserver)
      have hacts := ReadsStream.handler_goes_on (hreads ▸ hchain) (synced_of_enqueued hserver id) hmay
        (hread.trans hphase.wire_isPrefix)
      constructor
      · intro _
        rcases hacts with hbody | ⟨msg', haccept⟩
        · simp [hbody, ChatClient.perform, ChatClient.doReadBody]
        · simp [haccept, ChatClient.perform, ChatClient.doReadHeader]
      · rw [ChatClient.out_foldl_perform]
        exact hc.sending
  | @posted i p hp =>
      cases p with
      | write msg =>
          refine ⟨hc.reading, ?_⟩
          exact (@SendQueue.failed_enqueueAll _ _ ChatMessage.bytes _ [msg]).trans hc.sending
      | close => exact ⟨hc.reading, hc.sending⟩
  | transfer hq => exact ⟨hc.reading, (SendQueue.failed_transfer hq).trans hc.sending⟩
  | written hq => exact ⟨hc.reading, (SendQueue.failed_finish hq).trans hc.sending⟩
  | writeFailed ec _ => cases hok

/-- Everybody goes on. -/
structure Undisturbed (s : ChatNetwork) : Prop where
  server : SessionsGoOn s.server
  clients : ∀ id, ClientGoesOn (s.clients id).client

/-- **Without errors everybody goes on.** -/
theorem undisturbed_of_ok {s₀ : ChatNetwork} {es : List NetworkEvent}
    (hinit : (networkMachine input).init s₀) (hexec : (networkMachine input).exec s₀ es = some s)
    (hok : ∀ e ∈ es, e.ok = true) : Undisturbed s := by
  have key : (networkMachine input).Reachable s ∧ Undisturbed s := by
    apply Machine.exec_preserves_of_stepsMeet
      (I := fun s => (networkMachine input).Reachable s ∧ Undisturbed s) _ _
      (Machine.stepsMeet_of_forall_mem hok) hexec
    · rintro s e t ⟨hr, hs⟩ hok hstep
      refine ⟨hr.step hstep, ?_⟩
      cases network_step hstep with
      | server hread hserver => exact ⟨hs.server.step hr hok hread hserver, hs.clients⟩
      | @mainLoop id storage p hmain =>
          refine ⟨hs.server, (Function.forall_update_iff s.clients fun _ p =>
            ClientGoesOn p.client).2 ⟨?_, fun j _ => hs.clients j⟩⟩
          obtain ⟨is, ⟨rfl, -⟩ | ⟨line, -, -, rfl⟩⟩ := (s.clients id).mainLoop_eq_some hmain
          · exact ⟨(hs.clients id).reading, (hs.clients id).sending⟩
          · exact ⟨(hs.clients id).reading, (hs.clients id).sending⟩
      | @client id e c hmain hread hclient =>
          exact ⟨hs.server, (Function.forall_update_iff s.clients fun _ p =>
            ClientGoesOn p.client).2 ⟨(hs.clients id).step hr hok hread hclient,
              fun j _ => hs.clients j⟩⟩
    · refine ⟨.of_init hinit, ?_⟩
      obtain ⟨sessionMsgs, clientMsgs, rfl⟩ := hinit
      exact ⟨⟨fun _ => List.not_mem_nil, fun _ hstart => absurd hstart List.not_mem_nil, fun _ => rfl⟩,
        fun _ => ⟨nofun, rfl⟩⟩
  exact key.2

/-! ## Nothing more can happen -/

/-- The events without an error that take a client and its session on, where there is nothing new from the
user. -/
def NetworkEvent.GoesOn (s : ChatNetwork) (id : ℕ) : NetworkEvent → Prop
  | .server (.readHandler j _ ec _) => j = id ∧ ec = none
  | .server (.transfer j _ n) => j = id ∧ 0 < n
  | .server (.writeHandler j _ ec) => j = id ∧ ec = none
  | .client j (.connectHandler ec) => j = id ∧ ec = none
  | .client j (.readHandler _ ec _) => j = id ∧ ec = none
  | .client j (.postedHandler i) =>
      j = id ∧ ∃ msg, (s.clients id).client.posted[i]? = some (.write msg)
  | .client j (.transfer _ n) => j = id ∧ 0 < n
  | .client j (.writeHandler _ ec) => j = id ∧ ec = none
  | _ => False

/-- None of them can happen. -/
def AtRest (input : ℕ → List UInt8) (s : ChatNetwork) (id : ℕ) : Prop :=
  ∀ e : NetworkEvent, e.GoesOn s id → (networkMachine input).step s e = none

namespace AtRest

variable {id : ℕ}

theorem server (hrest : AtRest input s id) {e : ServerEvent}
    (he : (NetworkEvent.server e).GoesOn s id)
    (hread : s.received e.session ++ e.bytes <+: s.sentByClient e.session) :
    serverMachine.step s.server e = none := by
  have hnone := hrest _ he
  simp only [networkMachine, if_pos hread, Option.map_eq_none_iff] at hnone
  exact hnone

theorem client (hrest : AtRest input s id) {e : ClientEvent}
    (he : (NetworkEvent.client id e).GoesOn s id) (hmain : e.fromMain = false)
    (hread : (s.clients id).heard ++ e.bytes <+: s.sentBySession id) :
    clientMachine.step (s.clients id).client e = none := by
  have hnone := hrest _ he
  simp only [networkMachine, ClientProcess.handle, hmain, Bool.false_eq_true, if_false, if_pos hread,
    Option.map_eq_none_iff] at hnone
  exact hnone

/-- The client has sent all that is in its queue. -/
theorem sentByClient (h : (networkMachine input).Reachable s) (hs : Undisturbed s)
    (hrest : AtRest input s id) :
    s.sentByClient id = (s.clients id).client.out.enqueued.flatMap ChatMessage.bytes := by
  have hheard : ∀ bytes, bytes = [] → (s.clients id).heard ++ bytes <+: s.sentBySession id := by
    rintro bytes rfl
    rw [List.append_nil]
    exact (wired h).heard id
  apply ((wired h).writes id).phase.wire_of_quiet (hs.clients id).sending
  · intro i n hn
    have hnone := hrest.client (e := .transfer i n) ⟨rfl, hn⟩ rfl (hheard _ rfl)
    exact Option.map_eq_none_iff.1 hnone
  · intro i
    have hnone := hrest.client (e := .writeHandler i none) ⟨rfl, rfl⟩ rfl (hheard _ rfl)
    exact Option.map_eq_none_iff.1 hnone

/-- The session has sent all that is in its queue. -/
theorem sentBySession (h : (networkMachine input).Reachable s) (hs : Undisturbed s)
    (hrest : AtRest input s id) :
    s.sentBySession id = (s.server.sessions id).out.enqueued.flatMap ChatMessage.bytes := by
  have hreceived : ∀ bytes, bytes = [] → s.received id ++ bytes <+: s.sentByClient id := by
    rintro bytes rfl
    rw [List.append_nil]
    exact (wired h).received id
  have hphase : SendQueue.Phase ChatMessage.bytes (s.server.sessions id).out :=
    (room_drives id).phase (serverRoom.reachable ((networkServer input).reachable h))
  apply hphase.wire_of_quiet (hs.server.sending id)
  · intro i n hn
    have hnone := hrest.server (e := .transfer id i n) ⟨rfl, hn⟩ (hreceived _ rfl)
    exact Option.map_eq_none_iff.1 hnone
  · intro i
    have hnone := hrest.server (e := .writeHandler id i none) ⟨rfl, rfl⟩ (hreceived _ rfl)
    exact Option.map_eq_none_iff.1 hnone

/-- The client has come to all that `main` has handed over. -/
theorem handed_eq (h : (networkMachine input).Reachable s) (hrest : AtRest input s id) :
    (s.clients id).client.handed = (s.clients id).client.out.enqueued := by
  rw [ChatClient.handed, List.append_right_eq_self, List.filterMap_eq_nil_iff]
  intro p hp
  obtain ⟨i, hi⟩ := List.mem_iff_getElem?.1 hp
  cases p with
  | close => rfl
  | write msg =>
      have hheard : (s.clients id).heard ++ [] <+: s.sentBySession id := by
        rw [List.append_nil]
        exact (wired h).heard id
      have hnone := hrest.client (e := .postedHandler i) ⟨rfl, msg, hi⟩ rfl hheard
      simp [clientMachine, hi] at hnone

/-- The session has delivered all that the client has sent. -/
theorem deliveredBy_eq (h : (networkMachine input).Reachable s) (hs : Undisturbed s)
    (hrest : AtRest input s id) (hid : .start id ∈ s.server.log) :
    (deliveredBy id s.server.log).map ChatMessage.toFrame =
      (s.clients id).client.out.enqueued.map ChatMessage.toFrame := by
  have hchain := (wired h).sessions.chain id
  have hreceived := (wired h).received id
  have hsent := hrest.sentByClient h hs
  obtain ⟨r, hreads⟩ := hchain.exists_read (hs.server.reading id hid)
  rw [hreads] at hchain
  rw [hsent] at hreceived
  refine hchain.found_eq (fun msg hmsg => ((wired h).writes id).synced msg
    (List.mem_append_left _ hmsg)) hreceived ?_
  -- a read that could end would be one more event
  intro bytes hmay hbytes
  have hnone := hrest.server (e := .readHandler id 0 none bytes) ⟨rfl, rfl⟩ (hsent ▸ hbytes)
  simp [serverMachine, ChatState.readHandler, hreads, hmay] at hnone

/-- The client has printed all that the session has sent. -/
theorem printed_eq (h : (networkMachine input).Reachable s) (hs : Undisturbed s)
    (hrest : AtRest input s id) :
    (s.clients id).printed.map ChatMessage.toFrame =
      (s.server.sessions id).out.enqueued.map ChatMessage.toFrame := by
  have hchain := ((wired h).clients id).chain
  have hheard := (wired h).heard id
  have hsent := hrest.sentBySession h hs
  have hconnected : (s.clients id).client.connecting = false := by
    have hnil : (s.clients id).heard ++ [] <+: s.sentBySession id := by
      rw [List.append_nil]
      exact hheard
    have hnone := hrest.client (e := .connectHandler none) ⟨rfl, rfl⟩ rfl hnil
    simpa [clientMachine] using hnone
  obtain ⟨r, hreads⟩ := hchain.exists_read ((hs.clients id).reading hconnected)
  rw [hreads] at hchain
  rw [hsent] at hheard
  refine hchain.found_eq (synced_of_enqueued ((networkServer input).reachable h) id) hheard ?_
  intro bytes hmay hbytes
  have hnone := hrest.client (e := .readHandler 0 none bytes) ⟨rfl, rfl⟩ rfl (hsent ▸ hbytes)
  simp [clientMachine, ChatClient.readHandler, hreads, hmay] at hnone

end AtRest

/-- **The chat loses nothing.** After a run without errors, where nothing more can happen to a client and its
session but new lines and new sessions: the session has delivered all lines typed so far, once each, and in
their order where the client has run its posted handlers in that order; these are all lines of the input where
`main` waits for its thread; and the client has printed all that was delivered to the room since its session
started, behind the last 100 messages of before. -/
theorem chat_loses_nothing (s₀ s : ChatNetwork) (es : List NetworkEvent)
    (hinit : (networkMachine input).init s₀) (hexec : (networkMachine input).exec s₀ es = some s)
    (hok : ∀ e ∈ es, e.ok = true) (id : ℕ) (hrest : AtRest input s id) (before after : List RoomCall)
    (hlog : s.server.log = before ++ .start id :: after) :
    ((deliveredBy id s.server.log).map ChatMessage.body).Perm (s.clients id).typed ∧
      ((∀ e ∈ es, e.fifo = true) →
        (deliveredBy id s.server.log).map ChatMessage.body = (s.clients id).typed) ∧
      ((s.clients id).joining = true → (s.clients id).typed = inputLines (input id)) ∧
      (s.clients id).printed.map ChatMessage.body =
        ((delivered s.server.log).drop ((delivered before).length - 100)).map ChatMessage.body := by
  have h : (networkMachine input).Reachable s := ⟨s₀, es, hinit, hexec⟩
  have hs : Undisturbed s := undisturbed_of_ok hinit hexec hok
  have hwrites := (wired h).writes id
  have hdeliveredBy : (deliveredBy id s.server.log).map ChatMessage.body =
      (s.clients id).client.handed.map ChatMessage.body := by
    rw [map_body_congr (hrest.deliveredBy_eq h hs (by simp [hlog])), ← hrest.handed_eq h]
  refine ⟨hdeliveredBy ▸ hwrites.handed, ?_, ?_, ?_⟩
  · intro hfifo
    rw [hdeliveredBy, handed_of_fifo hinit hexec hfifo id]
  · intro hjoining
    rw [← hwrites.typed, ClientProcess.linesLeft, if_pos hjoining, List.append_nil]
  · rw [map_body_congr (hrest.printed_eq h hs)]
    -- nobody has left, so the session was sent everything from then on
    have hstay : stay id after = after := by
      rw [stay, List.takeWhile_eq_self_iff]
      intro call hcall
      have hleave := hs.server.stays id
      simp only [hlog, List.mem_append, List.mem_cons, not_or] at hleave
      simpa using fun heq : call = .leave id => hleave.2.2 (heq ▸ hcall)
    have hroom : roomMachine.Reachable s.server :=
      serverRoom.reachable ((networkServer input).reachable h)
    have hdelivered : delivered s.server.log = delivered before ++ delivered after := by
      rw [hlog, delivered_append]
      rfl
    rw [((relayed hroom).joined id before after hlog).2, hstay, hdelivered,
      List.drop_append_of_le_length (Nat.sub_le _ _)]
    rfl

section Hello

/-- Where both wait for the next header, and all that was sent has been read, nothing more can happen. -/
theorem atRest_of_waiting {id : ℕ} (hposted : (s.clients id).client.posted = [])
    (hconnecting : (s.clients id).client.connecting = false)
    (hwrites : (s.clients id).client.out.writes = []) (hsession : (s.server.sessions id).out.writes = [])
    (hreads : (s.clients id).client.reads = [.header])
    (hsessionReads : (s.server.sessions id).reads = [.header])
    (hheard : (s.clients id).heard = s.sentBySession id)
    (hreceived : s.received id = s.sentByClient id) : AtRest input s id := by
  have htoo_long : ∀ {wire bytes : List UInt8}, bytes.length = headerLength → ¬ wire ++ bytes <+: wire :=
    fun {wire bytes} hlen hle => by
      have := hle.length_le
      rw [List.length_append, hlen] at this
      exact absurd this (by simp [headerLength])
  have hmay : ∀ {i : ℕ} {r : Read} {msg : ChatMessage} {bytes : List UInt8}, [Read.header][i]? = some r →
      r.mayEnd msg none bytes = true → bytes.length = headerLength := by
    intro i r msg bytes hr hmay
    obtain rfl : r = .header := by simpa using List.mem_of_getElem? hr
    exact Read.mayEnd_none.1 hmay
  intro e he
  rw [Option.eq_none_iff_forall_ne_some]
  intro t hstep
  cases network_step hstep with
  | @server e server hread hserver =>
      cases e with
      | acceptHandler ec j => exact he
      | readHandler j i ec bytes =>
          obtain ⟨rfl, rfl⟩ := he
          rw [ServerEvent.session, hreceived] at hread
          simp only [serverMachine, ChatState.readHandler, hsessionReads] at hserver
          split at hserver
          · rename_i r hr
            obtain ⟨hends, -⟩ := Option.ite_none_right_eq_some.1 hserver
            exact htoo_long (hmay hr hends) hread
          · cases hserver
      | transfer j i n =>
          obtain ⟨rfl, -⟩ := he
          simp [serverMachine, ChatState.transfer, SendQueue.transfer, hsession] at hserver
      | writeHandler j i ec =>
          obtain ⟨rfl, rfl⟩ := he
          simp [serverMachine, ChatState.writeHandler, SendQueue.finish, hsession] at hserver
  | mainLoop _ => exact he
  | @client j e c hmain hread hclient =>
      cases client_step hclient with
      | write _ => exact he
      | close => exact he
      | connected hc =>
          obtain ⟨rfl, -⟩ := he
          rw [hconnecting] at hc
          cases hc
      | connectFailed ec _ => cases he.2
      | @read i r ec bytes hr hends =>
          obtain ⟨rfl, rfl⟩ := he
          rw [hheard] at hread
          rw [hreads] at hr
          exact htoo_long (hmay hr hends) hread
      | @posted i p hp =>
          obtain ⟨rfl, -⟩ := he
          simp [hposted] at hp
      | transfer hq =>
          obtain ⟨rfl, -⟩ := he
          simp [SendQueue.transfer, hwrites] at hq
      | written hq =>
          obtain ⟨rfl, -⟩ := he
          simp [SendQueue.finish, hwrites] at hq
      | writeFailed ec _ => cases he.2

/-- A run of one client, which prints the line that its user has typed. -/
def echoEvents : List NetworkEvent :=
  [.server (.acceptHandler none 0), .client 0 (.connectHandler none),
    .mainLoop 0 ⟨zeros.data_, zeros.size⟩, .client 0 (.postedHandler 0), .client 0 (.transfer 0 6),
    .client 0 (.writeHandler 0 none), .server (.readHandler 0 0 none (str "   2")),
    .server (.readHandler 0 0 none (str "hi")), .server (.transfer 0 0 6),
    .server (.writeHandler 0 0 none), .client 0 (.readHandler 0 none (str "   2")),
    .client 0 (.readHandler 0 none (str "hi"))]

/-- Nothing more can happen after it, and nothing is lost. -/
theorem chat_loses_nothing_hello :
    ∃ s, (networkMachine helloInput).exec (.initial helloInput (fun _ => zeros) fun _ => zeros)
        echoEvents = some s ∧ AtRest helloInput s 0 ∧ (s.clients 0).typed = [str "hi"] ∧
      (deliveredBy 0 s.server.log).map ChatMessage.body = (s.clients 0).typed ∧
      (s.clients 0).printed.map ChatMessage.body =
        ((delivered s.server.log).drop (0 - 100)).map ChatMessage.body := by
  have hrun : ((networkMachine helloInput).exec
      (.initial helloInput (fun _ => zeros) fun _ => zeros) echoEvents).map
      (fun s => decide ((s.clients 0).typed = [str "hi"] ∧ s.server.log.take 1 = [.start 0] ∧
        (s.clients 0).client.posted = [] ∧ (s.clients 0).client.connecting = false ∧
        (s.clients 0).client.out.writes = [] ∧ (s.server.sessions 0).out.writes = [] ∧
        (s.clients 0).client.reads = [.header] ∧ (s.server.sessions 0).reads = [.header] ∧
        (s.clients 0).heard = s.sentBySession 0 ∧ s.received 0 = s.sentByClient 0)) = some true := by
    decide +kernel
  obtain ⟨s, hs, htrue⟩ := Option.map_eq_some_iff.1 hrun
  obtain ⟨htyped, hlog, hposted, hconnecting, hwrites, hsession, hreads, hsessionReads, hheard,
    hreceived⟩ := of_decide_eq_true htrue
  have hrest : AtRest helloInput s 0 :=
    atRest_of_waiting hposted hconnecting hwrites hsession hreads hsessionReads hheard hreceived
  have hstart : s.server.log = [] ++ .start 0 :: s.server.log.drop 1 := by
    conv_lhs => rw [← List.take_append_drop 1 s.server.log, hlog]
    rfl
  obtain ⟨-, hdelivered, -, hprinted⟩ := chat_loses_nothing _ s echoEvents ⟨_, _, rfl⟩ hs (by decide) 0
    hrest _ _ hstart
  exact ⟨s, hs, hrest, htyped, hdelivered (by decide), hprinted⟩

end Hello

end AsioExamples.Chat
