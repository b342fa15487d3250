import AsioExamples.Chat.Room

/-!
# The chat server

`chat_server` in `chat_server.cpp`: sessions start as connections are accepted, and what they read from
their peers decides which calls they make to the room. What a peer sends and when is in the events, so
a peer may send anything.

A step of the server is a run of `roomMachine` (`serverRoom`): the server is a room with a particular
environment, and what holds of every run of a room holds of the server. `OneRead` is what the read
chains keep on their own.
-/

set_option autoImplicit false

namespace AsioExamples.Chat

open AsioExamples.Cxx AsioExamples.Lib AsioExamples.Asio

/-! ## The server -/

/-- What can happen to the server: a connection is accepted, an operation of a session ends and its
handler runs, or a write makes progress. The acceptor always has one operation outstanding. -/
inductive ServerEvent where
  | acceptHandler (ec : Option ErrorCode) (id : ℕ)
  | readHandler (id i : ℕ) (ec : Option ErrorCode) (bytes : List UInt8)
  | transfer (id i n : ℕ)
  | writeHandler (id i : ℕ) (ec : Option ErrorCode)
  deriving DecidableEq

namespace ChatState

/-- One action of the read chain of a session. -/
def perform (s : ChatState) (id : ℕ) : ReadAction → ChatState
  | .asyncReadHeader => s.modify id ChatSession.doReadHeader
  | .asyncReadBody => s.modify id ChatSession.doReadBody
  | .accept msg => s.deliver id msg
  | .stop => s.leave id

/-- The handlers that `do_read_header` and `do_read_body` pass to `async_read`. -/
def readHandler (s : ChatState) (id i : ℕ) (ec : Option ErrorCode) (bytes : List UInt8) :
    Option ChatState :=
  match (s.sessions id).reads[i]? with
  | some r =>
      if r.mayEnd (s.sessions id).readMsg_ ec bytes then
        -- the handler updates `read_msg_` first, and then acts
        let h := r.handler (s.sessions id).readMsg_ ec bytes
        some (h.2.foldl (fun s a => s.perform id a)
          (s.modify id fun c => { c with readMsg_ := h.1, reads := c.reads.eraseIdx i }))
      else none
  | none => none

/-- The handler that `chat_server::do_accept` passes to `async_accept`. A new session is none that has
been started before. -/
def acceptHandler (s : ChatState) (ec : Option ErrorCode) (id : ℕ) : Option ChatState :=
  if ec = none then if RoomCall.start id ∈ s.log then none else some (s.start id) else some s

end ChatState

/-- The server, from its construction on. -/
def serverMachine : Machine ChatState ServerEvent where
  init s := ∃ msgs, s = .initial msgs
  step s
    | .acceptHandler ec id => s.acceptHandler ec id
    | .readHandler id i ec bytes => s.readHandler id i ec bytes
    | .transfer id i n => s.transfer id i n
    | .writeHandler id i ec => s.writeHandler id i ec

/-! ## The server is a room -/

namespace ChatState

/-- An action of a read chain as an event of the room. -/
def roomEvent (s : ChatState) (id : ℕ) : ReadAction → RoomEvent
  | .asyncReadHeader => .reads id (s.sessions id).readMsg_ ((s.sessions id).reads ++ [.header])
  | .asyncReadBody => .reads id (s.sessions id).readMsg_ ((s.sessions id).reads ++ [.body])
  | .accept msg => .deliver id msg
  | .stop => .leave id

/-- The actions of a handler, one after the other, as events of the room. -/
def roomEvents (s : ChatState) (id : ℕ) : List ReadAction → List RoomEvent
  | [] => []
  | a :: acts => s.roomEvent id a :: (s.perform id a).roomEvents id acts

theorem step_roomEvent (s : ChatState) (id : ℕ) (a : ReadAction) :
    roomMachine.step s (s.roomEvent id a) = some (s.perform id a) := by
  cases a <;> rfl

theorem exec_roomEvents (s : ChatState) (id : ℕ) (acts : List ReadAction) :
    roomMachine.exec s (s.roomEvents id acts) = some (acts.foldl (fun s a => s.perform id a) s) := by
  induction acts generalizing s with
  | nil => rfl
  | cons a acts ih =>
      rw [roomEvents, Machine.exec_cons, step_roomEvent, Option.bind_some, ih]
      rfl

/-- What happens in the room when an event of the server happens. -/
def label (s : ChatState) : ServerEvent → List RoomEvent
  | .acceptHandler ec id => if ec = none then [.start id] else []
  | .readHandler id i ec bytes =>
      match (s.sessions id).reads[i]? with
      | some r =>
          let h := r.handler (s.sessions id).readMsg_ ec bytes
          let reads := (s.sessions id).reads.eraseIdx i
          .reads id h.1 reads ::
            (s.modify id fun c => { c with readMsg_ := h.1, reads := reads }).roomEvents id h.2
      | none => []
  | .transfer id i n => [.transfer id i n]
  | .writeHandler id i ec => [.writeHandler id i ec]

end ChatState

/-- **The server is a room**: each of its steps is a run of the room machine. -/
def serverRoom : Machine.Simulation serverMachine roomMachine where
  abs := id
  label := ChatState.label
  init _ h := h
  step s e t _ hstep := by
    cases e with
    | acceptHandler ec id =>
        simp only [serverMachine, ChatState.acceptHandler] at hstep
        split at hstep
        · rename_i hec
          simp only [ChatState.label, if_pos hec, Machine.exec_singleton]
          exact hstep
        · rename_i hec
          simp only [ChatState.label, if_neg hec]
          exact hstep
    | readHandler id i ec bytes =>
        -- the read chain moves on, and then makes its calls
        simp only [serverMachine, ChatState.readHandler] at hstep
        simp only [ChatState.label]
        split at hstep
        · split at hstep
          · rw [Machine.exec_cons]
            exact (ChatState.exec_roomEvents _ id _).trans hstep
          · cases hstep
        · cases hstep
    | transfer id i n => exact (Machine.exec_singleton _ _ _).trans hstep
    | writeHandler id i ec => exact (Machine.exec_singleton _ _ _).trans hstep

/-! ## The read chains -/

namespace ChatState

variable {s t : ChatState}

@[simp] theorem sessions_leave (s : ChatState) (id : ℕ) : (s.leave id).sessions = s.sessions := rfl

/-- A change of a session outside its read chain leaves every read chain as it is. -/
theorem reads_modify {id : ℕ} {f : ChatSession → ChatSession}
    (hf : (f (s.sessions id)).reads = (s.sessions id).reads) (j : ℕ) :
    ((s.modify id f).sessions j).reads = (s.sessions j).reads :=
  s.forall_sessions_modify (P := fun j c => c.reads = (s.sessions j).reads) (fun _ => rfl) hf j

theorem readMsg_modify {id : ℕ} {f : ChatSession → ChatSession}
    (hf : (f (s.sessions id)).readMsg_ = (s.sessions id).readMsg_) (j : ℕ) :
    ((s.modify id f).sessions j).readMsg_ = (s.sessions j).readMsg_ :=
  s.forall_sessions_modify (P := fun j c => c.readMsg_ = (s.sessions j).readMsg_) (fun _ => rfl) hf j

@[simp] theorem reads_deliver (s : ChatState) (id : ℕ) (msg : ChatMessage) (j : ℕ) :
    ((s.deliver id msg).sessions j).reads = (s.sessions j).reads := by
  rw [s.deliver_eq]
  exact ChatSession.reads_deliverAll _ _

@[simp] theorem readMsg_deliver (s : ChatState) (id : ℕ) (msg : ChatMessage) (j : ℕ) :
    ((s.deliver id msg).sessions j).readMsg_ = (s.sessions j).readMsg_ := by
  rw [s.deliver_eq]
  exact ChatSession.readMsg_deliverAll _ _

@[simp] theorem log_deliver (s : ChatState) (id : ℕ) (msg : ChatMessage) :
    (s.deliver id msg).log = s.log ++ [.deliver id msg] := by
  rw [s.deliver_eq]

/-- The read chain of a session that starts. -/
theorem reads_start (s : ChatState) (id j : ℕ) :
    ((s.start id).sessions j).reads =
      if j = id then (s.sessions id).reads ++ [.header] else (s.sessions j).reads := by
  rw [s.start_eq]
  by_cases hj : j = id
  · subst hj
    simp [ChatSession.doReadHeader]
  · simp [hj]

theorem readMsg_start (s : ChatState) (id j : ℕ) :
    ((s.start id).sessions j).readMsg_ = (s.sessions j).readMsg_ := by
  rw [s.start_eq]
  by_cases hj : j = id
  · subst hj
    simp [ChatSession.doReadHeader]
  · simp [hj]

theorem log_start (s : ChatState) (id : ℕ) : (s.start id).log = s.log ++ [.start id] := by
  rw [s.start_eq]

/-- An accepted connection starts a session that has not been started; a failed accept does nothing. -/
theorem acceptHandler_eq_some {ec : Option ErrorCode} {id : ℕ}
    (h : s.acceptHandler ec id = some t) : t = s ∨ (.start id ∉ s.log ∧ t = s.start id) := by
  rw [acceptHandler] at h
  split at h
  · split at h
    · cases h
    · rename_i hid
      exact Or.inr ⟨hid, (Option.some.inj h).symm⟩
  · exact Or.inl (Option.some.inj h).symm

/-- The read of a session has ended, and its handler has stored what it made of it. -/
def readEnded (s : ChatState) (id : ℕ) (msg : ChatMessage) : ChatState :=
  s.modify id fun c => { c with readMsg_ := msg, reads := [] }

/-- The end of the read of a session with one read outstanding: the session leaves, or it goes on with
the body that the header tells of, or it delivers the message and goes on with the next header. -/
theorem readHandler_eq_some {id i : ℕ} {ec : Option ErrorCode} {bytes : List UInt8}
    (hone : (s.sessions id).reads.length ≤ 1) (h : s.readHandler id i ec bytes = some t) :
    ∃ r msg, (s.sessions id).reads = [r] ∧
      (t = (s.readEnded id msg).leave id ∨
        (r = .header ∧ msg.Synced ∧ t = (s.readEnded id msg).modify id ChatSession.doReadBody) ∨
        (r = .body ∧ msg = (s.sessions id).readMsg_.store headerLength bytes ∧
          t = ((s.readEnded id msg).deliver id msg).modify id ChatSession.doReadHeader)) := by
  rw [readHandler] at h
  cases hr : (s.sessions id).reads[i]? with
  | none => simp [hr] at h
  | some r =>
      obtain ⟨hreads, rfl⟩ := eq_singleton_of_length_le_one hone hr
      have hmodify : (s.modify id fun c =>
          { c with
            readMsg_ := (r.handler (s.sessions id).readMsg_ ec bytes).1
            reads := c.reads.eraseIdx 0 }) =
          s.readEnded id (r.handler (s.sessions id).readMsg_ ec bytes).1 := by
        simp only [modify, readEnded, hreads]
        rfl
      simp only [hr] at h
      split at h
      · rw [hmodify] at h
        cases h
        cases r with
        | header =>
            -- a bad header and an error make the session leave
            obtain ⟨msg, hstop | ⟨-, hsynced, hbody⟩⟩ :=
              readHeaderHandler_cases ((s.sessions id).readMsg_.store 0 bytes) ec
            · have hh : Read.header.handler (s.sessions id).readMsg_ ec bytes = (msg, [.stop]) := hstop
              rw [hh]
              exact ⟨.header, msg, hreads, Or.inl rfl⟩
            · have hh : Read.header.handler (s.sessions id).readMsg_ ec bytes =
                  (msg, [.asyncReadBody]) := hbody
              rw [hh]
              exact ⟨.header, msg, hreads, Or.inr (Or.inl ⟨rfl, hsynced, rfl⟩)⟩
        | body =>
            have hh : Read.body.handler (s.sessions id).readMsg_ ec bytes =
              ((s.sessions id).readMsg_.store headerLength bytes,
                readBodyHandler ((s.sessions id).readMsg_.store headerLength bytes) ec) := rfl
            rw [hh]
            refine ⟨.body, (s.sessions id).readMsg_.store headerLength bytes, hreads, ?_⟩
            rcases readBodyHandler_cases ((s.sessions id).readMsg_.store headerLength bytes) ec
              with hstop | haccept
            · rw [hstop]
              exact Or.inl rfl
            · rw [haccept]
              exact Or.inr (Or.inr ⟨rfl, rfl, rfl⟩)
      · cases h

end ChatState

/-! ## One read at a time -/

/-- A session has at most one read outstanding, and none before it has been started. -/
structure OneRead (s : ChatState) : Prop where
  atMostOne : ∀ id, (s.sessions id).reads.length ≤ 1
  fresh : ∀ id, .start id ∉ s.log → (s.sessions id).reads = []

namespace OneRead

variable {s t : ChatState}

theorem modify (hs : OneRead s) {id : ℕ} {f : ChatSession → ChatSession}
    (hone : (f (s.sessions id)).reads.length ≤ 1)
    (hfresh : .start id ∉ s.log → (f (s.sessions id)).reads = []) : OneRead (s.modify id f) := by
  constructor
  · exact s.forall_sessions_modify (P := fun _ c => c.reads.length ≤ 1) hs.atMostOne hone
  · exact s.forall_sessions_modify (P := fun j c => .start j ∉ s.log → c.reads = []) hs.fresh hfresh

theorem leave (hs : OneRead s) (id : ℕ) : OneRead (s.leave id) := by
  refine ⟨hs.atMostOne, ?_⟩
  intro j hj
  apply hs.fresh j
  intro h
  exact hj (by simp [ChatState.leave, h])

theorem deliver (hs : OneRead s) (id : ℕ) (msg : ChatMessage) : OneRead (s.deliver id msg) := by
  refine ⟨?_, ?_⟩
  · intro j
    rw [ChatState.reads_deliver]
    exact hs.atMostOne j
  · intro j hj
    rw [ChatState.reads_deliver]
    apply hs.fresh j
    intro h
    exact hj (by simp [h])

theorem start (hs : OneRead s) {id : ℕ} (hid : .start id ∉ s.log) : OneRead (s.start id) := by
  refine ⟨?_, ?_⟩
  · intro j
    rw [ChatState.reads_start, hs.fresh id hid]
    split
    · exact Nat.le_refl 1
    · exact hs.atMostOne j
  · intro j hj
    rw [ChatState.log_start, List.mem_append, not_or] at hj
    rw [ChatState.reads_start, if_neg fun h => hj.2 (by simp [h])]
    exact hs.fresh j hj.1

/-- A session with a read outstanding has been started. -/
theorem started (hs : OneRead s) {id : ℕ} {r : Read} (h : (s.sessions id).reads = [r]) :
    .start id ∈ s.log := by
  by_contra hid
  rw [hs.fresh id hid] at h
  cases h

/-- The end of a read makes room for another one. -/
theorem readEnded (hs : OneRead s) (id : ℕ) (msg : ChatMessage) : OneRead (s.readEnded id msg) :=
  hs.modify (Nat.zero_le 1) (fun _ => rfl)

end OneRead

@[simp] theorem ChatState.log_readEnded (s : ChatState) (id : ℕ) (msg : ChatMessage) :
    (s.readEnded id msg).log = s.log := rfl

/-- What the end of a read leaves of the session. -/
theorem ChatState.sessions_readEnded (s : ChatState) (id : ℕ) (msg : ChatMessage) :
    (s.readEnded id msg).sessions id = { s.sessions id with readMsg_ := msg, reads := [] } := by
  rw [readEnded, sessions_modify, if_pos rfl]

/-- **A session reads one thing at a time**, in every run of the server. -/
theorem oneRead {s : ChatState} (h : serverMachine.Reachable s) : OneRead s := by
  apply h.invariant (I := OneRead)
  · rintro s ⟨msgs, rfl⟩
    exact ⟨fun _ => Nat.zero_le 1, fun _ _ => rfl⟩
  · intro s e t hs hstep
    cases e with
    | acceptHandler ec id =>
        rcases ChatState.acceptHandler_eq_some hstep with rfl | ⟨hid, rfl⟩
        · exact hs
        · exact hs.start hid
    | readHandler id i ec bytes =>
        obtain ⟨r, msg, hreads, hcase⟩ := ChatState.readHandler_eq_some (hs.atMostOne id) hstep
        have hstarted := hs.started hreads
        have hended := hs.readEnded id msg
        rcases hcase with rfl | ⟨-, -, rfl⟩ | ⟨-, -, rfl⟩
        · exact hended.leave id
        · -- the read of the body is the only one again
          apply hended.modify
          · rw [ChatState.sessions_readEnded]
            exact Nat.le_refl 1
          · intro hid
            exact absurd hstarted hid
        · -- and so is the read of the next header, after the delivery
          apply (hended.deliver id msg).modify
          · simp [ChatSession.doReadHeader, ChatState.sessions_readEnded]
          · intro hid
            exact absurd (by simp [hstarted]) hid
    | transfer id i n =>
        obtain ⟨q, -, rfl⟩ := ChatState.transfer_eq_some hstep
        exact hs.modify (hs.atMostOne id) (hs.fresh id)
    | writeHandler id i ec =>
        obtain ⟨q, -, ⟨-, rfl⟩ | ⟨-, rfl⟩⟩ := ChatState.writeHandler_eq_some hstep
        · exact hs.modify (hs.atMostOne id) (hs.fresh id)
        · exact (hs.modify (hs.atMostOne id) (hs.fresh id)).leave id

end AsioExamples.Chat
