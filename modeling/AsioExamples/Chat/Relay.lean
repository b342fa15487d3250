import AsioExamples.Chat.Broadcast
import AsioExamples.Chat.Server
import AsioExamples.Chat.WriteQueue

/-!
# Frames through the relay

Whatever peers send, every message that the server relays is a well-formed frame: the header that came
with it tells the length that is stored with it. `Chained` carries this from `decode_header` over the
reuse of `read_msg_` to the room, and `Relayed` and the phases of the write queues carry it from
there into every session. So the reader of any recipient finds the messages that were written to it.
-/

set_option autoImplicit false

namespace AsioExamples.Chat

open AsioExamples.Lib AsioExamples.Asio

/-! ## The invariant of the read chains -/

/-- While a session reads a body, the header in `read_msg_` tells its length; so does the header of
every message delivered. -/
structure Chained (s : ChatState) : Prop where
  synced : ∀ id, .body ∈ (s.sessions id).reads → (s.sessions id).readMsg_.Synced
  accepted : ∀ msg ∈ delivered s.log, msg.Synced

namespace Chained

variable {s t : ChatState}

theorem modify (hs : Chained s) {id : ℕ} {f : ChatSession → ChatSession}
    (hsynced : .body ∈ (f (s.sessions id)).reads → (f (s.sessions id)).readMsg_.Synced) :
    Chained (s.modify id f) := by
  refine ⟨?_, hs.accepted⟩
  exact s.forall_sessions_modify (P := fun _ c => .body ∈ c.reads → c.readMsg_.Synced) hs.synced
    hsynced

theorem leave (hs : Chained s) (id : ℕ) : Chained (s.leave id) := by
  refine ⟨hs.synced, ?_⟩
  simpa [ChatState.leave, delivered] using hs.accepted

theorem deliver (hs : Chained s) (id : ℕ) {msg : ChatMessage} (hmsg : msg.Synced) :
    Chained (s.deliver id msg) := by
  refine ⟨?_, ?_⟩
  · intro j
    rw [ChatState.reads_deliver, ChatState.readMsg_deliver]
    exact hs.synced j
  · have hdelivered : delivered (s.deliver id msg).log = delivered s.log ++ [msg] := by
      simp [delivered]
    rw [hdelivered]
    exact List.forall_mem_append.2 ⟨hs.accepted, by simpa using hmsg⟩

theorem start (hs : Chained s) {id : ℕ} (hreads : (s.sessions id).reads = []) :
    Chained (s.start id) := by
  refine ⟨?_, ?_⟩
  · intro j hbody
    -- a session that starts reads a header
    rw [ChatState.reads_start, hreads] at hbody
    rw [ChatState.readMsg_start]
    split at hbody
    · simp at hbody
    · exact hs.synced j hbody
  · have hdelivered : delivered (s.start id).log = delivered s.log := by
      simp [ChatState.log_start, delivered]
    rw [hdelivered]
    exact hs.accepted

/-- The handler of a read decodes the header, or accepts the message that the header was read for. -/
theorem readHandler (hs : Chained s) {id i : ℕ} {ec : Option ErrorCode} {bytes : List UInt8}
    (hone : (s.sessions id).reads.length ≤ 1) (h : s.readHandler id i ec bytes = some t) :
    Chained t := by
  obtain ⟨r, msg, hreads, hcase⟩ := ChatState.readHandler_eq_some hone h
  have hended : Chained (s.readEnded id msg) := hs.modify (by simp)
  rcases hcase with rfl | ⟨-, hsynced, rfl⟩ | ⟨rfl, hmsg, rfl⟩
  · exact hended.leave id
  · -- the body comes next, as long as the header says
    apply hended.modify
    intro _
    rw [ChatState.sessions_readEnded]
    exact hsynced
  · -- the body has been stored behind the header
    have hsynced : msg.Synced := hmsg ▸ (hs.synced id (by simp [hreads])).store_body bytes
    apply (hended.deliver id hsynced).modify
    simp [ChatSession.doReadHeader, ChatState.sessions_readEnded]

end Chained

/-- **The read chains keep header and length together**, in every run of the server. -/
theorem chained {s : ChatState} (h : serverMachine.Reachable s) : Chained s := by
  apply h.induct (I := Chained)
  · rintro s ⟨msgs, rfl⟩
    exact ⟨by simp [ChatState.initial], by simp [ChatState.initial, delivered]⟩
  · intro s e t hr hs hstep
    cases e with
    | acceptHandler ec id =>
        rcases ChatState.acceptHandler_eq_some hstep with rfl | ⟨hid, rfl⟩
        · exact hs
        · exact hs.start ((oneRead hr).fresh id hid)
    | readHandler id i ec bytes => exact hs.readHandler ((oneRead hr).atMostOne id) hstep
    | transfer id i n =>
        obtain ⟨q, -, rfl⟩ := ChatState.transfer_eq_some hstep
        exact hs.modify (hs.synced id)
    | writeHandler id i ec =>
        obtain ⟨q, -, ⟨-, rfl⟩ | ⟨-, rfl⟩⟩ := ChatState.writeHandler_eq_some hstep
        · exact hs.modify (hs.synced id)
        · exact (hs.modify (hs.synced id)).leave id

/-! ## What recipients read -/

/-- The reader of whole messages and a part of the next finds the whole ones, and the next one when it
is all there. -/
theorem readLoop_wire {msgs : List ChatMessage} (h : ∀ msg ∈ msgs, msg.Synced) {next : ChatMessage}
    (hnext : next.Synced) {part : List UInt8} (hpart : part <+: next.bytes) (read : ChatMessage) :
    let found := (readLoop read (msgs.flatMap ChatMessage.bytes ++ part)).1.map ChatMessage.toFrame
    found = msgs.map ChatMessage.toFrame ∨ found = (msgs ++ [next]).map ChatMessage.toFrame := by
  intro found
  have hframes := wellFormed_of_synced h
  -- behind the whole messages the reader goes on with the part
  have hfound : found = msgs.map ChatMessage.toFrame ++ (framing.read part).1 := by
    have hread := (readLoop_eq_read read (msgs.flatMap ChatMessage.bytes ++ part)).1
    rw [flatMap_bytes, framing.read_frames_append hframes, ← flatMap_bytes] at hread
    exact hread
  rw [hfound]
  rcases framing.read_of_prefix hnext.wellFormed (next.bytes_eq ▸ hpart) with hnone | hall
  · rw [hnone]
    exact Or.inl (List.append_nil _)
  · rw [hall]
    exact Or.inr (by simp)

/-- **Frame boundaries survive the relay**, whatever the peers send and in whatever order it is read.
Every message delivered is its four header bytes and `body_length()` body bytes, and whoever decodes its
header finds that length. Every session writes such messages, a contiguous part of those delivered and
in their order; the reader of the writes that were completed finds exactly these messages, and the
reader of all that was sent at most the one in progress besides. -/
theorem relay_keeps_frames (s : ChatState) (h : serverMachine.Reachable s) :
    (∀ msg ∈ delivered s.log,
      msg.bytes = msg.header ++ msg.body ∧ msg.header.length = headerLength ∧
        msg.body.length = msg.bodyLength_ ∧
        ∀ msg' : ChatMessage, msg'.header = msg.header →
          msg'.decodeHeader = (true, { msg' with bodyLength_ := msg.bodyLength_ })) ∧
    ∀ id, let out := (s.sessions id).out
      out.completed <+: out.enqueued ∧ out.enqueued <:+: delivered s.log ∧
      (∀ w ∈ out.writes, ∃ msg ∈ out.enqueued, w.buffer = msg.header ++ msg.body) ∧
      ∀ read : ChatMessage,
        (readLoop read (out.completed.flatMap ChatMessage.bytes)).1.map ChatMessage.toFrame =
          out.completed.map ChatMessage.toFrame ∧
        (readLoop read (out.completed.flatMap ChatMessage.bytes)).2 = [] ∧
        out.completed.map ChatMessage.toFrame <+:
          (readLoop read out.wire).1.map ChatMessage.toFrame ∧
        (readLoop read out.wire).1.map ChatMessage.toFrame <+:
          out.enqueued.map ChatMessage.toFrame := by
  -- what holds of every run of a room, and what only the read chains of the server ensure
  have hroom : roomMachine.Reachable s := serverRoom.reachable h
  have hsynced := (chained h).accepted
  refine ⟨?_, ?_⟩
  · intro msg hmsg
    refine ⟨msg.bytes_eq, msg.length_header, (hsynced msg hmsg).length_body, ?_⟩
    intro msg' hheader
    exact (hsynced msg hmsg).decodeHeader hheader
  · intro id out
    have hphase : SendQueue.Phase ChatMessage.bytes out := (room_drives id).phase hroom
    have hseg : out.enqueued <:+: delivered s.log := (relayed hroom).enqueued_isInfix id
    have hbalance := hphase.completed_append_queue
    have henqueued : ∀ msg ∈ out.enqueued, msg.Synced := fun msg hmsg =>
      hsynced msg (hseg.subset hmsg)
    have hdone : out.completed <+: out.enqueued := hbalance ▸ List.prefix_append _ _
    have hcompleted : ∀ msg ∈ out.completed, msg.Synced := fun msg hmsg =>
      henqueued msg (hdone.subset hmsg)
    refine ⟨hdone, hseg, ?_, ?_⟩
    · -- a write covers the front of the queue
      intro w hw
      obtain ⟨msg, hhead, hbuffer⟩ := hphase.buffer_eq hw
      refine ⟨msg, ?_, hbuffer.trans msg.bytes_eq⟩
      rw [← hbalance]
      exact List.mem_append_right _ (List.mem_of_head? hhead)
    · intro read
      obtain ⟨hread, hrest⟩ := readLoop_flatMap_bytes hcompleted read
      refine ⟨hread, hrest, ?_⟩
      obtain ⟨part, hwire, rfl | ⟨msg, hhead, hpart⟩⟩ := hphase.wire_eq
      · rw [List.append_nil] at hwire
        rw [hwire, hread]
        exact ⟨List.prefix_rfl, hdone.map _⟩
      · -- the message in progress is the next one that was enqueued
        obtain ⟨rest, hqueue⟩ : ∃ rest, out.queue = msg :: rest := by
          cases hq : out.queue with
          | nil => simp [hq] at hhead
          | cons m ms => exact ⟨ms, by rw [hq, List.head?_cons] at hhead; cases hhead; rfl⟩
        have hsplit : out.completed ++ [msg] ++ rest = out.enqueued := by
          rw [← hbalance, hqueue, List.append_assoc, List.singleton_append]
        have hnext : msg.Synced := henqueued msg (by simp [← hsplit])
        rw [hwire]
        rcases readLoop_wire hcompleted hnext hpart read with hfound | hfound
        · rw [hfound]
          exact ⟨List.prefix_rfl, hdone.map _⟩
        · rw [hfound, ← hsplit]
          refine ⟨?_, (List.prefix_append _ _).map _⟩
          exact (List.prefix_append _ _).map _

/-- A peer whose header is not what `encode_header` writes. -/
theorem relay_keeps_frames_signed :
    ∃ s, serverMachine.exec (.initial fun _ => ⟨List.replicate 516 0, 0, List.length_replicate⟩)
        [.acceptHandler none 0, .readHandler 0 0 none [32, 43, 49, 120],
          .readHandler 0 0 none [97]] = some s ∧
      (∀ msg ∈ delivered s.log, msg.bytes = msg.header ++ msg.body) ∧
      (s.sessions 0).out.enqueued <:+: delivered s.log := by
  obtain ⟨s, hs⟩ := Option.isSome_iff_exists.1
    (show (serverMachine.exec
      (.initial fun _ => ⟨List.replicate 516 0, 0, List.length_replicate⟩)
      [.acceptHandler none 0, .readHandler 0 0 none [32, 43, 49, 120],
        .readHandler 0 0 none [97]]).isSome from by decide +kernel)
  obtain ⟨hmsgs, hsessions⟩ := relay_keeps_frames s ⟨_, _, ⟨_, rfl⟩, hs⟩
  exact ⟨s, hs, fun msg hmsg => (hmsgs msg hmsg).1, (hsessions 0).2.1⟩

end AsioExamples.Chat
