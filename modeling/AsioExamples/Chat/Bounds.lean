import AsioExamples.Chat.Headers
import AsioExamples.Chat.Relay
import AsioExamples.Chat.RoundTrip

/-!
# Messages stay inside their array

`data_` has room for a header and the longest body. `body_length_` is set by the setter, which cuts it, and by
`decode_header`, which refuses a number that is too large; a negative one is a large `size_t`. So
whatever is done to a message keeps it `Bounded`, and every read, write and copy that takes its length
from `body_length_` stays inside `data_`.

`messageMachine` is any program that works on messages. The server and the client work on messages
that come from each other's networks as well, and their outstanding operations stay inside too.
-/

set_option autoImplicit false

namespace AsioExamples.Chat

open AsioExamples.Cxx AsioExamples.Lib AsioExamples.Asio

/-! ## One operation -/

namespace ChatMessage

/-- `body_length_` is at most `max_body_length`. -/
def Bounded (m : ChatMessage) : Prop := m.bodyLength_ ≤ maxBodyLength

theorem bounded_new (data : List UInt8) (size : data.length = headerLength + maxBodyLength) :
    (new data size).Bounded := Nat.zero_le _

theorem bounded_setBodyLength (m : ChatMessage) (n : ℕ) : (m.setBodyLength n).Bounded := by
  rw [Bounded, bodyLength_setBodyLength]
  exact Nat.min_le_right _ _

/-- Whether the header tells a length or not. -/
theorem bounded_decodeHeader (m : ChatMessage) : m.decodeHeader.2.Bounded := by
  rw [decodeHeader_eq]
  cases hvalue : headerValue m.header with
  | none => exact Nat.zero_le _
  | some n => exact headerValue_le hvalue

theorem Bounded.store {m : ChatMessage} (h : m.Bounded) (offset : ℕ) (bs : List UInt8) :
    (m.store offset bs).Bounded := by
  rw [Bounded, bodyLength_store]
  exact h

theorem Bounded.encodeHeader {m : ChatMessage} (h : m.Bounded) : m.encodeHeader.Bounded := h.store _ _

theorem Synced.bounded {m : ChatMessage} (h : m.Synced) : m.Bounded := headerValue_le h

/-- What is done with a message on account of its length stays inside `data_`: reading or copying
`body_length()` bytes at `body()`, and writing `length()` bytes. The text that `encode_header` prints,
with its NUL, fits the local array of `header_length + 1` bytes. -/
structure StaysInside (m : ChatMessage) : Prop where
  bodyLength : m.bodyLength_ ≤ maxBodyLength
  body : headerLength + m.bodyLength_ ≤ m.data_.length
  bytes : m.length ≤ m.data_.length
  text : (sprintf4d (toInt m.bodyLength_)).length + 1 ≤ headerLength + 1

theorem Bounded.staysInside {m : ChatMessage} (h : m.Bounded) : m.StaysInside := by
  have hsize : headerLength + m.bodyLength_ ≤ m.data_.length := by
    rw [m.size]
    exact Nat.add_le_add_left h _
  refine ⟨h, hsize, hsize, ?_⟩
  -- a length of at most three digits is padded to four characters
  obtain ⟨-, hlen⟩ := encodeHeader_eq h
  have hsmall : m.bodyLength_ < 2 ^ 31 := by
    rw [Bounded, maxBodyLength] at h
    omega
  rw [toInt_of_lt hsmall, hlen]

end ChatMessage

/-! ## Any program -/

/-- What a program does with its messages. A message is known by its place in the order in which they
were made. -/
inductive MessageEvent where
  | construct (data : List UInt8) (size : data.length = headerLength + maxBodyLength)
  | copy (i : ℕ)
  | assign (i j : ℕ)
  | setBodyLength (i n : ℕ)
  | overwrite (i offset : ℕ) (bytes : List UInt8)
  | decodeHeader (i : ℕ)
  | encodeHeader (i : ℕ)

/-- A change of one message. -/
def modifyMessage (msgs : List ChatMessage) (i : ℕ) (f : ChatMessage → ChatMessage) :
    Option (List ChatMessage) :=
  msgs[i]?.map fun m => msgs.set i (f m)

/-- Messages and what is done with them, in any order. -/
def messageMachine : Machine (List ChatMessage) MessageEvent where
  init msgs := msgs = []
  step msgs
    | .construct data size => some (msgs ++ [.new data size])
    | .copy i => msgs[i]?.map fun m => msgs ++ [m]
    | .assign i j => msgs[j]?.bind fun m => modifyMessage msgs i fun _ => m
    | .setBodyLength i n => modifyMessage msgs i (·.setBodyLength n)
    | .overwrite i offset bytes =>
        -- the bytes that are overwritten are some of `data_`
        if offset + bytes.length ≤ headerLength + maxBodyLength then
          modifyMessage msgs i (·.store offset bytes)
        else none
    | .decodeHeader i => modifyMessage msgs i (·.decodeHeader.2)
    | .encodeHeader i => modifyMessage msgs i (·.encodeHeader)

/-- A change that bounds one message keeps all of them bounded. -/
theorem bounded_modifyMessage {msgs msgs' : List ChatMessage} {i : ℕ} {f : ChatMessage → ChatMessage}
    (h : ∀ m ∈ msgs, m.Bounded) (hf : ∀ m, m.Bounded → (f m).Bounded)
    (hmodify : modifyMessage msgs i f = some msgs') : ∀ m ∈ msgs', m.Bounded := by
  obtain ⟨m, hm, rfl⟩ := Option.map_eq_some_iff.1 hmodify
  intro m' hm'
  rcases List.mem_or_eq_of_mem_set hm' with hmem | rfl
  · exact h m' hmem
  · exact hf m (h m (List.mem_of_getElem? hm))

theorem bounded_step {msgs msgs' : List ChatMessage} {e : MessageEvent}
    (h : ∀ m ∈ msgs, m.Bounded) (hstep : messageMachine.step msgs e = some msgs') :
    ∀ m ∈ msgs', m.Bounded := by
  cases e with
  | construct data size =>
      cases hstep
      exact List.forall_mem_append.2 ⟨h, by simpa using ChatMessage.bounded_new data size⟩
  | copy i =>
      obtain ⟨m, hm, rfl⟩ := Option.map_eq_some_iff.1 hstep
      exact List.forall_mem_append.2 ⟨h, by simpa using h m (List.mem_of_getElem? hm)⟩
  | assign i j =>
      obtain ⟨m, hm, hmodify⟩ := Option.bind_eq_some_iff.1 hstep
      exact bounded_modifyMessage h (fun _ _ => h m (List.mem_of_getElem? hm)) hmodify
  | setBodyLength i n =>
      exact bounded_modifyMessage h (fun m _ => m.bounded_setBodyLength n) hstep
  | overwrite i offset bytes =>
      simp only [messageMachine] at hstep
      split at hstep
      · exact bounded_modifyMessage h (fun m hm => hm.store offset bytes) hstep
      · cases hstep
  | decodeHeader i => exact bounded_modifyMessage h (fun m _ => m.bounded_decodeHeader) hstep
  | encodeHeader i => exact bounded_modifyMessage h (fun m hm => hm.encodeHeader) hstep

/-- **The messages of any program are bounded.** -/
theorem bounded_of_reachable {msgs : List ChatMessage} (h : messageMachine.Reachable msgs) :
    ∀ m ∈ msgs, m.Bounded := by
  apply h.invariant (I := fun msgs => ∀ m ∈ msgs, m.Bounded)
  · rintro msgs rfl
    simp
  · exact fun msgs e msgs' h hstep => bounded_step h hstep

/-- A message that some program makes. -/
def Made (msg : ChatMessage) : Prop := ∃ msgs, messageMachine.Reachable msgs ∧ msg ∈ msgs

theorem Made.bounded {msg : ChatMessage} (h : Made msg) : msg.Bounded := by
  obtain ⟨msgs, hmsgs, hmem⟩ := h
  exact bounded_of_reachable hmsgs msg hmem

/-- The loop of the client's `main` makes a message of every line. -/
theorem made_compose (storage : Storage) (line : List UInt8) : Made (compose storage line) := by
  let msg := (ChatMessage.new storage.1 storage.2).setBodyLength line.length
  have hbound : msg.Bounded := ChatMessage.bounded_setBodyLength _ _
  have hfits : headerLength + (line.take msg.bodyLength_).length ≤ headerLength + maxBodyLength := by
    have htake := List.length_take_le msg.bodyLength_ line
    exact Nat.add_le_add_left (Nat.le_trans htake hbound) _
  have hnew : messageMachine.Reachable [.new storage.1 storage.2] :=
    (Machine.Reachable.of_init rfl).step (e := .construct storage.1 storage.2) rfl
  have hset : messageMachine.Reachable [msg] :=
    hnew.step (e := .setBodyLength 0 line.length) rfl
  have hcopied : messageMachine.Reachable [msg.store headerLength (line.take msg.bodyLength_)] :=
    hset.step (e := .overwrite 0 headerLength (line.take msg.bodyLength_)) (if_pos hfits)
  exact ⟨[compose storage line], hcopied.step (e := .encodeHeader 0) rfl, List.mem_singleton_self _⟩

/-! ## The server -/

/-- The buffer of a read lies inside `data_`. -/
def Read.Inside (msg : ChatMessage) (r : Read) : Prop := r.offset + r.length msg ≤ msg.data_.length

/-- A header always fits, and a body where the message is bounded. -/
theorem Read.inside {msg : ChatMessage} {r : Read} (h : r = .body → msg.Bounded) : r.Inside msg := by
  cases r with
  | header =>
      rw [Read.Inside, msg.size]
      exact Nat.le_add_right _ _
  | body => exact (h rfl).staysInside.body

/-- The outstanding reads of a session and all messages that were ever in its queue. -/
theorem session_staysInside {s : ChatState} (h : serverMachine.Reachable s) (id : ℕ) :
    (∀ r ∈ (s.sessions id).reads, r.Inside (s.sessions id).readMsg_) ∧
      ∀ msg ∈ (s.sessions id).out.enqueued, msg.StaysInside := by
  have hchained := chained h
  constructor
  · intro r hr
    apply Read.inside
    rintro rfl
    exact (hchained.synced id hr).bounded
  · -- what is enqueued to a session was delivered in the room
    intro msg hmsg
    have hseg := (relayed (serverRoom.reachable h)).enqueued_isInfix id
    exact (hchained.accepted msg (hseg.subset hmsg)).bounded.staysInside

/-! ## The client -/

/-- Where a body is read, the message is bounded, and so are the messages that are posted and those in the
queue. -/
structure ClientBounded (c : ChatClient) : Prop where
  reading : .body ∈ c.reads → c.readMsg_.Bounded
  posted : ∀ msg, .write msg ∈ c.posted → msg.Bounded
  enqueued : ∀ msg ∈ c.out.enqueued, msg.Bounded

namespace ClientBounded

variable {c d : ChatClient}

/-- The end of the one read. -/
theorem read (hc : ClientBounded c) (hone : c.reads.length ≤ 1) {i : ℕ} {r : Read}
    (hr : c.reads[i]? = some r) (ec : Option ErrorCode) (bytes : List UInt8) :
    ClientBounded ((r.handler c.readMsg_ ec bytes).2.foldl ChatClient.perform
      { c with readMsg_ := (r.handler c.readMsg_ ec bytes).1, reads := c.reads.eraseIdx i }) := by
  have hnone : c.reads.eraseIdx i = [] := by
    apply List.eq_nil_of_length_eq_zero
    rw [List.length_eraseIdx_of_lt (List.getElem?_eq_some_iff.1 hr).1]
    omega
  rw [hnone]
  rcases r.handler_actions c.readMsg_ ec bytes with hacts | ⟨hacts, hsynced⟩ | ⟨msg, hacts⟩
  · rw [hacts]
    exact ⟨by simp [ChatClient.perform, ChatClient.closeSocket], hc.posted, hc.enqueued⟩
  · rw [hacts]
    exact ⟨fun _ => hsynced.bounded, hc.posted, hc.enqueued⟩
  · rw [hacts]
    exact ⟨by simp [ChatClient.perform, ChatClient.doReadHeader], hc.posted, hc.enqueued⟩

/-- A posted handler runs. -/
theorem postedHandler (hc : ClientBounded c) {i : ℕ} {p : Posted} (hp : c.posted[i]? = some p) :
    ClientBounded ({ c with posted := c.posted.eraseIdx i }.postedHandler p) := by
  have hposted : ∀ msg, .write msg ∈ c.posted.eraseIdx i → msg.Bounded := fun msg hmsg =>
    hc.posted msg (List.mem_of_mem_eraseIdx hmsg)
  cases p with
  | write msg =>
      -- the message goes from what is posted into the queue
      refine ⟨hc.reading, hposted, ?_⟩
      have hmsg : msg.Bounded := hc.posted msg (List.mem_of_getElem? hp)
      simp only [ChatClient.postedHandler, SendQueue.enqueued_enqueue]
      exact List.forall_mem_append.2 ⟨hc.enqueued, by simpa using hmsg⟩
  | close =>
      refine ⟨hc.reading, fun msg hmsg => ?_, hc.enqueued⟩
      simp only [ChatClient.postedHandler, ChatClient.close, List.mem_append, List.mem_singleton,
        reduceCtorEq, or_false] at hmsg
      exact hposted msg hmsg

/-- A step of the client, when what its main thread writes is bounded. -/
theorem step (hc : ClientBounded c) (hone : c.Reads 1) {e : ClientEvent}
    (he : ∀ msg, e = .write msg → msg.Bounded) (hstep : clientMachine.step c e = some d) :
    ClientBounded d := by
  have hreads : c.reads.length ≤ 1 := by
    rw [ChatClient.Reads] at hone
    omega
  cases client_step hstep with
  | write msg =>
      refine ⟨hc.reading, fun msg' hmsg' => ?_, hc.enqueued⟩
      simp only [ChatClient.write, List.mem_append, List.mem_singleton, Posted.write.injEq] at hmsg'
      rcases hmsg' with hmsg' | rfl
      · exact hc.posted msg' hmsg'
      · exact he msg' rfl
  | close =>
      refine ⟨hc.reading, fun msg hmsg => ?_, hc.enqueued⟩
      simp only [ChatClient.close, List.mem_append, List.mem_singleton, reduceCtorEq,
        or_false] at hmsg
      exact hc.posted msg hmsg
  | connected hconnecting => exact ⟨by simpa using hc.reading, hc.posted, hc.enqueued⟩
  | connectFailed ec hconnecting => exact ⟨hc.reading, hc.posted, hc.enqueued⟩
  | @read i r ec bytes hr hmay => exact hc.read hreads hr ec bytes
  | posted hp => exact hc.postedHandler hp
  | transfer hq =>
      refine ⟨hc.reading, hc.posted, ?_⟩
      rw [SendQueue.enqueued_transfer hq]
      exact hc.enqueued
  | written hq =>
      refine ⟨hc.reading, hc.posted, ?_⟩
      rw [SendQueue.enqueued_finish hq]
      exact hc.enqueued
  | writeFailed ec hq =>
      refine ⟨hc.reading, hc.posted, ?_⟩
      rw [SendQueue.enqueued_finish hq]
      exact hc.enqueued

end ClientBounded

/-- The outstanding read of a client and all messages that were ever in its queue, when the main thread
writes messages that were made. -/
theorem client_staysInside {c₀ c : ChatClient} {es : List ClientEvent} (hinit : clientMachine.init c₀)
    (hwrites : ∀ msg, .write msg ∈ es → Made msg) (h : clientMachine.exec c₀ es = some c) :
    (∀ r ∈ c.reads, r.Inside c.readMsg_) ∧ ∀ msg ∈ c.out.enqueued, msg.StaysInside := by
  have hinvariant : c.Reads 1 ∧ ClientBounded c := by
    apply Machine.exec_preserves_of_stepsMeet (I := fun c => c.Reads 1 ∧ ClientBounded c)
      (G := fun _ e => ∀ msg, e = .write msg → msg.Bounded) _ _ _ h
    · rintro c e d ⟨hone, hc⟩ he hstep
      exact ⟨hone.step hstep, hc.step hone he hstep⟩
    · obtain ⟨msg, rfl⟩ := hinit
      exact ⟨Nat.le_refl 1, ⟨by simp [ChatClient.new, ChatClient.doConnect],
        by simp [ChatClient.new, ChatClient.doConnect],
        by simp [ChatClient.new, ChatClient.doConnect, SendQueue.empty]⟩⟩
    · apply Machine.stepsMeet_of_forall_mem
      rintro e he msg rfl
      exact (hwrites msg he).bounded
  obtain ⟨-, hc⟩ := hinvariant
  constructor
  · intro r hr
    apply Read.inside
    rintro rfl
    exact hc.reading hr
  · exact fun msg hmsg => (hc.enqueued msg hmsg).staysInside

/-- **No message is read, written or copied beyond its array.** Whatever is done with messages in
whatever order, `body_length_` is at most 512 and everything that takes its length from it stays inside
the 516 bytes of `data_`. In every run of the server, whatever its peers send, and of the client,
whatever messages it makes and whatever the server sends, so do the outstanding reads and the
messages that are written. -/
theorem messages_stay_inside :
    (∀ msgs, messageMachine.Reachable msgs → ∀ msg ∈ msgs, msg.StaysInside) ∧
    (∀ s, serverMachine.Reachable s → ∀ id,
      (∀ r ∈ (s.sessions id).reads, r.Inside (s.sessions id).readMsg_) ∧
        ∀ msg ∈ (s.sessions id).out.enqueued, msg.StaysInside) ∧
    ∀ c₀ es c, clientMachine.init c₀ → (∀ msg, .write msg ∈ es → Made msg) →
      clientMachine.exec c₀ es = some c →
      (∀ r ∈ c.reads, r.Inside c.readMsg_) ∧ ∀ msg ∈ c.out.enqueued, msg.StaysInside := by
  refine ⟨fun msgs h msg hmsg => ?_, fun s h id => session_staysInside h id, ?_⟩
  · exact (bounded_of_reachable h msg hmsg).staysInside
  · exact fun c₀ es c hinit hwrites h => client_staysInside hinit hwrites h

end AsioExamples.Chat
