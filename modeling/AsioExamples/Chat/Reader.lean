import AsioExamples.Asio.Operation
import AsioExamples.Chat.Message

/-!
# Reading messages

The read chain of `chat_server.cpp` and `chat_client.cpp`: `do_read_header` and `do_read_body` read
into `read_msg_`, one after the other. The two programs differ in what they do with a message that has
been read (`accept`) and in how they end (`stop`), and in nothing else.

`readLoop` runs the handlers over a stream. It reads what the framing of the protocol reads
(`readLoop_eq_read`), whatever `read_msg_` held before.
-/

set_option autoImplicit false

namespace AsioExamples.Chat

open AsioExamples.Cxx AsioExamples.Lib AsioExamples.Asio

/-! ## The handlers -/

/-- The two reads, into `data()` and into `body()`. -/
inductive Read where
  | header
  | body
  deriving DecidableEq, Repr

/-- What the handlers of the read chain do. `accept` is `room_.deliver` in the server and the output of
the body in the client; `stop` is `room_.leave` in the server and `sock_.close` in the client. -/
inductive ReadAction where
  | asyncReadHeader
  | asyncReadBody
  | accept (msg : ChatMessage)
  | stop
  deriving DecidableEq, Repr

/-- The handler that `do_read_header` passes to `async_read`. -/
def readHeaderHandler (msg : ChatMessage) (ec : Option ErrorCode) : ChatMessage × List ReadAction :=
  if ec = none then
    -- a bad header also sets `body_length_` to zero
    let r := msg.decodeHeader
    if r.1 then (r.2, [.asyncReadBody]) else (r.2, [.stop])
  else (msg, [.stop])

/-- The handler that `do_read_body` passes to `async_read`. -/
def readBodyHandler (msg : ChatMessage) (ec : Option ErrorCode) : List ReadAction :=
  if ec = none then [.accept msg, .asyncReadHeader] else [.stop]

/-- Where in `data_` the buffer of a read begins. -/
def Read.offset : Read → ℕ
  | .header => 0
  | .body => headerLength

/-- The length of the buffer of a read. -/
def Read.length (msg : ChatMessage) : Read → ℕ
  | .header => headerLength
  | .body => msg.bodyLength_

/-- `async_read` ends without an error only when its buffer is full. -/
def Read.mayEnd (r : Read) (msg : ChatMessage) (ec : Option ErrorCode) (bytes : List UInt8) : Bool :=
  if ec = none then bytes.length = r.length msg else bytes.length ≤ r.length msg

/-- A read has ended: its bytes are in the buffer, and its handler runs. -/
def Read.handler (r : Read) (msg : ChatMessage) (ec : Option ErrorCode) (bytes : List UInt8) :
    ChatMessage × List ReadAction :=
  let msg := msg.store r.offset bytes
  match r with
  | .header => readHeaderHandler msg ec
  | .body => (msg, readBodyHandler msg ec)

/-- The messages that a list of actions accepts. -/
def accepted (acts : List ReadAction) : List ChatMessage :=
  acts.filterMap fun
    | .accept msg => some msg
    | _ => none

/-! ## What a handler can do -/

/-- The end of a read of a header: the header is decoded and the body comes next, or the chain ends. -/
theorem readHeaderHandler_cases (msg : ChatMessage) (ec : Option ErrorCode) :
    ∃ msg', (readHeaderHandler msg ec = (msg', [.stop])) ∨
      (ec = none ∧ msg'.Synced ∧ readHeaderHandler msg ec = (msg', [.asyncReadBody])) := by
  by_cases hec : ec = none
  · -- `decode_header` returns true exactly where the chain goes on
    by_cases hok : msg.decodeHeader.1 = true
    · refine ⟨msg.decodeHeader.2, Or.inr ⟨hec, ChatMessage.synced_of_decodeHeader hok, ?_⟩⟩
      simp [readHeaderHandler, hec, hok]
    · exact ⟨msg.decodeHeader.2, Or.inl (by simp [readHeaderHandler, hec, hok])⟩
  · exact ⟨msg, Or.inl (if_neg hec)⟩

/-- The end of a read of a body: the message is accepted and the next header is read, or the chain
ends. -/
theorem readBodyHandler_cases (msg : ChatMessage) (ec : Option ErrorCode) :
    readBodyHandler msg ec = [.stop] ∨ readBodyHandler msg ec = [.accept msg, .asyncReadHeader] := by
  by_cases hec : ec = none
  · apply Or.inr
    exact if_pos hec
  · apply Or.inl
    exact if_neg hec

/-! ## The loop -/

/-- The read chain over a stream, as long as it holds what the next message needs: the messages
accepted, and the stream from the last message on. -/
def readLoop (msg : ChatMessage) (s : List UInt8) : List ChatMessage × List UInt8 :=
  if s.length < headerLength then ([], s)
  else
    let r := Read.header.handler msg none (s.take headerLength)
    if r.2 = [.asyncReadBody] then
      let t := s.drop headerLength
      if t.length < r.1.bodyLength_ then ([], s)
      else
        let r' := Read.body.handler r.1 none (t.take r.1.bodyLength_)
        let l := readLoop r'.1 (t.drop r.1.bodyLength_)
        (accepted r'.2 ++ l.1, l.2)
    else ([], s)
  termination_by s.length
  decreasing_by
    rename_i h _ _
    simp only [List.length_drop, headerLength] at h ⊢
    omega

/-- A header of the right length, read into any message. -/
theorem header_handler_eq (msg : ChatMessage) {bytes : List UInt8} (h : bytes.length = headerLength) :
    Read.header.handler msg none bytes =
      match headerValue bytes with
      | none => ({ msg.store 0 bytes with bodyLength_ := 0 }, [.stop])
      | some n => ({ msg.store 0 bytes with bodyLength_ := n }, [.asyncReadBody]) := by
  have hdecode := (msg.store 0 bytes).decodeHeader_eq
  rw [ChatMessage.header_store h] at hdecode
  have hhandler : Read.header.handler msg none bytes = readHeaderHandler (msg.store 0 bytes) none := rfl
  rw [hhandler, readHeaderHandler, if_pos rfl, hdecode]
  cases headerValue bytes <;> rfl

/-- **The read chain reads the frames of the stream**, each message with the header and the body of its
frame. -/
theorem readLoop_eq_read (msg : ChatMessage) (s : List UInt8) :
    (readLoop msg s).1.map ChatMessage.toFrame = (framing.read s).1 ∧
      (readLoop msg s).2 = (framing.read s).2 := by
  -- the cases of the loop are those of the framing, whatever `msg` holds
  fun_induction readLoop msg s with
  | case1 msg s hshort =>
      -- no whole header
      rw [framing.read_of_short hshort]
      exact ⟨rfl, rfl⟩
  | case2 msg s hlong r hbody t hshort =>
      -- a good header, but no whole body
      have hlen := List.length_take_of_le (Nat.not_lt.1 hlong)
      have hr : r = _ := header_handler_eq msg hlen
      cases hn : headerValue (s.take headerLength) with
      | none => simp [hr, hn] at hbody
      | some n =>
          rw [hr, hn] at hshort
          rw [framing.read_of_short_body (Nat.not_lt.1 hlong) hn hshort]
          exact ⟨rfl, rfl⟩
  | case3 msg s hlong r hbody t henough r' l ih =>
      -- a whole message
      have hlen := List.length_take_of_le (Nat.not_lt.1 hlong)
      have hr : r = _ := header_handler_eq msg hlen
      cases hn : headerValue (s.take headerLength) with
      | none => simp [hr, hn] at hbody
      | some n =>
          rw [hn] at hr
          have hn' : r.1.bodyLength_ = n := by rw [hr]
          have henough : n ≤ t.length := hn' ▸ Nat.not_lt.1 henough
          have hbytes : (t.take n).length = n := by simpa using henough
          -- the message that is accepted is the frame at the beginning of the stream
          have hframe : (r.1.store headerLength (t.take n)).toFrame = ⟨s.take headerLength, t.take n⟩ := by
            have hle : r.1.bodyLength_ ≤ maxBodyLength := hn' ▸ ChatMessage.headerValue_le hn
            have hheader : r.1.header = s.take headerLength := by
              rw [hr]
              exact ChatMessage.header_store hlen
            rw [ChatMessage.toFrame, ChatMessage.header_store_body, hheader,
              ChatMessage.body_store (hbytes.trans hn'.symm) hle]
          have haccepted : accepted r'.2 = [r.1.store headerLength (t.take n)] := by
            simp only [r', hn']
            rfl
          have hdrop : s.drop (framing.headerLength + n) = t.drop r.1.bodyLength_ := by
            rw [hn', List.drop_drop]
            rfl
          rw [framing.read_of_enough (Nat.not_lt.1 hlong) hn henough, hdrop, haccepted,
            List.map_append, List.map_singleton, hframe]
          exact ⟨congrArg (_ :: ·) ih.1, ih.2⟩
  | case4 msg s hlong r hbad =>
      -- a bad header
      have hlen := List.length_take_of_le (Nat.not_lt.1 hlong)
      have hr : r = _ := header_handler_eq msg hlen
      cases hn : headerValue (s.take headerLength) with
      | none =>
          rw [framing.read_of_bad (Nat.not_lt.1 hlong) hn]
          exact ⟨rfl, rfl⟩
      | some n =>
          apply absurd _ hbad
          rw [hr, hn]

/-- The bytes of well-formed messages are the bytes of their frames. -/
theorem flatMap_bytes (msgs : List ChatMessage) :
    msgs.flatMap ChatMessage.bytes = (msgs.map ChatMessage.toFrame).flatMap Frame.bytes := by
  rw [List.flatMap_map]
  apply List.flatMap_congr
  intro msg _
  exact msg.bytes_eq

theorem wellFormed_of_synced {msgs : List ChatMessage} (h : ∀ msg ∈ msgs, msg.Synced) :
    ∀ f ∈ msgs.map ChatMessage.toFrame, framing.WellFormed f := by
  intro f hf
  obtain ⟨msg, hmsg, rfl⟩ := List.mem_map.1 hf
  exact (h msg hmsg).wellFormed

/-- The reader of a stream of whole messages finds them and nothing else. -/
theorem readLoop_flatMap_bytes {msgs : List ChatMessage} (h : ∀ msg ∈ msgs, msg.Synced)
    (read : ChatMessage) :
    (readLoop read (msgs.flatMap ChatMessage.bytes)).1.map ChatMessage.toFrame =
        msgs.map ChatMessage.toFrame ∧
      (readLoop read (msgs.flatMap ChatMessage.bytes)).2 = [] := by
  have hframes := wellFormed_of_synced h
  obtain ⟨hread, hrest⟩ := readLoop_eq_read read (msgs.flatMap ChatMessage.bytes)
  rw [hread, hrest, flatMap_bytes, framing.read_frames hframes]
  exact ⟨rfl, rfl⟩

end AsioExamples.Chat
