import AsioExamples.Chat.Reader

/-!
# A read chain and its stream

What a read chain has made of the bytes it was given. `ReadsStream` says that these bytes are the messages
that it has found, followed by the header where it reads a body; every handler keeps it
(`ReadsStream.handler`). So when the bytes are the beginning of messages that somebody sends, the messages
found are the first ones of them (`ReadsStream.found_isPrefix`), and a chain that cannot go on although
all of them have been sent has found them all (`ReadsStream.found_eq`).
-/

set_option autoImplicit false

namespace AsioExamples.Chat

open AsioExamples.Cxx AsioExamples.Lib AsioExamples.Asio

/-- The reads that a list of actions starts. -/
def nextReads (acts : List ReadAction) : List Read :=
  acts.filterMap fun
    | .asyncReadHeader => some .header
    | .asyncReadBody => some .body
    | _ => none

/-- A read ends without an error exactly with a full buffer. -/
theorem Read.mayEnd_none {r : Read} {msg : ChatMessage} {bytes : List UInt8} :
    r.mayEnd msg none bytes = true ↔ bytes.length = r.length msg := by
  simp [Read.mayEnd]

/-- The bytes received are the messages found, and what the chain has read of the next one. After an error
there may be more. -/
inductive ReadsStream (received : List UInt8) (found : List ChatMessage) (msg : ChatMessage) :
    List Read → Prop
  | header (hfound : ∀ m ∈ found, m.Synced) (hreceived : received = found.flatMap ChatMessage.bytes) :
      ReadsStream received found msg [.header]
  | body (hfound : ∀ m ∈ found, m.Synced) (hmsg : msg.Synced)
      (hreceived : received = found.flatMap ChatMessage.bytes ++ msg.header) :
      ReadsStream received found msg [.body]
  | ended (hfound : ∀ m ∈ found, m.Synced)
      (hreceived : found.flatMap ChatMessage.bytes <+: received) :
      ReadsStream received found msg []

namespace ReadsStream

variable {received bytes : List UInt8} {found sent : List ChatMessage} {msg : ChatMessage}
  {reads : List Read} {r : Read}

theorem synced (h : ReadsStream received found msg reads) : ∀ m ∈ found, m.Synced := by
  cases h <;> assumption

/-- A chain reads one thing at a time. -/
theorem length_reads_le (h : ReadsStream received found msg reads) : reads.length ≤ 1 := by
  cases h <;> decide

theorem exists_read (h : ReadsStream received found msg reads) (hne : reads ≠ []) :
    ∃ r, reads = [r] :=
  List.length_eq_one_iff.1 (le_antisymm h.length_reads_le (List.length_pos_of_ne_nil hne))

theorem bytes_isPrefix (h : ReadsStream received found msg reads) :
    found.flatMap ChatMessage.bytes <+: received := by
  cases h with
  | header _ hreceived => exact hreceived ▸ List.prefix_rfl
  | body _ _ hreceived => exact hreceived ▸ List.prefix_append _ _
  | ended _ hreceived => exact hreceived

/-- Once it has ended, a chain has found what it has found. -/
theorem ended_append (h : ReadsStream received found msg reads) (msg' : ChatMessage)
    (bytes : List UInt8) : ReadsStream (received ++ bytes) found msg' [] :=
  .ended h.synced (h.bytes_isPrefix.trans (List.prefix_append _ _))

/-- A chain that starts has received nothing. -/
theorem start (msg : ChatMessage) : ReadsStream [] [] msg [.header] := .header (by simp) rfl

/-- **A handler keeps the account**: what the bytes read make of the messages found. -/
theorem handler {ec : Option ErrorCode} (h : ReadsStream received found msg [r])
    (hmay : r.mayEnd msg ec bytes = true) :
    ReadsStream (received ++ bytes) (found ++ accepted (r.handler msg ec bytes).2)
      (r.handler msg ec bytes).1 (nextReads (r.handler msg ec bytes).2) := by
  cases ec with
  | some ec =>
      -- after an error the chain ends
      have hend : (r.handler msg (some ec) bytes).2 = [.stop] := by cases r <;> rfl
      rw [hend]
      exact (List.append_nil found).symm ▸ h.ended_append _ bytes
  | none =>
      have hlen : bytes.length = r.length msg := Read.mayEnd_none.1 hmay
      cases h with
      | header hfound hreceived =>
          have hhandler := header_handler_eq msg hlen
          cases hvalue : headerValue bytes with
          | none =>
              rw [hvalue] at hhandler
              rw [hhandler]
              exact (List.append_nil found).symm ▸
                ended_append (@header _ _ msg hfound hreceived) _ bytes
          | some n =>
              rw [hvalue] at hhandler
              rw [hhandler]
              have hheader : (msg.store 0 bytes).header = bytes := ChatMessage.header_store hlen
              refine .body (by simpa [accepted] using hfound) ?_ ?_
              · exact (congrArg headerValue hheader).trans hvalue
              · simp only [accepted, List.filterMap_cons_none, List.filterMap_nil, List.append_nil]
                exact congrArg₂ _ hreceived hheader.symm
      | body hfound hmsg hreceived =>
          -- the message that is accepted is the header with the bytes of the body
          have hbody : (msg.store headerLength bytes).body = bytes :=
            ChatMessage.body_store hlen (ChatMessage.headerValue_le hmsg)
          have hsynced : (msg.store headerLength bytes).Synced := hmsg.store_body bytes
          refine .header ?_ ?_
          · intro m hm
            rcases List.mem_append.1 hm with hm | hm
            · exact hfound m hm
            · obtain rfl : m = msg.store headerLength bytes := List.mem_singleton.1 hm
              exact hsynced
          · have hbytes : (msg.store headerLength bytes).bytes = msg.header ++ bytes := by
              rw [ChatMessage.bytes_eq, ChatMessage.toFrame, Frame.bytes, ChatMessage.header_store_body,
                hbody]
            have haccepted : accepted (Read.body.handler msg none bytes).2 =
                [msg.store headerLength bytes] := rfl
            rw [haccepted, List.flatMap_append, List.flatMap_singleton, hbytes, hreceived,
              List.append_assoc]

/-! ## Reading what is sent -/

/-- **Who reads what is sent finds the first messages of it**, each with its header and its body. -/
theorem found_isPrefix (h : ReadsStream received found msg reads) (hsent : ∀ m ∈ sent, m.Synced)
    (hreceived : received <+: sent.flatMap ChatMessage.bytes) :
    found.map ChatMessage.toFrame <+: sent.map ChatMessage.toFrame := by
  apply framing.isPrefix_of_bytes (wellFormed_of_synced h.synced) (wellFormed_of_synced hsent)
  rw [← flatMap_bytes, ← flatMap_bytes]
  exact h.bytes_isPrefix.trans hreceived

/-- The header behind the messages found is that of the next message that was sent. -/
theorem next_of_header (h : ReadsStream received found msg [.header]) (hsent : ∀ m ∈ sent, m.Synced)
    (hlen : bytes.length = headerLength)
    (hreceived : received ++ bytes <+: sent.flatMap ChatMessage.bytes) :
    ∃ f rest, sent.map ChatMessage.toFrame = found.map ChatMessage.toFrame ++ f :: rest ∧
      f.header = bytes := by
  cases h with
  | header hfound hbytes =>
      apply framing.next_of_header (wellFormed_of_synced hfound) (wellFormed_of_synced hsent) hlen
      rw [← flatMap_bytes, ← flatMap_bytes, ← hbytes]
      exact hreceived

/-- A chain that reads what is sent never ends without an error. -/
theorem handler_ne_stop (h : ReadsStream received found msg [r]) (hsent : ∀ m ∈ sent, m.Synced)
    (hmay : r.mayEnd msg none bytes = true)
    (hreceived : received ++ bytes <+: sent.flatMap ChatMessage.bytes) :
    (r.handler msg none bytes).2 ≠ [.stop] := by
  cases r with
  | body => simp [Read.handler, readBodyHandler]
  | header =>
      have hlen : bytes.length = headerLength := Read.mayEnd_none.1 hmay
      obtain ⟨f, rest, hframes, rfl⟩ := h.next_of_header hsent hlen hreceived
      -- the header is one that was sent, and these tell a length
      have hf := wellFormed_of_synced hsent f (by rw [hframes]; simp)
      have hvalue : headerValue f.header = some f.body.length := hf.body
      rw [header_handler_eq msg hlen, hvalue]
      simp

/-- **A chain that cannot go on has found everything** that was sent, when all of it is there to be
read. -/
theorem found_eq (h : ReadsStream received found msg [r]) (hsent : ∀ m ∈ sent, m.Synced)
    (hreceived : received <+: sent.flatMap ChatMessage.bytes)
    (hquiet : ∀ bytes, r.mayEnd msg none bytes = true →
      ¬ received ++ bytes <+: sent.flatMap ChatMessage.bytes) :
    found.map ChatMessage.toFrame = sent.map ChatMessage.toFrame := by
  have hwf := wellFormed_of_synced hsent
  cases h with
  | header hfound hbytes =>
      obtain ⟨rest, hrest⟩ := found_isPrefix (@header _ _ msg hfound hbytes) hsent hreceived
      rw [flatMap_bytes, ← hrest, List.flatMap_append, hbytes, flatMap_bytes] at hquiet
      cases rest with
      | nil => rw [← hrest, List.append_nil]
      | cons f rest =>
          -- the header of the next message could be read
          have hf := (hwf f (by rw [← hrest]; simp)).header
          apply absurd _ (hquiet f.header (Read.mayEnd_none.2 hf))
          rw [List.prefix_append_right_inj, List.flatMap_cons, Frame.bytes, List.append_assoc]
          exact List.prefix_append _ _
  | body hfound hmsg hbytes =>
      obtain ⟨f, rest, hframes, hheader⟩ := next_of_header (@header _ _ msg hfound rfl) hsent
        msg.length_header (hbytes ▸ hreceived)
      -- the body of this message could be read
      have hvalue : headerValue f.header = some f.body.length :=
        (hwf f (by rw [hframes]; simp)).body
      have hlen : f.body.length = msg.bodyLength_ := by
        rw [hheader, hmsg] at hvalue
        exact (Option.some.inj hvalue).symm
      apply absurd _ (hquiet f.body (Read.mayEnd_none.2 hlen))
      rw [hbytes, flatMap_bytes, flatMap_bytes, hframes, List.flatMap_append, List.append_assoc,
        List.prefix_append_right_inj, List.flatMap_cons, Frame.bytes, hheader]
      exact List.prefix_append _ _

end ReadsStream

end AsioExamples.Chat
