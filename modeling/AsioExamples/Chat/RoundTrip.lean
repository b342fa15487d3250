import AsioExamples.Chat.Reader

/-!
# Messages that are written and read back

The loop of the client's `main` builds a message from every line of its input. Whatever the lines hold,
the read chain finds them all in the concatenation of the messages (`readLoop_compose`).
-/

set_option autoImplicit false

namespace AsioExamples.Chat

open AsioExamples.Cxx AsioExamples.Lib

/-- The bytes that a local `chat_message` finds in its array. -/
abbrev Storage := { data : List UInt8 // data.length = headerLength + maxBodyLength }

/-- The body of the loop in `main`: the message that is built from a line. -/
def compose (storage : Storage) (line : List UInt8) : ChatMessage :=
  let msg := (ChatMessage.new storage.1 storage.2).setBodyLength line.length
  (msg.store headerLength (line.take msg.bodyLength_)).encodeHeader

/-- **A composed message holds its line**, cut to the longest body, and its header tells the length. -/
theorem compose_spec (storage : Storage) (line : List UInt8) :
    (compose storage line).Synced ∧ (compose storage line).body = line.take maxBodyLength := by
  let msg := (ChatMessage.new storage.1 storage.2).setBodyLength line.length
  have hlength : msg.bodyLength_ = min line.length maxBodyLength :=
    ChatMessage.bodyLength_setBodyLength _ _
  have hle : msg.bodyLength_ ≤ maxBodyLength := hlength ▸ Nat.min_le_right _ _
  have htake : line.take msg.bodyLength_ = line.take maxBodyLength := by
    rw [hlength, Nat.min_comm, List.take_eq_take_min, Nat.min_assoc, Nat.min_self,
      ← List.take_eq_take_min]
  have hfull : (line.take msg.bodyLength_).length = msg.bodyLength_ := by
    rw [List.length_take, hlength]
    omega
  have hstored : (msg.store headerLength (line.take msg.bodyLength_)).bodyLength_ ≤ maxBodyLength := by
    rw [ChatMessage.bodyLength_store]
    exact hle
  -- the copy makes the body, and the header is written last
  obtain ⟨hsynced, -, hbody⟩ := ChatMessage.encodeHeader_spec hstored
  refine ⟨hsynced, ?_⟩
  rw [← htake, ← ChatMessage.body_store hfull hle]
  exact hbody

/-- **What is composed is read back.** However many lines there are and whatever they hold, the read
chain over the concatenation of their messages accepts every line, cut to the longest body, in order,
and leaves nothing over. -/
theorem readLoop_compose (read : ChatMessage) (lines : List (Storage × List UInt8)) :
    let stream := (lines.map fun l => compose l.1 l.2).flatMap ChatMessage.bytes
    (readLoop read stream).1.map ChatMessage.body = lines.map (fun l => l.2.take maxBodyLength) ∧
      (readLoop read stream).2 = [] := by
  intro stream
  have hsynced : ∀ msg ∈ lines.map fun l => compose l.1 l.2, msg.Synced := by
    intro msg hmsg
    obtain ⟨l, -, rfl⟩ := List.mem_map.1 hmsg
    exact (compose_spec l.1 l.2).1
  obtain ⟨hframes, hrest⟩ := readLoop_flatMap_bytes hsynced read
  refine ⟨?_, hrest⟩
  calc (readLoop read stream).1.map ChatMessage.body
      = ((readLoop read stream).1.map ChatMessage.toFrame).map Frame.body := by
        simp only [List.map_map, Function.comp_def, ChatMessage.body_toFrame]
    _ = ((lines.map fun l => compose l.1 l.2).map ChatMessage.toFrame).map Frame.body := by
        rw [hframes]
    _ = lines.map fun l => (compose l.1 l.2).body := by
        simp only [List.map_map, Function.comp_def, ChatMessage.body_toFrame]
    _ = lines.map fun l => l.2.take maxBodyLength :=
        List.map_congr_left fun l _ => (compose_spec l.1 l.2).2

end AsioExamples.Chat
