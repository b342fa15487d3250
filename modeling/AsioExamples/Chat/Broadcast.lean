import AsioExamples.Lib.Lists
import AsioExamples.Chat.Room

/-!
# The room relays

What a room is for: every participant is sent the messages from a little before it joined until it
leaves, in the order in which they were delivered. `delivered` is that order, read off the calls;
`Relayed` says of the history and of every session which part of it they hold, in every run of
`roomMachine`.
-/

set_option autoImplicit false

namespace AsioExamples.Chat

open AsioExamples.Lib

/-! ## The history -/

/-- The loop keeps the last elements. -/
theorem popWhileLong_eq {α : Type*} (n : ℕ) (l : List α) : popWhileLong n l = l.rtake n := by
  induction l with
  | nil => simp [popWhileLong]
  | cons x xs ih =>
      rw [popWhileLong]
      split
      · -- the list is too long: its first element goes, and so it does from the window
        rename_i h
        have hlen : (x :: xs).length - n = xs.length - n + 1 := by
          simp only [List.length_cons] at h ⊢
          omega
        rw [ih, List.rtake, List.rtake, hlen, List.drop_succ_cons]
      · rename_i h
        rw [List.rtake, Nat.sub_eq_zero_of_le (Nat.not_lt.1 h), List.drop_zero]

/-! ## The messages delivered to the room -/

/-- All messages passed to `chat_room::deliver`, in order. -/
def delivered (log : List RoomCall) : List ChatMessage :=
  log.filterMap fun
    | .deliver _ msg => some msg
    | _ => none

@[simp] theorem delivered_append (l₁ l₂ : List RoomCall) :
    delivered (l₁ ++ l₂) = delivered l₁ ++ delivered l₂ := List.filterMap_append

/-- The calls after a session has started, until it leaves. -/
def stay (id : ℕ) (after : List RoomCall) : List RoomCall := after.takeWhile (· ≠ .leave id)

theorem stay_concat (id : ℕ) (after : List RoomCall) (call : RoomCall) :
    stay id (after ++ [call]) =
      if .leave id ∈ after ∨ call = .leave id then stay id after else stay id after ++ [call] := by
  induction after with
  | nil => by_cases h : call = .leave id <;> simp [stay, h]
  | cons c after ih =>
      simp only [stay, List.cons_append] at ih ⊢
      by_cases hc : c = .leave id
      · -- the session has left, and no later call is part of its stay
        simp [hc]
      · simp only [List.takeWhile_cons, hc, ne_eq, not_false_eq_true, decide_true, if_true, ih,
          List.mem_cons, Ne.symm hc, false_or]
        split <;> rfl

/-- A call that delivers nothing adds nothing to a stay. -/
theorem delivered_stay_concat (id : ℕ) (after : List RoomCall) {call : RoomCall}
    (h : delivered [call] = []) :
    delivered (stay id (after ++ [call])) = delivered (stay id after) := by
  rw [stay_concat]
  split
  · rfl
  · rw [delivered_append, h, List.append_nil]

/-! ## The invariant -/

/-- The history is the window of the last messages, and a session holds the window at its start and
everything from then on until it leaves. -/
structure Relayed (s : ChatState) : Prop where
  recent : s.room_.recentMsgs_ = (delivered s.log).rtake maxRecentMsgs
  absent : ∀ id, .start id ∉ s.log →
    id ∉ s.room_.participants_ ∧ (s.sessions id).out.enqueued = []
  joined : ∀ id before after, s.log = before ++ .start id :: after →
    (id ∈ s.room_.participants_ ↔ .leave id ∉ after) ∧
      (s.sessions id).out.enqueued =
        (delivered before).rtake maxRecentMsgs ++ delivered (stay id after)

namespace Relayed

variable {s : ChatState}

/-- A change of a session that enqueues nothing is none that the invariant speaks about. -/
theorem modify (hs : Relayed s) (id : ℕ) {f : ChatSession → ChatSession}
    (hf : (f (s.sessions id)).out.enqueued = (s.sessions id).out.enqueued) :
    Relayed (s.modify id f) := by
  have hout : ∀ j, ((s.modify id f).sessions j).out.enqueued = (s.sessions j).out.enqueued :=
    s.forall_sessions_modify (P := fun j c => c.out.enqueued = (s.sessions j).out.enqueued)
      (fun _ => rfl) hf
  refine ⟨hs.recent, ?_, ?_⟩
  · intro j hj
    rw [hout]
    exact hs.absent j hj
  · intro j before after h
    rw [hout]
    exact hs.joined j before after h

theorem start (hs : Relayed s) {id : ℕ} (hid : .start id ∉ s.log) : Relayed (s.start id) := by
  rw [s.start_eq]
  refine ⟨?_, ?_, ?_⟩
  · simpa [ChatRoom.insert, delivered] using hs.recent
  · intro j hj
    have hne : j ≠ id := by
      rintro rfl
      simp at hj
    have hj' : .start j ∉ s.log := fun h => hj (by simp [h])
    obtain ⟨hmem, henq⟩ := hs.absent j hj'
    refine ⟨?_, ?_⟩
    · intro hmem'
      rcases List.mem_insert_iff.1 hmem' with rfl | hmem'
      · exact hne rfl
      · exact hmem hmem'
    · simpa [Function.update_of_ne hne] using henq
  · intro j before after h
    rcases concat_eq_append_cons h with ⟨rfl, rfl, hj⟩ | ⟨after', rfl, hlog⟩
    · -- the session that starts now
      obtain rfl : j = id := by simpa using hj
      obtain ⟨-, henq⟩ := hs.absent j hid
      refine ⟨?_, ?_⟩
      · simp [ChatRoom.insert]
      · simp [ChatSession.doReadHeader, henq, hs.recent, stay, delivered]
    · -- a session that has started before: the one that starts now is another one
      have hne : j ≠ id := by
        rintro rfl
        exact hid (by simp [hlog])
      obtain ⟨hmem, henq⟩ := hs.joined j before after' hlog
      refine ⟨?_, ?_⟩
      · simpa [ChatRoom.insert, List.mem_insert_iff, hne] using hmem
      · have hstay : delivered (stay j (after' ++ [.start id])) = delivered (stay j after') :=
          delivered_stay_concat j after' rfl
        simpa [Function.update_of_ne hne, hstay] using henq

theorem leave (hs : Relayed s) (id : ℕ) : Relayed (s.leave id) := by
  refine ⟨?_, ?_, ?_⟩
  · simpa [ChatState.leave, ChatRoom.erase, delivered] using hs.recent
  · intro j hj
    have hj' : .start j ∉ s.log := fun h => hj (by simp [ChatState.leave, h])
    obtain ⟨hmem, henq⟩ := hs.absent j hj'
    exact ⟨fun h => hmem (List.mem_of_mem_erase h), henq⟩
  · intro j before after h
    rcases concat_eq_append_cons h with ⟨-, -, hj⟩ | ⟨after', rfl, hlog⟩
    · cases hj
    · obtain ⟨hmem, henq⟩ := hs.joined j before after' hlog
      refine ⟨?_, ?_⟩
      · -- it is no participant any more, and the others stay as they are
        by_cases hne : j = id
        · subst hne
          simp [ChatState.leave, ChatRoom.erase, s.room_.nodup.mem_erase_iff]
        · simpa [ChatState.leave, ChatRoom.erase, s.room_.nodup.mem_erase_iff, hne] using hmem
      · rw [delivered_stay_concat j after' rfl]
        exact henq

theorem deliver (hs : Relayed s) (id : ℕ) (msg : ChatMessage) : Relayed (s.deliver id msg) := by
  rw [s.deliver_eq]
  refine ⟨?_, ?_, ?_⟩
  · have hdelivered : delivered (s.log ++ [.deliver id msg]) = delivered s.log ++ [msg] := by
      simp [delivered]
    -- the window moves on by one message
    simp only [ChatRoom.push, hdelivered]
    rw [popWhileLong_eq, hs.recent, rtake_rtake_concat]
  · intro j hj
    have hj' : .start j ∉ s.log := fun h => hj (by simp [h])
    obtain ⟨hmem, henq⟩ := hs.absent j hj'
    exact ⟨hmem, by simp [hmem, henq]⟩
  · intro j before after h
    rcases concat_eq_append_cons h with ⟨-, -, hj⟩ | ⟨after', rfl, hlog⟩
    · cases hj
    · obtain ⟨hmem, henq⟩ := hs.joined j before after' hlog
      refine ⟨?_, ?_⟩
      · simpa [ChatRoom.push] using hmem
      · -- the message reaches the session exactly while it stays
        rw [ChatSession.out_deliverAll, SendQueue.enqueued_enqueueAll, henq, stay_concat]
        by_cases hleft : .leave j ∈ after'
        · simp [hmem, hleft]
        · simp [hmem, hleft, delivered]

end Relayed

/-- **The room relays**, in every run. -/
theorem relayed {s : ChatState} (h : roomMachine.Reachable s) : Relayed s := by
  apply h.invariant (I := Relayed)
  · rintro s ⟨msgs, rfl⟩
    refine ⟨by simp [ChatState.initial, delivered], ?_, ?_⟩
    · intro id _
      exact ⟨List.not_mem_nil, rfl⟩
    · intro id before after h
      simp [ChatState.initial] at h
  · intro s e t hs hstep
    cases e with
    | start id =>
        simp only [roomMachine] at hstep
        split at hstep
        · cases hstep
        · rename_i hid
          cases hstep
          exact hs.start hid
    | deliver id msg =>
        cases hstep
        exact hs.deliver id msg
    | leave id =>
        cases hstep
        exact hs.leave id
    | reads id msg reads =>
        cases hstep
        exact hs.modify id rfl
    | transfer id i n =>
        obtain ⟨q, hq, rfl⟩ := ChatState.transfer_eq_some hstep
        exact hs.modify id (SendQueue.enqueued_transfer hq)
    | writeHandler id i ec =>
        obtain ⟨q, hq, ⟨-, rfl⟩ | ⟨-, rfl⟩⟩ := ChatState.writeHandler_eq_some hstep
        · exact hs.modify id (SendQueue.enqueued_finish hq)
        · exact (hs.modify id (SendQueue.enqueued_finish hq)).leave id

/-- The part of the delivered messages that a session was sent. -/
theorem Relayed.enqueued_eq {s : ChatState} (hs : Relayed s) {id : ℕ} {before after : List RoomCall}
    (hlog : s.log = before ++ .start id :: after) :
    (s.sessions id).out.enqueued =
      ((delivered s.log).take ((delivered before).length + (delivered (stay id after)).length)).drop
        ((delivered before).length - maxRecentMsgs) := by
  obtain ⟨-, henq⟩ := hs.joined id before after hlog
  -- until it leaves, the session has seen the messages before it and those of its stay
  have htake : (delivered s.log).take
      ((delivered before).length + (delivered (stay id after)).length) =
        delivered before ++ delivered (stay id after) := by
    have hafter : delivered after =
        delivered (stay id after) ++ delivered (after.dropWhile (· ≠ .leave id)) := by
      rw [← delivered_append, stay, List.takeWhile_append_dropWhile]
    have hstart : delivered (.start id :: after) = delivered after := rfl
    rw [hlog, delivered_append, hstart, hafter, ← List.append_assoc, List.take_left']
    exact List.length_append
  rw [htake, henq, List.drop_append_of_le_length (Nat.sub_le _ _)]
  rfl

/-- A session is sent a contiguous part of the delivered messages. -/
theorem Relayed.enqueued_isInfix {s : ChatState} (hs : Relayed s) (id : ℕ) :
    (s.sessions id).out.enqueued <:+: delivered s.log := by
  by_cases hid : .start id ∈ s.log
  · obtain ⟨before, after, hlog⟩ := List.append_of_mem hid
    rw [hs.enqueued_eq hlog]
    exact (List.drop_suffix _ _).isInfix.trans (List.take_prefix _ _).isInfix
  · rw [(hs.absent id hid).2]
    exact List.nil_infix

end AsioExamples.Chat
