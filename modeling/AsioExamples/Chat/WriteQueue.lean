import AsioExamples.Chat.Client
import AsioExamples.Chat.Room

/-!
# The write queues

`chat_session` and `chat_client` write their messages alike. Every event of a room is a step of the
queue of each of its sessions (`room_drives`), every event of a client a step of its queue
(`client_drives`), so both keep the discipline of a queue drained by one write at a time.
-/

set_option autoImplicit false

namespace AsioExamples.Chat

open AsioExamples.Lib

/-! ## Steps of the queues -/

/-- The handler of a write of this session runs. -/
def RoomEvent.endsWrite (id : ℕ) : RoomEvent → Bool
  | .writeHandler j _ _ => j = id
  | _ => false

/-- The handler of a write of the client runs. -/
def ClientEvent.endsWrite : ClientEvent → Bool
  | .writeHandler _ _ => true
  | _ => false

/-- A change of one session is a step of its queue, and none of the others. -/
theorem step_modify {s : ChatState} {id j : ℕ} {f : ChatSession → ChatSession} {ends : Bool}
    (h : j = id → (s.sessions id).out.Step ChatMessage.bytes ends (f (s.sessions id)).out) :
    (s.sessions j).out.Step ChatMessage.bytes ends ((s.modify id f).sessions j).out := by
  rw [ChatState.sessions_modify]
  split
  · rename_i hj
    subst hj
    exact h rfl
  · exact .refl ends _

/-- **What happens to a room are steps of the queue of every session.** -/
theorem room_drives (id : ℕ) :
    SendQueue.Drives ChatMessage.bytes roomMachine (fun s => (s.sessions id).out)
      (RoomEvent.endsWrite id) := by
  refine ⟨?_, ?_⟩
  · rintro s ⟨msgs, rfl⟩
    rfl
  · intro s e t hstep
    cases e with
    | start j =>
        simp only [roomMachine] at hstep
        split at hstep
        · cases hstep
        · cases hstep
          rw [s.start_eq]
          by_cases hid : id = j
          · -- the backlog is enqueued to the session that starts
            subst hid
            simp only [Function.update_self, ChatSession.doReadHeader, ChatSession.out_deliverAll]
            exact .enqueue _ _
          · simp only [Function.update_of_ne hid]
            exact .refl _ _
    | deliver j msg =>
        cases hstep
        rw [s.deliver_eq]
        simp only [ChatSession.out_deliverAll]
        exact .enqueue _ _
    | leave j =>
        cases hstep
        exact .refl _ _
    | reads j msg reads =>
        cases hstep
        apply step_modify
        intro _
        exact .refl _ _
    | transfer j i n =>
        obtain ⟨q, hq, rfl⟩ := ChatState.transfer_eq_some hstep
        apply step_modify
        intro _
        exact .transfer _ hq
    | writeHandler j i ec =>
        obtain ⟨q, hq, hcase⟩ := ChatState.writeHandler_eq_some hstep
        have hends : id = j →
            (s.sessions j).out.Step ChatMessage.bytes (RoomEvent.endsWrite id (.writeHandler j i ec)) q := by
          intro hid
          simp only [RoomEvent.endsWrite, hid, decide_true]
          exact .finish hq
        -- a failed write makes the session leave, and changes its queue no further
        rcases hcase with ⟨-, rfl⟩ | ⟨-, rfl⟩
        · exact step_modify (f := fun c => { c with out := q }) hends
        · exact step_modify (f := fun c => { c with out := q }) hends

@[simp] theorem ChatClient.out_foldl_perform (c : ChatClient) (acts : List ReadAction) :
    (acts.foldl ChatClient.perform c).out = c.out := by
  induction acts generalizing c with
  | nil => rfl
  | cons a acts ih =>
      rw [List.foldl_cons, ih]
      cases a <;> rfl

/-- **What happens to a client are steps of its queue.** -/
theorem client_drives :
    SendQueue.Drives ChatMessage.bytes clientMachine ChatClient.out ClientEvent.endsWrite := by
  refine ⟨?_, ?_⟩
  · rintro c ⟨msg, rfl⟩
    rfl
  · intro c e d hstep
    cases client_step hstep with
    | write msg => exact .refl _ _
    | close => exact .refl _ _
    | connected hc => exact .refl _ _
    | connectFailed ec hc => exact .refl _ _
    | read hr hmay =>
        rw [ChatClient.out_foldl_perform]
        exact .refl _ _
    | @posted i p hp =>
        -- the main thread enqueues nothing itself: the handler it has posted does
        cases p with
        | write msg => exact .enqueue _ [msg]
        | close => exact .refl _ _
    | transfer hq => exact .transfer _ hq
    | written hq => exact .finish hq
    | writeFailed ec hq => exact .finish hq

/-! ## The discipline -/

/-- What holds of a write queue between two handlers: at most one write is outstanding; as long as no
write has failed, one is outstanding exactly when the queue holds something; it covers the front
message; the messages written and those in the queue are all that were enqueued, in order; after a
failure nothing is outstanding; and on the wire are whole frames in that order and at most a part of the
next. -/
structure Orderly (q : SendQueue ChatMessage UInt8) : Prop where
  atMostOne : q.writes.length ≤ 1
  busy : q.failed = false → (q.writes ≠ [] ↔ q.queue ≠ [])
  covers : ∀ w ∈ q.writes, ∃ msg, q.queue.head? = some msg ∧ w.buffer = msg.bytes
  balance : q.completed ++ q.queue = q.enqueued
  stopped : q.failed = true → q.writes = []
  wire : ∃ part, q.wire = q.completed.flatMap ChatMessage.bytes ++ part ∧
    (part = [] ∨ ∃ msg, q.queue.head? = some msg ∧ part <+: msg.bytes)

/-- The discipline over the runs of a machine: every state is orderly; the front message stays where it
is until its write ends; and after a failed write no later state has written or writes anything. -/
def KeepsDiscipline {σ ε : Type*} (M : Machine σ ε) (out : σ → SendQueue ChatMessage UInt8)
    (endsWrite : ε → Bool) : Prop :=
  ∀ s, M.Reachable s →
    Orderly (out s) ∧
    (∀ e t, M.step s e = some t → endsWrite e = false → (out s).writes ≠ [] →
      (out t).queue.head? = (out s).queue.head?) ∧
    ((out s).failed = true → ∀ es t, M.exec s es = some t →
      (out t).writes = [] ∧ (out t).wire = (out s).wire)

theorem orderly_of_phase {q : SendQueue ChatMessage UInt8}
    (h : SendQueue.Phase ChatMessage.bytes q) : Orderly q where
  atMostOne := h.writes_length
  busy := h.writes_ne_nil_iff
  covers _ hw := h.buffer_eq hw
  balance := h.completed_append_queue
  stopped := h.writes_eq_nil
  wire := h.wire_eq

/-- A machine that drives a queue by its operations keeps the discipline. -/
theorem keepsDiscipline_of_drives {σ ε : Type*} {M : Machine σ ε}
    {out : σ → SendQueue ChatMessage UInt8} {endsWrite : ε → Bool}
    (hM : SendQueue.Drives ChatMessage.bytes M out endsWrite) : KeepsDiscipline M out endsWrite := by
  intro s hs
  refine ⟨orderly_of_phase (hM.phase hs), ?_, ?_⟩
  · intro e t hstep he hw
    exact hM.front hs hstep he hw
  · intro hfail es t hexec
    exact hM.failed hs hfail hexec

/-- **The write queues of the chat programs**: every session of a room and the client keep the
discipline, in every run. -/
theorem write_queues_keepDiscipline :
    (∀ id, KeepsDiscipline roomMachine (fun s => (s.sessions id).out) (RoomEvent.endsWrite id)) ∧
      KeepsDiscipline clientMachine ChatClient.out ClientEvent.endsWrite :=
  ⟨fun id => keepsDiscipline_of_drives (room_drives id), keepsDiscipline_of_drives client_drives⟩

end AsioExamples.Chat
