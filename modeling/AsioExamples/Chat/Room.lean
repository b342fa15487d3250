import Mathlib.Data.List.Basic
import Mathlib.Logic.Function.Basic
import AsioExamples.Lib.Machine
import AsioExamples.Lib.SendQueue
import AsioExamples.Chat.Reader

/-!
# The chat room and its sessions

`chat_room` and the write chain of `chat_session` in `chat_server.cpp`. A session is known by a number
that stands for its address. `roomMachine` is a room whose environment may do anything: sessions start,
deliver any message and leave in any order, their read chains do what they like, and their writes make
progress, end and fail. `log` records the calls.

The server is such a room with the read chains of its sessions.
-/

set_option autoImplicit false

namespace AsioExamples.Chat

open AsioExamples.Cxx AsioExamples.Lib AsioExamples.Asio

/-! ## Sessions -/

/-- The data members of `class chat_session`, with its outstanding reads and writes. `write_msgs_` is
the queue of `out`. -/
structure ChatSession where
  readMsg_ : ChatMessage
  reads : List Read
  out : SendQueue ChatMessage UInt8
  deriving DecidableEq, Repr

namespace ChatSession

/-- `chat_session::deliver` -/
def deliver (c : ChatSession) (msg : ChatMessage) : ChatSession :=
  { c with out := c.out.enqueue ChatMessage.bytes msg }

/-- `chat_session::do_read_header` -/
def doReadHeader (c : ChatSession) : ChatSession := { c with reads := c.reads ++ [.header] }

/-- `chat_session::do_read_body` -/
def doReadBody (c : ChatSession) : ChatSession := { c with reads := c.reads ++ [.body] }

end ChatSession

/-! ## The room -/

/-- `class chat_room`. A `std::set` holds nothing twice. -/
structure ChatRoom where
  participants_ : List ℕ
  recentMsgs_ : List ChatMessage
  nodup : participants_.Nodup
  deriving DecidableEq, Repr

/-- `chat_room::max_recent_msgs` -/
def maxRecentMsgs : ℕ := 100

/-- `while (l.size() > n) l.pop_front();` -/
def popWhileLong {α : Type*} (n : ℕ) : List α → List α
  | [] => []
  | x :: xs => if n < (x :: xs).length then popWhileLong n xs else x :: xs

namespace ChatRoom

/-- `participants_.insert(participant)` -/
def insert (r : ChatRoom) (id : ℕ) : ChatRoom :=
  { r with participants_ := r.participants_.insert id, nodup := r.nodup.insert }

/-- `participants_.erase(participant)` -/
def erase (r : ChatRoom) (id : ℕ) : ChatRoom :=
  { r with participants_ := r.participants_.erase id, nodup := r.nodup.erase id }

/-- What `deliver` does to `recent_msgs_`. -/
def push (r : ChatRoom) (msg : ChatMessage) : ChatRoom :=
  { r with recentMsgs_ := popWhileLong maxRecentMsgs (r.recentMsgs_ ++ [msg]) }

end ChatRoom

/-- The calls that sessions make to their room: `start` joins it. -/
inductive RoomCall where
  | start (id : ℕ)
  | deliver (id : ℕ) (msg : ChatMessage)
  | leave (id : ℕ)
  deriving DecidableEq, Repr

/-- A room with its sessions, and the calls made so far. -/
structure ChatState where
  room_ : ChatRoom
  sessions : ℕ → ChatSession
  log : List RoomCall

namespace ChatState

/-- A change of one session. -/
def modify (s : ChatState) (id : ℕ) (f : ChatSession → ChatSession) : ChatState :=
  { s with sessions := Function.update s.sessions id (f (s.sessions id)) }

/-- `participant->deliver(msg)` -/
def deliverTo (s : ChatState) (id : ℕ) (msg : ChatMessage) : ChatState :=
  s.modify id (·.deliver msg)

/-- `chat_room::join` -/
def join (s : ChatState) (id : ℕ) : ChatState :=
  -- the participant is one of the room before the backlog is delivered to it
  let s := { s with room_ := s.room_.insert id }
  s.room_.recentMsgs_.foldl (fun s msg => s.deliverTo id msg) s

/-- `chat_room::leave`, called by a session. -/
def leave (s : ChatState) (id : ℕ) : ChatState :=
  { s with room_ := s.room_.erase id, log := s.log ++ [RoomCall.leave id] }

/-- `chat_room::deliver`, called by a session. -/
def deliver (s : ChatState) (id : ℕ) (msg : ChatMessage) : ChatState :=
  let s := { s with room_ := s.room_.push msg, log := s.log ++ [RoomCall.deliver id msg] }
  s.room_.participants_.foldl (fun s participant => s.deliverTo participant msg) s

/-- `chat_session::start` -/
def start (s : ChatState) (id : ℕ) : ChatState :=
  let s := { s with log := s.log ++ [RoomCall.start id] }
  (s.join id).modify id ChatSession.doReadHeader

/-- A write of a session makes progress. -/
def transfer (s : ChatState) (id i n : ℕ) : Option ChatState :=
  ((s.sessions id).out.transfer i n).map fun q => s.modify id fun c => { c with out := q }

/-- The handler that `chat_session::do_write` passes to `async_write`. -/
def writeHandler (s : ChatState) (id i : ℕ) (ec : Option ErrorCode) : Option ChatState :=
  ((s.sessions id).out.finish ChatMessage.bytes i (ec = none)).map fun q =>
    let s := s.modify id fun c => { c with out := q }
    -- after a failed write the socket stays open, and a read may still be outstanding
    if ec = none then s else s.leave id

/-- A room without sessions. Those to come hold what their constructors leave in `read_msg_`. -/
def initial (msgs : ℕ → ChatMessage) : ChatState :=
  ⟨⟨[], [], List.nodup_nil⟩, fun id => ⟨msgs id, [], .empty⟩, []⟩

end ChatState

/-- What can happen to a room and its sessions. -/
inductive RoomEvent where
  | start (id : ℕ)
  | deliver (id : ℕ) (msg : ChatMessage)
  | leave (id : ℕ)
  | reads (id : ℕ) (msg : ChatMessage) (reads : List Read)
  | transfer (id i n : ℕ)
  | writeHandler (id i : ℕ) (ec : Option ErrorCode)

/-- A room and its sessions in any environment. A session starts once. -/
def roomMachine : Machine ChatState RoomEvent where
  init s := ∃ msgs, s = .initial msgs
  step s
    | .start id => if RoomCall.start id ∈ s.log then none else some (s.start id)
    | .deliver id msg => some (s.deliver id msg)
    | .leave id => some (s.leave id)
    | .reads id msg reads => some (s.modify id fun c => { c with readMsg_ := msg, reads := reads })
    | .transfer id i n => s.transfer id i n
    | .writeHandler id i ec => s.writeHandler id i ec

/-! ## Deliveries to a session -/

namespace ChatSession

/-- Several messages, one after the other. -/
def deliverAll (c : ChatSession) (msgs : List ChatMessage) : ChatSession := msgs.foldl deliver c

@[simp] theorem deliverAll_nil (c : ChatSession) : c.deliverAll [] = c := rfl

@[simp] theorem readMsg_deliverAll (c : ChatSession) (msgs : List ChatMessage) :
    (c.deliverAll msgs).readMsg_ = c.readMsg_ := by
  induction msgs generalizing c with
  | nil => rfl
  | cons msg msgs ih => exact ih (c.deliver msg)

@[simp] theorem reads_deliverAll (c : ChatSession) (msgs : List ChatMessage) :
    (c.deliverAll msgs).reads = c.reads := by
  induction msgs generalizing c with
  | nil => rfl
  | cons msg msgs ih => exact ih (c.deliver msg)

/-- The queue of a session that several messages are delivered to. -/
@[simp] theorem out_deliverAll (c : ChatSession) (msgs : List ChatMessage) :
    (c.deliverAll msgs).out = c.out.enqueueAll ChatMessage.bytes msgs := by
  induction msgs generalizing c with
  | nil => rfl
  | cons msg msgs ih => exact ih (c.deliver msg)

end ChatSession

/-! ## What the calls do -/

namespace ChatState

variable (s : ChatState)

theorem sessions_modify (id j : ℕ) (f : ChatSession → ChatSession) :
    (s.modify id f).sessions j = if j = id then f (s.sessions id) else s.sessions j := by
  simp only [modify, Function.update_apply]

/-- What holds of every session goes on to hold when one of them changes and keeps it. -/
theorem forall_sessions_modify {P : ℕ → ChatSession → Prop} {id : ℕ}
    {f : ChatSession → ChatSession} (h : ∀ j, P j (s.sessions j)) (hf : P id (f (s.sessions id)))
    (j : ℕ) : P j ((s.modify id f).sessions j) := by
  rw [sessions_modify]
  split
  · rename_i hj
    subst hj
    exact hf
  · exact h j

/-- Several messages to one participant. -/
theorem foldl_deliverTo (id : ℕ) (msgs : List ChatMessage) :
    msgs.foldl (fun s msg => s.deliverTo id msg) s = s.modify id (·.deliverAll msgs) := by
  induction msgs generalizing s with
  | nil => simp [modify]
  | cons msg msgs ih =>
      rw [List.foldl_cons, ih]
      simp [deliverTo, modify, ChatSession.deliverAll]

/-- One message to several participants. -/
theorem foldl_deliverTo_each (msg : ChatMessage) (ids : List ℕ) (hids : ids.Nodup) :
    ids.foldl (fun s id => s.deliverTo id msg) s =
      { s with sessions := fun j => (s.sessions j).deliverAll (if j ∈ ids then [msg] else []) } := by
  induction ids generalizing s with
  | nil => simp
  | cons id ids ih =>
      -- the first participant is none of the others, so it is delivered to once
      obtain ⟨hid, hids⟩ := List.nodup_cons.1 hids
      rw [List.foldl_cons, ih _ hids]
      simp only [deliverTo, modify, mk.injEq, true_and, and_true]
      funext j
      by_cases hj : j = id
      · subst hj
        simp [hid, ChatSession.deliverAll]
      · simp [hj]

theorem join_eq (id : ℕ) :
    s.join id = { s with room_ := s.room_.insert id }.modify id
      (·.deliverAll s.room_.recentMsgs_) :=
  foldl_deliverTo _ id _

/-- The calls of a session that starts: the backlog is delivered to it. -/
theorem start_eq (id : ℕ) :
    s.start id =
      { room_ := s.room_.insert id
        sessions := Function.update s.sessions id
          ((s.sessions id).deliverAll s.room_.recentMsgs_).doReadHeader
        log := s.log ++ [.start id] } := by
  simp [start, join_eq, modify]

/-- A delivery: the message goes to every participant. -/
theorem deliver_eq (id : ℕ) (msg : ChatMessage) :
    s.deliver id msg =
      { room_ := s.room_.push msg
        sessions := fun j =>
          (s.sessions j).deliverAll (if j ∈ s.room_.participants_ then [msg] else [])
        log := s.log ++ [.deliver id msg] } :=
  foldl_deliverTo_each _ msg _ s.room_.nodup

variable {s} {t : ChatState}

theorem transfer_eq_some {id i n : ℕ} (h : s.transfer id i n = some t) :
    ∃ q, (s.sessions id).out.transfer i n = some q ∧
      t = s.modify id fun c => { c with out := q } := by
  obtain ⟨q, hq, rfl⟩ := Option.map_eq_some_iff.1 h
  exact ⟨q, hq, rfl⟩

/-- The end of a write: a failed one makes the session leave. -/
theorem writeHandler_eq_some {id i : ℕ} {ec : Option ErrorCode}
    (h : s.writeHandler id i ec = some t) :
    ∃ q, (s.sessions id).out.finish ChatMessage.bytes i (ec = none) = some q ∧
      ((ec = none ∧ t = s.modify id fun c => { c with out := q }) ∨
        (ec ≠ none ∧ t = (s.modify id fun c => { c with out := q }).leave id)) := by
  obtain ⟨q, hq, rfl⟩ := Option.map_eq_some_iff.1 h
  refine ⟨q, hq, ?_⟩
  by_cases hec : ec = none
  · exact Or.inl ⟨hec, if_pos hec⟩
  · exact Or.inr ⟨hec, if_neg hec⟩

end ChatState

end AsioExamples.Chat
