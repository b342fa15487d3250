import AsioExamples.Asio.Operation
import AsioExamples.Cxx.GetLine
import AsioExamples.Cxx.Numeric
import AsioExamples.Lib.Machine

/-!
# The echo clients

`blocking_tcp_echo_client.cpp` and `echo_client.cpp` read a message from the standard input, send what
stands before its first NUL and wait for as many bytes. Both read into an array of fixed size.
`echo_client` asks again for an empty message; it does so without end once the stream has failed, so whether
it ever sends something depends on the first line that is not empty or too long (`promptLoop_iff`).
-/

set_option autoImplicit false

namespace AsioExamples.Echo

open AsioExamples.Lib AsioExamples.Cxx AsioExamples.Asio

/-! ## The message -/

/-- What a client has when it begins to send: what it has printed, and the message. -/
structure Entered where
  printed : List UInt8
  request : List UInt8
  deriving DecidableEq, Repr

/-- The size of the arrays of `blocking_tcp_echo_client.cpp`. -/
def maxLength : ℕ := 1024

/-- `blocking_tcp_echo_client.cpp` takes one line, whatever it is. -/
def enterMessage (is : IStream) : Entered := ⟨str "Enter message: ", cStr (is.getline maxLength).1⟩

/-- The size of the arrays of `echo_client.cpp`. -/
def reqSize : ℕ := 128

/-- What `echo_client.cpp` prints before it reads a line. -/
def prompt : List UInt8 := str "enter a msg\n"

/-- The loop `do … while (len == 0)` of `echo_client.cpp`, where it ends after so many rounds at most. -/
def promptLoop : ℕ → IStream → Option Entered
  | 0, _ => none
  | rounds + 1, is =>
      let r := is.getline reqSize
      if cStr r.1 = [] then
        (promptLoop rounds r.2).map fun e => { e with printed := prompt ++ e.printed }
      else some ⟨prompt, cStr r.1⟩

/-! ## Which message is sent -/

/-- What `getline` stores of the first line of an input. -/
theorem getline_new_fst (input : List UInt8) (n : ℕ) :
    ((IStream.new input).getline n).1 =
      (((splitLines (chr '\n') input).head?).getD []).take (n - 1) := by
  rcases eq_or_ne input [] with rfl | hne
  · simp [IStream.getline, IStream.new, getlineLoop, splitLines]
  rw [IStream.getline_new hne]
  rcases notMem_or_exists_line (chr '\n') input with hend | ⟨l, rest, hl, rfl⟩
  · rw [splitLines_of_notMem hend, if_neg hne]
    by_cases hfits : input.length ≤ n - 1
    · rw [getlineLoop_last hend hfits]
      exact (List.take_of_length_le hfits).symm
    · have hlong := getlineLoop_long hend (not_le.1 hfits) []
      rw [List.append_nil] at hlong
      rw [hlong]
      rfl
  · rw [splitLines_append hl]
    by_cases hfits : l.length ≤ n - 1
    · rw [getlineLoop_line hl hfits]
      exact (List.take_of_length_le hfits).symm
    · rw [getlineLoop_long hl (not_le.1 hfits)]
      rfl

/-- Nothing is read from a stream that has failed or is at its end. -/
theorem promptLoop_of_not_good {is : IStream} (h : is.eof = true ∨ is.fail = true) (rounds : ℕ) :
    promptLoop rounds is = none := by
  induction rounds generalizing is with
  | zero => rfl
  | succ rounds ih =>
      have hgetline : is.getline reqSize = ([], { is with fail := true }) := by
        rw [IStream.getline, if_pos (by simpa using h)]
      rw [promptLoop, hgetline]
      exact congrArg (Option.map _) (ih (Or.inr rfl))

/-- The loop, on the lines of the input. -/
def promptLines : ℕ → List (List UInt8) → Option Entered
  | 0, _ => none
  | _, [] => none
  | rounds + 1, l :: ls =>
      if cStr (l.take (reqSize - 1)) = [] then
        if l.length < reqSize then
          (promptLines rounds ls).map fun e => { e with printed := prompt ++ e.printed }
        else none
      else some ⟨prompt, cStr (l.take (reqSize - 1))⟩

/-- **The loop looks at one line after the other**; a line that does not fit is the last one that it
sees. -/
theorem promptLoop_eq (rounds : ℕ) (input : List UInt8) :
    promptLoop rounds (.new input) = promptLines rounds (splitLines (chr '\n') input) := by
  induction rounds generalizing input with
  | zero => rfl
  | succ rounds ih =>
      rcases eq_or_ne input [] with rfl | hne
      · rw [promptLoop]
        exact congrArg (Option.map _) (promptLoop_of_not_good (Or.inr rfl) rounds)
      have hstored := getline_new_fst input reqSize
      rw [promptLoop, hstored]
      -- the stream behind the line
      rcases notMem_or_exists_line (chr '\n') input with hend | ⟨l, rest, hl, rfl⟩
      · rw [splitLines_of_notMem hend, if_neg hne]
        have hnone : promptLoop rounds ((IStream.new input).getline reqSize).2 = none := by
          apply promptLoop_of_not_good
          rw [IStream.getline_new hne]
          by_cases hfits : input.length ≤ reqSize - 1
          · rw [getlineLoop_last hend hfits]
            exact Or.inl rfl
          · have hlong := getlineLoop_long hend (not_le.1 hfits) []
            rw [List.append_nil] at hlong
            rw [hlong]
            exact Or.inr rfl
        have hnil : promptLines rounds [] = none := by cases rounds <;> rfl
        rw [hnone, promptLines, hnil]
        by_cases hempty : cStr (input.take (reqSize - 1)) = []
        · simp [hempty]
        · simp [hempty]
      · rw [splitLines_append hl, promptLines, IStream.getline_new hne]
        by_cases hfits : l.length < reqSize
        · rw [getlineLoop_line hl (Nat.le_sub_one_of_lt hfits), if_pos hfits, ← ih]
          rfl
        · have hlong : reqSize - 1 < l.length := by
            have : 0 < reqSize := by decide
            omega
          rw [getlineLoop_long hl hlong, if_neg hfits, promptLoop_of_not_good (Or.inr rfl)]
          rfl

/-- The prompts of so many rounds. -/
def prompts (rounds : ℕ) : List UInt8 := (List.replicate rounds prompt).flatten

/-- **Which message `echo_client` sends**: that of the first line that has one, up to its first NUL and as far
as it fits. All lines before it are empty in this sense, and they fit. When there is no such line the
client asks for a message without end and never sends anything. -/
theorem promptLoop_iff (input : List UInt8) (e : Entered) :
    (∃ rounds, promptLoop rounds (.new input) = some e) ↔
      ∃ before line after,
        splitLines (chr '\n') input = before ++ line :: after ∧
        (∀ l ∈ before, cStr l = [] ∧ l.length < reqSize) ∧
        cStr (line.take (reqSize - 1)) ≠ [] ∧
        e = ⟨prompts (before.length + 1), cStr (line.take (reqSize - 1))⟩ := by
  simp only [promptLoop_eq]
  generalize splitLines (chr '\n') input = lines
  -- a line that fits is not cut
  have hcut : ∀ l : List UInt8, l.length < reqSize → l.take (reqSize - 1) = l :=
    fun l hl => List.take_of_length_le (Nat.le_sub_one_of_lt hl)
  constructor
  · rintro ⟨rounds, h⟩
    induction rounds generalizing lines e with
    | zero => cases h
    | succ rounds ih =>
        cases lines with
        | nil => cases h
        | cons l ls =>
            rw [promptLines] at h
            split at h
            · rename_i hempty
              obtain ⟨hfits, h⟩ := Option.ite_none_right_eq_some.1 h
              obtain ⟨e', he', rfl⟩ := Option.map_eq_some_iff.1 h
              obtain ⟨before, line, after, rfl, hbefore, hline, rfl⟩ := ih e' ls he'
              rw [hcut l hfits] at hempty
              exact ⟨l :: before, line, after, rfl, List.forall_mem_cons.2 ⟨⟨hempty, hfits⟩, hbefore⟩,
                hline, rfl⟩
            · rename_i hline
              cases h
              exact ⟨[], l, ls, rfl, by simp, hline, by simp [prompts]⟩
  · rintro ⟨before, line, after, rfl, hbefore, hline, rfl⟩
    refine ⟨before.length + 1, ?_⟩
    induction before with
    | nil => simp [promptLines, hline, prompts]
    | cons l before ih =>
        obtain ⟨⟨hempty, hfits⟩, hbefore⟩ := List.forall_mem_cons.1 hbefore
        rw [List.cons_append, List.length_cons, promptLines, hcut l hfits, if_pos hempty, if_pos hfits,
          ih hbefore]
        rfl

/-- The messages that the clients send fit into their arrays. -/
theorem length_enterMessage_lt (is : IStream) : (enterMessage is).request.length < maxLength := by
  have hlen := (cStr_isPrefix _).length_le.trans (is.length_getline_le maxLength)
  exact Nat.lt_of_le_pred (by decide) hlen

theorem length_promptLoop_lt {is : IStream} {e : Entered} {rounds : ℕ}
    (h : promptLoop rounds is = some e) : e.request ≠ [] ∧ e.request.length < reqSize := by
  induction rounds generalizing is e with
  | zero => cases h
  | succ rounds ih =>
      rw [promptLoop] at h
      split at h
      · obtain ⟨e', he', rfl⟩ := Option.map_eq_some_iff.1 h
        exact @ih _ e' he'
      · rename_i hne
        cases h
        have hlen := (cStr_isPrefix _).length_le.trans (is.length_getline_le reqSize)
        exact ⟨hne, Nat.lt_of_le_pred (by decide) hlen⟩

/-! ## The exchange -/

/-- Where a client is: in `boost::asio::write`, in `boost::asio::read`, at the end of `main`, or left by an
exception. -/
inductive ClientPhase where
  | writing
  | reading
  | ended
  | terminated (ec : ErrorCode)
  deriving DecidableEq, Repr

/-- A client that is connected: the first `sent` bytes of its message have been sent, and `reply` holds what
has come back so far. -/
structure EchoClient where
  request : List UInt8
  phase : ClientPhase
  sent : ℕ
  reply : List UInt8
  printed : List UInt8
  deriving DecidableEq, Repr

/-- What the two programs print, after the write and after the read. -/
structure ClientCode where
  afterWrite : ℕ → List UInt8
  afterRead : List UInt8 → List UInt8

/-- `main` of `blocking_tcp_echo_client.cpp`. -/
def blockingTcpEchoClient : ClientCode where
  afterWrite _ := []
  afterRead reply := str "Reply is: " ++ reply ++ str "\n"

/-- `main` of `echo_client.cpp`. -/
def echoClient : ClientCode where
  afterWrite len := str "send " ++ digits len ++ str " bytes\n"
  afterRead reply := reply ++ str "\n" ++ str "read " ++ digits reply.length ++ str " bytes\n"

/-- What can happen to a client: `boost::asio::write` sends more bytes, or it ends; `boost::asio::read`
receives some, or it ends. -/
inductive ClientEvent where
  | send (n : ℕ)
  | written (ec : Option ErrorCode)
  | receive (bytes : List UInt8)
  | read (ec : Option ErrorCode)
  deriving DecidableEq, Repr

namespace EchoClient

/-- A client that begins to send. -/
def start (e : Entered) : EchoClient := ⟨e.request, .writing, 0, [], e.printed⟩

/-- The bytes that a client has sent. -/
def wire (c : EchoClient) : List UInt8 := c.request.take c.sent

/-- What happens to a client. A call that ends without an error has sent or received `request_length`
bytes; one that fails throws, and nothing in `main` catches it. -/
def step (code : ClientCode) (c : EchoClient) : ClientEvent → Option EchoClient
  | .send n =>
      if c.phase = .writing ∧ 0 < n ∧ c.sent + n ≤ c.request.length then
        some { c with sent := c.sent + n }
      else none
  | .written none =>
      if c.phase = .writing ∧ c.sent = c.request.length then
        some { c with phase := .reading, printed := c.printed ++ code.afterWrite c.request.length }
      else none
  | .written (some ec) =>
      if c.phase = .writing then some { c with phase := .terminated ec } else none
  | .receive bytes =>
      if c.phase = .reading ∧ bytes ≠ [] ∧ c.reply.length + bytes.length ≤ c.request.length then
        some { c with reply := c.reply ++ bytes }
      else none
  | .read none =>
      if c.phase = .reading ∧ c.reply.length = c.request.length then
        some { c with phase := .ended, printed := c.printed ++ code.afterRead c.reply }
      else none
  | .read (some ec) =>
      if c.phase = .reading then some { c with phase := .terminated ec } else none

end EchoClient

/-! ## What a client has done -/

/-- How far a client has come: it reads when it has sent its whole message, and it ends when it has received
as many bytes. -/
inductive Asking (code : ClientCode) (e : Entered) : EchoClient → Prop
  | writing {sent : ℕ} (hsent : sent ≤ e.request.length) :
      Asking code e ⟨e.request, .writing, sent, [], e.printed⟩
  | reading {reply : List UInt8} (hreply : reply.length ≤ e.request.length) :
      Asking code e ⟨e.request, .reading, e.request.length, reply,
        e.printed ++ code.afterWrite e.request.length⟩
  | ended {reply : List UInt8} (hreply : reply.length = e.request.length) :
      Asking code e ⟨e.request, .ended, e.request.length, reply,
        e.printed ++ code.afterWrite e.request.length ++ code.afterRead reply⟩
  | terminated {ec : ErrorCode} {sent : ℕ} {reply printed : List UInt8}
      (hsent : sent ≤ e.request.length) (hreply : reply.length ≤ e.request.length) :
      Asking code e ⟨e.request, .terminated ec, sent, reply, printed⟩

namespace Asking

variable {code : ClientCode} {e : Entered} {c d : EchoClient}

theorem start (code : ClientCode) (e : Entered) : Asking code e (.start e) :=
  .writing (Nat.zero_le _)

theorem request_eq (h : Asking code e c) : c.request = e.request := by
  cases h <;> rfl

theorem sent_le (h : Asking code e c) : c.sent ≤ e.request.length := by
  cases h with
  | writing h => exact h
  | reading _ => exact le_rfl
  | ended _ => exact le_rfl
  | terminated h _ => exact h

theorem reply_le (h : Asking code e c) : c.reply.length ≤ e.request.length := by
  cases h with
  | writing _ => exact Nat.zero_le _
  | reading h => exact h
  | ended h => exact h.le
  | terminated _ h => exact h

/-- Nothing is received before everything has been sent. -/
theorem reply_eq_nil (h : Asking code e c) (hphase : c.phase = .writing) : c.reply = [] := by
  cases h with
  | writing _ => rfl
  | reading _ => cases hphase
  | ended _ => cases hphase
  | terminated _ _ => cases hphase

theorem wire_isPrefix (h : Asking code e c) : c.wire <+: e.request := by
  rw [EchoClient.wire, h.request_eq]
  exact List.take_prefix _ _

theorem length_wire (h : Asking code e c) : c.wire.length = c.sent := by
  rw [EchoClient.wire, h.request_eq, List.length_take]
  exact min_eq_left h.sent_le

/-- **Every step of a client keeps it.** -/
theorem step (h : Asking code e c) {ev : ClientEvent} (hstep : c.step code ev = some d) :
    Asking code e d := by
  cases ev with
  | send n =>
      obtain ⟨⟨hphase, -, hle⟩, heq⟩ := Option.ite_none_right_eq_some.1 hstep
      cases heq
      cases h with
      | writing _ => exact .writing hle
      | reading _ => cases hphase
      | ended _ => cases hphase
      | terminated _ _ => cases hphase
  | receive bytes =>
      obtain ⟨⟨hphase, -, hle⟩, heq⟩ := Option.ite_none_right_eq_some.1 hstep
      cases heq
      cases h with
      | reading _ => exact .reading (List.length_append ▸ hle)
      | writing _ => cases hphase
      | ended _ => cases hphase
      | terminated _ _ => cases hphase
  | written ec =>
      cases ec with
      | none =>
          obtain ⟨⟨hphase, hsent⟩, heq⟩ := Option.ite_none_right_eq_some.1 hstep
          cases heq
          cases h with
          | writing _ =>
              obtain rfl : _ = e.request.length := hsent
              exact .reading (Nat.zero_le _)
          | reading _ => cases hphase
          | ended _ => cases hphase
          | terminated _ _ => cases hphase
      | some ec =>
          obtain ⟨hphase, heq⟩ := Option.ite_none_right_eq_some.1 hstep
          cases heq
          cases h with
          | writing hsent => exact .terminated hsent (Nat.zero_le _)
          | reading _ => cases hphase
          | ended _ => cases hphase
          | terminated _ _ => cases hphase
  | read ec =>
      cases ec with
      | none =>
          obtain ⟨⟨hphase, hreply⟩, heq⟩ := Option.ite_none_right_eq_some.1 hstep
          cases heq
          cases h with
          | reading _ => exact .ended hreply
          | writing _ => cases hphase
          | ended _ => cases hphase
          | terminated _ _ => cases hphase
      | some ec =>
          obtain ⟨hphase, heq⟩ := Option.ite_none_right_eq_some.1 hstep
          cases heq
          cases h with
          | reading hreply => exact .terminated le_rfl hreply
          | writing _ => cases hphase
          | ended _ => cases hphase
          | terminated _ _ => cases hphase

end Asking

end AsioExamples.Echo
