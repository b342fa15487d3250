import AsioExamples.Cxx.Char
import AsioExamples.Daytime.Lifetimes
import AsioExamples.Echo.Blocking
import AsioExamples.Lib.Lists

/-!
# What a daytime client prints

`daytimecli.cpp` against a connection of one of the servers. The client prints what it reads until the
stream ends, which it does when the server has closed the socket and everything sent has been read. When no
operation fails, a client of `aync_daytimesrc` prints the whole message; a client of `async_daytimesrc` prints
what was sent at once, and ends as if that were all (`daytime_client`).
-/

set_option autoImplicit false

namespace AsioExamples.Daytime

open AsioExamples.Lib AsioExamples.Cxx AsioExamples.Asio
open AsioExamples.Echo (eof)

/-! ## The client -/

/-- Where the client is: in `read_some`, behind its loop, or in the handler of an exception. -/
inductive ClientPhase where
  | reading
  | ended
  | failed (ec : ErrorCode)
  deriving DecidableEq, Repr

/-- `main` of `daytimecli.cpp`, once it is connected: where it is and what it has printed. -/
structure DaytimeClient where
  phase : ClientPhase
  printed : List UInt8
  deriving DecidableEq, Repr

/-- The size of `buf`. -/
def bufSize : ℕ := 128

/-- One turn of the loop. A read that fails brings nothing. -/
def DaytimeClient.turn (c : DaytimeClient) (ec : Option ErrorCode) (bytes : List UInt8) : DaytimeClient :=
  match ec with
  | none => { c with printed := c.printed ++ bytes }
  | some ec => { c with phase := if ec = eof then .ended else .failed ec }

/-! ## A connection and its client -/

/-- A connection of the server and its client. -/
structure Exchange where
  conn : Connection
  client : DaytimeClient
  deriving DecidableEq, Repr

/-- What can happen: something to the connection, or the read of the client ends. -/
inductive ExchangeEvent where
  | connection (e : ConnectionEvent)
  | read (ec : Option ErrorCode) (bytes : List UInt8)
  deriving DecidableEq, Repr

/-- A read that ends without an error has read the next bytes, and at least one. The end of the stream comes
behind the last byte, and after the server has closed its socket. -/
def Exchange.mayRead (s : Exchange) (ec : Option ErrorCode) (bytes : List UInt8) : Prop :=
  match ec with
  | none => bytes ≠ [] ∧ bytes.length ≤ bufSize ∧ s.client.printed ++ bytes <+: s.conn.wire
  | some ec => bytes = [] ∧ (ec = eof → s.conn.isOpen = false ∧ s.client.printed = s.conn.wire)

instance (s : Exchange) : ∀ ec bytes, Decidable (s.mayRead ec bytes)
  | none, _ => inferInstanceAs (Decidable (_ ∧ _ ∧ _))
  | some _, _ => inferInstanceAs (Decidable (_ ∧ (_ → _)))

/-- The connection is started, and the client is connected. -/
def Exchange.start (code : ServerCode) (message : List UInt8) (n : ℕ) : Exchange :=
  ⟨(Connection.start code message n).release code, ⟨.reading, []⟩⟩

/-- A connection of the server and its client. -/
def exchangeMachine (code : ServerCode) : Machine Exchange ExchangeEvent where
  init s := ∃ message n, n ≤ message.length ∧ s = .start code message n
  step s
    | .connection e => ((connectionMachine code).step s.conn e).map fun c => { s with conn := c }
    | .read ec bytes =>
        if s.client.phase = .reading ∧ s.mayRead ec bytes then
          some { s with client := s.client.turn ec bytes }
        else none

/-- Nothing fails but the write of a connection that was destroyed. -/
def ExchangeEvent.ok : ExchangeEvent → Bool
  | .connection (.complete (some (.other _))) => false
  | .read (some ec) _ => ec = eof
  | _ => true

/-- Runs without a failure. -/
def undisturbed (code : ServerCode) : Machine Exchange ExchangeEvent :=
  (exchangeMachine code).restrict ExchangeEvent.ok

/-! ## What every step keeps -/

/-- What is printed was sent, and what the connection has sent when its write has ended is known. -/
structure Printing (code : ServerCode) (message : List UInt8) (n : ℕ) (s : Exchange) : Prop where
  sound : Sound code s.conn
  message_eq : s.conn.message = message
  first_eq : s.conn.first = n
  printed : s.client.printed <+: s.conn.wire
  phase : s.client.phase = .reading ∨ s.client.phase = .ended
  ended : s.client.phase = .ended → s.conn.isOpen = false ∧ s.client.printed = s.conn.wire
  noError : ∀ w ec, s.conn.write = some w → w.completion = some (some ec) → ec = .operationAborted
  delivered : code.keepsConnection = true → s.conn.write = none → s.conn.wire = message

namespace Printing

variable {code : ServerCode} {message : List UInt8} {n : ℕ} {s t : Exchange}

theorem start (code : ServerCode) {message : List UInt8} {n : ℕ} (hn : n ≤ message.length) :
    Printing code message n (.start code message n) := by
  have hwrite : (Exchange.start code message n).conn.write = some ⟨n, none⟩ :=
    Connection.release_write code _
  refine ⟨.init hn, Connection.release_message code _, Connection.release_first code _, List.nil_prefix,
    Or.inl rfl, nofun, ?_, ?_⟩
  · intro w ec hw hec
    rw [hwrite] at hw
    cases hw
    cases hec
  · intro _ hnone
    rw [hwrite] at hnone
    cases hnone

/-- The write sends more bytes. -/
theorem transfer (hs : Printing code message n s) {m : ℕ} {c : Connection} (h : s.conn.transfer m = some c) :
    Printing code message n { s with conn := c } := by
  have hsound := hs.sound.transfer h
  rw [Connection.transfer] at h
  split at h
  · obtain ⟨⟨hopen, -, -⟩, heq⟩ := Option.ite_none_right_eq_some.1 h
    cases heq
    refine ⟨hsound, hs.message_eq, hs.first_eq, hs.printed.trans (List.prefix_append _ _), hs.phase, ?_, ?_,
      ?_⟩
    · intro hended
      rw [(hs.ended hended).1] at hopen
      cases hopen
    · rintro w ec ⟨⟩ hec
      cases hec
    · intro _ hnone
      cases hnone
  · cases h

/-- The write ends. -/
theorem complete (hs : Printing code message n s) {ec : Option ErrorCode} {c : Connection}
    (hok : (ExchangeEvent.connection (.complete ec)).ok = true) (h : s.conn.complete ec = some c) :
    Printing code message n { s with conn := c } := by
  have hsound := hs.sound.complete h
  rw [Connection.complete] at h
  split at h
  · obtain ⟨-, heq⟩ := Option.ite_none_right_eq_some.1 h
    cases heq
    refine ⟨hsound, hs.message_eq, hs.first_eq, hs.printed, hs.phase, hs.ended, ?_, ?_⟩
    · rintro w ec' ⟨⟩ hec
      cases hec
      cases ec' with
      | operationAborted => rfl
      | other v => cases hok
    · intro _ hnone
      cases hnone
  · cases h

/-- The handler of the write runs. -/
theorem handleWrite (hs : Printing code message n s) {c : Connection}
    (h : s.conn.handleWrite code = some c) : Printing code message n { s with conn := c } := by
  have hsound := hs.sound.handleWrite h
  rw [Connection.handleWrite] at h
  split at h
  · rename_i sent ec hwrite
    obtain ⟨-, hwire, hall, haborted⟩ := hs.sound.sending _ hwrite
    cases h
    refine ⟨hsound, ?_, ?_, ?_, hs.phase, ?_, ?_, ?_⟩
    · rw [Connection.release_message]
      exact hs.message_eq
    · rw [Connection.release_first]
      exact hs.first_eq
    · rw [Connection.release_wire]
      exact hs.printed
    · intro hended
      rw [Connection.release_wire]
      exact ⟨by rw [Connection.release, if_neg (by simp)], (hs.ended hended).2⟩
    · intro w ec' hw
      rw [Connection.release_write] at hw
      cases hw
    · intro hkeeps _
      rw [Connection.release_wire]
      cases ec with
      | none =>
          rw [← hs.message_eq]
          exact hwire.trans (by rw [hall rfl, List.take_length])
      | some ec =>
          -- the connection is alive, so that its write is not aborted
          obtain rfl := hs.noError _ ec hwrite rfl
          have hopen := hs.sound.isOpen.trans hs.sound.alive
          rw [haborted rfl, hkeeps, hwrite] at hopen
          cases hopen
  · cases h

/-- The client reads. -/
theorem read (hs : Printing code message n s) {ec : Option ErrorCode} {bytes : List UInt8}
    (hok : (ExchangeEvent.read ec bytes).ok = true) (hphase : s.client.phase = .reading)
    (hmay : s.mayRead ec bytes) :
    Printing code message n { s with client := s.client.turn ec bytes } := by
  cases ec with
  | none =>
      refine ⟨hs.sound, hs.message_eq, hs.first_eq, hmay.2.2, hs.phase, ?_, hs.noError, hs.delivered⟩
      intro hended
      exact nomatch hphase.symm.trans hended
  | some ec =>
      have heof : ec = eof := of_decide_eq_true hok
      refine ⟨hs.sound, hs.message_eq, hs.first_eq, hs.printed, Or.inr (if_pos heof), ?_, hs.noError,
        hs.delivered⟩
      exact fun _ => hmay.2 heof

/-- **Every step without a failure keeps it.** -/
theorem step (hs : Printing code message n s) {e : ExchangeEvent}
    (h : (undisturbed code).step s e = some t) : Printing code message n t := by
  obtain ⟨hok, h⟩ := Machine.restrict_step_eq_some.1 h
  cases e with
  | connection e =>
      obtain ⟨c, hc, rfl⟩ := Option.map_eq_some_iff.1 h
      cases e with
      | transfer m => exact hs.transfer hc
      | complete ec => exact hs.complete hok hc
      | handleWrite => exact hs.handleWrite hc
  | read ec bytes =>
      obtain ⟨⟨hphase, hmay⟩, heq⟩ := Option.ite_none_right_eq_some.1 h
      cases heq
      exact hs.read hok hphase hmay

/-- Where nothing can happen any more, the write has ended. -/
theorem write_eq_none (hs : Printing code message n s) (hrest : ∀ e, (undisturbed code).step s e = none) :
    s.conn.write = none := by
  have hconn : ∀ e, (ExchangeEvent.connection e).ok = true → (connectionMachine code).step s.conn e = none := by
    intro e hok
    have h := hrest (.connection e)
    simpa [undisturbed, Machine.restrict, exchangeMachine, hok] using h
  cases hwrite : s.conn.write with
  | none => rfl
  | some w =>
      exfalso
      obtain ⟨sent, completion⟩ := w
      cases completion with
      | some ec =>
          have h := hconn .handleWrite rfl
          simp [connectionMachine, Connection.handleWrite, hwrite] at h
      | none =>
          cases hopen : s.conn.isOpen with
          | false =>
              -- its socket was closed
              have h := hconn (.complete (some .operationAborted)) rfl
              simp [connectionMachine, Connection.complete, hwrite, hopen, mayComplete] at h
          | true =>
              obtain ⟨hle, -⟩ := hs.sound.sending _ hwrite
              rcases hle.eq_or_lt with heq | hlt
              · have h := hconn (.complete none) rfl
                have heq : sent = s.conn.message.length := heq
                simp [connectionMachine, Connection.complete, hwrite, mayComplete, heq] at h
              · have h := hconn (.transfer 1) rfl
                have hlt : sent + 1 ≤ s.conn.message.length := hlt
                simp [connectionMachine, Connection.transfer, hwrite, hopen, hlt] at h

/-- **Where nothing can happen any more, the client has ended**, and it has printed what was sent. -/
theorem of_atRest (hs : Printing code message n s) (hrest : ∀ e, (undisturbed code).step s e = none) :
    s.client.phase = .ended ∧
      s.client.printed = if code.keepsConnection = true then message else message.take n := by
  have hwrite := hs.write_eq_none hrest
  have hread : ∀ ec bytes, (ExchangeEvent.read ec bytes).ok = true → s.client.phase = .reading →
      ¬ s.mayRead ec bytes := by
    intro ec bytes hok hphase hmay
    have h := hrest (.read ec bytes)
    simp [undisturbed, Machine.restrict, exchangeMachine, hok, hphase, hmay] at h
  have hclosed : s.conn.isOpen = false := by
    rw [hs.sound.isOpen, hs.sound.alive, hwrite]
    simp
  have hended : s.client.phase = .ended := by
    rcases hs.phase with hphase | hended
    · exfalso
      rcases hs.printed.length_le.eq_or_lt with heq | hlt
      · have hall := hs.printed.eq_of_length heq
        exact hread (some eof) [] rfl hphase ⟨rfl, fun _ => ⟨hclosed, hall⟩⟩
      · obtain ⟨x, hx⟩ := exists_concat_isPrefix hs.printed hlt
        exact hread none [x] rfl hphase ⟨by simp, by simp [bufSize], hx⟩
    · exact hended
  refine ⟨hended, (hs.ended hended).2.trans ?_⟩
  split
  · rename_i hkeeps
    exact hs.delivered hkeeps hwrite
  · rename_i hkeeps
    rw [hs.sound.lost (by simpa using hkeeps), hs.message_eq, hs.first_eq]

end Printing

/-! ## How long a run is -/

/-- An upper bound for the number of steps to come. -/
def Exchange.work (s : Exchange) : ℕ :=
  (match s.conn.write with
    | some ⟨sent, none⟩ => s.conn.message.length - sent + 2
    | some ⟨_, some _⟩ => 1
    | none => 0) +
  (s.conn.message.length - s.client.printed.length) + if s.client.phase = .reading then 1 else 0

/-- Every step without a failure leaves less to do. -/
theorem Printing.work_lt {code : ServerCode} {message : List UInt8} {n : ℕ} {s t : Exchange}
    {e : ExchangeEvent} (hs : Printing code message n s) (h : (undisturbed code).step s e = some t) :
    t.work < s.work := by
  have ht := hs.step h
  obtain ⟨hok, h⟩ := Machine.restrict_step_eq_some.1 h
  cases e with
  | connection e =>
      obtain ⟨c, hc, rfl⟩ := Option.map_eq_some_iff.1 h
      cases e with
      | transfer m =>
          have hc : s.conn.transfer m = some c := hc
          rw [Connection.transfer] at hc
          split at hc
          · rename_i sent hwrite
            obtain ⟨⟨-, hpos, hle⟩, heq⟩ := Option.ite_none_right_eq_some.1 hc
            cases heq
            simp only [Exchange.work, hwrite]
            omega
          · cases hc
      | complete ec =>
          have hc : s.conn.complete ec = some c := hc
          rw [Connection.complete] at hc
          split at hc
          · rename_i sent hwrite
            obtain ⟨-, heq⟩ := Option.ite_none_right_eq_some.1 hc
            cases heq
            simp only [Exchange.work, hwrite]
            omega
          · cases hc
      | handleWrite =>
          have hc : s.conn.handleWrite code = some c := hc
          rw [Connection.handleWrite] at hc
          split at hc
          · rename_i sent ec hwrite
            cases hc
            simp only [Exchange.work, hwrite, Connection.release_write, Connection.release_message]
            omega
          · cases hc
  | read ec bytes =>
      obtain ⟨⟨hphase, hmay⟩, heq⟩ := Option.ite_none_right_eq_some.1 h
      cases heq
      cases ec with
      | some ec =>
          have heof : ec = eof := of_decide_eq_true hok
          simp [Exchange.work, DaytimeClient.turn, heof, hphase]
      | none =>
          have hlen := (ht.printed.trans ht.sound.wire).length_le
          have hpos := List.length_pos_of_ne_nil hmay.1
          simp only [DaytimeClient.turn, List.length_append] at hlen
          simp only [Exchange.work, DaytimeClient.turn, List.length_append, hphase]
          omega

/-- **What a daytime client prints**, if nothing fails, where `async_write` sends `n` bytes at once. It prints
the beginning of the message, a run has at most two steps for each byte and three, and when nothing can
happen any more the client has left its loop: with the whole message, if the handler of the write holds the
connection, and otherwise with these `n` bytes. -/
theorem daytime_client (code : ServerCode) {message : List UInt8} {n : ℕ} (hn : n ≤ message.length)
    {es : List ExchangeEvent} {s : Exchange}
    (hexec : (undisturbed code).exec (.start code message n) es = some s) :
    es.length ≤ 2 * message.length + 3 ∧ s.client.printed <+: message ∧
    ((∀ e, (undisturbed code).step s e = none) →
      s.client.phase = .ended ∧
      s.client.printed = if code.keepsConnection = true then message else message.take n) := by
  have hstart := Printing.start code hn
  have hs : Printing code message n s :=
    Machine.exec_preserves (fun s e t hs hstep => hs.step hstep) hstart hexec
  refine ⟨?_, ?_, hs.of_atRest⟩
  · have hle := Machine.length_add_measure_le
      (fun s e t hs hstep => ⟨Printing.step hs hstep, Printing.work_lt hs hstep⟩) hstart hexec
    have hwork : (Exchange.start code message n).work ≤ 2 * message.length + 3 := by
      simp only [Exchange.work, Exchange.start, Connection.release_write, Connection.release_message,
        Connection.start, List.length_nil, if_true]
      omega
    omega
  · exact hs.message_eq ▸ hs.printed.trans hs.sound.wire

/-- A client of `async_daytimesrc` that reads one byte of two. -/
def cutEvents : List ExchangeEvent :=
  [.read none (str "1"), .connection (.complete (some .operationAborted)), .connection .handleWrite,
    .read (some eof) []]

/-- It ends with that byte. -/
theorem daytime_client_cut :
    ∃ s, (undisturbed asyncDaytimesrc).exec (.start asyncDaytimesrc (str "12") 1) cutEvents = some s ∧
      s.client.printed = str "1" := by
  have hexec : ∃ s, (undisturbed asyncDaytimesrc).exec (.start asyncDaytimesrc (str "12") 1) cutEvents =
      some s ∧ s.client.phase = .ended ∧ s.conn.write = none := ⟨_, rfl, rfl, rfl⟩
  obtain ⟨s, hexec, hended, hwrite⟩ := hexec
  have hrest : ∀ e, (undisturbed asyncDaytimesrc).step s e = none := by
    intro e
    cases e with
    | read ec bytes => simp [undisturbed, Machine.restrict, exchangeMachine, hended]
    | connection e =>
        cases e <;> simp [undisturbed, Machine.restrict, exchangeMachine, connectionMachine,
          Connection.transfer, Connection.complete, Connection.handleWrite, hwrite]
  have hclient := daytime_client asyncDaytimesrc (show 1 ≤ (str "12").length by decide) hexec
  exact ⟨s, hexec, (hclient.2.2 hrest).2⟩

end AsioExamples.Daytime
