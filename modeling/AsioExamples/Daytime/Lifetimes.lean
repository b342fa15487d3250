import AsioExamples.Daytime.Server
import Mathlib.Data.List.Basic

/-!
# How long a daytime connection lives

`Sound` is what every step of a connection keeps. In `aync_daytimesrc` a connection lives exactly as long as its
write is outstanding, and the bytes of the message with it. In `async_daytimesrc` it is destroyed when the
handler of the accept returns: its socket is closed, and what has not been sent by then is never sent. The
destroyed message is not read for this reason only (`daytime_lifetimes`).
-/

set_option autoImplicit false

namespace AsioExamples.Daytime

open AsioExamples.Lib AsioExamples.Asio

/-- What every step of a connection keeps. -/
structure Sound (code : ServerCode) (c : Connection) : Prop where
  alive : c.alive = (code.keepsConnection && c.write.isSome)
  isOpen : c.isOpen = c.alive
  stored : c.stored = (code.keepsMessage && c.alive)
  sending : ∀ w, c.write = some w → w.sent ≤ c.message.length ∧ c.wire = c.message.take w.sent ∧
    (w.completion = some none → w.sent = c.message.length) ∧
    (w.completion = some (some .operationAborted) → c.isOpen = false)
  wire : c.wire <+: c.message
  lost : code.keepsConnection = false → c.wire = c.message.take c.first
  reported : ∀ w, c.write = some w → c.reported = none
  ended : c.write = none → c.reported = some c.wire.length
  safe : code.keepsMessage = true ∨ code.keepsConnection = false → c.readsDestroyed = false

namespace Sound

variable {code : ServerCode} {c d : Connection}

theorem init {message : List UInt8} {n : ℕ} (hn : n ≤ message.length) :
    Sound code ((Connection.start code message n).release code) := by
  cases hkeeps : code.keepsConnection
  · refine ⟨?_, ?_, ?_, ?_, ?_, ?_, ?_, ?_, ?_⟩ <;>
      simp [Connection.release, Connection.start, hkeeps, hn, List.take_prefix]
  · refine ⟨?_, ?_, ?_, ?_, ?_, ?_, ?_, ?_, ?_⟩ <;>
      simp [Connection.release, Connection.start, hkeeps, hn, List.take_prefix]

theorem transfer (hc : Sound code c) {n : ℕ} (h : c.transfer n = some d) : Sound code d := by
  rw [Connection.transfer] at h
  split at h
  · rename_i sent hwrite
    obtain ⟨⟨hopen, hpos, hle⟩, heq⟩ := Option.ite_none_right_eq_some.1 h
    cases heq
    obtain ⟨-, hwire, -, -⟩ := hc.sending _ hwrite
    have hreported := hc.reported _ hwrite
    -- an open socket means that the connection is alive
    have halive : c.alive = true := hc.isOpen ▸ hopen
    have hkeeps : code.keepsConnection = true := by
      have := hc.alive
      rw [halive] at this
      exact (Bool.and_eq_true_iff.1 this.symm).1
    have htake : c.wire ++ (c.message.drop sent).take n = c.message.take (sent + n) := by
      rw [hwire, List.take_add]
    refine ⟨?_, hc.isOpen, hc.stored, ?_, ?_, ?_, ?_, nofun, ?_⟩
    · rw [halive, hkeeps]
      rfl
    · rintro w ⟨⟩
      exact ⟨hle, htake, nofun, nofun⟩
    · rw [htake]
      exact List.take_prefix _ _
    · rw [hkeeps]
      nofun
    · exact fun _ _ => hreported
    · intro hcode
      have hmessage : code.keepsMessage = true := by
        rcases hcode with h | h
        · exact h
        · rw [hkeeps] at h
          cases h
      have hstored : c.stored = true := by
        rw [hc.stored, hmessage, halive]
        rfl
      rw [hc.safe hcode, hstored]
      rfl
  · cases h

theorem complete (hc : Sound code c) {ec : Option ErrorCode} (h : c.complete ec = some d) :
    Sound code d := by
  rw [Connection.complete] at h
  split at h
  · rename_i sent hwrite
    obtain ⟨⟨hmay, hall⟩, heq⟩ := Option.ite_none_right_eq_some.1 h
    cases heq
    obtain ⟨hle, hwire, -, -⟩ := hc.sending _ hwrite
    refine ⟨?_, hc.isOpen, hc.stored, ?_, hc.wire, hc.lost, fun _ _ => hc.reported _ hwrite, nofun, hc.safe⟩
    · rw [hc.alive, hwrite]
      rfl
    · rintro w ⟨⟩
      refine ⟨hle, hwire, ?_, ?_⟩
      · rintro ⟨⟩
        exact hall rfl
      · rintro ⟨⟩
        simpa [mayComplete] using hmay
  · cases h

theorem handleWrite (hc : Sound code c) (h : c.handleWrite code = some d) : Sound code d := by
  rw [Connection.handleWrite] at h
  split at h
  · rename_i sent ec hwrite
    obtain ⟨hle, hwire, -, -⟩ := hc.sending _ hwrite
    have hlength : sent = c.wire.length := by
      rw [hwire, List.length_take_of_le hle]
    cases h
    rw [Connection.release, if_neg (by simp)]
    refine ⟨?_, rfl, ?_, ?_, hc.wire, hc.lost, ?_, ?_, hc.safe⟩
    · simp
    · simp
    · intro w hw
      cases hw
    · intro w hw
      cases hw
    · exact fun _ => congrArg some hlength
  · cases h

theorem step (hc : Sound code c) {e : ConnectionEvent} (h : (connectionMachine code).step c e = some d) :
    Sound code d := by
  cases e with
  | transfer n => exact hc.transfer h
  | complete ec => exact hc.complete h
  | handleWrite => exact hc.handleWrite h

end Sound

theorem sound {code : ServerCode} {c : Connection} (h : (connectionMachine code).Reachable c) :
    Sound code c := by
  apply h.invariant (I := Sound code)
  · rintro c ⟨message, n, hn, rfl⟩
    exact .init hn
  · exact fun c e d hc hstep => hc.step hstep

/-- **How long connections live**, in every reachable state of the two servers. In `aync_daytimesrc` exactly as
long as their writes are outstanding, with open sockets and with the bytes that are being sent. In
`async_daytimesrc` none lives once the handler of its accept has returned, and nothing is sent on it from
then on. Neither server sends bytes that do not exist any more, and what they print is what was sent. -/
theorem daytime_lifetimes :
    (∀ s, (serverMachine ayncDaytimesrc).Reachable s → ∀ c ∈ s.conns,
      (c.alive = true ↔ c.write ≠ none) ∧ (c.isOpen = true ↔ c.write ≠ none) ∧
      (c.stored = true ↔ c.write ≠ none) ∧ c.wire <+: c.message ∧ c.readsDestroyed = false ∧
      (c.write = none → c.reported = some c.wire.length)) ∧
    ∀ s, (serverMachine asyncDaytimesrc).Reachable s → ∀ c ∈ s.conns,
      c.alive = false ∧ c.isOpen = false ∧ c.stored = false ∧ c.wire = c.message.take c.first ∧
      c.readsDestroyed = false ∧ (c.write = none → c.reported = some c.wire.length) := by
  constructor
  · intro s hs c hc
    have h := sound (server_reachable hs c hc)
    have halive : c.alive = true ↔ c.write ≠ none := by
      rw [h.alive]
      simp [ayncDaytimesrc, Option.isSome_iff_ne_none]
    have hstored : c.stored = c.alive := by
      rw [h.stored]
      simp [ayncDaytimesrc]
    exact ⟨halive, h.isOpen ▸ halive, hstored ▸ halive, h.wire, h.safe (Or.inl rfl), h.ended⟩
  · intro s hs c hc
    have h := sound (server_reachable hs c hc)
    have halive : c.alive = false := by
      rw [h.alive]
      rfl
    exact ⟨halive, h.isOpen.trans halive, h.stored.trans rfl, h.lost rfl, h.safe (Or.inr rfl), h.ended⟩

end AsioExamples.Daytime
