import AsioExamples.Echo.Session

/-!
# What an echo session sends

`echoMachine` runs a session on its own, from its first read on. One buffer serves both directions, so
what a write sends is right only if it is given the length of the read, and if no read stores into
`data_` before the write has ended. `Progress` relates the only outstanding operation to the bytes
received and sent; `Echoing.step` says that every step keeps it.
-/

set_option autoImplicit false

namespace AsioExamples.Echo

open AsioExamples.Lib AsioExamples.Asio

/-- A session with its first read. -/
def EchoSession.started (conn : ℕ) (data : List UInt8) : EchoSession :=
  (⟨some conn, data, [], [], []⟩ : EchoSession).perform .asyncReadSome

/-- A session on its own: an event happens, and a handler that runs performs its actions. The array
`data_` holds any bytes at the beginning. -/
def echoMachine (closesOnError : Bool) : Machine EchoSession EchoEvent where
  init s := ∃ conn data, data.length = dataSize ∧ s = .started conn data
  step s e := (s.step closesOnError e).map fun (t, acts) => acts.foldl EchoSession.perform t

/-- How far a session has come, by its outstanding operations:

- none: what was sent is a part of what was received;
- a read that has not ended: everything has been sent;
- a read that has: everything but its bytes has been sent, and these are at the beginning of `data_`;
- a write: everything but the rest of its buffer has been sent, and nothing is missing where it ended
  without an error. -/
inductive Progress (s : EchoSession) : List (Pending EchoOp) → Prop where
  | idle (h : s.sent <+: s.received) : Progress s []
  | reading (startedClosed : Bool) (h : s.received = s.sent) :
      Progress s [⟨.readSome, startedClosed, none⟩]
  | hasRead (startedClosed : Bool) (c : Completion) (hlength : c.bytes.length ≤ dataSize)
      (h : s.received = s.sent ++ c.bytes) (hdata : s.data_.take c.bytes.length = c.bytes) :
      Progress s [⟨.readSome, startedClosed, some c⟩]
  | writing (startedClosed : Bool) (length sent : ℕ) (done : Option Completion) (hsent : sent ≤ length)
      (hlength : length ≤ dataSize) (h : s.received = s.sent ++ (s.data_.take length).drop sent)
      (hdone : ∀ c ∈ done, c.ec = none → sent = length) :
      Progress s [⟨.write length sent, startedClosed, done⟩]

/-- What every step of a session keeps. -/
structure Echoing (s : EchoSession) : Prop where
  size : s.data_.length = dataSize
  progress : Progress s s.pending

/-! ## The steps -/

theorem Progress.atMostOne {s : EchoSession} {ps : List (Pending EchoOp)} (h : Progress s ps) :
    ps.length ≤ 1 := by
  cases h <;> simp

namespace Echoing

variable {s t : EchoSession}

/-- The only operation of a session. -/
theorem eq_singleton (hs : Echoing s) {i : ℕ} {p : Pending EchoOp} (hp : s.pending[i]? = some p) :
    s.pending = [p] ∧ i = 0 :=
  eq_singleton_of_length_le_one hs.progress.atMostOne hp

/-- **A completion**: a read brings its bytes, and a write leaves `data_` alone. -/
theorem complete (hs : Echoing s) {i : ℕ} {c : Completion} (h : s.complete i c = some t) :
    Echoing t := by
  obtain ⟨⟨op, startedClosed, done⟩, hp, hnone, hcase⟩ := EchoSession.complete_cases h
  obtain ⟨hpending, rfl⟩ := hs.eq_singleton hp
  have hnone : done = none := hnone
  subst hnone
  have hprogress := hs.progress
  rw [hpending] at hprogress
  rcases hcase with ⟨rfl, hlength, rfl⟩ | ⟨length, sent, rfl, hdone, rfl⟩
  · cases hprogress with
    | reading _ heq =>
        refine ⟨?_, ?_⟩
        · have hsize := hs.size
          simp only [List.length_append, List.length_drop]
          omega
        · simp only [hpending, List.set_cons_zero]
          exact .hasRead startedClosed c hlength (by rw [heq]) (by simp)
  · cases hprogress with
    | writing _ _ _ _ hsent hlength heq _ =>
        refine ⟨hs.size, ?_⟩
        simp only [hpending, List.set_cons_zero]
        refine .writing startedClosed length sent (some c) hsent hlength heq ?_
        rintro c' ⟨⟩ hec
        exact hdone hec

/-- **A transfer**: what is sent is the next part of what is missing. -/
theorem transfer (hs : Echoing s) {i n : ℕ} (h : s.transfer i n = some t) : Echoing t := by
  obtain ⟨length, sent, startedClosed, hp, hle, rfl⟩ := EchoSession.transfer_cases h
  obtain ⟨hpending, rfl⟩ := hs.eq_singleton hp
  have hprogress := hs.progress
  rw [hpending] at hprogress
  cases hprogress with
  | writing _ _ _ _ hsent hlength heq _ =>
      refine ⟨hs.size, ?_⟩
      simp only [hpending, List.set_cons_zero]
      refine .writing startedClosed length (sent + n) none hle hlength ?_ (by simp)
      rw [List.append_assoc, ← List.drop_drop, List.take_append_drop]
      exact heq

/-- **A handler**: the read has ended, and a write of its bytes begins; or the write has, and what was
received has all been sent when the next read begins. -/
theorem handler (hs : Echoing s) {closesOnError : Bool} {i : ℕ} {acts : List EchoAction}
    (h : s.dispatched closesOnError i = some (t, acts)) :
    Echoing (acts.foldl EchoSession.perform t) := by
  obtain ⟨⟨op, done, ps⟩, hd, heq⟩ := Option.map_eq_some_iff.1 h
  obtain ⟨⟨op', startedClosed, completion⟩, hpending, rfl, hdone, rfl⟩ :=
    dispatch_of_length_le_one hs.progress.atMostOne hd
  have hdone : completion = some done := hdone
  subst hdone
  have hprogress := hs.progress
  rw [hpending] at hprogress
  cases heq
  cases hprogress with
  | hasRead _ _ hlength heq hdata =>
      rw [EchoOp.handler, readHandler]
      split
      · refine ⟨hs.size, .writing _ done.bytes.length 0 none (Nat.zero_le _) hlength ?_ (by simp)⟩
        rw [heq]
        simpa [EchoSession.perform] using hdata.symm
      · have hprefix : s.sent <+: s.received := ⟨done.bytes, heq.symm⟩
        split
        · exact ⟨hs.size, .idle hprefix⟩
        · exact ⟨hs.size, .idle hprefix⟩
  | writing _ length sent _ hsent hlength heq hfull =>
      rw [EchoOp.handler, writeHandler]
      split
      · rename_i hec
        -- the whole buffer was sent, so nothing is missing
        obtain rfl := hfull done rfl hec
        refine ⟨hs.size, .reading _ ?_⟩
        rw [List.drop_eq_nil_of_le (List.length_take_le _ _), List.append_nil] at heq
        exact heq
      · have hprefix : s.sent <+: s.received := ⟨_, heq.symm⟩
        split
        · exact ⟨hs.size, .idle hprefix⟩
        · exact ⟨hs.size, .idle hprefix⟩

/-- **Every step keeps it.** -/
theorem step (hs : Echoing s) {closesOnError : Bool} {e : EchoEvent}
    (hstep : (echoMachine closesOnError).step s e = some t) : Echoing t := by
  obtain ⟨⟨u, acts⟩, hu, rfl⟩ := Option.map_eq_some_iff.1 hstep
  cases e with
  | complete i c =>
      obtain ⟨u', hu', heq⟩ := Option.map_eq_some_iff.1 hu
      cases heq
      exact hs.complete hu'
  | transfer i n =>
      obtain ⟨u', hu', heq⟩ := Option.map_eq_some_iff.1 hu
      cases heq
      exact hs.transfer hu'
  | handler i => exact hs.handler hu

/-- While a write is outstanding nothing is stored into `data_`. -/
theorem data_of_writing (hs : Echoing s) {closesOnError : Bool} {e : EchoEvent}
    (hstep : (echoMachine closesOnError).step s e = some t) {p : Pending EchoOp} (hp : p ∈ s.pending)
    (hop : p.op ≠ .readSome) : t.data_ = s.data_ := by
  obtain ⟨i, hi⟩ := List.mem_iff_getElem?.1 hp
  obtain ⟨hpending, -⟩ := hs.eq_singleton hi
  obtain ⟨⟨u, acts⟩, hu, rfl⟩ := Option.map_eq_some_iff.1 hstep
  have hperform : ∀ (acts : List EchoAction) (u : EchoSession),
      (acts.foldl EchoSession.perform u).data_ = u.data_ := by
    intro acts
    induction acts with
    | nil => exact fun _ => rfl
    | cons a acts ih =>
        intro u
        rw [List.foldl_cons, ih]
        cases a <;> rfl
  rw [hperform]
  cases e with
  | complete i c =>
      obtain ⟨u', hu', heq⟩ := Option.map_eq_some_iff.1 hu
      cases heq
      obtain ⟨q, hq, -, ⟨hread, -, -⟩ | ⟨length, sent, -, -, rfl⟩⟩ := EchoSession.complete_cases hu'
      · -- the only operation is no read
        obtain ⟨hpending', -⟩ := hs.eq_singleton hq
        rw [hpending] at hpending'
        obtain ⟨rfl, -⟩ := List.cons.inj hpending'
        exact absurd hread hop
      · rfl
  | transfer i n =>
      obtain ⟨u', hu', heq⟩ := Option.map_eq_some_iff.1 hu
      cases heq
      obtain ⟨length, sent, startedClosed, -, -, rfl⟩ := EchoSession.transfer_cases hu'
      rfl
  | handler i =>
      obtain ⟨⟨op, done, ps⟩, -, heq⟩ := Option.map_eq_some_iff.1 hu
      cases heq
      rfl

end Echoing

theorem echoing_started (conn : ℕ) {data : List UInt8} (h : data.length = dataSize) :
    Echoing (.started conn data) := ⟨h, .reading false rfl⟩

/-- **A session echoes**, in every state of every run. -/
theorem echoing {closesOnError : Bool} {s : EchoSession} (h : (echoMachine closesOnError).Reachable s) :
    Echoing s := by
  apply h.invariant (I := Echoing)
  · rintro s ⟨conn, data, hdata, rfl⟩
    exact echoing_started conn hdata
  · exact fun s e t hs hstep => hs.step hstep

/-! ## The stream -/

/-- The law of an echo session: one operation at a time, a buffer that nothing is stored into while it is
being written, and everything received is sent, in order and as it came. -/
structure StreamLaw (closesOnError : Bool) (s : EchoSession) : Prop where
  atMostOne : s.pending.length ≤ 1
  buffer : ∀ p ∈ s.pending, p.op ≠ .readSome →
    ∀ e t, (echoMachine closesOnError).step s e = some t → t.data_ = s.data_
  sent : s.sent <+: s.received
  reading : ∀ p ∈ s.pending, p.op = .readSome →
    s.received = s.sent ++ (p.completion.map Completion.bytes).getD []

/-- While a read is in progress, everything received has been sent. -/
theorem StreamLaw.sent_eq_received {closesOnError : Bool} {s : EchoSession}
    (h : StreamLaw closesOnError s) {p : Pending EchoOp} (hp : p ∈ s.pending) (hop : p.op = .readSome)
    (hnone : p.completion = none) : s.sent = s.received := by
  have heq := h.reading p hp hop
  rw [hnone] at heq
  simpa using heq.symm

theorem Echoing.streamLaw {s : EchoSession} (hs : Echoing s) (closesOnError : Bool) :
    StreamLaw closesOnError s := by
  have hprogress := hs.progress
  refine ⟨hprogress.atMostOne, fun p hp hop e t hstep => hs.data_of_writing hstep hp hop, ?_, ?_⟩
  · generalize s.pending = ps at hprogress
    cases hprogress with
    | idle h => exact h
    | reading _ h => exact h ▸ List.prefix_refl _
    | hasRead _ c _ h _ => exact ⟨c.bytes, h.symm⟩
    | writing _ _ _ _ _ _ h _ => exact ⟨_, h.symm⟩
  · generalize s.pending = ps at hprogress
    intro p hp hop
    cases hprogress with
    | idle h => cases hp
    | reading _ h =>
        rw [List.mem_singleton.1 hp]
        simpa using h
    | hasRead _ c _ h _ =>
        rw [List.mem_singleton.1 hp]
        exact h
    | writing _ _ _ _ _ _ _ _ =>
        rw [List.mem_singleton.1 hp] at hop
        cases hop

/-! ## The servers with many sessions -/

/-- What can happen to a server: its accept handler runs, or something happens to a session. -/
inductive AsyncEchoEvent where
  | acceptHandler (ec : Option ErrorCode) (data : List UInt8)
  | session (i : ℕ) (e : EchoEvent)

/-- `class server` of `async_tcp_echo_server.cpp` and of `allocation_server.cpp`, as the sessions it has
started. The acceptor always has one operation outstanding. -/
def asyncEchoServer : Machine (List EchoSession) AsyncEchoEvent where
  init s := s = []
  step s
    | .acceptHandler ec data =>
        if data.length = dataSize then
          if ec = none then some (s ++ [.started s.length data]) else some s
        else none
    | .session i e => s[i]?.bind fun c => ((echoMachine false).step c e).map (s.set i)

/-- Each session of a server is a session on its own. -/
theorem asyncEchoServer_reachable {s : List EchoSession} (h : asyncEchoServer.Reachable s) :
    ∀ c ∈ s, (echoMachine false).Reachable c := by
  apply h.invariant (I := fun s => ∀ c ∈ s, (echoMachine false).Reachable c)
  · rintro s rfl c hc
    cases hc
  · intro s e t hs hstep
    cases e with
    | acceptHandler ec data =>
        obtain ⟨hdata, hstep⟩ := Option.ite_none_right_eq_some.1 hstep
        split at hstep
        · cases hstep
          refine List.forall_mem_append.2 ⟨hs, List.forall_mem_singleton.2 ?_⟩
          exact .of_init ⟨s.length, data, hdata, rfl⟩
        · cases hstep
          exact hs
    | session i e =>
        obtain ⟨c, hc, hstep⟩ := Option.bind_eq_some_iff.1 hstep
        obtain ⟨d, hd, rfl⟩ := Option.map_eq_some_iff.1 hstep
        intro x hx
        rcases List.mem_or_eq_of_mem_set hx with hx | rfl
        · exact hs x hx
        · exact (hs c (List.mem_of_getElem? hc)).step hd

end AsioExamples.Echo
