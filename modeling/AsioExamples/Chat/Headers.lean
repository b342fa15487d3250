import AsioExamples.Chat.Server
import AsioExamples.Chat.Client

/-!
# The headers that the reader accepts

`decode_header` leaves the check of a header to `std::atoi`. What passes is more than `encode_header`
writes: `TellsLength` is the exact shape, white space, a sign and digits of which each may be missing,
with anything behind them, as long as the number is between 0 and the longest body.

The reader takes exactly the body that such a header tells of. At the first other header the read chain
ends for good: the session leaves the room, the client closes its socket
(`reader_accepts_tellsLength`).
-/

set_option autoImplicit false

namespace AsioExamples.Chat

open AsioExamples.Cxx AsioExamples.Lib AsioExamples.Asio

/-! ## The shape of a header -/

/-- The header, up to its first NUL, begins with a numeral whose value is the length `n` of a body. -/
def TellsLength (header : List UInt8) (n : ℕ) : Prop :=
  ∃ N : Numeral, cStr header = N.text ∧ N.value = n ∧ n ≤ maxBodyLength

/-- The shape that `encode_header` writes: blanks, and at least one digit. -/
def WrittenHeader (header : List UInt8) : Prop :=
  ∃ k ds, header = List.replicate k (chr ' ') ++ ds ∧ ds ≠ [] ∧ (∀ c ∈ ds, isdigit c = true) ∧
    decimal ds ≤ maxBodyLength

/-- A numeral of at most four bytes is a small number. -/
theorem natAbs_value_lt {N : Numeral} (h : N.text.length ≤ headerLength) :
    N.value.natAbs < 10 ^ headerLength := by
  have hlen : N.digits.length ≤ headerLength := by
    simp only [Numeral.text, List.length_append] at h
    omega
  have hdecimal : decimal N.digits < 10 ^ headerLength :=
    (decimal_lt N.digits_isdigit).trans_le (Nat.pow_le_pow_right (by decide) hlen)
  rw [Numeral.value, signed]
  split
  · rwa [Int.natAbs_neg, Int.natAbs_natCast]
  · rwa [Int.natAbs_natCast]

/-- **The headers that `decode_header` accepts**, with the length it finds in them. -/
theorem headerValue_eq_some_iff {header : List UInt8} (h : header.length ≤ headerLength) {n : ℕ} :
    headerValue header = some n ↔ TellsLength header n := by
  -- whatever numeral the header is, its value is small, so it is exact as an `int`
  have hsize : ∀ N : Numeral, cStr header = N.text → ∀ n ≤ maxBodyLength,
      (toSize (atoi (cStr header)) = n ↔ N.value = n) := by
    intro N hN n hn
    have hlen : N.text.length ≤ headerLength := by
      rw [← hN]
      exact (cStr_isPrefix header).length_le.trans h
    have hlt : N.value.natAbs < 2 ^ 63 := (natAbs_value_lt hlen).trans (by decide)
    rw [atoi_eq_value N ((cStr_cStr header).trans hN)]
    exact toSize_eq_iff hlt (lt_of_le_of_lt hn (by decide))
  have hvalue : headerValue header = some n ↔
      toSize (atoi (cStr header)) = n ∧ n ≤ maxBodyLength := by
    simp only [headerValue]
    split <;> simp only [Option.some.injEq, reduceCtorEq, false_iff] <;> omega
  rw [hvalue]
  constructor
  · rintro ⟨heq, hle⟩
    obtain ⟨N, hN⟩ := exists_numeral (cStr header)
    exact ⟨N, hN.symm, (hsize N hN.symm n hle).1 heq, hle⟩
  · rintro ⟨N, hN, heq, hle⟩
    exact ⟨(hsize N hN n hle).2 heq, hle⟩

theorem headerValue_eq_none_iff {header : List UInt8} (h : header.length ≤ headerLength) :
    headerValue header = none ↔ ∀ n, ¬ TellsLength header n := by
  simp only [Option.eq_none_iff_forall_ne_some, ne_eq, headerValue_eq_some_iff h]

/-- What `encode_header` writes is one of the headers that are accepted. -/
theorem WrittenHeader.tellsLength {header : List UInt8} (h : WrittenHeader header) :
    ∃ n, TellsLength header n := by
  obtain ⟨k, ds, rfl, hne, hds, hle⟩ := h
  refine ⟨decimal ds, ⟨List.replicate k (chr ' '), [], ds, [], ?_, Or.inl rfl, hds, by simp, ?_⟩, ?_,
    rfl, hle⟩
  · intro c hc
    rw [List.eq_of_mem_replicate hc]
    rfl
  · exact fun _ hnil => absurd hnil hne
  · simp only [Numeral.text, List.append_nil]
    rw [cStr, List.takeWhile_eq_self_iff]
    intro c hc
    rcases List.mem_append.1 hc with hc | hc
    · rw [List.eq_of_mem_replicate hc]
      rfl
    · simpa using (isdigit_spec (hds c hc)).1

/-! ## The loop -/

/-- The stream does not hold a whole message: it is too short, or it goes on with a header that tells
no length. -/
def NoMessage (s : List UInt8) : Prop :=
  s.length < headerLength ∨
    (∃ n, TellsLength (s.take headerLength) n ∧ s.length < headerLength + n) ∨
    ∀ n, ¬ TellsLength (s.take headerLength) n

theorem noMessage_of_stuck {s : List UInt8} (h : framing.Stuck s) : NoMessage s := by
  have hlen : (s.take headerLength).length ≤ headerLength := List.length_take_le _ _
  rcases h with h | ⟨n, hn, h⟩ | h
  · exact Or.inl h
  · exact Or.inr (Or.inl ⟨n, (headerValue_eq_some_iff hlen).1 hn, h⟩)
  · exact Or.inr (Or.inr ((headerValue_eq_none_iff hlen).1 h))

/-- **The messages of a stream**: each has a header that tells its length and as many bytes of the
stream as that, and the loop stops where the stream holds no further message. -/
theorem readLoop_spec (read : ChatMessage) (s : List UInt8) :
    s = (readLoop read s).1.flatMap ChatMessage.bytes ++ (readLoop read s).2 ∧
      (∀ msg ∈ (readLoop read s).1, TellsLength msg.header msg.body.length) ∧
      NoMessage (readLoop read s).2 := by
  obtain ⟨hread, hrest⟩ := readLoop_eq_read read s
  obtain ⟨hs, hframes, hstuck⟩ := framing.read_spec s
  refine ⟨?_, ?_, ?_⟩
  · rw [flatMap_bytes, hread, hrest]
    exact hs
  · intro msg hmsg
    have hframe := hframes msg.toFrame (hread ▸ List.mem_map_of_mem hmsg)
    exact (headerValue_eq_some_iff msg.length_header.le).1 hframe.body
  · rw [hrest]
    exact noMessage_of_stuck hstuck

/-- A header that tells no length: `decode_header` returns false, and the chain ends. -/
theorem header_handler_of_bad (read : ChatMessage) {header : List UInt8}
    (hlen : header.length = headerLength) (hbad : ∀ n, ¬ TellsLength header n) :
    ∃ msg, (read.store 0 header).decodeHeader = (false, msg) ∧ msg.bodyLength_ = 0 ∧
      Read.header.handler read none header = (msg, [.stop]) := by
  have hnone := (headerValue_eq_none_iff hlen.le).2 hbad
  have hdecode := (read.store 0 header).decodeHeader_eq
  have hhandler := header_handler_eq read hlen
  rw [ChatMessage.header_store hlen, hnone] at hdecode
  rw [hnone] at hhandler
  exact ⟨_, hdecode, rfl, hhandler⟩

/-! ## The end of a read chain -/

/-- A session that has been started and reads nothing starts no read. -/
theorem reads_eq_nil_of_step {s t : ChatState} {id : ℕ} {e : ServerEvent}
    (h : serverMachine.Reachable s) (hid : .start id ∈ s.log) (hreads : (s.sessions id).reads = [])
    (hstep : serverMachine.step s e = some t) :
    .start id ∈ t.log ∧ (t.sessions id).reads = [] := by
  cases e with
  | acceptHandler ec j =>
      rcases ChatState.acceptHandler_eq_some hstep with rfl | ⟨hj, rfl⟩
      · exact ⟨hid, hreads⟩
      · -- a session that starts is another one
        have hne : id ≠ j := fun heq => hj (heq ▸ hid)
        rw [ChatState.log_start, ChatState.reads_start, if_neg hne]
        exact ⟨List.mem_append_left _ hid, hreads⟩
  | readHandler j i ec bytes =>
      obtain ⟨r, msg, hj, hcase⟩ :=
        ChatState.readHandler_eq_some ((oneRead h).atMostOne j) hstep
      -- a session whose read has ended is another one
      have hne : id ≠ j := by
        rintro rfl
        rw [hreads] at hj
        cases hj
      have hended : ((s.readEnded j msg).sessions id).reads = [] := by
        rw [ChatState.readEnded, ChatState.sessions_modify, if_neg hne, hreads]
      rcases hcase with rfl | ⟨-, -, rfl⟩ | ⟨-, -, rfl⟩
      · exact ⟨List.mem_append_left _ hid, hended⟩
      · rw [ChatState.sessions_modify, if_neg hne]
        exact ⟨hid, hended⟩
      · rw [ChatState.sessions_modify, if_neg hne, ChatState.reads_deliver]
        exact ⟨by simp [ChatState.modify, hid], hended⟩
  | transfer j i n =>
      obtain ⟨q, -, rfl⟩ := ChatState.transfer_eq_some hstep
      exact ⟨hid, (ChatState.reads_modify rfl id).trans hreads⟩
  | writeHandler j i ec =>
      obtain ⟨q, -, hcase⟩ := ChatState.writeHandler_eq_some hstep
      have hmodify : ((s.modify j fun c => { c with out := q }).sessions id).reads = [] :=
        (ChatState.reads_modify rfl id).trans hreads
      rcases hcase with ⟨-, rfl⟩ | ⟨-, rfl⟩
      · exact ⟨hid, hmodify⟩
      · exact ⟨List.mem_append_left _ hid, hmodify⟩

/-- A session that has been started and reads nothing never reads again. -/
theorem reads_eq_nil_of_exec {s t : ChatState} {id : ℕ} {es : List ServerEvent}
    (h : serverMachine.Reachable s) (hid : .start id ∈ s.log) (hreads : (s.sessions id).reads = [])
    (hexec : serverMachine.exec s es = some t) : (t.sessions id).reads = [] := by
  have key : serverMachine.Reachable t ∧ .start id ∈ t.log ∧ (t.sessions id).reads = [] := by
    apply Machine.exec_preserves (I := fun s => serverMachine.Reachable s ∧ .start id ∈ s.log ∧
      (s.sessions id).reads = []) _ ⟨h, hid, hreads⟩ hexec
    rintro s e t ⟨hs, hid, hreads⟩ hstep
    exact ⟨hs.step hstep, reads_eq_nil_of_step hs hid hreads hstep⟩
  exact key.2.2

/-- **At a bad header a session leaves**: it is no participant any more, and never reads again. -/
theorem session_leaves_at_bad_header {s t : ChatState} {id i : ℕ} {header : List UInt8}
    (h : serverMachine.Reachable s) (hread : (s.sessions id).reads[i]? = some .header)
    (hlen : header.length = headerLength) (hbad : ∀ n, ¬ TellsLength header n)
    (hstep : serverMachine.step s (.readHandler id i none header) = some t) :
    id ∉ t.room_.participants_ ∧ (t.sessions id).readMsg_.bodyLength_ = 0 ∧
      ∀ es u, serverMachine.exec t es = some u → (u.sessions id).reads = [] := by
  have hone := oneRead h
  obtain ⟨hreads, rfl⟩ := eq_singleton_of_length_le_one (hone.atMostOne id) hread
  obtain ⟨msg, -, hlength, hhandler⟩ :=
    header_handler_of_bad (s.sessions id).readMsg_ hlen hbad
  have ht : t = (s.readEnded id msg).leave id := by
    simp only [serverMachine, ChatState.readHandler, hread, hhandler] at hstep
    split at hstep
    · simp only [Option.some.injEq] at hstep
      rw [← hstep, ChatState.readEnded]
      simp only [ChatState.modify, hreads]
      rfl
    · cases hstep
  subst ht
  refine ⟨?_, ?_, ?_⟩
  · exact (s.readEnded id msg).room_.nodup.not_mem_erase
  · rw [ChatState.sessions_leave, ChatState.sessions_readEnded]
    exact hlength
  · intro es u hexec
    apply reads_eq_nil_of_exec (h.step hstep) _ _ hexec
    · exact List.mem_append_left _ (hone.started hreads)
    · rw [ChatState.sessions_leave, ChatState.sessions_readEnded]

/-- A handler of the read chain ends the chain or starts one read. The read of a body starts where the
header has been decoded. -/
theorem Read.handler_actions (r : Read) (msg : ChatMessage) (ec : Option ErrorCode)
    (bytes : List UInt8) :
    (r.handler msg ec bytes).2 = [.stop] ∨
      ((r.handler msg ec bytes).2 = [.asyncReadBody] ∧ (r.handler msg ec bytes).1.Synced) ∨
      ∃ msg', (r.handler msg ec bytes).2 = [.accept msg', .asyncReadHeader] := by
  cases r with
  | header =>
      obtain ⟨msg', h | ⟨-, hsynced, h⟩⟩ := readHeaderHandler_cases (msg.store 0 bytes) ec
      · exact Or.inl (congrArg Prod.snd h)
      · have hmsg : (Read.header.handler msg ec bytes).1 = msg' := congrArg Prod.fst h
        exact Or.inr (Or.inl ⟨congrArg Prod.snd h, hmsg ▸ hsynced⟩)
  | body =>
      rcases readBodyHandler_cases (msg.store headerLength bytes) ec with h | h
      · exact Or.inl h
      · exact Or.inr (Or.inr ⟨_, h⟩)

/-- What a client still does to read: its connect, or its one read. -/
def ChatClient.Reads (c : ChatClient) (n : ℕ) : Prop :=
  c.reads.length + (if c.connecting then 1 else 0) ≤ n

/-- The handlers of the client start a read only when one has ended, or the connect. -/
theorem ChatClient.Reads.step {c d : ChatClient} {e : ClientEvent} {n : ℕ} (hc : c.Reads n)
    (hstep : clientMachine.step c e = some d) : d.Reads n := by
  cases client_step hstep with
  | write msg => exact hc
  | close => exact hc
  | connected hconnecting =>
      simp only [Reads, hconnecting, if_true] at hc
      simpa [Reads] using hc
  | connectFailed ec hconnecting =>
      simp only [Reads, hconnecting, if_true] at hc
      simp only [Reads, Bool.false_eq_true, if_false]
      omega
  | @read i r ec bytes hr hmay =>
      have hlen := List.length_eraseIdx_add_one (List.getElem?_eq_some_iff.1 hr).1
      rcases r.handler_actions c.readMsg_ ec bytes with hacts | ⟨hacts, -⟩ | ⟨msg, hacts⟩ <;>
        simp only [hacts, List.foldl_cons, List.foldl_nil, perform, closeSocket, doReadHeader,
          doReadBody, Reads, List.length_append, List.length_singleton] at hc ⊢ <;>
        omega
  | @posted i p hp => cases p <;> exact hc
  | transfer hq => exact hc
  | written hq => exact hc
  | writeFailed ec hq => exact hc

/-- **At a bad header a client closes its socket**, and never reads again. -/
theorem client_closes_at_bad_header {c d : ChatClient} {i : ℕ} {header : List UInt8}
    (h : clientMachine.Reachable c) (hread : c.reads[i]? = some .header)
    (hlen : header.length = headerLength) (hbad : ∀ n, ¬ TellsLength header n)
    (hstep : clientMachine.step c (.readHandler i none header) = some d) :
    d.isOpen = false ∧ d.readMsg_.bodyLength_ = 0 ∧
      ∀ es u, clientMachine.exec d es = some u → u.reads = [] := by
  have hone : c.Reads 1 := by
    apply h.invariant (I := fun c => c.Reads 1)
    · rintro c ⟨msg, rfl⟩
      exact Nat.le_refl 1
    · exact fun c e d hc hstep => hc.step hstep
  obtain ⟨msg, -, hlength, hhandler⟩ := header_handler_of_bad c.readMsg_ hlen hbad
  simp only [clientMachine, ChatClient.readHandler, hread, hhandler] at hstep
  split at hstep
  · cases hstep
    refine ⟨rfl, hlength, fun es u hexec => ?_⟩
    -- the read that has ended was the only thing left to read
    have hnone : ChatClient.Reads
        { c with readMsg_ := msg, reads := c.reads.eraseIdx i, isOpen := false } 0 := by
      have hlen := List.length_eraseIdx_add_one (List.getElem?_eq_some_iff.1 hread).1
      simp only [ChatClient.Reads] at hone ⊢
      omega
    have hu : u.Reads 0 := Machine.exec_preserves (I := fun c => c.Reads 0)
      (fun c e d hc hstep => hc.step hstep) hnone hexec
    rw [ChatClient.Reads] at hu
    exact List.eq_nil_of_length_eq_zero (by omega)
  · cases hstep

/-! ## The reader -/

/-- **The headers that the reader accepts.** Over any stream and whatever `read_msg_` holds, the read
chain accepts messages whose headers tell a length, with exactly that many bytes of the stream behind
them, up to where the stream holds no further message. At a header that tells no length `decode_header`
returns false with `body_length()` zero and the chain ends: a session leaves the room and a client closes
its socket, and neither reads again in whatever happens after that. -/
theorem reader_accepts_tellsLength :
    (∀ (read : ChatMessage) (s : List UInt8),
      s = (readLoop read s).1.flatMap ChatMessage.bytes ++ (readLoop read s).2 ∧
        (∀ msg ∈ (readLoop read s).1, TellsLength msg.header msg.body.length) ∧
        NoMessage (readLoop read s).2) ∧
    ∀ header : List UInt8, header.length = headerLength → (∀ n, ¬ TellsLength header n) →
      (∀ read : ChatMessage, ∃ msg, (read.store 0 header).decodeHeader = (false, msg) ∧
        msg.bodyLength_ = 0 ∧ Read.header.handler read none header = (msg, [.stop])) ∧
      (∀ s t id i, serverMachine.Reachable s → (s.sessions id).reads[i]? = some .header →
        serverMachine.step s (.readHandler id i none header) = some t →
        id ∉ t.room_.participants_ ∧ (t.sessions id).readMsg_.bodyLength_ = 0 ∧
          ∀ es u, serverMachine.exec t es = some u → (u.sessions id).reads = []) ∧
      ∀ c d i, clientMachine.Reachable c → c.reads[i]? = some .header →
        clientMachine.step c (.readHandler i none header) = some d →
        d.isOpen = false ∧ d.readMsg_.bodyLength_ = 0 ∧
          ∀ es u, clientMachine.exec d es = some u → u.reads = [] := by
  refine ⟨readLoop_spec, fun header hlen hbad => ⟨?_, ?_, ?_⟩⟩
  · exact fun read => header_handler_of_bad read hlen hbad
  · exact fun s t id i h hread hstep => session_leaves_at_bad_header h hread hlen hbad hstep
  · exact fun c d i h hread hstep => client_closes_at_bad_header h hread hlen hbad hstep

/-- Four letters are taken as the header of an empty message, and the reader goes on behind them. -/
theorem reader_accepts_letters :
    ¬ ∀ (read : ChatMessage) (s : List UInt8), ∀ msg ∈ (readLoop read s).1,
      WrittenHeader msg.header := by
  intro h
  let read := ChatMessage.new (List.replicate 516 0) List.length_replicate
  obtain ⟨hread, -⟩ := readLoop_eq_read read (str "abcd")
  have hframes : (framing.read (str "abcd")).1 = [⟨str "abcd", []⟩] := by
    rw [framing.read_of_enough (n := 0) (by decide) (by decide +kernel) (by decide)]
    rw [framing.read_of_short (by decide)]
    rfl
  rw [hframes] at hread
  obtain ⟨msg, hmsg, hframe⟩ := List.map_eq_singleton_iff.1 hread
  have hmem : msg ∈ (readLoop read (str "abcd")).1 := hmsg ▸ List.mem_singleton_self _
  obtain ⟨k, ds, hheader, hne, hds, -⟩ := h read (str "abcd") msg hmem
  have habcd : str "abcd" = List.replicate k (chr ' ') ++ ds := by
    rw [← hheader]
    exact (congrArg Frame.header hframe).symm
  cases k with
  | zero =>
      rw [List.replicate_zero, List.nil_append] at habcd
      subst habcd
      exact absurd (hds (chr 'a') (by decide)) (by decide)
  | succ k => exact absurd (List.cons.inj habcd).1 (by decide)

end AsioExamples.Chat
