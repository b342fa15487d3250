import AsioExamples.Chat.Broadcast
import AsioExamples.Chat.Server
import AsioExamples.Chat.WriteQueue

/-!
# Sessions that have left

A session leaves its room when a read fails, a header is bad or a write fails. The first two end its
read chain, the third does not: `do_write` calls `room_.leave` and leaves the socket open, so a read that
is outstanding may still complete, and its handler delivers to the room. The client closes its socket in
the same place.

In the runs in which no write of a session fails before its read chain has ended, a session that has
left delivers nothing (`quiet_after_leave`).
-/

set_option autoImplicit false

namespace AsioExamples.Chat

open AsioExamples.Cxx AsioExamples.Lib AsioExamples.Asio

/-! ## The two properties -/

/-- The second call is a delivery by the session that leaves in the first. -/
def RoomCall.postsAfter : RoomCall → RoomCall → Bool
  | .leave id, .deliver id' _ => id = id'
  | _, _ => false

/-- No session delivers a message after it has left. -/
def Quiet (log : List RoomCall) : Prop := log.Pairwise fun a b => a.postsAfter b = false

instance (log : List RoomCall) : Decidable (Quiet log) :=
  inferInstanceAs (Decidable (List.Pairwise _ log))

/-- Where the handler of a failed write runs, the read chain of the session has ended. -/
def FailsLate (s : ChatState) : ServerEvent → Prop
  | .writeHandler id _ (some _) => (s.sessions id).reads = []
  | _ => True

instance (s : ChatState) (e : ServerEvent) : Decidable (FailsLate s e) := by
  cases e with
  | writeHandler id i ec =>
      cases ec with
      | none => exact isTrue trivial
      | some err => exact inferInstanceAs (Decidable (_ = _))
  | _ => exact isTrue trivial

theorem Quiet.concat {log : List RoomCall} (h : Quiet log) {call : RoomCall}
    (hcall : ∀ id msg, call = .deliver id msg → .leave id ∉ log) : Quiet (log ++ [call]) := by
  apply List.pairwise_append.2
  refine ⟨h, List.pairwise_singleton _ _, ?_⟩
  intro a ha b hb
  obtain rfl := List.mem_singleton.1 hb
  -- only a leave and a delivery can clash
  cases a with
  | leave id =>
      cases b with
      | deliver id' msg =>
          have hne : id ≠ id' := fun hid => hcall id' msg rfl (hid ▸ ha)
          simp [RoomCall.postsAfter, hne]
      | _ => rfl
  | _ => rfl

/-! ## The invariant -/

/-- A session with a write outstanding has been started. -/
theorem started_of_write {s : ChatState} (h : serverMachine.Reachable s) {id : ℕ}
    (hw : (s.sessions id).out.writes ≠ []) : .start id ∈ s.log := by
  by_contra hid
  -- nothing was ever enqueued to a session that has not been started
  have hroom : roomMachine.Reachable s := serverRoom.reachable h
  have hphase : SendQueue.Phase ChatMessage.bytes (s.sessions id).out := (room_drives id).phase hroom
  have hempty := hphase.completed_append_queue.trans ((relayed hroom).absent id hid).2
  have hqueue := (List.append_eq_nil_iff.1 hempty).2
  cases hphase with
  | idle failed writes queue completed wire => exact hw writes
  | writing m ms n failed queue writes le balance wire => simp [queue] at hqueue
  | stopped m ms n failed queue writes balance wire => exact hw writes

/-- A session that has left has ended its read chain, and nobody has delivered after leaving. -/
structure Ended (s : ChatState) : Prop where
  left : ∀ id, .leave id ∈ s.log → (s.sessions id).reads = [] ∧ .start id ∈ s.log
  quiet : Quiet s.log

namespace Ended

variable {s t : ChatState}

/-- A session with a read outstanding has not left. -/
theorem not_left (hs : Ended s) {id : ℕ} {r : Read} (h : (s.sessions id).reads = [r]) :
    .leave id ∉ s.log := by
  intro hleave
  rw [(hs.left id hleave).1] at h
  cases h

/-- A change of a session that has not left, or does not read. -/
theorem modify (hs : Ended s) {id : ℕ} {f : ChatSession → ChatSession}
    (hf : .leave id ∈ s.log → (f (s.sessions id)).reads = []) : Ended (s.modify id f) := by
  have hreads := s.forall_sessions_modify (P := fun j c => .leave j ∈ s.log → c.reads = [])
    (fun j hleave => (hs.left j hleave).1) hf
  exact ⟨fun j hleave => ⟨hreads j hleave, (hs.left j hleave).2⟩, hs.quiet⟩

/-- A session whose read chain has ended leaves. -/
theorem leave (hs : Ended s) {id : ℕ} (hreads : (s.sessions id).reads = [])
    (hstarted : .start id ∈ s.log) : Ended (s.leave id) := by
  refine ⟨?_, hs.quiet.concat (by simp)⟩
  intro j hleave
  rcases List.mem_append.1 hleave with hleave | hleave
  · exact ⟨(hs.left j hleave).1, List.mem_append_left _ (hs.left j hleave).2⟩
  · obtain rfl : j = id := by simpa using hleave
    exact ⟨hreads, List.mem_append_left _ hstarted⟩

/-- A session that has not left delivers. -/
theorem deliver (hs : Ended s) {id : ℕ} (hleft : .leave id ∉ s.log) (msg : ChatMessage) :
    Ended (s.deliver id msg) := by
  refine ⟨?_, ?_⟩
  · intro j hleave
    rw [ChatState.log_deliver] at hleave ⊢
    rw [ChatState.reads_deliver]
    have hleave : .leave j ∈ s.log := by simpa using hleave
    exact ⟨(hs.left j hleave).1, List.mem_append_left _ (hs.left j hleave).2⟩
  · rw [ChatState.log_deliver]
    apply hs.quiet.concat
    rintro id' msg' ⟨⟩
    exact hleft

theorem start (hs : Ended s) {id : ℕ} (hid : .start id ∉ s.log) : Ended (s.start id) := by
  refine ⟨?_, ?_⟩
  · intro j hleave
    rw [ChatState.log_start] at hleave ⊢
    have hleave : .leave j ∈ s.log := by simpa using hleave
    obtain ⟨hreads, hstarted⟩ := hs.left j hleave
    refine ⟨?_, List.mem_append_left _ hstarted⟩
    -- a session that has left has been started, so it is not the one that starts
    rw [ChatState.reads_start, if_neg (fun h : j = id => hid (h ▸ hstarted))]
    exact hreads
  · rw [ChatState.log_start]
    exact hs.quiet.concat (by simp)

/-- The handler of a read of a session: it has not left yet. -/
theorem readHandler (hs : Ended s) (hone : OneRead s) {id i : ℕ} {ec : Option ErrorCode}
    {bytes : List UInt8} (h : s.readHandler id i ec bytes = some t) : Ended t := by
  obtain ⟨r, msg, hreads, hcase⟩ := ChatState.readHandler_eq_some (hone.atMostOne id) h
  have hleft := hs.not_left hreads
  have hended : Ended (s.readEnded id msg) := hs.modify fun _ => rfl
  rcases hcase with rfl | ⟨-, -, rfl⟩ | ⟨-, -, rfl⟩
  · refine hended.leave ?_ (hone.started hreads)
    rw [ChatState.sessions_readEnded]
  · apply hended.modify
    intro hleave
    exact absurd hleave hleft
  · apply (hended.deliver hleft msg).modify
    intro hleave
    exact absurd (by simpa using hleave) hleft

/-- A step in which no write fails too early. -/
theorem step {e : ServerEvent} (hr : serverMachine.Reachable s) (hs : Ended s) (hlate : FailsLate s e)
    (hstep : serverMachine.step s e = some t) : Ended t := by
  cases e with
  | acceptHandler ec id =>
      rcases ChatState.acceptHandler_eq_some hstep with rfl | ⟨hid, rfl⟩
      · exact hs
      · exact hs.start hid
  | readHandler id i ec bytes => exact hs.readHandler (oneRead hr) hstep
  | transfer id i n =>
      obtain ⟨q, -, rfl⟩ := ChatState.transfer_eq_some hstep
      apply hs.modify
      intro hleave
      exact (hs.left id hleave).1
  | writeHandler id i ec =>
      obtain ⟨q, hq, ⟨-, rfl⟩ | ⟨hec, rfl⟩⟩ := ChatState.writeHandler_eq_some hstep
      · apply hs.modify
        intro hleave
        exact (hs.left id hleave).1
      · -- the write failed, and the read chain has ended before
        obtain ⟨err, rfl⟩ := Option.ne_none_iff_exists'.1 hec
        have hreads : (s.sessions id).reads = [] := hlate
        obtain ⟨w, hw, -⟩ := SendQueue.finish_eq_some hq
        have hstarted := started_of_write hr (List.ne_nil_of_mem (List.mem_of_getElem? hw))
        refine (hs.modify fun _ => hreads).leave ?_ hstarted
        rw [ChatState.sessions_modify, if_pos rfl]
        exact hreads

end Ended

theorem quiet_of_stepsMeet {s t : ChatState} {es : List ServerEvent} (hinit : serverMachine.init s)
    (hlate : serverMachine.StepsMeet FailsLate s es) (hexec : serverMachine.exec s es = some t) :
    Quiet t.log := by
  have hs : Ended s := by
    obtain ⟨msgs, rfl⟩ := hinit
    exact ⟨by simp [ChatState.initial], List.Pairwise.nil⟩
  have key : serverMachine.Reachable t ∧ Ended t := by
    apply Machine.exec_preserves_of_stepsMeet (I := fun u => serverMachine.Reachable u ∧ Ended u) _
      ⟨.of_init hinit, hs⟩ hlate hexec
    rintro u e v ⟨hr, hu⟩ hG hv
    exact ⟨hr.step hv, hu.step hr hG hv⟩
  exact key.2.quiet

/-! ## Writes that fail too early -/

namespace ChatState

variable {s : ChatState} {id : ℕ}

/-- An outstanding read that may end has its handler run. -/
theorem readHandler_of_mayEnd {i : ℕ} {r : Read} {ec : Option ErrorCode} {bytes : List UInt8}
    (h : (s.sessions id).reads[i]? = some r) (hend : r.mayEnd (s.sessions id).readMsg_ ec bytes = true) :
    s.readHandler id i ec bytes =
      some ((r.handler (s.sessions id).readMsg_ ec bytes).2.foldl (fun s a => s.perform id a)
        (s.modify id fun c =>
          { c with
            readMsg_ := (r.handler (s.sessions id).readMsg_ ec bytes).1
            reads := c.reads.eraseIdx i })) := by
  rw [readHandler]
  simp only [h]
  exact if_pos hend

/-- A session that reads a body delivers its message when the peer has sent it. -/
theorem readHandler_body (h : (s.sessions id).reads = [.body]) :
    ∃ bytes msg u, s.readHandler id 0 none bytes = some u ∧ u.log = s.log ++ [.deliver id msg] := by
  have hend : Read.body.mayEnd (s.sessions id).readMsg_ none
      (List.replicate (s.sessions id).readMsg_.bodyLength_ 0) = true := by
    simp [Read.mayEnd, Read.length]
  exact ⟨_, _, _, readHandler_of_mayEnd (by rw [h]; rfl) hend, log_deliver _ id _⟩

/-- A session that reads a header reads a body when the peer has sent one. -/
theorem readHandler_header (h : (s.sessions id).reads = [.header]) :
    ∃ u, s.readHandler id 0 none (str "   0") = some u ∧ (u.sessions id).reads = [.body] ∧
      u.log = s.log := by
  have hlen : (str "   0").length = headerLength := rfl
  have hend : Read.header.mayEnd (s.sessions id).readMsg_ none (str "   0") = true := by
    simp [Read.mayEnd, Read.length, hlen]
  -- the header tells of an empty body
  have hvalue : headerValue (str "   0") = some 0 := by decide +kernel
  have hhandler := header_handler_eq (s.sessions id).readMsg_ hlen
  have hrun := readHandler_of_mayEnd (i := 0) (by rw [h]; rfl) hend
  rw [hhandler, hvalue] at hrun
  refine ⟨_, hrun, ?_, rfl⟩
  simp [perform, modify, ChatSession.doReadBody, h]

end ChatState

/-- A session that has left and still reads delivers when its peer sends a message. -/
theorem unquiet_of_reads {s : ChatState} {id : ℕ} {r : Read} (hleft : .leave id ∈ s.log)
    (h : (s.sessions id).reads = [r]) :
    ∃ es u, serverMachine.exec s es = some u ∧ ¬ Quiet u.log := by
  -- a delivery after the leave is not quiet
  have hunquiet : ∀ (u : ChatState) (msg : ChatMessage), u.log = s.log ++ [.deliver id msg] →
      ¬ Quiet u.log := by
    intro u msg hlog hquiet
    rw [hlog] at hquiet
    have hclash := (List.pairwise_append.1 hquiet).2.2 _ hleft _ (List.mem_singleton_self _)
    simp [RoomCall.postsAfter] at hclash
  cases r with
  | body =>
      obtain ⟨bytes, msg, u, hu, hlog⟩ := ChatState.readHandler_body h
      exact ⟨[.readHandler id 0 none bytes], u, (Machine.exec_singleton _ _ _).trans hu,
        hunquiet u msg hlog⟩
  | header =>
      obtain ⟨v, hv, hbody, hlogv⟩ := ChatState.readHandler_header h
      obtain ⟨bytes, msg, u, hu, hlog⟩ := ChatState.readHandler_body hbody
      refine ⟨[.readHandler id 0 none (str "   0"), .readHandler id 0 none bytes], u, ?_,
        hunquiet u msg (hlogv ▸ hlog)⟩
      exact serverMachine.exec_cons_eq_some.2 ⟨v, hv, (Machine.exec_singleton _ _ _).trans hu⟩

/-- After a write that fails too early the peer can make the session deliver. -/
theorem unquiet_of_early_failure {s t : ChatState} {e : ServerEvent} (hr : serverMachine.Reachable s)
    (hearly : ¬ FailsLate s e) (hstep : serverMachine.step s e = some t) :
    ∃ es u, serverMachine.exec t es = some u ∧ ¬ Quiet u.log := by
  cases e with
  | acceptHandler ec id => exact absurd trivial hearly
  | readHandler id i ec bytes => exact absurd trivial hearly
  | transfer id i n => exact absurd trivial hearly
  | writeHandler id i ec =>
      cases ec with
      | none => exact absurd trivial hearly
      | some err =>
          -- the read that is outstanding survives the leave
          have hne : (s.sessions id).reads ≠ [] := hearly
          obtain ⟨r, hreads⟩ : ∃ r, (s.sessions id).reads = [r] :=
            List.length_eq_one_iff.1 (Nat.le_antisymm ((oneRead hr).atMostOne id)
              (List.length_pos_iff.2 hne))
          obtain ⟨q, -, ⟨hec, -⟩ | ⟨-, rfl⟩⟩ := ChatState.writeHandler_eq_some hstep
          · cases hec
          · have hsame : (((s.modify id fun c => { c with out := q }).leave id).sessions id).reads =
                [r] := by
              rw [ChatState.sessions_leave, ChatState.sessions_modify, if_pos rfl]
              exact hreads
            apply unquiet_of_reads _ hsame
            simp [ChatState.leave]

/-- **A session that has left delivers nothing**, in every run in which no write fails before the read
chain of its session has ended; and a run in which a write fails before can be continued so that it
does. -/
theorem quiet_after_leave (s : ChatState) (hinit : serverMachine.init s) :
    (∀ es t, serverMachine.StepsMeet FailsLate s es → serverMachine.exec s es = some t →
      Quiet t.log) ∧
    ∀ es t e u, serverMachine.exec s es = some t → ¬ FailsLate t e →
      serverMachine.step t e = some u →
      ∃ fs v, serverMachine.exec u fs = some v ∧ ¬ Quiet v.log := by
  refine ⟨?_, ?_⟩
  · intro es t hlate hexec
    exact quiet_of_stepsMeet hinit hlate hexec
  · intro es t e u hexec hearly hstep
    exact unquiet_of_early_failure ⟨s, es, hinit, hexec⟩ hearly hstep

/-- A session that delivers a message to itself, whose next read fails, and whose write fails then. -/
theorem quiet_after_leave_readFirst :
    ∃ t, serverMachine.exec (.initial fun _ => ⟨List.replicate 516 0, 0, List.length_replicate⟩)
        [.acceptHandler none 0, .readHandler 0 0 none (str "   1"), .readHandler 0 0 none (str "a"),
          .readHandler 0 0 (some (.other 0)) [], .writeHandler 0 0 (some (.other 0))] = some t ∧
      Quiet t.log := by
  obtain ⟨t, ht⟩ := Option.isSome_iff_exists.1
    (show (serverMachine.exec (.initial fun _ => ⟨List.replicate 516 0, 0, List.length_replicate⟩)
      [.acceptHandler none 0, .readHandler 0 0 none (str "   1"), .readHandler 0 0 none (str "a"),
        .readHandler 0 0 (some (.other 0)) [], .writeHandler 0 0 (some (.other 0))]).isSome
      from by decide +kernel)
  exact ⟨t, ht, (quiet_after_leave _ ⟨_, rfl⟩).1 _ t (by decide +kernel) ht⟩

/-- A session whose write fails while it reads: it leaves, and then it delivers what it reads. -/
theorem delivers_after_leave :
    ∃ t, serverMachine.exec (.initial fun _ => ⟨List.replicate 516 0, 0, List.length_replicate⟩)
        [.acceptHandler none 0, .readHandler 0 0 none (str "   1"), .readHandler 0 0 none (str "a"),
          .writeHandler 0 0 (some (.other 0)), .readHandler 0 0 none (str "   1"),
          .readHandler 0 0 none (str "b")] = some t ∧
      ¬ Quiet t.log := by
  have hrun : (serverMachine.exec
      (.initial fun _ => ⟨List.replicate 516 0, 0, List.length_replicate⟩)
      [.acceptHandler none 0, .readHandler 0 0 none (str "   1"), .readHandler 0 0 none (str "a"),
        .writeHandler 0 0 (some (.other 0)), .readHandler 0 0 none (str "   1"),
        .readHandler 0 0 none (str "b")]).any (fun t => ¬ Quiet t.log) = true := by
    decide +kernel
  obtain ⟨t, ht, hquiet⟩ := (Option.any_eq_true _ _).1 hrun
  exact ⟨t, ht, of_decide_eq_true hquiet⟩

end AsioExamples.Chat
