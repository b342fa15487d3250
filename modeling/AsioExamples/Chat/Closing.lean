import AsioExamples.Chat.Client

/-!
# How the client ends

At the end of its input the main thread calls `close` and waits for the event loop, which ends when
nothing is outstanding any more. The handler that `close` posts evaluates `sock_,close()`: the name of
the socket, a comma and a call of `chat_client::close`. So it leaves the socket as it is and posts
itself again, in every state, and the event loop goes on for ever (`close_handler_never_closes`).
-/

set_option autoImplicit false

namespace AsioExamples.Chat

open AsioExamples.Lib

/-- The main thread calls a function of the client. -/
def ClientEvent.isCall : ClientEvent → Bool
  | .write _ | .close => true
  | _ => false

/-- The event loop runs a handler. -/
def ClientEvent.isHandler : ClientEvent → Bool
  | .connectHandler _ | .readHandler _ _ _ | .postedHandler _ | .writeHandler _ _ => true
  | _ => false

/-- Nothing is outstanding, so that `io_context::run` returns. -/
structure ChatClient.Idle (c : ChatClient) : Prop where
  connecting : c.connecting = false
  reads : c.reads = []
  writes : c.out.writes = []
  posted : c.posted = []

/-- What the handler that `close` posts should do, when it is taken from index `i` of `c.posted` and leaves
`d`: it closes the socket and posts nothing, and then, without further calls, only finitely many handlers
run, and from wherever they lead the event loop can come to its end. -/
structure ClosesForGood (c : ChatClient) (i : ℕ) (d : ChatClient) : Prop where
  closed : d.isOpen = false
  posted : d.posted = c.posted.eraseIdx i
  finite : ∃ n, ∀ es t, (∀ e ∈ es, e.isCall = false) → clientMachine.exec d es = some t →
    (es.filter ClientEvent.isHandler).length ≤ n
  returns : ∀ es t, (∀ e ∈ es, e.isCall = false) → clientMachine.exec d es = some t →
    ∃ fs u, (∀ e ∈ fs, e.isCall = false) ∧ clientMachine.exec t fs = some u ∧ u.Idle

/-! ## What is posted stays posted -/

/-- The handlers of the read chain post nothing. -/
@[simp] theorem posted_perform (c : ChatClient) (a : ReadAction) : (c.perform a).posted = c.posted := by
  cases a <;> rfl

theorem posted_foldl_perform (acts : List ReadAction) (c : ChatClient) :
    (acts.foldl ChatClient.perform c).posted = c.posted := by
  induction acts generalizing c with
  | nil => rfl
  | cons a acts ih => rw [List.foldl_cons, ih, posted_perform]

/-- What a step does to what is posted. -/
theorem posted_step {c d : ChatClient} {e : ClientEvent} (hstep : clientMachine.step c e = some d) :
    (∃ p, d.posted = c.posted ++ [p]) ∨ d.posted = c.posted ∨
      ∃ i p, c.posted[i]? = some p ∧
        ((p = .close ∧ d.posted = c.posted.eraseIdx i ++ [.close]) ∨
          (p ≠ .close ∧ d.posted = c.posted.eraseIdx i)) := by
  cases client_step hstep with
  | write msg => exact Or.inl ⟨.write msg, rfl⟩
  | close => exact Or.inl ⟨.close, rfl⟩
  | connected hc => exact Or.inr (Or.inl rfl)
  | connectFailed ec hc => exact Or.inr (Or.inl rfl)
  | read hr hmay => exact Or.inr (Or.inl (posted_foldl_perform _ _))
  | @posted i p hp =>
      refine Or.inr (Or.inr ⟨i, p, hp, ?_⟩)
      cases p with
      | write msg => exact Or.inr ⟨by simp, rfl⟩
      | close => exact Or.inl ⟨rfl, rfl⟩
  | transfer hq => exact Or.inr (Or.inl rfl)
  | written hq => exact Or.inr (Or.inl rfl)
  | writeFailed ec hq => exact Or.inr (Or.inl rfl)

/-- Once a close handler is posted, there is always one. -/
theorem close_mem_step {c d : ChatClient} {e : ClientEvent} (h : .close ∈ c.posted)
    (hstep : clientMachine.step c e = some d) : .close ∈ d.posted := by
  rcases posted_step hstep with ⟨p, hd⟩ | hd | ⟨i, p, hp, ⟨-, hd⟩ | ⟨hne, hd⟩⟩
  · rw [hd]
    exact List.mem_append_left _ h
  · rw [hd]
    exact h
  · rw [hd]
    exact List.mem_append_right _ (List.mem_singleton_self _)
  · -- another handler is taken, so the close handler stands at another index
    obtain ⟨j, hj⟩ := List.mem_iff_getElem?.1 h
    rw [hd, List.mem_eraseIdx_iff_getElem?]
    refine ⟨j, ?_, hj⟩
    rintro rfl
    rw [hp] at hj
    exact hne (Option.some.inj hj)

/-- The handler that `close` posts. -/
theorem step_close_handler {c : ChatClient} {i : ℕ} (h : c.posted[i]? = some .close) :
    clientMachine.step c (.postedHandler i) =
      some { c with posted := c.posted.eraseIdx i ++ [.close] } := by
  simp only [clientMachine, h, ChatClient.postedHandler, ChatClient.close]

/-! ## The client never ends -/

/-- **The close handler posts itself**, in whichever state it runs: it leaves the socket as it is, so
that what it should do it never does. From then on a close handler is posted in every state of every
run, and the event loop runs as many of them as one likes. -/
theorem close_handler_never_closes (c : ChatClient) (i : ℕ) (h : c.posted[i]? = some .close) :
    ∃ d, clientMachine.step c (.postedHandler i) = some d ∧ ¬ ClosesForGood c i d ∧
      d = { c with posted := c.posted.eraseIdx i ++ [.close] } ∧
      (∀ es t, clientMachine.exec d es = some t → .close ∈ t.posted) ∧
      ∀ n, ∃ es t, es.length = n ∧ (∀ e ∈ es, ∃ j, e = .postedHandler j) ∧
        clientMachine.exec d es = some t := by
  have hmem : .close ∈ ({ c with posted := c.posted.eraseIdx i ++ [.close] } : ChatClient).posted :=
    List.mem_append_right _ (List.mem_singleton_self _)
  refine ⟨_, step_close_handler h, ?_, rfl, ?_, ?_⟩
  · intro hcloses
    have hlen := congrArg List.length hcloses.posted
    simp at hlen
  · intro es t ht
    exact Machine.exec_preserves (fun _ _ _ hs hstep => close_mem_step hs hstep) hmem ht
  · intro n
    have hagain : ∀ s : ChatClient, .close ∈ s.posted → ∃ e t, (∃ j, e = .postedHandler j) ∧
        clientMachine.step s e = some t ∧ .close ∈ t.posted := by
      intro s hs
      obtain ⟨j, hj⟩ := List.mem_iff_getElem?.1 hs
      have hstep := step_close_handler hj
      exact ⟨.postedHandler j, _, ⟨j, rfl⟩, hstep, close_mem_step hs hstep⟩
    obtain ⟨es, t, hlen, hes, ht, -⟩ := Machine.exists_exec_of_length hagain n hmem
    exact ⟨es, t, hlen, hes, ht⟩

/-- A client whose connect is outstanding, after a write and a close. -/
theorem close_handler_never_closes_write :
    let msg := ChatMessage.new (List.replicate 516 0) List.length_replicate
    ∃ d, clientMachine.step (((ChatClient.new msg).write msg).close) (.postedHandler 1) = some d ∧
      ¬ ClosesForGood (((ChatClient.new msg).write msg).close) 1 d := by
  intro msg
  obtain ⟨d, hstep, hnot, -⟩ :=
    close_handler_never_closes (((ChatClient.new msg).write msg).close) 1 rfl
  exact ⟨d, hstep, hnot⟩

/-- A client that is told to close before anything else has happened. -/
theorem close_handler_posts_again :
    ¬ ∀ c i d, clientMachine.Reachable c → c.posted[i]? = some .close →
      clientMachine.step c (.postedHandler i) = some d → ClosesForGood c i d := by
  intro h
  have hcloses := h (ChatClient.new (ChatMessage.new (List.replicate 516 0) List.length_replicate)).close 0 _
    ⟨_, [.close], ⟨_, rfl⟩, rfl⟩ rfl rfl
  have hposted := hcloses.posted
  cases hposted

end AsioExamples.Chat
