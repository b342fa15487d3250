import AsioExamples.Alloc.HandlerMemory
import AsioExamples.Echo.Stream

/-!
# Sessions with handler memory

`class session` of `allocation_server.cpp`, an echo session whose handlers come with an allocator for its
`handler_memory_`. Asio allocates a block when an operation is started, and gives it back before the handler of
the operation is called. `async_write` does so for every part that it writes.

A session has one operation at a time. So `storage_` is free whenever a block is needed, and the heap is used
only for operations that do not fit in it (`session_memory`).
-/

set_option autoImplicit false

namespace AsioExamples.Alloc

open AsioExamples.Lib AsioExamples.Asio
open AsioExamples.Echo (EchoOp EchoAction EchoSession Echoing dataSize echoMachine echoing)

/-! ## The session -/

/-- The sizes of the blocks that Asio needs. -/
structure OperationSizes where
  read : ℕ
  write : ℕ
  deriving DecidableEq, Repr

/-- The size of the block of an operation. -/
def OperationSizes.of (sizes : OperationSizes) : EchoOp → ℕ
  | .readSome => sizes.read
  | .write _ _ => sizes.write

/-- The operation that an action starts. -/
def starts : EchoAction → Option EchoOp
  | .asyncReadSome => some .readSome
  | .asyncWrite length => some (.write length 0)
  | .close => none

/-- A session, the uses of its `handler_memory_`, and the blocks of its outstanding operations. `terminated` is
set when `operator new` has thrown: no handler catches that, and `main` returns. -/
structure AllocSession where
  session : EchoSession
  memory : MemoryState
  blocks : List ℕ
  terminated : Bool
  deriving DecidableEq, Repr

/-- What can happen: an operation completes, a write makes progress, a part of a write ends and the next one is
started, or the handler of an operation runs. `new` is what `operator new` returns, where it is called. -/
inductive AllocEvent where
  | complete (i : ℕ) (c : Completion)
  | transfer (i n : ℕ)
  | writeSome (i : ℕ) (new : Option ℕ)
  | handler (i : ℕ) (new : Option ℕ)

namespace AllocSession

/-- The block of an operation is allocated, and the session goes on as `next`. -/
def allocate (s : AllocSession) (i size : ℕ) (new : Option ℕ) (next : EchoSession) : Option AllocSession :=
  (s.memory.allocate size new).map fun m =>
    match (s.memory.memory.allocate size new).2.1 with
    | some p => { s with session := next, memory := m, blocks := s.blocks.insertIdx i p }
    | none => { s with memory := m, terminated := true }

/-- The block of the operation at index `i` is given back. -/
def deallocate (s : AllocSession) (i : ℕ) : Option AllocSession :=
  s.blocks[i]?.bind fun p =>
    (s.memory.deallocate p).map fun m => { s with memory := m, blocks := s.blocks.eraseIdx i }

/-- One action of a handler. -/
def perform (sizes : OperationSizes) (new : Option ℕ) (s : AllocSession) (a : EchoAction) :
    Option AllocSession :=
  match starts a with
  | some op => s.allocate s.blocks.length (sizes.of op) new (s.session.perform a)
  | none => some { s with session := s.session.perform a }

/-- An event. A handler does one thing at most, so that one `new` is enough. -/
def step (sizes : OperationSizes) (s : AllocSession) : AllocEvent → Option AllocSession
  | .complete i c => (s.session.complete i c).map fun t => { s with session := t }
  | .transfer i n => (s.session.transfer i n).map fun t => { s with session := t }
  | .writeSome i new =>
      match s.session.pending[i]? with
      | some ⟨.write length sent, _, none⟩ =>
          if sent < length then (s.deallocate i).bind fun u => u.allocate i sizes.write new s.session
          else none
      | _ => none
  | .handler i new =>
      (s.session.dispatched false i).bind fun (t, acts) =>
        (s.deallocate i).bind fun u => acts.foldlM (perform sizes new) { u with session := t }

/-- The session that `make_shared` makes. -/
def made (conn : ℕ) (data : List UInt8) (storage : ℕ) : AllocSession :=
  ⟨⟨some conn, data, [], [], []⟩, ⟨⟨storage, false⟩, [], [], []⟩, [], false⟩

end AllocSession

/-- A session of the server, from its first read on. -/
def sessionMachine (sizes : OperationSizes) : Machine AllocSession AllocEvent where
  init s := ∃ conn data storage new, data.length = dataSize ∧
    (AllocSession.made conn data storage).perform sizes new .asyncReadSome = some s
  step s e := if s.terminated then none else s.step sizes e

/-! ## One block at a time -/

/-- The sizes of the blocks of outstanding operations. -/
def OperationSizes.needed (sizes : OperationSizes) (ps : List (Pending EchoOp)) : List ℕ :=
  ps.map fun p => sizes.of p.op

/-- The only outstanding block is that of the only outstanding operation. It is `storage_` where it fits. -/
inductive Held (memory : MemoryState) : List ℕ → List ℕ → Prop where
  | idle (h : memory.outstanding = []) : Held memory [] []
  | one (size b : ℕ) (h : memory.outstanding = [⟨b, size⟩])
      (hb : b = memory.memory.storage_ ↔ size < storageSize) : Held memory [size] [b]

theorem Held.map_size {memory : MemoryState} {needed blocks : List ℕ} (h : Held memory needed blocks) :
    memory.outstanding.map Block.size = needed := by
  cases h with
  | idle h =>
      rw [h]
      rfl
  | one size b h _ =>
      rw [h]
      rfl

theorem Held.storage {memory : MemoryState} {needed blocks : List ℕ} (h : Held memory needed blocks) :
    ∀ b ∈ memory.outstanding, b.address = memory.memory.storage_ ↔ b.size < storageSize := by
  cases h with
  | idle h =>
      rw [h]
      exact fun b hb => absurd hb List.not_mem_nil
  | one size b h hb =>
      rw [h]
      exact List.forall_mem_singleton.2 hb

/-- What the heap was used for. -/
def HeapFor (sizes : OperationSizes) (memory : MemoryState) : Prop :=
  ∀ size p, .new size p ∈ memory.calls → storageSize ≤ size ∧ ∃ op, size = sizes.of op

/-- What every step keeps, as long as nothing was thrown. -/
structure Running (sizes : OperationSizes) (s : AllocSession) : Prop where
  echo : (echoMachine false).Reachable s.session
  memory : handlerMemory.Reachable s.memory
  held : Held s.memory (sizes.needed s.session.pending) s.blocks
  heap : HeapFor sizes s.memory

/-- Nothing was thrown, and no block is outstanding. -/
structure Free (sizes : OperationSizes) (s : AllocSession) : Prop where
  runs : s.terminated = false
  memory : handlerMemory.Reachable s.memory
  nothing : s.memory.outstanding = []
  blocks : s.blocks = []
  heap : HeapFor sizes s.memory

/-- What holds when `operator new` has thrown. -/
structure Thrown (sizes : OperationSizes) (s : AllocSession) : Prop where
  memory : handlerMemory.Reachable s.memory
  nothing : s.memory.outstanding = []
  heap : HeapFor sizes s.memory
  large : ∃ op, storageSize ≤ sizes.of op

/-- What every step keeps. -/
def Served (sizes : OperationSizes) (s : AllocSession) : Prop :=
  if s.terminated then Thrown sizes s else Running sizes s

section Steps

variable {sizes : OperationSizes} {s t : AllocSession}

/-- **An allocation where no block is outstanding**: in `storage_`, on the heap, or it throws. -/
theorem allocate_spec {m m' : MemoryState} (hm : handlerMemory.Reachable m) (hnil : m.outstanding = [])
    {size : ℕ} {new : Option ℕ} (h : m.allocate size new = some m') :
    handlerMemory.Reachable m' ∧
      ((∃ b, (m.memory.allocate size new).2.1 = some b ∧ m'.outstanding = [⟨b, size⟩] ∧
          (b = m'.memory.storage_ ↔ size < storageSize)) ∨
        ((m.memory.allocate size new).2.1 = none ∧ m'.outstanding = [] ∧ storageSize ≤ size)) ∧
      ∀ c ∈ m'.calls, c ∈ m.calls ∨ storageSize ≤ size ∧ ∃ p, c = .new size p := by
  have hfree : m.memory.inUse_ = false := by
    rw [Bool.eq_false_iff, Ne, (owned hm).inUse, MemoryState.held, hnil]
    exact Nat.zero_ne_one
  refine ⟨hm.step (e := .allocate size new) h, ?_⟩
  obtain ⟨hfresh, heq⟩ := Option.ite_none_right_eq_some.1 h
  cases heq
  by_cases hsize : size < storageSize
  · have hcall : m.memory.allocate size new =
        ({ m.memory with inUse_ := true }, some m.memory.storage_, []) := by
      simp [HandlerMemory.allocate, hfree, hsize]
    rw [hcall]
    refine ⟨Or.inl ⟨m.memory.storage_, rfl, ?_, iff_of_true rfl hsize⟩, fun c hc => Or.inl ?_⟩
    · simp [hnil]
    · simpa using hc
  · have hcall : m.memory.allocate size new = (m.memory, new, (new.map (HeapCall.new size)).toList) := by
      simp [HandlerMemory.allocate, hsize]
    rw [hcall]
    have hlarge := Nat.le_of_not_lt hsize
    cases new with
    | none => exact ⟨Or.inr ⟨rfl, by simp [hnil], hlarge⟩, fun c hc => Or.inl (by simpa using hc)⟩
    | some p =>
        have hp := (hfresh p rfl).1
        refine ⟨Or.inl ⟨p, rfl, by simp [hnil], iff_of_false hp hsize⟩, fun c hc => ?_⟩
        rcases List.mem_append.1 hc with hc | hc
        · exact Or.inl hc
        · exact Or.inr ⟨hlarge, p, List.mem_singleton.1 hc⟩

/-- **An operation is started** where none is outstanding. -/
theorem Free.allocate (hs : Free sizes s) {next : EchoSession} {p : Pending EchoOp} {new : Option ℕ}
    (hnext : (echoMachine false).Reachable next) (hpending : next.pending = [p])
    (h : s.allocate 0 (sizes.of p.op) new next = some t) : Served sizes t := by
  obtain ⟨m, hm, rfl⟩ := Option.map_eq_some_iff.1 h
  obtain ⟨hreach, hresult, hcalls⟩ := allocate_spec hs.memory hs.nothing hm
  have hheap : HeapFor sizes m := by
    intro size q hq
    rcases hcalls _ hq with hold | ⟨hlarge, q', heq⟩
    · exact hs.heap size q hold
    · cases heq
      exact ⟨hlarge, p.op, rfl⟩
  rcases hresult with ⟨b, hb, houtstanding, hstorage⟩ | ⟨hnone, houtstanding, hlarge⟩
  · rw [hb]
    refine (if_neg ?_).mpr ⟨hnext, hreach, ?_, hheap⟩
    · simp [hs.runs]
    · dsimp only
      rw [hpending, hs.blocks]
      exact .one _ b houtstanding hstorage
  · rw [hnone]
    exact (if_pos rfl).mpr ⟨hreach, houtstanding, hheap, p.op, hlarge⟩

/-- No operation is started. -/
theorem Free.served (hs : Free sizes s) (hecho : (echoMachine false).Reachable s.session)
    (hpending : s.session.pending = []) : Served sizes s := by
  refine (if_neg (by simp [hs.runs])).mpr ⟨hecho, hs.memory, ?_, hs.heap⟩
  rw [hpending, hs.blocks]
  exact .idle hs.nothing

/-- **An action of a handler**. -/
theorem Free.perform (hs : Free sizes s) {a : EchoAction} {new : Option ℕ} (hpending : s.session.pending = [])
    (hnext : (echoMachine false).Reachable (s.session.perform a)) (h : s.perform sizes new a = some t) :
    Served sizes t := by
  have hlength : s.blocks.length = 0 := by rw [hs.blocks, List.length_nil]
  cases a with
  | asyncReadSome =>
      simp only [AllocSession.perform, starts, hlength] at h
      have hone : (s.session.perform .asyncReadSome).pending =
          [⟨.readSome, s.session.socket_.isNone, none⟩] := by
        simp [EchoSession.perform, hpending]
      exact hs.allocate hnext hone h
  | asyncWrite length =>
      simp only [AllocSession.perform, starts, hlength] at h
      have hone : (s.session.perform (.asyncWrite length)).pending =
          [⟨.write length 0, s.session.socket_.isNone, none⟩] := by
        simp [EchoSession.perform, hpending]
      exact hs.allocate hnext hone h
  | close =>
      cases h
      exact Free.served ⟨hs.runs, hs.memory, hs.nothing, hs.blocks, hs.heap⟩ hnext hpending

/-- **The only block is given back.** -/
theorem Running.deallocate (hs : Running sizes s) (hruns : s.terminated = false) {i : ℕ}
    (h : s.deallocate i = some t) : i = 0 ∧ Free sizes t := by
  obtain ⟨b, hb, h⟩ := Option.bind_eq_some_iff.1 h
  obtain ⟨m, hm, rfl⟩ := Option.map_eq_some_iff.1 h
  have hheld := hs.held
  generalize sizes.needed s.session.pending = needed at hheld
  generalize hblocks : s.blocks = bs at hheld hb
  cases hheld with
  | idle _ => cases hb
  | one size b' houtstanding hstorage =>
      obtain ⟨rfl, rfl⟩ : i = 0 ∧ b' = b := by
        cases i with
        | zero => exact ⟨rfl, Option.some.inj hb⟩
        | succ i => cases hb
      obtain ⟨-, hrest, hcase⟩ := MemoryState.deallocate_cases hm
      refine ⟨rfl, hruns, hs.memory.step (e := .deallocate b') hm, ?_, ?_, ?_⟩
      · rw [hrest, houtstanding]
        simp
      · simp
      · intro size' q hq
        apply hs.heap size' q
        rcases hcase with ⟨-, rfl⟩ | ⟨-, rfl⟩
        · exact hq
        · rcases List.mem_append.1 hq with hq | hq
          · exact hq
          · cases List.mem_singleton.1 hq

/-- An operation that goes on keeps its block. -/
theorem needed_set {ps : List (Pending EchoOp)} {i : ℕ} {p q : Pending EchoOp} (hp : ps[i]? = some p)
    (hsize : sizes.of q.op = sizes.of p.op) : sizes.needed (ps.set i q) = sizes.needed ps :=
  map_set_of_eq (fun p : Pending EchoOp => sizes.of p.op) hp hsize

/-- **Every step keeps it.** -/
theorem Running.step (hs : Running sizes s) (hruns : s.terminated = false) {e : AllocEvent}
    (h : s.step sizes e = some t) : Served sizes t := by
  have hatMostOne : s.session.pending.length ≤ 1 := (echoing hs.echo).progress.atMostOne
  have hrunning : ∀ {u : AllocSession}, u.terminated = false → Running sizes u → Served sizes u := by
    intro u hu hrunning
    rw [Served, hu]
    exact hrunning
  cases e with
  | complete i c =>
      obtain ⟨u, hu, rfl⟩ := Option.map_eq_some_iff.1 h
      have hecho : (echoMachine false).step s.session (.complete i c) = some u := by
        simp [echoMachine, EchoSession.step, hu]
      obtain ⟨p, hp, -, hcase⟩ := EchoSession.complete_cases hu
      have hneeded : sizes.needed u.pending = sizes.needed s.session.pending := by
        rcases hcase with ⟨-, -, rfl⟩ | ⟨length, sent, -, -, rfl⟩
        · exact needed_set hp rfl
        · exact needed_set hp rfl
      exact hrunning hruns ⟨hs.echo.step hecho, hs.memory, hneeded.symm ▸ hs.held, hs.heap⟩
  | transfer i n =>
      obtain ⟨u, hu, rfl⟩ := Option.map_eq_some_iff.1 h
      have hecho : (echoMachine false).step s.session (.transfer i n) = some u := by
        simp [echoMachine, EchoSession.step, hu]
      obtain ⟨length, sent, startedClosed, hp, -, rfl⟩ := EchoSession.transfer_cases hu
      have hneeded : sizes.needed (s.session.pending.set i ⟨.write length (sent + n), startedClosed, none⟩) =
          sizes.needed s.session.pending := needed_set hp rfl
      exact hrunning hruns ⟨hs.echo.step hecho, hs.memory, hneeded.symm ▸ hs.held, hs.heap⟩
  | writeSome i new =>
      simp only [AllocSession.step] at h
      split at h
      · rename_i length sent startedClosed hp
        obtain ⟨-, h⟩ := Option.ite_none_right_eq_some.1 h
        obtain ⟨u, hu, h⟩ := Option.bind_eq_some_iff.1 h
        obtain ⟨rfl, hfree⟩ := hs.deallocate hruns hu
        exact hfree.allocate hs.echo (eq_singleton_of_length_le_one hatMostOne hp).1 h
      · cases h
  | handler i new =>
      obtain ⟨⟨next, acts⟩, hdispatched, hrest⟩ := Option.bind_eq_some_iff.1 h
      obtain ⟨u, hu, hperform⟩ := Option.bind_eq_some_iff.1 hrest
      obtain ⟨rfl, hfree⟩ := hs.deallocate hruns hu
      have hecho : (echoMachine false).step s.session (.handler 0) =
          some (acts.foldl EchoSession.perform next) := by
        simp [echoMachine, EchoSession.step, hdispatched]
      have hreach := hs.echo.step hecho
      obtain ⟨⟨op, done, ps⟩, hd, heq⟩ := Option.map_eq_some_iff.1 hdispatched
      obtain ⟨p, -, -, -, rfl⟩ := dispatch_of_length_le_one hatMostOne hd
      obtain ⟨rfl, rfl⟩ := Prod.mk.inj heq
      set next : EchoSession := { s.session with pending := [] }
      have hnext : Free sizes { u with session := next } :=
        ⟨hfree.runs, hfree.memory, hfree.nothing, hfree.blocks, hfree.heap⟩
      rcases EchoSession.handler_cases false op done with hacts | ⟨a, ha⟩
      · rw [hacts] at hperform hreach
        cases hperform
        exact hnext.served hreach rfl
      · rw [ha] at hperform hreach
        have hone : AllocSession.perform sizes new { u with session := next } a = some t := by
          simpa using hperform
        exact hnext.perform rfl hreach hone

end Steps

/-- **Nothing is thrown that fits**, in every run. -/
theorem served {sizes : OperationSizes} {s : AllocSession} (h : (sessionMachine sizes).Reachable s) :
    Served sizes s := by
  apply h.invariant (I := Served sizes)
  · rintro s ⟨conn, data, storage, new, hdata, hs⟩
    have hnext : (echoMachine false).Reachable
        ((AllocSession.made conn data storage).session.perform .asyncReadSome) :=
      .of_init ⟨conn, data, hdata, rfl⟩
    have hfree : Free sizes (AllocSession.made conn data storage) :=
      ⟨rfl, .of_init ⟨storage, rfl⟩, rfl, rfl, fun size p hp => by cases hp⟩
    exact hfree.perform rfl hnext hs
  · intro s e t hs hstep
    obtain ⟨hruns, hstep⟩ := Option.ite_none_left_eq_some.1 hstep
    have hruns : s.terminated = false := Bool.eq_false_iff.2 hruns
    rw [Served, hruns] at hs
    exact Running.step hs hruns hstep

/-- Every operation fits in `storage_`. -/
def OperationSizes.Fit (sizes : OperationSizes) : Prop :=
  sizes.read < storageSize ∧ sizes.write < storageSize

theorem OperationSizes.Fit.of_lt {sizes : OperationSizes} (h : sizes.Fit) (op : EchoOp) :
    sizes.of op < storageSize := by
  cases op with
  | readSome => exact h.1
  | write length sent => exact h.2

/-- What was not obtained is not given back either. -/
theorem HeapFor.calls_eq_nil {sizes : OperationSizes} {m : MemoryState} (hheap : HeapFor sizes m)
    (hm : handlerMemory.Reachable m) (hfit : sizes.Fit) : m.calls = [] := by
  have hnew : ∀ size p, .new size p ∉ m.calls := by
    intro size p hp
    obtain ⟨hlarge, op, rfl⟩ := hheap size p hp
    exact Nat.not_le_of_lt (hfit.of_lt op) hlarge
  refine List.eq_nil_iff_forall_not_mem.2 fun c hc => ?_
  cases c with
  | new size p => exact hnew size p hc
  | delete p =>
      have heq := (owned hm).heap p ((owned hm).storage _ hc)
      have hnone : m.calls.countP (·.isNew p) = 0 := by
        refine List.countP_eq_zero.2 fun c hc => ?_
        cases c with
        | new size q => exact absurd hc (hnew size q)
        | delete q => exact Bool.false_ne_true
      have hpos : 0 < m.calls.countP (·.isDelete p) :=
        List.countP_pos_iff.2 ⟨_, hc, decide_eq_true rfl⟩
      omega

/-- **The memory of a session**, in every state of every run, whatever the sizes are that Asio needs:

- as long as nothing was thrown, the session is an echo session, and each outstanding operation has one block of
  its size;
- a block is `storage_` where it fits in it, and only there;
- only blocks that do not fit are from the heap;
- where reads and writes fit, nothing is thrown and the heap is never used. -/
theorem session_memory (sizes : OperationSizes) (s : AllocSession) (h : (sessionMachine sizes).Reachable s) :
    (s.terminated = false → (echoMachine false).Reachable s.session ∧
      s.memory.outstanding.map Block.size = s.session.pending.map fun p => sizes.of p.op) ∧
    (∀ b ∈ s.memory.outstanding, b.address = s.memory.memory.storage_ ↔ b.size < storageSize) ∧
    (∀ size p, .new size p ∈ s.memory.calls → storageSize ≤ size) ∧
    (sizes.Fit → s.terminated = false ∧ s.memory.calls = []) := by
  have hs := served h
  rw [Served] at hs
  split at hs
  · rename_i hthrown
    obtain ⟨op, hlarge⟩ := hs.large
    refine ⟨fun hruns => ?_, ?_, fun size p hp => (hs.heap size p hp).1, fun hfit => ?_⟩
    · rw [hthrown] at hruns
      cases hruns
    · rw [hs.nothing]
      exact fun b hb => absurd hb List.not_mem_nil
    · exact absurd hlarge (Nat.not_le_of_lt (hfit.of_lt op))
  · rename_i hruns
    exact ⟨fun _ => ⟨hs.echo, hs.held.map_size⟩, hs.held.storage, fun size p hp => (hs.heap size p hp).1,
      fun hfit => ⟨Bool.eq_false_iff.2 hruns, hs.heap.calls_eq_nil hs.memory hfit⟩⟩

/-- Two letters come back in two parts. -/
theorem session_memory_letters :
    ∃ s₀ s, (sessionMachine ⟨200, 300⟩).init s₀ ∧ (sessionMachine ⟨200, 300⟩).exec s₀
        [.complete 0 ⟨none, [104, 105]⟩, .handler 0 none, .transfer 0 1, .writeSome 0 none, .transfer 0 1,
          .complete 0 ⟨none, []⟩, .handler 0 none] = some s ∧
      s.session.sent = [104, 105] ∧ s.memory.calls = [] := by
  obtain ⟨s₀, hs₀⟩ : ∃ s₀, (AllocSession.made 0 (List.replicate dataSize 0) 4096).perform ⟨200, 300⟩ none
      .asyncReadSome = some s₀ ∧ ∃ s, (sessionMachine ⟨200, 300⟩).exec s₀
        [.complete 0 ⟨none, [104, 105]⟩, .handler 0 none, .transfer 0 1, .writeSome 0 none, .transfer 0 1,
          .complete 0 ⟨none, []⟩, .handler 0 none] = some s ∧ s.session.sent = [104, 105] :=
    ⟨_, rfl, _, rfl, rfl⟩
  obtain ⟨hperform, s, hexec, hsent⟩ := hs₀
  have hinit : (sessionMachine ⟨200, 300⟩).init s₀ :=
    ⟨0, List.replicate dataSize 0, 4096, none, List.length_replicate, hperform⟩
  obtain ⟨-, -, -, hfit⟩ := session_memory ⟨200, 300⟩ s ⟨s₀, _, hinit, hexec⟩
  exact ⟨s₀, s, hinit, hexec, hsent, (hfit ⟨by decide, by decide⟩).2⟩

end AsioExamples.Alloc
