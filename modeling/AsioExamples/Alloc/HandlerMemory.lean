import Mathlib.Algebra.Group.Nat.Defs
import AsioExamples.Lib.Machine

/-!
# Handler memory

`handler_memory` and `handler_allocator` of `allocation_server.cpp`. A session keeps one block of
memory for its handlers, `storage_`, and falls back to `operator new` while that is in use or too small.
All copies and rebinds of an allocator refer to the same `handler_memory`, so blocks come and go in any
order through any of them.

The only record of who holds `storage_` is the flag `in_use_`. `Owned` relates it to the blocks that are
outstanding, and the calls of `operator new` and `operator delete` to those that are not.
-/

set_option autoImplicit false

namespace AsioExamples.Alloc

open AsioExamples.Lib

/-! ## The classes -/

/-- `sizeof(storage_)` -/
def storageSize : ℕ := 1024

/-- `class handler_memory`. `storage_` is the address of the block. -/
structure HandlerMemory where
  storage_ : ℕ
  inUse_ : Bool
  deriving DecidableEq, Repr

/-- A call of `operator new` that has returned, or of `operator delete`. -/
inductive HeapCall where
  | new (size address : ℕ)
  | delete (address : ℕ)
  deriving DecidableEq, Repr

namespace HandlerMemory

/-- `handler_memory::allocate`. `new` is what `operator new` returns where it is called; it throws where
that is `none`. -/
def allocate (m : HandlerMemory) (size : ℕ) (new : Option ℕ) :
    HandlerMemory × Option ℕ × List HeapCall :=
  if !m.inUse_ && size < storageSize then ({ m with inUse_ := true }, some m.storage_, [])
  else (m, new, (new.map (HeapCall.new size)).toList)

/-- `handler_memory::deallocate` -/
def deallocate (m : HandlerMemory) (p : ℕ) : HandlerMemory × List HeapCall :=
  if p = m.storage_ then ({ m with inUse_ := false }, []) else (m, [.delete p])

end HandlerMemory

/-- `class handler_allocator`, for a type of the size `valueSize`. It refers to the one `handler_memory`
there is. -/
structure HandlerAllocator where
  valueSize : ℕ
  deriving DecidableEq, Repr

/-- `sizeof(T) * n`, a `std::size_t`. -/
def HandlerAllocator.bytes (a : HandlerAllocator) (n : ℕ) : ℕ := a.valueSize * n % 2 ^ 64

/-! ## Who uses them -/

/-- A block that was allocated and not yet deallocated, with the size that `handler_memory::allocate` was
called with. -/
structure Block where
  address : ℕ
  size : ℕ
  deriving DecidableEq, Repr

/-- A `handler_memory`, the allocators that refer to it, the outstanding blocks and the calls made of
`operator new` and `operator delete`. -/
structure MemoryState where
  memory : HandlerMemory
  allocators : List HandlerAllocator
  outstanding : List Block
  calls : List HeapCall
  deriving DecidableEq, Repr

/-- What can happen: `get_allocator` makes an allocator, an allocator is copied or rebound, and blocks are
allocated and deallocated, directly or through an allocator. -/
inductive MemoryEvent where
  | getAllocator (valueSize : ℕ)
  | rebind (i valueSize : ℕ)
  | allocate (size : ℕ) (new : Option ℕ)
  | allocateThrough (i n : ℕ) (new : Option ℕ)
  | deallocate (p : ℕ)
  | deallocateThrough (i p : ℕ)
  deriving DecidableEq, Repr

namespace MemoryState

/-- How many outstanding blocks have the address `p`. -/
def held (s : MemoryState) (p : ℕ) : ℕ := s.outstanding.countP (·.address = p)

/-- What `operator new` may return: an address other than that of `storage_` and of every outstanding
block. -/
def Fresh (s : MemoryState) (new : Option ℕ) : Prop :=
  ∀ p ∈ new, p ≠ s.memory.storage_ ∧ s.held p = 0

instance (s : MemoryState) (new : Option ℕ) : Decidable (s.Fresh new) :=
  inferInstanceAs (Decidable (∀ _ ∈ _, _))

/-- A call of `handler_memory::allocate`. -/
def allocate (s : MemoryState) (size : ℕ) (new : Option ℕ) : Option MemoryState :=
  if s.Fresh new then
    let r := s.memory.allocate size new
    some { s with
      memory := r.1
      outstanding := s.outstanding ++ (r.2.1.map fun p => Block.mk p size).toList
      calls := s.calls ++ r.2.2 }
  else none

/-- A call of `handler_memory::deallocate` with the address of an outstanding block. -/
def deallocate (s : MemoryState) (p : ℕ) : Option MemoryState :=
  if s.held p ≠ 0 then
    let r := s.memory.deallocate p
    some { s with
      memory := r.1
      outstanding := s.outstanding.filter (·.address ≠ p)
      calls := s.calls ++ r.2 }
  else none

end MemoryState

/-- The uses of a new `handler_memory`. -/
def handlerMemory : Machine MemoryState MemoryEvent where
  init s := ∃ storage, s = ⟨⟨storage, false⟩, [], [], []⟩
  step s
    | .getAllocator valueSize => some { s with allocators := s.allocators ++ [⟨valueSize⟩] }
    | .rebind i valueSize =>
        s.allocators[i]?.map fun _ => { s with allocators := s.allocators ++ [⟨valueSize⟩] }
    | .allocate size new => s.allocate size new
    | .allocateThrough i n new => s.allocators[i]?.bind fun a => s.allocate (a.bytes n) new
    | .deallocate p => s.deallocate p
    | .deallocateThrough i p => s.allocators[i]?.bind fun _ => s.deallocate p

/-! ## What a step does -/

namespace MemoryState

variable {s t : MemoryState}

/-- **A step** makes an allocator, or it is a call of one of the two functions. -/
theorem step_cases {e : MemoryEvent} (h : handlerMemory.step s e = some t) :
    (∃ allocators, t = { s with allocators := allocators }) ∨
      (∃ size new, s.allocate size new = some t) ∨ ∃ p, s.deallocate p = some t := by
  cases e with
  | getAllocator valueSize =>
      cases h
      exact Or.inl ⟨_, rfl⟩
  | rebind i valueSize =>
      obtain ⟨_, -, rfl⟩ := Option.map_eq_some_iff.1 h
      exact Or.inl ⟨_, rfl⟩
  | allocate size new => exact Or.inr (Or.inl ⟨size, new, h⟩)
  | allocateThrough i n new =>
      obtain ⟨a, -, h⟩ := Option.bind_eq_some_iff.1 h
      exact Or.inr (Or.inl ⟨_, new, h⟩)
  | deallocate p => exact Or.inr (Or.inr ⟨p, h⟩)
  | deallocateThrough i p =>
      obtain ⟨_, -, h⟩ := Option.bind_eq_some_iff.1 h
      exact Or.inr (Or.inr ⟨p, h⟩)

/-- **An allocation** is served from `storage_` where that is free and large enough, or by `operator new`,
or `operator new` throws and nothing has happened. -/
theorem allocate_cases {size : ℕ} {new : Option ℕ} (h : s.allocate size new = some t) :
    (s.memory.inUse_ = false ∧ size < storageSize ∧
      t = { s with
        memory := { s.memory with inUse_ := true }
        outstanding := s.outstanding ++ [⟨s.memory.storage_, size⟩] }) ∨
    (∃ p, p ≠ s.memory.storage_ ∧ s.held p = 0 ∧
      t = { s with
        outstanding := s.outstanding ++ [⟨p, size⟩]
        calls := s.calls ++ [.new size p] }) ∨ t = s := by
  obtain ⟨hfresh, heq⟩ := Option.ite_none_right_eq_some.1 h
  cases heq
  rw [HandlerMemory.allocate]
  split
  · rename_i hfree
    simp only [Bool.and_eq_true, Bool.not_eq_true', decide_eq_true_eq] at hfree
    exact Or.inl ⟨hfree.1, hfree.2, by simp⟩
  · right
    cases new with
    | none => exact Or.inr (by simp)
    | some p => exact Or.inl ⟨p, (hfresh p rfl).1, (hfresh p rfl).2, by simp⟩

/-- **A deallocation** frees `storage_`, or gives the block back to the heap. -/
theorem deallocate_cases {p : ℕ} (h : s.deallocate p = some t) :
    s.held p ≠ 0 ∧ t.outstanding = s.outstanding.filter (·.address ≠ p) ∧
      ((p = s.memory.storage_ ∧
        t = { s with
          memory := { s.memory with inUse_ := false }
          outstanding := s.outstanding.filter (·.address ≠ p) }) ∨
      (p ≠ s.memory.storage_ ∧
        t = { s with
          outstanding := s.outstanding.filter (·.address ≠ p)
          calls := s.calls ++ [.delete p] })) := by
  obtain ⟨hheld, heq⟩ := Option.ite_none_right_eq_some.1 h
  cases heq
  refine ⟨hheld, rfl, ?_⟩
  rw [HandlerMemory.deallocate]
  split
  · rename_i hp
    exact Or.inl ⟨hp, by simp⟩
  · rename_i hp
    exact Or.inr ⟨hp, rfl⟩

end MemoryState

/-! ## Addresses -/

namespace MemoryState

variable {s t : MemoryState}

/-- The addresses held with one more block. -/
theorem held_concat {b : Block} (ht : t.outstanding = s.outstanding ++ [b]) (p : ℕ) :
    t.held p = s.held p + if b.address = p then 1 else 0 := by
  rw [held, ht, List.countP_append, List.countP_singleton]
  simp only [held, decide_eq_true_eq]

/-- The addresses held when the blocks at `q` are taken away. -/
theorem held_filter {q : ℕ} (ht : t.outstanding = s.outstanding.filter (·.address ≠ q)) (p : ℕ) :
    t.held p = if p = q then 0 else s.held p := by
  rw [held, ht, List.countP_filter]
  split
  · rename_i hpq
    subst hpq
    rw [List.countP_eq_zero]
    simp
  · rename_i hpq
    apply List.countP_congr
    intro b _
    simp only [decide_eq_true_eq, Bool.and_eq_true, and_iff_left_iff_imp]
    rintro rfl
    exact hpq

end MemoryState

/-- The call has returned the address `p`. -/
def HeapCall.isNew (p : ℕ) : HeapCall → Bool
  | .new _ q => q = p
  | .delete _ => false

/-- The call has given the address `p` back. -/
def HeapCall.isDelete (p : ℕ) : HeapCall → Bool
  | .new _ _ => false
  | .delete q => q = p

/-- The address of a call. -/
def HeapCall.address : HeapCall → ℕ
  | .new _ p => p
  | .delete p => p

/-! ## Who owns what -/

/-- What every step keeps: no two blocks have the same address, `in_use_` says whether one of them is
`storage_`, which is large enough for it, and the blocks from the heap are those that have been returned
by `operator new` and not given back. -/
structure Owned (s : MemoryState) : Prop where
  distinct : ∀ p, s.held p ≤ 1
  inUse : s.memory.inUse_ = true ↔ s.held s.memory.storage_ = 1
  fits : ∀ b ∈ s.outstanding, b.address = s.memory.storage_ → b.size < storageSize
  heap : ∀ p, p ≠ s.memory.storage_ →
    s.calls.countP (·.isNew p) = s.calls.countP (·.isDelete p) + s.held p
  storage : ∀ c ∈ s.calls, c.address ≠ s.memory.storage_

namespace Owned

variable {s t : MemoryState}

/-- A free `storage_` is no outstanding block. -/
theorem held_of_free (hs : Owned s) (hfree : s.memory.inUse_ = false) :
    s.held s.memory.storage_ = 0 := by
  have hle := hs.distinct s.memory.storage_
  have hne : s.held s.memory.storage_ ≠ 1 := by
    intro hone
    rw [hs.inUse.2 hone] at hfree
    cases hfree
  omega

theorem allocate (hs : Owned s) {size : ℕ} {new : Option ℕ} (h : s.allocate size new = some t) :
    Owned t := by
  rcases MemoryState.allocate_cases h with ⟨hfree, hsize, ht⟩ | ⟨p, hp, hnone, ht⟩ | rfl
  · have hheld := MemoryState.held_concat (congrArg MemoryState.outstanding ht)
    have hnone := hs.held_of_free hfree
    have hsame : ∀ p, p ≠ s.memory.storage_ → t.held p = s.held p := by
      intro p hp
      rw [hheld, if_neg (Ne.symm hp), Nat.add_zero]
    have hstorage : t.held s.memory.storage_ = 1 := by rw [hheld, hnone, if_pos rfl]
    subst ht
    refine ⟨fun p => ?_, iff_of_true rfl hstorage, ?_, fun p hp => ?_, hs.storage⟩
    · by_cases hp : p = s.memory.storage_
      · rw [hp]
        exact Nat.le_of_eq hstorage
      · rw [hsame p hp]
        exact hs.distinct p
    · exact List.forall_mem_append.2 ⟨hs.fits, by simpa using hsize⟩
    · rw [hsame p hp]
      exact hs.heap p hp
  · have hheld := MemoryState.held_concat (congrArg MemoryState.outstanding ht)
    have hsame : ∀ q, q ≠ p → t.held q = s.held q := by
      intro q hq
      rw [hheld, if_neg (Ne.symm hq), Nat.add_zero]
    have hone : t.held p = 1 := by rw [hheld, hnone, if_pos rfl]
    subst ht
    refine ⟨fun q => ?_, ?_, ?_, fun q hq => ?_, ?_⟩
    · by_cases hq : q = p
      · rw [hq]
        exact Nat.le_of_eq hone
      · rw [hsame q hq]
        exact hs.distinct q
    · rw [hsame _ (Ne.symm hp)]
      exact hs.inUse
    · exact List.forall_mem_append.2 ⟨hs.fits, by simp [hp]⟩
    · -- the new block is the one address that was returned once more
      have heq := hs.heap q hq
      have hnew : (HeapCall.new size p).isNew q = decide (p = q) := rfl
      have hdelete : (HeapCall.new size p).isDelete q = false := rfl
      rw [hheld, List.countP_append, List.countP_append, List.countP_singleton, List.countP_singleton,
        hnew, hdelete, heq]
      simp [Nat.add_assoc]
    · exact List.forall_mem_append.2 ⟨hs.storage, by simpa [HeapCall.address] using hp⟩
  · exact hs

theorem deallocate (hs : Owned s) {p : ℕ} (h : s.deallocate p = some t) : Owned t := by
  obtain ⟨hheld, houtstanding, hcase⟩ := MemoryState.deallocate_cases h
  have hfilter := MemoryState.held_filter houtstanding
  have hle : ∀ q, t.held q ≤ 1 := by
    intro q
    rw [hfilter]
    split
    · exact Nat.zero_le 1
    · exact hs.distinct q
  rcases hcase with ⟨hp, ht⟩ | ⟨hp, ht⟩
  · have hstorage : t.held s.memory.storage_ = 0 := by rw [hfilter, if_pos hp.symm]
    have hne : t.held s.memory.storage_ ≠ 1 := by
      rw [hstorage]
      exact Nat.zero_ne_one
    subst ht
    refine ⟨hle, iff_of_false Bool.false_ne_true hne, fun b hb => hs.fits b (List.mem_of_mem_filter hb),
      fun q hq => ?_, hs.storage⟩
    rw [hfilter, if_neg (hp ▸ hq)]
    exact hs.heap q hq
  · have hsame : t.held s.memory.storage_ = s.held s.memory.storage_ := by
      rw [hfilter, if_neg (Ne.symm hp)]
    have hone := hs.distinct p
    subst ht
    refine ⟨hle, ?_, fun b hb => hs.fits b (List.mem_of_mem_filter hb), fun q hq => ?_, ?_⟩
    · rw [hsame]
      exact hs.inUse
    · -- the block was outstanding once, and its address is given back once
      have heq := hs.heap q hq
      have hnew : (HeapCall.delete p).isNew q = false := rfl
      have hdelete : (HeapCall.delete p).isDelete q = decide (p = q) := rfl
      rw [hfilter, List.countP_append, List.countP_append, List.countP_singleton,
        List.countP_singleton, hnew, hdelete, heq]
      by_cases hpq : p = q
      · subst hpq
        simp only [decide_true, if_true, Bool.false_eq_true, if_false]
        omega
      · simp [hpq, Ne.symm hpq]
    · exact List.forall_mem_append.2 ⟨hs.storage, by simpa [HeapCall.address] using hp⟩

/-- **Every step keeps it.** -/
theorem step (hs : Owned s) {e : MemoryEvent} (h : handlerMemory.step s e = some t) : Owned t := by
  rcases MemoryState.step_cases h with ⟨allocators, rfl⟩ | ⟨size, new, h⟩ | ⟨p, h⟩
  · exact ⟨hs.distinct, hs.inUse, hs.fits, hs.heap, hs.storage⟩
  · exact hs.allocate h
  · exact hs.deallocate h

end Owned

/-- **The flag knows who owns the memory**, in every run. -/
theorem owned {s : MemoryState} (h : handlerMemory.Reachable s) : Owned s := by
  apply h.invariant (I := Owned)
  · rintro s ⟨storage, rfl⟩
    exact ⟨fun p => Nat.zero_le 1, by simp [MemoryState.held], nofun, fun p _ => rfl, nofun⟩
  · exact fun s e t hs hstep => hs.step hstep

/-- Where nothing is outstanding, a small block is `storage_`. -/
theorem Owned.allocate_small {s : MemoryState} (hs : Owned s) (hnil : s.outstanding = []) {size : ℕ}
    (hsize : size < storageSize) {new : Option ℕ} (hfresh : s.Fresh new) :
    ∃ t, s.allocate size new = some t ∧ t.outstanding = [⟨s.memory.storage_, size⟩] ∧
      t.calls = s.calls := by
  have hfree : s.memory.inUse_ = false := by
    rw [Bool.eq_false_iff, Ne, hs.inUse, MemoryState.held, hnil]
    exact Nat.zero_ne_one
  refine ⟨_, if_pos hfresh, ?_, ?_⟩ <;> simp [HandlerMemory.allocate, hfree, hsize, hnil]

/-- **The memory of a handler.** In every state of every run of allocations and deallocations, direct or
through any copies and rebinds of an allocator:

- at most one outstanding block is `storage_`, and `in_use_` says whether one is;
- a block that is `storage_` fits in it;
- every other address has been given back as often as `operator new` has returned it, but for one
  outstanding block, a deallocation gives it back once, and `storage_` is never given to the heap;
- where nothing is outstanding, the next small block is `storage_`. -/
theorem handlerMemory_owned (s : MemoryState) (h : handlerMemory.Reachable s) :
    (s.held s.memory.storage_ ≤ 1 ∧
      (s.memory.inUse_ = true ↔ s.held s.memory.storage_ = 1)) ∧
    (∀ b ∈ s.outstanding, b.address = s.memory.storage_ → b.size ≤ storageSize) ∧
    (∀ p, p ≠ s.memory.storage_ → s.held p ≤ 1 ∧
      s.calls.countP (·.isNew p) = s.calls.countP (·.isDelete p) + s.held p) ∧
    (∀ p t, s.deallocate p = some t →
      t.calls = s.calls ++ if p = s.memory.storage_ then [] else [.delete p]) ∧
    (∀ c ∈ s.calls, c.address ≠ s.memory.storage_) ∧
    (s.outstanding = [] → ∀ size new, size < storageSize → s.Fresh new →
      ∃ t, s.allocate size new = some t ∧ t.outstanding = [⟨s.memory.storage_, size⟩] ∧
        t.calls = s.calls) := by
  have hs := owned h
  refine ⟨⟨hs.distinct _, hs.inUse⟩, fun b hb haddress => Nat.le_of_lt (hs.fits b hb haddress),
    fun p hp => ⟨hs.distinct p, hs.heap p hp⟩, fun p t ht => ?_, hs.storage,
    fun hnil size new hsize hfresh => hs.allocate_small hnil hsize hfresh⟩
  obtain ⟨-, -, ⟨hp, rfl⟩ | ⟨hp, rfl⟩⟩ := MemoryState.deallocate_cases ht
  · rw [if_pos hp, List.append_nil]
  · rw [if_neg hp]

/-- A handler that is allocated while another one is, through two rebinds, and outlives it. -/
theorem handlerMemory_owned_twoHandlers :
    ∃ s, handlerMemory.exec ⟨⟨4096, false⟩, [], [], []⟩
        [.getAllocator 1, .rebind 0 96, .rebind 1 200, .allocateThrough 1 1 none,
          .allocateThrough 2 1 (some 64), .deallocateThrough 0 4096] = some s ∧
      (s.memory.inUse_ = true ↔ s.held s.memory.storage_ = 1) := by
  obtain ⟨s, hs⟩ := Option.isSome_iff_exists.1
    (show (handlerMemory.exec ⟨⟨4096, false⟩, [], [], []⟩
        [.getAllocator 1, .rebind 0 96, .rebind 1 200, .allocateThrough 1 1 none,
          .allocateThrough 2 1 (some 64), .deallocateThrough 0 4096]).isSome from rfl)
  exact ⟨s, hs, (handlerMemory_owned s ⟨_, _, ⟨4096, rfl⟩, hs⟩).1.2⟩

end AsioExamples.Alloc
