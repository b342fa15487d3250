import Mathlib.Tactic.Common
import AsioExamples.Lib.RoundRobin

/-!
# The pool of io_contexts

`io_context_pool.hpp` and `io_context_pool.cpp` of http2/, without `run` and `stop`. The calls of
`get_io_context` read the vector of io_contexts in a cycle (`getIoContexts_spec`).
-/

set_option autoImplicit false

namespace AsioExamples.Http2

open AsioExamples.Lib

/-- An `io_context`. It is known by its place in the order in which they were made. -/
structure IoContext where
  id : ℕ
  deriving DecidableEq, Repr

/-- The data members of `class io_context_pool`. A work guard is known by its io_context. -/
structure IoContextPool where
  ioContexts_ : List IoContext
  work_ : List IoContext
  nextIoContext_ : ℕ
  deriving DecidableEq, Repr

/-- Why there is no pool: the exception of the constructor, or its counter overflows, which C++ leaves
undefined. -/
inductive PoolError where
  | runtimeError (what : String)
  | intOverflow
  deriving DecidableEq, Repr

/-- The largest `int`. -/
def intMax : ℕ := 2147483647

namespace IoContextPool

/-- The loop of the constructor. The counter is an `int`, whatever the type of `pool_size` is. -/
def newLoop (poolSize i : ℕ) (pool : IoContextPool) : Except PoolError IoContextPool :=
  if i = poolSize then .ok pool
  else if i < intMax then
    newLoop poolSize (i + 1)
      { pool with
        ioContexts_ := pool.ioContexts_ ++ [⟨i⟩]
        work_ := pool.work_ ++ [⟨i⟩] }
  else .error .intOverflow
termination_by intMax - i

/-- `io_context_pool::io_context_pool` -/
def new (poolSize : ℕ) : Except PoolError IoContextPool :=
  if poolSize = 0 then .error (.runtimeError "io_context_pool size is 0")
  else newLoop poolSize 0 ⟨[], [], 0⟩

/-- `io_context_pool::get_io_context`. There is no result where `next_io_context_` is out of range. -/
def getIoContext (pool : IoContextPool) : Option (IoContext × IoContextPool) :=
  pool.ioContexts_[pool.nextIoContext_]?.map fun ioContext =>
    let next := pool.nextIoContext_ + 1
    (ioContext, { pool with nextIoContext_ := if next = pool.ioContexts_.length then 0 else next })

/-- Calls of `get_io_context`, one after the other: what they return, and the pool after them. -/
def getIoContexts : ℕ → IoContextPool → Option (List IoContext × IoContextPool)
  | 0, pool => some ([], pool)
  | k + 1, pool =>
      pool.getIoContext.bind fun (ioContext, pool) =>
        (getIoContexts k pool).map fun (rest, after) => (ioContext :: rest, after)

/-! ## The constructor -/

/-- The first `n` io_contexts that are made. -/
def made (n : ℕ) : List IoContext := (List.range n).map IoContext.mk

theorem made_succ (n : ℕ) : made (n + 1) = made n ++ [⟨n⟩] := by
  rw [made, List.range_succ, List.map_append]
  rfl

@[simp] theorem length_made (n : ℕ) : (made n).length = n := by
  rw [made, List.length_map, List.length_range]

theorem nodup_made (n : ℕ) : (made n).Nodup := by
  apply List.Nodup.map _ List.nodup_range
  intro i j hij
  exact congrArg IoContext.id hij

/-- The loop makes the io_contexts that are missing, as far as its counter goes. -/
theorem newLoop_eq (poolSize i : ℕ) (hi : i ≤ poolSize) (hmax : i ≤ intMax) :
    newLoop poolSize i ⟨made i, made i, 0⟩ =
      if poolSize ≤ intMax then .ok ⟨made poolSize, made poolSize, 0⟩ else .error .intOverflow := by
  -- on the number of rounds that the counter has left
  induction hleft : intMax - i generalizing i with
  | zero =>
      rw [newLoop]
      by_cases hend : i = poolSize
      · rw [if_pos hend, ← hend, if_pos hmax]
      · rw [if_neg hend, if_neg (by omega), if_neg (by omega)]
  | succ left ih =>
      rw [newLoop]
      by_cases hend : i = poolSize
      · rw [if_pos hend, ← hend, if_pos hmax]
      · rw [if_neg hend, if_pos (by omega), ← made_succ]
        exact ih (i + 1) (by omega) (by omega) (by omega)

/-- A pool is constructed for every size that the counter reaches, but not for 0. -/
theorem new_eq_ok_iff {poolSize : ℕ} {pool : IoContextPool} :
    new poolSize = .ok pool ↔
      0 < poolSize ∧ poolSize ≤ intMax ∧ pool = ⟨made poolSize, made poolSize, 0⟩ := by
  rw [new]
  by_cases hzero : poolSize = 0
  · simp [hzero]
  · have hloop : newLoop poolSize 0 ⟨[], [], 0⟩ = _ :=
      newLoop_eq poolSize 0 (Nat.zero_le _) (Nat.zero_le _)
    rw [if_neg hzero, hloop]
    split
    · rename_i hmax
      simp [Nat.pos_of_ne_zero hzero, hmax, eq_comm]
    · rename_i hmax
      simp [hmax]

/-! ## The calls -/

/-- A call in range returns the io_context in turn and goes on to the next. -/
theorem getIoContext_spec {pool : IoContextPool} (h : pool.nextIoContext_ < pool.ioContexts_.length) :
    ∃ ioContext, pool.ioContexts_[pool.nextIoContext_]? = some ioContext ∧
      pool.getIoContext = some (ioContext,
        { pool with nextIoContext_ := RoundRobin.next pool.ioContexts_.length pool.nextIoContext_ }) := by
  refine ⟨_, List.getElem?_eq_getElem h, ?_⟩
  rw [getIoContext, List.getElem?_eq_getElem h]
  rfl

/-- **The calls read the vector in a cycle.** None of them is out of range. -/
theorem getIoContexts_spec (k : ℕ) (pool : IoContextPool)
    (h : pool.nextIoContext_ < pool.ioContexts_.length) :
    ∃ returned, returned.length = k ∧
      RoundRobin.Cyclic pool.ioContexts_ pool.nextIoContext_ returned ∧
      pool.getIoContexts k = some (returned,
        { pool with nextIoContext_ := (pool.nextIoContext_ + k) % pool.ioContexts_.length }) := by
  induction k generalizing pool with
  | zero =>
      refine ⟨[], rfl, .nil _ _, ?_⟩
      rw [getIoContexts, Nat.add_zero, Nat.mod_eq_of_lt h]
  | succ k ih =>
      obtain ⟨ioContext, hget, hcall⟩ := getIoContext_spec h
      have hnext := RoundRobin.next_eq_mod h
      have hlt : RoundRobin.next pool.ioContexts_.length pool.nextIoContext_ <
          pool.ioContexts_.length := by
        rw [hnext]
        exact Nat.mod_lt _ (Nat.zero_lt_of_lt h)
      obtain ⟨rest, hlen, hrest, hcalls⟩ := ih { pool with
        nextIoContext_ := RoundRobin.next pool.ioContexts_.length pool.nextIoContext_ } hlt
      refine ⟨ioContext :: rest, congrArg Nat.succ hlen, .cons hget hrest, ?_⟩
      have hsum : (pool.nextIoContext_ + 1 + k) % pool.ioContexts_.length =
          (pool.nextIoContext_ + (k + 1)) % pool.ioContexts_.length := by
        rw [Nat.add_right_comm, Nat.add_assoc]
      simp only [getIoContexts, hcall, Option.bind_some, hcalls, Option.map_some]
      rw [hnext, Nat.mod_add_mod, hsum]

/-- **The pool is in range and fair.** A pool of `n` io_contexts is constructed where the counter of the
constructor reaches `n`. Any number of calls of `get_io_context` on it returns, with
`next_io_context_` below the size of the vector, and in every window of consecutive calls each of
the `n` io_contexts is returned as often as the length of the window divided by `n`, rounded down or up. -/
theorem getIoContext_balanced (n : ℕ) (hn : 0 < n) :
    (n ≤ intMax → ∃ pool, new n = .ok pool) ∧
    ∀ pool, new n = .ok pool →
      pool.ioContexts_.length = n ∧ pool.ioContexts_.Nodup ∧
      ∀ k, ∃ returned after, pool.getIoContexts k = some (returned, after) ∧ returned.length = k ∧
        after.ioContexts_ = pool.ioContexts_ ∧ after.nextIoContext_ < after.ioContexts_.length ∧
        ∀ window, window <:+: returned → ∀ ioContext ∈ pool.ioContexts_,
          window.count ioContext = window.length / n ∨
            window.count ioContext = window.length ⌈/⌉ n := by
  constructor
  · intro hmax
    exact ⟨_, new_eq_ok_iff.2 ⟨hn, hmax, rfl⟩⟩
  · intro pool hpool
    obtain ⟨-, -, rfl⟩ := new_eq_ok_iff.1 hpool
    have hlen : (made n).length = n := length_made n
    refine ⟨hlen, nodup_made n, fun k => ?_⟩
    obtain ⟨returned, hk, hcyclic, hcalls⟩ :=
      getIoContexts_spec k ⟨made n, made n, 0⟩ (Nat.lt_of_lt_of_eq hn hlen.symm)
    refine ⟨returned, _, hcalls, hk, rfl, Nat.mod_lt _ (Nat.lt_of_lt_of_eq hn hlen.symm), ?_⟩
    rintro window ⟨before, after, rfl⟩ ioContext hmem
    have hwindow := (hcyclic.window before after).balanced (nodup_made n) hmem
    rwa [hlen] at hwindow

/-- Five calls on a pool of two. -/
theorem getIoContext_balanced_five :
    ∃ pool returned after, new 2 = .ok pool ∧ pool.getIoContexts 5 = some (returned, after) ∧
      ∀ ioContext ∈ pool.ioContexts_, returned.count ioContext = 2 ∨ returned.count ioContext = 3 := by
  obtain ⟨hnew, hpools⟩ := getIoContext_balanced 2 (by decide)
  obtain ⟨pool, hpool⟩ := hnew (by decide)
  obtain ⟨-, -, hcalls⟩ := hpools pool hpool
  obtain ⟨returned, after, hreturned, hlen, -, -, hwindow⟩ := hcalls 5
  refine ⟨pool, returned, after, hpool, hreturned, fun ioContext hmem => ?_⟩
  have hfair := hwindow returned (List.infix_refl _) ioContext hmem
  rwa [hlen] at hfair

end IoContextPool

end AsioExamples.Http2
