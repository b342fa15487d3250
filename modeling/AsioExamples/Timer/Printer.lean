import AsioExamples.Lib.Machine
import Mathlib.Data.Nat.Basic

/-!
# Two timers and two strands

`class printer` of `timer1.cpp`. Two threads run the handlers of two timers, which count up to 100
together. `print1` is always bound to `strand_`. The constructor binds the first call of `print2` to
`strand2_`, and `print2` binds the later ones to `strand_`.

A handler is modelled by its accesses to the members, one at a time, so that `++count_` is a load and a
store; the accesses of different handlers are interleaved in any order. The language promises nothing
about accesses that race. A timer may expire, and a thread take its handler, at any time.

Only the first call of `print2` can run beside another handler (`printer_overlap`), and it stores the count at most
once. So the count, however it is counted, ends at 100 or 101 (`count_of_atRest`).
-/

set_option autoImplicit false

namespace AsioExamples.Timer

open AsioExamples.Lib

/-! ## The program -/

/-- The strands. -/
inductive StrandId where
  | strand_
  | strand2_
  deriving DecidableEq, Repr

/-- The timers. The handler of `timer1_` is `print1`, that of `timer2_` is `print2`. -/
inductive TimerId where
  | timer1_
  | timer2_
  deriving DecidableEq, Repr

/-- What a handler does next: compare `count_` with 100, print it, load it, store it, start the next wait of
its timer, or return. -/
inductive Point where
  | check
  | print
  | load
  | store (n : ℕ)
  | wait
  | leave
  deriving DecidableEq, Repr

/-- A handler that runs. -/
structure Running where
  timer : TimerId
  point : Point
  deriving DecidableEq, Repr

/-- The data members of `class printer`: what runs on the strands, where the handlers of the outstanding
waits are bound to, and the count. `printed` is what has been printed, line by line. -/
structure Printer where
  strand_ : Option Running
  strand2_ : Option Running
  timer1_ : Option StrandId
  timer2_ : Option StrandId
  count_ : ℕ
  printed : List (TimerId × ℕ)
  deriving DecidableEq, Repr

namespace Printer

/-- The constructor. -/
def new : Printer := ⟨none, none, some .strand_, some .strand2_, 0, []⟩

/-- What runs on a strand. -/
def running (p : Printer) : StrandId → Option Running
  | .strand_ => p.strand_
  | .strand2_ => p.strand2_

/-- Where the handler of a wait is bound to. -/
def bound (p : Printer) : TimerId → Option StrandId
  | .timer1_ => p.timer1_
  | .timer2_ => p.timer2_

def setRunning (p : Printer) (r : Option Running) : StrandId → Printer
  | .strand_ => { p with strand_ := r }
  | .strand2_ => { p with strand2_ := r }

def setBound (p : Printer) (k : Option StrandId) : TimerId → Printer
  | .timer1_ => { p with timer1_ := k }
  | .timer2_ => { p with timer2_ := k }

@[simp] theorem timer2_setRunning (p : Printer) (r : Option Running) (k : StrandId) :
    (p.setRunning r k).timer2_ = p.timer2_ := by
  cases k <;> rfl

@[simp] theorem running_setBound (p : Printer) (b : Option StrandId) (t : TimerId) (k : StrandId) :
    (p.setBound b t).running k = p.running k := by
  cases t <;> cases k <;> rfl

@[simp] theorem count_setBound (p : Printer) (b : Option StrandId) (t : TimerId) :
    (p.setBound b t).count_ = p.count_ := by
  cases t <;> rfl

@[simp] theorem printed_setBound (p : Printer) (b : Option StrandId) (t : TimerId) :
    (p.setBound b t).printed = p.printed := by
  cases t <;> rfl

/-- The next access of the handler on the strand `k`. -/
def access (p : Printer) (k : StrandId) (t : TimerId) : Point → Printer
  | .check => p.setRunning (if p.count_ < 100 then some ⟨t, .print⟩ else none) k
  | .print => { p with printed := p.printed ++ [(t, p.count_)] }.setRunning (some ⟨t, .load⟩) k
  | .load => p.setRunning (some ⟨t, .store (p.count_ + 1)⟩) k
  | .store n => { p with count_ := n }.setRunning (some ⟨t, .wait⟩) k
  -- `print1` and `print2` both bind the next call to `strand_`
  | .wait => (p.setBound (some .strand_) t).setRunning (some ⟨t, .leave⟩) k
  | .leave => p.setRunning none k

end Printer

/-- What can happen: a thread takes the handler of a timer that has expired, or the handler on a strand makes
its next access. -/
inductive PrinterEvent where
  | begins (t : TimerId)
  | access (k : StrandId)
  deriving DecidableEq, Repr

/-- The program, from the constructor on. A handler begins when nothing runs on its strand. There are as many
threads as strands. -/
def printerMachine : Machine Printer PrinterEvent where
  init p := p = .new
  step p
    | .begins t =>
        (p.bound t).bind fun k =>
          if p.running k = none then some ((p.setBound none t).setRunning (some ⟨t, .check⟩) k) else none
    | .access k => (p.running k).map fun r => p.access k r.timer r.point

/-! ## What a step does -/

/-- The steps of the program. -/
inductive Printer.Step (p : Printer) : PrinterEvent → Printer → Prop
  | begins {t : TimerId} {k : StrandId} (hbound : p.bound t = some k) (hfree : p.running k = none) :
      Step p (.begins t) ((p.setBound none t).setRunning (some ⟨t, .check⟩) k)
  | access {k : StrandId} {t : TimerId} {point : Point} (hrunning : p.running k = some ⟨t, point⟩) :
      Step p (.access k) (p.access k t point)

variable {p q : Printer} {e : PrinterEvent}

theorem printer_step (h : printerMachine.step p e = some q) : p.Step e q := by
  cases e with
  | begins t =>
      obtain ⟨k, hbound, h⟩ := Option.bind_eq_some_iff.1 h
      obtain ⟨hfree, heq⟩ := Option.ite_none_right_eq_some.1 h
      cases heq
      exact .begins hbound hfree
  | access k =>
      obtain ⟨⟨t, point⟩, hrunning, rfl⟩ := Option.map_eq_some_iff.1 h
      exact .access hrunning

/-- Nothing can happen exactly where no handler runs and no wait is outstanding. -/
theorem printer_atRest_iff :
    (∀ e, printerMachine.step p e = none) ↔
      p.strand_ = none ∧ p.strand2_ = none ∧ p.timer1_ = none ∧ p.timer2_ = none := by
  constructor
  · intro h
    have hrunning : ∀ k, p.running k = none := by
      intro k
      have := h (.access k)
      simpa [printerMachine] using this
    have hbound : ∀ t, p.bound t = none := by
      intro t
      have := h (.begins t)
      simp only [printerMachine, hrunning, if_true] at this
      cases hk : p.bound t with
      | none => rfl
      | some k =>
          rw [hk] at this
          cases this
    exact ⟨hrunning .strand_, hrunning .strand2_, hbound .timer1_, hbound .timer2_⟩
  · rintro ⟨h1, h2, h3, h4⟩ e
    cases e with
    | begins t => cases t <;> simp [printerMachine, Printer.bound, h3, h4]
    | access k => cases k <;> simp [printerMachine, Printer.running, h1, h2]

/-! ## Which handlers run together -/

/-- Where the handlers and the waits are. The first call of `print2` is the only one on `strand2_`, and until it
has started the next wait, `strand_` has only calls of `print1`. -/
structure Placed (p : Printer) : Prop where
  timer1 : p.timer1_ ≠ some .strand2_
  strand2 : ∀ t point, p.strand2_ = some ⟨t, point⟩ →
    t = .timer2_ ∧ p.timer2_ ≠ some .strand2_ ∧ (point ≠ .leave → p.timer2_ = none)
  apart : ∀ t point, p.strand_ = some ⟨t, point⟩ → p.timer2_ = some .strand2_ → t = .timer1_
  apart2 : ∀ t point t' point', p.strand_ = some ⟨t, point⟩ → p.strand2_ = some ⟨t', point'⟩ →
    point' ≠ .leave → t = .timer1_

namespace Placed

theorem new : Placed .new :=
  ⟨by simp [Printer.new], by simp [Printer.new], by simp [Printer.new], by simp [Printer.new]⟩

theorem begins (hp : Placed p) {t : TimerId} {k : StrandId} (hbound : p.bound t = some k)
    (hfree : p.running k = none) : Placed ((p.setBound none t).setRunning (some ⟨t, .check⟩) k) := by
  obtain ⟨htimer1, hstrand2, hapart, hapart2⟩ := hp
  cases t with
  | timer1_ =>
      cases k with
      | strand2_ => exact absurd hbound htimer1
      | strand_ => constructor <;> grind [Printer.setBound, Printer.setRunning]
  | timer2_ =>
      have hbound : p.timer2_ = some k := hbound
      cases k with
      | strand_ => constructor <;> grind [Printer.setBound, Printer.setRunning]
      | strand2_ => constructor <;> grind [Printer.setBound, Printer.setRunning]

/-- A handler moves on. -/
theorem goOn (hp : Placed p) {k : StrandId} {t : TimerId} {point : Point}
    (hrunning : p.running k = some ⟨t, point⟩) (hleave : point ≠ .leave) (point' : Point) :
    Placed (p.setRunning (some ⟨t, point'⟩) k) := by
  obtain ⟨htimer1, hstrand2, hapart, hapart2⟩ := hp
  cases k with
  | strand_ =>
      have hrunning : p.strand_ = some ⟨t, point⟩ := hrunning
      constructor <;> grind [Printer.setRunning]
  | strand2_ =>
      have hrunning : p.strand2_ = some ⟨t, point⟩ := hrunning
      constructor <;> grind [Printer.setRunning]

/-- A handler ends. -/
theorem ends (hp : Placed p) (k : StrandId) : Placed (p.setRunning none k) := by
  obtain ⟨htimer1, hstrand2, hapart, hapart2⟩ := hp
  cases k with
  | strand_ => constructor <;> grind [Printer.setRunning]
  | strand2_ => constructor <;> grind [Printer.setRunning]

/-- A handler starts the next wait. -/
theorem waits (hp : Placed p) {k : StrandId} {t : TimerId} (hrunning : p.running k = some ⟨t, .wait⟩) :
    Placed ((p.setBound (some .strand_) t).setRunning (some ⟨t, .leave⟩) k) := by
  obtain ⟨htimer1, hstrand2, hapart, hapart2⟩ := hp
  cases k with
  | strand_ =>
      have hrunning : p.strand_ = some ⟨t, .wait⟩ := hrunning
      cases t with
      | timer1_ => constructor <;> grind [Printer.setBound, Printer.setRunning]
      | timer2_ => constructor <;> grind [Printer.setBound, Printer.setRunning]
  | strand2_ =>
      have hrunning : p.strand2_ = some ⟨t, .wait⟩ := hrunning
      cases t with
      | timer1_ => constructor <;> grind [Printer.setBound, Printer.setRunning]
      | timer2_ => constructor <;> grind [Printer.setBound, Printer.setRunning]

/-- What is counted and printed does not matter. -/
theorem congr (hp : Placed p) (count : ℕ) (printed : List (TimerId × ℕ)) :
    Placed { p with count_ := count, printed := printed } :=
  ⟨hp.timer1, hp.strand2, hp.apart, hp.apart2⟩

theorem step (hp : Placed p) (h : printerMachine.step p e = some q) : Placed q := by
  cases printer_step h with
  | begins hbound hfree => exact hp.begins hbound hfree
  | @access k t point hrunning =>
      cases point with
      | check =>
          rw [Printer.access]
          split
          · exact hp.goOn hrunning nofun .print
          · exact hp.ends k
      | print => exact (hp.congr p.count_ (p.printed ++ [(t, p.count_)])).goOn hrunning nofun .load
      | load => exact hp.goOn hrunning nofun _
      | store n => exact (hp.congr n _).goOn hrunning nofun .wait
      | wait => exact hp.waits hrunning
      | leave => exact hp.ends k

end Placed

/-- Nothing runs on `strand2_`, and nothing will. -/
structure Abandoned (p : Printer) : Prop where
  timer1 : p.timer1_ ≠ some .strand2_
  timer2 : p.timer2_ ≠ some .strand2_
  strand2 : p.strand2_ = none

theorem Abandoned.step (hp : Abandoned p) (h : printerMachine.step p e = some q) : Abandoned q := by
  obtain ⟨htimer1, htimer2, hstrand2⟩ := hp
  cases printer_step h with
  | @begins t k hbound hfree =>
      cases k with
      | strand2_ =>
          cases t with
          | timer1_ => exact absurd hbound htimer1
          | timer2_ => exact absurd hbound htimer2
      | strand_ =>
          cases t with
          | timer1_ => exact ⟨nofun, htimer2, hstrand2⟩
          | timer2_ => exact ⟨htimer1, nofun, hstrand2⟩
  | @access k t point hrunning =>
      cases k with
      | strand2_ => exact nomatch hstrand2.symm.trans hrunning
      | strand_ =>
          cases point with
          | wait =>
              cases t with
              | timer1_ => exact ⟨nofun, htimer2, hstrand2⟩
              | timer2_ => exact ⟨htimer1, nofun, hstrand2⟩
          | check => exact ⟨htimer1, htimer2, hstrand2⟩
          | print => exact ⟨htimer1, htimer2, hstrand2⟩
          | load => exact ⟨htimer1, htimer2, hstrand2⟩
          | store n => exact ⟨htimer1, htimer2, hstrand2⟩
          | leave => exact ⟨htimer1, htimer2, hstrand2⟩

/-- The run of `es` and its state. A wait is bound to `strand2_` until a call of `print2` has begun, and as long
as a call there has not come to its end, it is the only one. -/
structure FirstCall (es : List PrinterEvent) (p : Printer) : Prop where
  placed : Placed p
  bound : p.timer2_ = some .strand2_ ↔ .begins .timer2_ ∉ es
  onlyCall : ∀ t point, p.strand2_ = some ⟨t, point⟩ → point ≠ .leave → es.count (.begins .timer2_) = 1

namespace FirstCall

theorem new : FirstCall [] .new :=
  ⟨.new, by simp [Printer.new], by simp [Printer.new]⟩

/-- An access does not bind anything to `strand2_`, and takes nothing off it. -/
theorem timer2_access (hp : Placed p) {k : StrandId} {t : TimerId} {point : Point}
    (hrunning : p.running k = some ⟨t, point⟩) :
    (p.access k t point).timer2_ = some .strand2_ ↔ p.timer2_ = some .strand2_ := by
  cases point with
  | wait =>
      rw [Printer.access, Printer.timer2_setRunning]
      cases t with
      | timer1_ => rfl
      | timer2_ =>
          -- the wait that is bound to `strand2_` is over when `print2` starts another one
          have hnot : p.timer2_ ≠ some .strand2_ := by
            cases k with
            | strand_ => exact fun hbound => nomatch hp.apart _ _ hrunning hbound
            | strand2_ => exact (hp.strand2 _ _ hrunning).2.1
          exact iff_of_false nofun hnot
  | check | print | load | store n | leave =>
      rw [Printer.access, Printer.timer2_setRunning]

/-- A handler on `strand2_` that has not come to its end has begun before. -/
theorem strand2_access {k : StrandId} {t t' : TimerId} {point point' : Point}
    (hrunning : p.running k = some ⟨t, point⟩) (h : (p.access k t point).strand2_ = some ⟨t', point'⟩)
    (hleave : point' ≠ .leave) : ∃ t point, p.strand2_ = some ⟨t, point⟩ ∧ point ≠ .leave := by
  cases k with
  | strand2_ =>
      refine ⟨t, point, hrunning, ?_⟩
      rintro rfl
      cases h
  | strand_ =>
      have hsame : (p.access .strand_ t point).strand2_ = p.strand2_ := by
        cases point with
        | wait => cases t <;> rfl
        | check | print | load | store n | leave => rfl
      exact ⟨t', point', hsame.symm.trans h, hleave⟩

/-- **Every step keeps it.** -/
theorem step {es : List PrinterEvent} (hp : FirstCall es p) (h : printerMachine.step p e = some q) :
    FirstCall (es ++ [e]) q := by
  refine ⟨hp.placed.step h, ?_, ?_⟩
  · cases printer_step h with
    | @begins t k hbound hfree =>
        cases t with
        | timer1_ =>
            cases k with
            | strand2_ => exact absurd hbound hp.placed.timer1
            | strand_ =>
                refine hp.bound.trans ?_
                simp
        | timer2_ => cases k <;> simp [Printer.setBound, Printer.setRunning]
    | access hrunning =>
        rw [timer2_access hp.placed hrunning, hp.bound]
        simp
  · intro t' point' hstrand2 hleave
    cases printer_step h with
    | @begins t k hbound hfree =>
        cases t with
        | timer1_ =>
            cases k with
            | strand2_ => exact absurd hbound hp.placed.timer1
            | strand_ => simpa using hp.onlyCall t' point' hstrand2 hleave
        | timer2_ =>
            cases k with
            | strand_ =>
                have hnone := (hp.placed.strand2 t' point' hstrand2).2.2 hleave
                exact nomatch hbound.symm.trans hnone
            | strand2_ =>
                rw [List.count_append, List.count_eq_zero.2 (hp.bound.1 hbound)]
                rfl
    | access hrunning =>
        obtain ⟨t, point, hbefore, hgoes⟩ := strand2_access hrunning hstrand2 hleave
        rw [List.count_append, hp.onlyCall t point hbefore hgoes]
        rfl

end FirstCall

theorem firstCall_of_exec {es : List PrinterEvent} (h : printerMachine.exec .new es = some p) :
    FirstCall es p :=
  Machine.exec_relates .new (fun _ _ _ _ hp hstep => hp.step hstep) h

/-- **What can run at the same time**, after every run. The handler of a wait goes to `strand2_` exactly where it
is the first call of `print2`. Where two handlers run, the one on `strand2_` is a call of `print2`, and no other
one is bound to it; unless that call has nothing to do but return, it is the only one that has begun, and the
other handler is a call of `print1`. Once nothing runs on `strand2_` and no wait is bound to it, there is never
more than one handler again. -/
theorem printer_overlap {es : List PrinterEvent} (h : printerMachine.exec .new es = some p) :
    (∀ t, p.bound t = some .strand2_ ↔ t = .timer2_ ∧ .begins .timer2_ ∉ es) ∧
    (∀ r r2, p.strand_ = some r → p.strand2_ = some r2 →
      r2.timer = .timer2_ ∧ (∀ t, p.bound t ≠ some .strand2_) ∧
      (r2.point ≠ .leave → r.timer = .timer1_ ∧ es.count (.begins .timer2_) = 1)) ∧
    (p.strand2_ = none → p.timer2_ ≠ some .strand2_ →
      ∀ fs q, printerMachine.exec p fs = some q → q.strand2_ = none) := by
  have hp := firstCall_of_exec h
  have hbound : ∀ t, p.bound t = some .strand2_ ↔ t = .timer2_ ∧ p.timer2_ = some .strand2_ := by
    intro t
    cases t with
    | timer1_ => exact iff_of_false hp.placed.timer1 nofun
    | timer2_ => exact (and_iff_right rfl).symm
  refine ⟨fun t => (hbound t).trans (and_congr_right fun _ => hp.bound), ?_, ?_⟩
  · intro r r2 hr hr2
    obtain ⟨htimer, hnot, -⟩ := hp.placed.strand2 _ _ hr2
    refine ⟨htimer, fun t ht => hnot ((hbound t).1 ht).2, fun hleave => ?_⟩
    exact ⟨hp.placed.apart2 _ _ _ _ hr hr2 hleave, hp.onlyCall _ _ hr2 hleave⟩
  · intro hstrand2 htimer2 fs q hexec
    have hq : Abandoned q :=
      Machine.exec_preserves (fun p e q hp hstep => hp.step hstep) ⟨hp.placed.timer1, htimer2, hstrand2⟩ hexec
    exact hq.strand2

/-- The two first calls, side by side. -/
theorem printer_overlap_first :
    ∃ p r r2, printerMachine.exec .new [.begins .timer1_, .begins .timer2_] = some p ∧
      p.strand_ = some r ∧ p.strand2_ = some r2 ∧ r2.timer = .timer2_ ∧ r.timer = .timer1_ ∧
      ∀ t, p.bound t ≠ some .strand2_ := by
  have hexec : ∃ p, printerMachine.exec .new [.begins .timer1_, .begins .timer2_] = some p ∧
      p.strand_ = some ⟨.timer1_, .check⟩ ∧ p.strand2_ = some ⟨.timer2_, .check⟩ := ⟨_, rfl, rfl, rfl⟩
  obtain ⟨p, hexec, hr, hr2⟩ := hexec
  obtain ⟨htimer2, hbound, htimer1⟩ := (printer_overlap hexec).2.1 _ _ hr hr2
  exact ⟨p, _, _, hexec, hr, hr2, htimer2, (htimer1 nofun).1, hbound⟩

/-! ## The count -/

/-- The handler has still to store the count, if it does. -/
def Point.early : Point → Bool
  | .wait => false
  | .leave => false
  | _ => true

/-- The first call of `print2` has still to store the count, if it does. -/
def Printer.FirstAhead (p : Printer) : Prop :=
  p.timer2_ = some .strand2_ ∨ ∃ t point, p.strand2_ = some ⟨t, point⟩ ∧ point.early = true

/-- What a handler relies on while it runs: below the limit when it prints and loads, and what it stores is at
least `low`. -/
def Knows (count low limit : ℕ) : Point → Prop
  | .print => count < limit
  | .load => count < limit
  | .store n => low ≤ n ∧ n ≤ limit
  | _ => True

/-- The count, and what the handler on `strand_` relies on. Only the first call of `print2` can come between its
accesses; what that stores is at most one more than the count, so that the limit moves by one. -/
structure Counting (p : Printer) : Prop where
  before : p.FirstAhead → p.count_ ≤ 100 ∧
    (∀ t point, p.strand_ = some ⟨t, point⟩ → Knows p.count_ (p.count_ + 1) 100 point) ∧
    ∀ t n, p.strand2_ = some ⟨t, .store n⟩ → n ≤ p.count_ + 1
  after : p.count_ ≤ 101 ∧ ∀ t point, p.strand_ = some ⟨t, point⟩ → Knows p.count_ p.count_ 101 point

namespace Counting

theorem new : Counting .new where
  before := by simp [Printer.new]
  after := by simp [Printer.new]

/-- The handler on `strand_` moves on, and what it stores is no less than the count. -/
theorem strand_goOn (hp : Counting p) {r : Option Running} {count : ℕ} (printed : List (TimerId × ℕ))
    (hcount : p.count_ ≤ count) (hlimit : count ≤ 101)
    (hbefore : p.FirstAhead → count ≤ 100 ∧
      ∀ t point, r = some ⟨t, point⟩ → Knows count (count + 1) 100 point)
    (hafter : ∀ t point, r = some ⟨t, point⟩ → Knows count count 101 point) :
    Counting { p with strand_ := r, count_ := count, printed := printed } where
  before hahead := ⟨(hbefore hahead).1, (hbefore hahead).2, fun t n hn =>
    Nat.le_trans ((hp.before hahead).2.2 t n hn) (Nat.succ_le_succ hcount)⟩
  after := ⟨hlimit, hafter⟩

theorem strand_access (hp : Counting p) {t : TimerId} {point : Point} (hpoint : point ≠ .wait)
    (hrunning : p.strand_ = some ⟨t, point⟩) : Counting (p.access .strand_ t point) := by
  have hbefore := fun h => (hp.before h).2.1 t point hrunning
  have hcount := fun h => (hp.before h).1
  have hafter := hp.after.2 t point hrunning
  have hlimit := hp.after.1
  cases point with
  | check =>
      apply hp.strand_goOn p.printed le_rfl hlimit
      · grind [Knows]
      · grind [Knows]
  | print =>
      apply hp.strand_goOn _ le_rfl hlimit
      · grind [Knows]
      · grind [Knows]
  | load =>
      apply hp.strand_goOn p.printed le_rfl hlimit
      · grind [Knows]
      · grind [Knows]
  | store n =>
      apply hp.strand_goOn p.printed hafter.1 hafter.2
      · grind [Knows]
      · grind [Knows]
  | wait => exact absurd rfl hpoint
  | leave =>
      apply hp.strand_goOn p.printed le_rfl hlimit
      · grind [Knows]
      · grind [Knows]

/-- Nothing changes for the count when a wait ends or starts and a handler begins or ends. -/
theorem waits (hp : Counting p) {r r2 : Option Running} {t1 t2 : Option StrandId}
    (hr : ∀ t point, r = some ⟨t, point⟩ → p.strand_ = r ∨ point.early = false ∨ point = .check)
    (hr2 : ∀ t point, r2 = some ⟨t, point⟩ → p.strand2_ = r2 ∨ point.early = false ∨ point = .check)
    (hahead : Printer.FirstAhead { p with strand_ := r, strand2_ := r2, timer1_ := t1, timer2_ := t2 } →
      p.FirstAhead) :
    Counting { p with strand_ := r, strand2_ := r2, timer1_ := t1, timer2_ := t2 } := by
  have hknows : ∀ low limit, (∀ t point, p.strand_ = some ⟨t, point⟩ → Knows p.count_ low limit point) →
      ∀ t point, r = some ⟨t, point⟩ → Knows p.count_ low limit point := by
    intro low limit h t point hpoint
    rcases hr t point hpoint with hsame | hlate | rfl
    · exact h t point (hsame.trans hpoint)
    · cases point <;> trivial
    · trivial
  constructor
  · intro h
    obtain ⟨hcount, hstrand, hstrand2⟩ := hp.before (hahead h)
    refine ⟨hcount, hknows _ _ hstrand, fun t n hn => ?_⟩
    rcases hr2 t _ hn with hsame | hlate | hcheck
    · exact hstrand2 t n (hsame.trans hn)
    · cases hlate
    · cases hcheck
  · exact ⟨hp.after.1, hknows _ _ hp.after.2⟩

/-- The first call of `print2` moves on and has still to store the count. -/
theorem strand2_goOn (hp : Counting p) (hahead : p.FirstAhead) {r2 : Option Running}
    (printed : List (TimerId × ℕ)) (hstore : ∀ t n, r2 = some ⟨t, .store n⟩ → n ≤ p.count_ + 1) :
    Counting { p with strand2_ := r2, printed := printed } where
  before _ := ⟨(hp.before hahead).1, (hp.before hahead).2.1, hstore⟩
  after := hp.after

/-- It stores the count, whatever the other handler has done since it was loaded. -/
theorem strand2_store (hp : Counting p) (htimer2 : p.timer2_ ≠ some .strand2_) {t : TimerId} {n : ℕ}
    (hrunning : p.strand2_ = some ⟨t, .store n⟩) :
    Counting { p with strand2_ := some ⟨t, .wait⟩, count_ := n } := by
  obtain ⟨hcount, hknows, hstore⟩ := hp.before (Or.inr ⟨t, _, hrunning, rfl⟩)
  have hle := hstore t n hrunning
  refine ⟨?_, ?_, ?_⟩
  · rintro (h | ⟨t', point, h, hearly⟩)
    · exact absurd h htimer2
    · cases h
      cases hearly
  · dsimp only
    omega
  · intro t' point hpoint
    have := hknows t' point hpoint
    cases point with
    | print => exact Nat.lt_of_le_of_lt hle (Nat.succ_lt_succ this)
    | load => exact Nat.lt_of_le_of_lt hle (Nat.succ_lt_succ this)
    | store m => exact ⟨Nat.le_trans hle this.1, Nat.le_succ_of_le this.2⟩
    | check => trivial
    | wait => trivial
    | leave => trivial

/-- **Every step keeps the count within its limits.** -/
theorem step (hp : Counting p) (hplaced : Placed p) (h : printerMachine.step p e = some q) :
    Counting q := by
  cases printer_step h with
  | @begins t k hbound hfree =>
      cases t with
      | timer1_ =>
          cases k with
          | strand2_ => exact absurd hbound hplaced.timer1
          | strand_ =>
              apply hp.waits
              · rintro t point ⟨⟩
                exact Or.inr (Or.inr rfl)
              · exact fun _ _ _ => Or.inl rfl
              · exact id
      | timer2_ =>
          cases k with
          | strand_ =>
              apply hp.waits
              · rintro t point ⟨⟩
                exact Or.inr (Or.inr rfl)
              · exact fun _ _ _ => Or.inl rfl
              · rintro (h | h)
                · cases h
                · exact Or.inr h
          | strand2_ =>
              apply hp.waits
              · exact fun _ _ _ => Or.inl rfl
              · rintro t point ⟨⟩
                exact Or.inr (Or.inr rfl)
              · exact fun _ => Or.inl hbound
  | @access k t point hrunning =>
      cases k with
      | strand_ =>
          by_cases hwait : point = .wait
          · subst hwait
            cases t with
            | timer1_ =>
                apply hp.waits
                · rintro t point ⟨⟩
                  exact Or.inr (Or.inl rfl)
                · exact fun _ _ _ => Or.inl rfl
                · exact id
            | timer2_ =>
                apply hp.waits
                · rintro t point ⟨⟩
                  exact Or.inr (Or.inl rfl)
                · exact fun _ _ _ => Or.inl rfl
                · rintro (h | h)
                  · cases h
                  · exact Or.inr h
          · exact hp.strand_access hwait hrunning
      | strand2_ =>
          obtain ⟨rfl, htimer2, -⟩ := hplaced.strand2 t point hrunning
          have hahead : point.early = true → p.FirstAhead := fun h => Or.inr ⟨_, _, hrunning, h⟩
          cases point with
          | check =>
              apply hp.strand2_goOn (hahead rfl)
              grind
          | print => exact hp.strand2_goOn (hahead rfl) _ nofun
          | load =>
              apply hp.strand2_goOn (hahead rfl)
              rintro t n ⟨⟩
              exact le_rfl
          | store n => exact hp.strand2_store htimer2 hrunning
          | wait =>
              apply hp.waits
              · exact fun _ _ _ => Or.inl rfl
              · rintro t point ⟨⟩
                exact Or.inr (Or.inl rfl)
              · rintro (h | ⟨t, point, h, hearly⟩)
                · cases h
                · cases h
                  cases hearly
          | leave =>
              apply hp.waits
              · exact fun _ _ _ => Or.inl rfl
              · exact nofun
              · rintro (h | ⟨t, point, h, hearly⟩)
                · exact Or.inl h
                · cases h

end Counting

/-! ## The end -/

/-- When `print2` is not called any more, the count has reached 100 and stays there. -/
def Printer.Stopped (p : Printer) : Prop :=
  p.timer2_ = none → (∀ point, p.strand_ = some ⟨.timer2_, point⟩ → point = .leave) →
    (∀ point, p.strand2_ = some ⟨.timer2_, point⟩ → point = .leave) → 100 ≤ p.count_

/-- The count is at least 100 from then on. -/
theorem Printer.Stopped.step (hp : p.Stopped) (hcounting : Counting p) (hplaced : Placed p)
    (h : printerMachine.step p e = some q) : q.Stopped := by
  intro htimer2 hstrand hstrand2
  cases printer_step h with
  | @begins t k hbound hfree =>
      cases t with
      | timer1_ =>
          cases k with
          | strand2_ => exact absurd hbound hplaced.timer1
          | strand_ =>
              apply hp htimer2 _ hstrand2
              intro point hpoint
              exact nomatch hfree.symm.trans hpoint
      | timer2_ =>
          cases k with
          | strand_ => exact nomatch hstrand .check rfl
          | strand2_ => exact nomatch hstrand2 .check rfl
  | @access k t point hrunning =>
      -- the handler that makes the access was not at its end, or the count is what was to be shown
      cases k with
      | strand_ =>
          have hstore := hcounting.after.2 t point hrunning
          have hsame : ∀ point', p.strand_ = some ⟨.timer2_, point'⟩ → t = .timer2_ ∧ point' = point := by
            intro point' hpoint'
            cases hrunning.symm.trans hpoint'
            exact ⟨rfl, rfl⟩
          cases point with
          | check =>
              by_cases hlt : p.count_ < 100
              · rw [Printer.access, if_pos hlt] at htimer2 hstrand hstrand2
                apply hp htimer2 _ hstrand2
                intro point' hpoint'
                obtain ⟨rfl, -⟩ := hsame point' hpoint'
                exact nomatch hstrand .print rfl
              · exact not_lt.1 hlt
          | print =>
              apply hp htimer2 _ hstrand2
              intro point' hpoint'
              obtain ⟨rfl, -⟩ := hsame point' hpoint'
              exact nomatch hstrand .load rfl
          | load =>
              apply hp htimer2 _ hstrand2
              intro point' hpoint'
              obtain ⟨rfl, -⟩ := hsame point' hpoint'
              exact nomatch hstrand (.store (p.count_ + 1)) rfl
          | store n =>
              refine Nat.le_trans (hp htimer2 ?_ hstrand2) hstore.1
              intro point' hpoint'
              obtain ⟨rfl, -⟩ := hsame point' hpoint'
              exact nomatch hstrand .wait rfl
          | wait =>
              cases t with
              | timer2_ => cases htimer2
              | timer1_ =>
                  apply hp htimer2 _ hstrand2
                  intro point' hpoint'
                  exact nomatch (hsame point' hpoint').1
          | leave =>
              apply hp htimer2 _ hstrand2
              exact fun point' hpoint' => (hsame point' hpoint').2
      | strand2_ =>
          obtain ⟨rfl, -, -⟩ := hplaced.strand2 t point hrunning
          cases point with
          | check =>
              by_cases hlt : p.count_ < 100
              · rw [Printer.access, if_pos hlt] at hstrand2
                exact nomatch hstrand2 .print rfl
              · exact not_lt.1 hlt
          | print => exact nomatch hstrand2 .load rfl
          | load => exact nomatch hstrand2 (.store (p.count_ + 1)) rfl
          | store n => exact nomatch hstrand2 .wait rfl
          | wait => cases htimer2
          | leave =>
              apply hp htimer2 hstrand
              intro point' hpoint'
              cases hrunning.symm.trans hpoint'
              rfl

/-- What holds in every reachable state. -/
theorem printer_reachable (h : printerMachine.Reachable p) : Placed p ∧ Counting p ∧ p.Stopped := by
  apply h.invariant (I := fun p => Placed p ∧ Counting p ∧ p.Stopped)
  · rintro p rfl
    exact ⟨.new, .new, nofun⟩
  · rintro p e q ⟨hplaced, hcounting, hstopped⟩ hstep
    exact ⟨hplaced.step hstep, hcounting.step hplaced hstep, hstopped.step hcounting hplaced hstep⟩

/-- The count at the end. -/
theorem count_of_atRest (h : printerMachine.Reachable p) (hrest : ∀ e, printerMachine.step p e = none) :
    p.count_ = 100 ∨ p.count_ = 101 := by
  obtain ⟨hstrand, hstrand2, -, htimer2⟩ := printer_atRest_iff.1 hrest
  obtain ⟨-, hcounting, hstopped⟩ := printer_reachable h
  have hlow := hstopped htimer2 (by simp [hstrand]) (by simp [hstrand2])
  have hhigh := hcounting.after.1
  omega

end AsioExamples.Timer
