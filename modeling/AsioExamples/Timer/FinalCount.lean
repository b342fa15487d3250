import AsioExamples.Timer.Printer
import Mathlib.Data.List.Range

/-!
# What the two timers count

Every run of `timer1.cpp` ends (`Printer.work_lt`), with 100 or with 101 (`printer_final`), and 101 is what
it comes to when the first call of `print2` checks the count beside the last call of `print1`. When no handler
begins beside another one, the lines are the numbers from 0 to 99 in their order (`printer_in_order`).
-/

set_option autoImplicit false

namespace AsioExamples.Timer

open AsioExamples.Lib

variable {p q : Printer} {e : PrinterEvent}

/-! ## The length of a run -/

/-- How many accesses a handler has before it at most, where the count pays for the stores: each of them
makes it grow, but for the first one of `print2`, which may undo what `print1` has counted. -/
def Point.work (k : StrandId) : Point → ℕ
  | .wait => 7
  | .leave => 1
  | point => (match k with | .strand_ => 0 | .strand2_ => 721) +
      match point with
      | .check => 4
      | .print => 3
      | .load => 2
      | _ => 1

/-- The same for a wait. -/
def StrandId.work (k : StrandId) : ℕ := Point.check.work k + 1

/-- How often the count can still grow, with the store of the handler on `strand_`. -/
def Printer.room (p : Printer) : ℕ :=
  match p.strand_ with
  | some ⟨_, .store n⟩ => 103 - n
  | _ => 102 - p.count_

/-- An upper bound for the number of steps to come. -/
def Printer.work (p : Printer) : ℕ :=
  7 * p.room + (p.strand_.elim 0 fun r => r.point.work .strand_) +
    (p.strand2_.elim 0 fun r => r.point.work .strand2_) + p.timer1_.elim 0 StrandId.work +
    p.timer2_.elim 0 StrandId.work

/-- A store of `print2` on `strand2_` may undo what has been counted. -/
theorem Printer.room_store_le (p : Printer) (r : Option Running) (n : ℕ) :
    Printer.room { p with strand2_ := r, count_ := n } ≤ p.room + 102 := by
  simp only [Printer.room]
  split
  · omega
  · omega

/-- **Every step leaves less to do.** -/
theorem Printer.work_lt (hcounting : Counting p) (hplaced : Placed p)
    (h : printerMachine.step p e = some q) : q.work < p.work := by
  cases printer_step h with
  | @begins t k hbound hfree =>
      cases t with
      | timer1_ =>
          cases k with
          | strand2_ => exact absurd hbound hplaced.timer1
          | strand_ =>
              have hbound : p.timer1_ = some .strand_ := hbound
              have hfree : p.strand_ = none := hfree
              simp only [Printer.work, Printer.room, Printer.setBound, Printer.setRunning, hbound, hfree,
                StrandId.work, Option.elim_some, Option.elim_none]
              omega
      | timer2_ =>
          have hbound : p.timer2_ = some k := hbound
          cases k with
          | strand_ =>
              have hfree : p.strand_ = none := hfree
              simp only [Printer.work, Printer.room, Printer.setBound, Printer.setRunning, hbound, hfree,
                StrandId.work, Option.elim_some, Option.elim_none]
              omega
          | strand2_ =>
              have hfree : p.strand2_ = none := hfree
              simp only [Printer.work, Printer.room, Printer.setBound, Printer.setRunning, hbound, hfree,
                StrandId.work, Option.elim_some, Option.elim_none]
              omega
  | @access k t point hrunning =>
      cases k with
      | strand_ =>
          have hstore := hcounting.after.2 t point hrunning
          have hrunning : p.strand_ = some ⟨t, point⟩ := hrunning
          cases point with
          | check =>
              by_cases hlt : p.count_ < 100
              · simp [Printer.work, Printer.room, Printer.access, Printer.setRunning, hrunning, hlt,
                  Point.work]
              · simp [Printer.work, Printer.room, Printer.access, Printer.setRunning, hrunning, hlt,
                  Point.work]
          | print =>
              simp [Printer.work, Printer.room, Printer.access, Printer.setRunning, hrunning, Point.work]
          | load =>
              simp [Printer.work, Printer.room, Printer.access, Printer.setRunning, hrunning, Point.work]
          | store n =>
              have hlimit := hstore.2
              simp only [Printer.work, Printer.room, Printer.access, Printer.setRunning, hrunning, Point.work,
                Option.elim_some]
              omega
          | wait =>
              cases t with
              | timer1_ =>
                  simp only [Printer.work, Printer.room, Printer.access, Printer.setBound, Printer.setRunning,
                    hrunning, Point.work, StrandId.work, Option.elim_some]
                  omega
              | timer2_ =>
                  simp only [Printer.work, Printer.room, Printer.access, Printer.setBound, Printer.setRunning,
                    hrunning, Point.work, StrandId.work, Option.elim_some]
                  omega
          | leave =>
              simp [Printer.work, Printer.room, Printer.access, Printer.setRunning, hrunning, Point.work]
      | strand2_ =>
          obtain ⟨rfl, -, -⟩ := hplaced.strand2 t point hrunning
          have hrunning : p.strand2_ = some ⟨.timer2_, point⟩ := hrunning
          cases point with
          | check =>
              by_cases hlt : p.count_ < 100
              · simp [Printer.work, Printer.room, Printer.access, Printer.setRunning, hrunning, hlt,
                  Point.work]
              · simp [Printer.work, Printer.room, Printer.access, Printer.setRunning, hrunning, hlt,
                  Point.work]
          | print =>
              simp [Printer.work, Printer.room, Printer.access, Printer.setRunning, hrunning, Point.work]
          | load =>
              simp [Printer.work, Printer.room, Printer.access, Printer.setRunning, hrunning, Point.work]
          | store n =>
              have hroom := p.room_store_le (some ⟨.timer2_, .wait⟩) n
              simp only [Printer.work, Printer.access, Printer.setRunning, hrunning, Point.work,
                Option.elim_some]
              omega
          | wait =>
              simp only [Printer.work, Printer.room, Printer.access, Printer.setBound, Printer.setRunning,
                hrunning, Point.work, StrandId.work, Option.elim_some]
              omega
          | leave =>
              simp [Printer.work, Printer.room, Printer.access, Printer.setRunning, hrunning, Point.work]

/-- A run from the constructor on. -/
theorem printer_length_le {es : List PrinterEvent} (h : printerMachine.exec .new es = some p) :
    es.length ≤ 1445 := by
  have hstep : ∀ p e q, Placed p ∧ Counting p → printerMachine.step p e = some q →
      (Placed q ∧ Counting q) ∧ q.work < p.work := by
    rintro p e q ⟨hplaced, hcounting⟩ hstep
    exact ⟨⟨hplaced.step hstep, hcounting.step hplaced hstep⟩, Printer.work_lt hcounting hplaced hstep⟩
  have hle := Machine.length_add_measure_le hstep ⟨.new, .new⟩ h
  have hwork : Printer.new.work = 1445 := rfl
  omega

/-! ## Counting too far -/

/-- A whole call of `print1`. -/
def print1Events : List PrinterEvent := .begins .timer1_ :: List.replicate 6 (.access .strand_)

/-- The state when `print1` has been called so often and `print2` has not. -/
def counted (n : ℕ) : Printer :=
  ⟨none, none, some .strand_, some .strand2_, n, (List.range n).map fun i => (.timer1_, i)⟩

theorem exec_print1Events {n : ℕ} (h : n < 100) :
    printerMachine.exec (counted n) print1Events = some (counted (n + 1)) := by
  have hprinted : (counted (n + 1)).printed = (counted n).printed ++ [(.timer1_, n)] := by
    simp [counted, List.range_succ]
  have hexec : printerMachine.exec (counted n) print1Events =
      some { counted (n + 1) with printed := (counted n).printed ++ [(.timer1_, n)] } := by
    simp [print1Events, List.replicate, Machine.exec_cons, printerMachine, counted, Printer.bound,
      Printer.running, Printer.setBound, Printer.setRunning, Printer.access, h]
  rw [hexec, ← hprinted]

theorem exec_counted {n : ℕ} (h : n ≤ 100) :
    printerMachine.exec .new (List.replicate n print1Events).flatten = some (counted n) := by
  induction n with
  | zero => rfl
  | succ n ih =>
      rw [List.replicate_succ', List.flatten_append, Machine.exec_append, ih (Nat.le_of_succ_le h),
        Option.bind_some, List.flatten_singleton, exec_print1Events h]

/-- The call of `print1` at 99 and the first one of `print2`: both find the count below 100, and both count. -/
def togetherEvents : List PrinterEvent :=
  [.begins .timer1_, .access .strand_, .begins .timer2_, .access .strand2_] ++
    List.replicate 5 (.access .strand_) ++ List.replicate 5 (.access .strand2_) ++
    [.begins .timer1_, .access .strand_, .begins .timer2_, .access .strand_]

/-- **What the program prints at its end.** However the accesses of the handlers are interleaved, a run has at
most 1445 steps, and when nothing can happen any more the final count is 100 or 101. It is not always
100. -/
theorem printer_final :
    (∀ es p, printerMachine.exec .new es = some p →
      es.length ≤ 1445 ∧
      ((∀ e, printerMachine.step p e = none) → p.count_ = 100 ∨ p.count_ = 101)) ∧
    ∃ es p, printerMachine.exec .new es = some p ∧ (∀ e, printerMachine.step p e = none) ∧
      p.count_ = 101 := by
  refine ⟨fun es p hexec => ⟨printer_length_le hexec, count_of_atRest ⟨_, es, rfl, hexec⟩⟩, ?_⟩
  have htogether : ∃ p, printerMachine.exec (counted 99) togetherEvents = some p ∧
      (p.strand_ = none ∧ p.strand2_ = none ∧ p.timer1_ = none ∧ p.timer2_ = none) ∧ p.count_ = 101 :=
    ⟨_, rfl, ⟨rfl, rfl, rfl, rfl⟩, rfl⟩
  obtain ⟨p, hexec, hrest, hcount⟩ := htogether
  refine ⟨(List.replicate 99 print1Events).flatten ++ togetherEvents, p, ?_,
    printer_atRest_iff.2 hrest, hcount⟩
  rw [Machine.exec_append, exec_counted (by decide), Option.bind_some, hexec]

/-! ## Counting in order -/

/-- A handler begins when no other one runs. -/
def Serial (p : Printer) : PrinterEvent → Prop
  | .begins _ => p.strand_ = none ∧ p.strand2_ = none
  | .access _ => True

instance : ∀ p e, Decidable (Serial p e)
  | p, .begins _ => inferInstanceAs (Decidable (p.strand_ = none ∧ p.strand2_ = none))
  | _, .access _ => isTrue trivial

/-- The lines printed and the count, where a handler is. -/
def InPlace (count : ℕ) (lines : List ℕ) : Point → Prop
  | .print => lines = List.range count ∧ count < 100
  | .load => lines = List.range (count + 1) ∧ count < 100
  | .store n => lines = List.range n ∧ n = count + 1 ∧ count < 100
  | _ => lines = List.range count ∧ count ≤ 100

/-- What every step keeps when the handlers run one after the other. -/
structure InOrder (p : Printer) : Prop where
  alone : p.strand_ = none ∨ p.strand2_ = none
  busy : ∀ k t point, p.running k = some ⟨t, point⟩ →
    InPlace p.count_ (p.printed.map Prod.snd) point
  idle : p.strand_ = none → p.strand2_ = none →
    p.printed.map Prod.snd = List.range p.count_ ∧ p.count_ ≤ 100

namespace InOrder

theorem new : InOrder .new := ⟨Or.inl rfl, by rintro (_ | _) t point ⟨⟩, fun _ _ => ⟨rfl, Nat.zero_le _⟩⟩

/-- One handler goes on, and there is no other one. -/
theorem setRunning {k : StrandId} {r : Option Running} (hother : ∀ k', k' ≠ k → p.running k' = none)
    (hbusy : ∀ t point, r = some ⟨t, point⟩ → InPlace p.count_ (p.printed.map Prod.snd) point)
    (hidle : r = none → p.printed.map Prod.snd = List.range p.count_ ∧ p.count_ ≤ 100) :
    InOrder (p.setRunning r k) := by
  cases k with
  | strand_ =>
      have hnone : p.strand2_ = none := hother .strand2_ nofun
      refine ⟨Or.inr hnone, ?_, fun h _ => hidle h⟩
      intro k t point h
      cases k with
      | strand_ => exact hbusy t point h
      | strand2_ => exact nomatch hnone.symm.trans h
  | strand2_ =>
      have hnone : p.strand_ = none := hother .strand_ nofun
      refine ⟨Or.inl hnone, ?_, fun _ h => hidle h⟩
      intro k t point h
      cases k with
      | strand_ => exact nomatch hnone.symm.trans h
      | strand2_ => exact hbusy t point h

/-- The handler that runs is the only one. -/
theorem other (hp : InOrder p) {k : StrandId} {r : Running} (hrunning : p.running k = some r) :
    ∀ k', k' ≠ k → p.running k' = none := by
  intro k' hne
  rcases hp.alone with hnone | hnone
  · cases k with
    | strand_ => exact nomatch hnone.symm.trans hrunning
    | strand2_ =>
        cases k' with
        | strand_ => exact hnone
        | strand2_ => exact absurd rfl hne
  · cases k with
    | strand2_ => exact nomatch hnone.symm.trans hrunning
    | strand_ =>
        cases k' with
        | strand2_ => exact hnone
        | strand_ => exact absurd rfl hne

theorem access (hp : InOrder p) {k : StrandId} {t : TimerId} {point : Point}
    (hrunning : p.running k = some ⟨t, point⟩) : InOrder (p.access k t point) := by
  have hother := hp.other hrunning
  have hbusy := hp.busy k t point hrunning
  cases point with
  | check =>
      refine setRunning hother ?_ ?_
      · intro t' point' h
        split at h
        · rename_i hlt
          cases h
          exact ⟨hbusy.1, hlt⟩
        · cases h
      · exact fun _ => hbusy
  | print =>
      obtain ⟨hlines, hlt⟩ := hbusy
      refine @setRunning { p with printed := p.printed ++ [(t, p.count_)] } k _ hother ?_ nofun
      rintro t' point' ⟨⟩
      refine ⟨?_, hlt⟩
      rw [List.map_append, hlines, List.range_succ]
      rfl
  | load =>
      refine setRunning hother ?_ nofun
      rintro t' point' ⟨⟩
      exact ⟨hbusy.1, rfl, hbusy.2⟩
  | store n =>
      obtain ⟨hlines, rfl, hlt⟩ := hbusy
      refine @setRunning { p with count_ := p.count_ + 1 } k _ hother ?_ nofun
      rintro t' point' ⟨⟩
      exact ⟨hlines, hlt⟩
  | wait =>
      refine @setRunning (p.setBound (some .strand_) t) k _ ?_ ?_ nofun
      · simpa using hother
      · rintro t' point' ⟨⟩
        rw [Printer.count_setBound, Printer.printed_setBound]
        exact hbusy
  | leave => exact setRunning hother nofun fun _ => hbusy

theorem begins (hp : InOrder p) (hserial : p.strand_ = none ∧ p.strand2_ = none) (t : TimerId)
    (k : StrandId) : InOrder ((p.setBound none t).setRunning (some ⟨t, .check⟩) k) := by
  refine setRunning ?_ ?_ nofun
  · intro k' _
    rw [Printer.running_setBound]
    cases k' with
    | strand_ => exact hserial.1
    | strand2_ => exact hserial.2
  · rintro t' point ⟨⟩
    rw [Printer.count_setBound, Printer.printed_setBound]
    exact hp.idle hserial.1 hserial.2

/-- The lines are the first numbers. -/
theorem lines (hp : InOrder p) : ∃ n, p.printed.map Prod.snd = List.range n := by
  have hbusy : ∀ k t point, p.running k = some ⟨t, point⟩ →
      ∃ n, p.printed.map Prod.snd = List.range n := by
    intro k t point hrunning
    have h := hp.busy k t point hrunning
    cases point <;> exact ⟨_, h.1⟩
  cases hstrand : p.strand_ with
  | some r => exact hbusy .strand_ r.timer r.point hstrand
  | none =>
      cases hstrand2 : p.strand2_ with
      | some r => exact hbusy .strand2_ r.timer r.point hstrand2
      | none => exact ⟨_, (hp.idle hstrand hstrand2).1⟩

theorem step (hp : InOrder p) (hserial : Serial p e) (h : printerMachine.step p e = some q) :
    InOrder q := by
  cases printer_step h with
  | @begins t k _ _ => exact hp.begins hserial t k
  | access hrunning => exact hp.access hrunning

end InOrder

/-- **Handlers that run one after the other count in order.** In every run in which no handler begins beside
another one, the lines printed are the first numbers, and when nothing can happen any more they are all
numbers below 100, and the final count is 100. -/
theorem printer_in_order {es : List PrinterEvent} (hserial : printerMachine.StepsMeet Serial .new es)
    (hexec : printerMachine.exec .new es = some p) :
    p.printed.map Prod.snd = List.range p.printed.length ∧
    ((∀ e, printerMachine.step p e = none) →
      p.printed.map Prod.snd = List.range 100 ∧ p.count_ = 100) := by
  have hp : InOrder p :=
    Machine.exec_preserves_of_stepsMeet (fun p e q hp hserial hstep => hp.step hserial hstep) .new hserial
      hexec
  refine ⟨?_, fun hrest => ?_⟩
  · obtain ⟨n, hn⟩ := hp.lines
    have hlength := congrArg List.length hn
    rw [List.length_map, List.length_range] at hlength
    rw [hn, hlength]
  · obtain ⟨hstrand, hstrand2, -, -⟩ := printer_atRest_iff.1 hrest
    obtain ⟨hlines, hle⟩ := hp.idle hstrand hstrand2
    have hcount : p.count_ = 100 := by
      rcases count_of_atRest ⟨_, es, rfl, hexec⟩ hrest with h | h
      · exact h
      · omega
    exact ⟨hcount ▸ hlines, hcount⟩

/-- A call of each function, one after the other. -/
theorem printer_in_order_two :
    ∃ p, printerMachine.exec .new (print1Events ++ .begins .timer2_ :: List.replicate 6 (.access .strand2_)) =
        some p ∧ p.printed.map Prod.snd = List.range 2 := by
  have hexec : ∃ p, printerMachine.exec .new
      (print1Events ++ .begins .timer2_ :: List.replicate 6 (.access .strand2_)) = some p ∧
        p.printed.length = 2 := ⟨_, rfl, rfl⟩
  obtain ⟨p, hexec, hlength⟩ := hexec
  have hserial : printerMachine.StepsMeet Serial .new
      (print1Events ++ .begins .timer2_ :: List.replicate 6 (.access .strand2_)) := by decide
  exact ⟨p, hexec, hlength ▸ (printer_in_order hserial hexec).1⟩

end AsioExamples.Timer
