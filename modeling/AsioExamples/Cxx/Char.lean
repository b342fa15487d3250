import Mathlib.Data.UInt
import Mathlib.Data.List.TakeWhile

/-!
# Characters and C strings

A `char` is a byte, `UInt8`. Where the code promotes it to `int` the byte is read as a signed
`char` (`charToInt`), as the compilers the code is written for do; every predicate below gives the
same answer on the bytes from 128 on whichever sign they take.
-/

set_option autoImplicit false

namespace AsioExamples.Cxx

/-- A character literal. -/
abbrev chr (c : Char) : UInt8 := c.toUInt8

/-- A character string literal, without its terminating NUL. -/
def str (s : String) : List UInt8 := s.toList.map chr

/-- A line end. -/
def crlf : List UInt8 := [chr '\r', chr '\n']

/-- The promotion of a `char` to `int`. -/
def charToInt (c : UInt8) : Int := c.toInt8.toInt

/-- What a `const char*` denotes in a byte string: the bytes before the first NUL. -/
def cStr (s : List UInt8) : List UInt8 := s.takeWhile (· ≠ 0)

/-- `std::isspace` in the C locale. -/
def isspace (c : UInt8) : Bool := c = chr ' ' || (9 ≤ c && c ≤ 13)

/-- `std::isdigit`. -/
def isdigit (c : UInt8) : Bool := chr '0' ≤ c && c ≤ chr '9'

/-- The value of a decimal digit. -/
def digitVal (c : UInt8) : Nat := c.toNat - 48

/-- The value of a decimal numeral, most significant digit first. -/
def decimal (ds : List UInt8) : Nat := ds.foldl (fun n d => 10 * n + digitVal d) 0

theorem decimal_concat (ds : List UInt8) (d : UInt8) :
    decimal (ds ++ [d]) = 10 * decimal ds + digitVal d := by
  rw [decimal, List.foldl_append]
  rfl

/-- A statement about all bytes is one about the 256 numbers below 256. -/
theorem forall_byte {P : UInt8 → Prop} (h : ∀ n : Fin 256, P (UInt8.ofFin n)) (c : UInt8) : P c :=
  h c.toFin

theorem cStr_isPrefix (s : List UInt8) : cStr s <+: s := List.takeWhile_prefix _

theorem cStr_cStr (s : List UInt8) : cStr (cStr s) = cStr s := by
  simp only [cStr, List.takeWhile_idem]

/-- A byte string is its C string, or goes on behind it with a NUL. -/
theorem eq_cStr_or (s : List UInt8) : s = cStr s ∨ ∃ w, s = cStr s ++ 0 :: w := by
  have hsplit : cStr s ++ s.dropWhile (· ≠ 0) = s := List.takeWhile_append_dropWhile
  cases hrest : s.dropWhile (· ≠ 0) with
  | nil =>
      rw [hrest, List.append_nil] at hsplit
      exact Or.inl hsplit.symm
  | cons c w =>
      have hnul : c = 0 := by
        have hhead := List.head?_dropWhile_not (fun c : UInt8 => decide (c ≠ 0)) s
        rw [hrest] at hhead
        simpa using hhead
      rw [hrest, hnul] at hsplit
      exact Or.inr ⟨w, hsplit.symm⟩

theorem cStr_append_of_notMem {s t : List UInt8} (h : (0 : UInt8) ∉ s) :
    cStr (s ++ t) = s ++ cStr t := by
  rw [cStr, List.takeWhile_append_of_pos, cStr]
  intro c hc
  have : c ≠ 0 := fun h0 => h (h0 ▸ hc)
  simpa using this

end AsioExamples.Cxx
