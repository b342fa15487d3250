import Mathlib.Data.List.TakeWhile
import Mathlib.Data.Nat.Digits.Lemmas
import AsioExamples.Cxx.Char

/-!
# Numbers read from and written to text

`std::atoi`, the extraction `stream >> std::hex >> value` into an `int`, the conversions of an `int`
to `char` and to `std::size_t` and back, `std::to_string` and the format `%4d`. Texts are byte strings.

What is written reads back: a numeral has the value it was written for (`decimal_digits`), also behind
the blanks of a field width (`atoi_replicate_digits`).
-/

set_option autoImplicit false

namespace AsioExamples.Cxx

/-- Leave out the leading white space. -/
def skipSpace (s : List UInt8) : List UInt8 := s.dropWhile isspace

/-- Read an optional sign: whether it is a minus, and the text after it. -/
def readSign : List UInt8 → Bool × List UInt8
  | c :: s => if c = chr '-' then (true, s) else if c = chr '+' then (false, s) else (false, c :: s)
  | [] => (false, [])

/-- A magnitude with a sign. -/
def signed (negative : Bool) (n : Nat) : Int := if negative then -n else n

/-- `std::atoi`: white space, a sign and the digits that follow; `0` where there is no digit. Its
result is exact as long as it fits an `int`. -/
def atoi (s : List UInt8) : Int :=
  let r := readSign (skipSpace (cStr s))
  signed r.1 (decimal (r.2.takeWhile isdigit))

/-- The value of a hexadecimal digit. -/
def hexVal (c : UInt8) : Option Nat :=
  if chr '0' ≤ c ∧ c ≤ chr '9' then some (c.toNat - 48)
  else if chr 'a' ≤ c ∧ c ≤ chr 'f' then some (c.toNat - 87)
  else if chr 'A' ≤ c ∧ c ≤ chr 'F' then some (c.toNat - 55)
  else none

/-- A hexadecimal digit. -/
def isxdigit (c : UInt8) : Bool := (hexVal c).isSome

/-- The value of a hexadecimal numeral. -/
def hexadecimal (ds : List UInt8) : Nat := ds.foldl (fun n d => 16 * n + (hexVal d).getD 0) 0

/-- Leave out a prefix `0x`. -/
def skipHexPrefix : List UInt8 → List UInt8
  | c :: d :: s =>
      if c = chr '0' ∧ (d = chr 'x' ∨ d = chr 'X') then s else c :: d :: s
  | s => s

/-- `std::istringstream is(s); is >> std::hex >> value`: white space, a sign, a prefix `0x` and the
longest run of hexadecimal digits. It fails without a digit, and where the number does not fit an
`int`. -/
def extractHex (s : List UInt8) : Option Int :=
  let r := readSign (skipSpace s)
  let ds := (skipHexPrefix r.2).takeWhile isxdigit
  let value := signed r.1 (hexadecimal ds)
  if ds = [] then none
  else if -2 ^ 31 ≤ value ∧ value < 2 ^ 31 then some value
  else none

/-- `static_cast<char>` of an `int`. -/
def toChar (n : Int) : UInt8 := UInt8.ofNat (n % 256).toNat

/-- The conversion of an `int` to `std::size_t`, 64 bits wide. -/
def toSize (n : Int) : Nat := (n % 2 ^ 64).toNat

/-- `static_cast<int>` of a `std::size_t`. -/
def toInt (n : Nat) : Int := Int.bmod n (2 ^ 32)

/-- The decimal digits of a number, most significant first. -/
def digits (n : Nat) : List UInt8 :=
  if n = 0 then [chr '0'] else (Nat.digits 10 n).reverse.map fun d => UInt8.ofNat (48 + d)

/-- `std::to_string` of a `std::size_t`. -/
def stdToString (n : Nat) : List UInt8 := digits n

/-- The text of an `int`, as `%d` writes it. -/
def itoa (n : Int) : List UInt8 := if n < 0 then chr '-' :: digits n.natAbs else digits n.natAbs

/-- The text that `sprintf` writes for `%4d`: right-justified in a field of four characters. -/
def sprintf4d (n : Int) : List UInt8 := (itoa n).leftpad 4 (chr ' ')

/-! ## What `std::atoi` reads -/

/-- A text as `std::atoi` reads it: white space, a sign and digits, each of them possibly missing, and
then what it leaves unread. Nothing unread could have been read on. -/
structure Numeral where
  blanks : List UInt8
  sign : List UInt8
  digits : List UInt8
  rest : List UInt8
  blanks_isspace : ∀ c ∈ blanks, isspace c = true
  sign_eq : sign = [] ∨ sign = [chr '-'] ∨ sign = [chr '+']
  digits_isdigit : ∀ c ∈ digits, isdigit c = true
  rest_head : ∀ c ∈ rest.head?, isdigit c = false
  unsigned_head : sign = [] → digits = [] →
    ∀ c ∈ rest.head?, isspace c = false ∧ c ≠ chr '-' ∧ c ≠ chr '+'

/-- The text of a numeral. -/
def Numeral.text (N : Numeral) : List UInt8 := N.blanks ++ N.sign ++ N.digits ++ N.rest

/-- The number that a numeral stands for. -/
def Numeral.value (N : Numeral) : Int := signed (N.sign = [chr '-']) (decimal N.digits)

/-- No digit is a NUL, white space or a sign. -/
theorem isdigit_spec {c : UInt8} (h : isdigit c = true) :
    c ≠ 0 ∧ isspace c = false ∧ c ≠ chr '-' ∧ c ≠ chr '+' := by
  revert h
  apply forall_byte (P := fun c => isdigit c = true →
    c ≠ 0 ∧ isspace c = false ∧ c ≠ chr '-' ∧ c ≠ chr '+')
  decide +kernel

theorem skipSpace_cons_of_neg {c : UInt8} (h : isspace c = false) (s : List UInt8) :
    skipSpace (c :: s) = c :: s := by
  rw [skipSpace, List.dropWhile_cons_of_neg (by simp [h])]

theorem readSign_cons_of_ne {c : UInt8} (h₁ : c ≠ chr '-') (h₂ : c ≠ chr '+') (s : List UInt8) :
    readSign (c :: s) = (false, c :: s) := by
  rw [readSign, if_neg h₁, if_neg h₂]

theorem skipSpace_append {w t : List UInt8} (hw : ∀ c ∈ w, isspace c = true)
    (ht : ∀ c ∈ t.head?, isspace c = false) : skipSpace (w ++ t) = t := by
  rw [skipSpace, List.dropWhile_append_of_pos hw]
  cases t with
  | nil => rfl
  | cons c t => exact skipSpace_cons_of_neg (ht c rfl) t

theorem readSign_of_unsigned {t : List UInt8} (ht : ∀ c ∈ t.head?, c ≠ chr '-' ∧ c ≠ chr '+') :
    readSign t = (false, t) := by
  cases t with
  | nil => rfl
  | cons c t => exact readSign_cons_of_ne (ht c rfl).1 (ht c rfl).2 t

theorem takeWhile_isdigit {ds t : List UInt8} (hds : ∀ c ∈ ds, isdigit c = true)
    (ht : ∀ c ∈ t.head?, isdigit c = false) : (ds ++ t).takeWhile isdigit = ds := by
  rw [List.takeWhile_append_of_pos hds]
  cases t with
  | nil => simp
  | cons c t => rw [List.takeWhile_cons_of_neg (by simp [ht c rfl]), List.append_nil]

/-- Without a sign, the first byte behind the blanks is a digit or unread. -/
theorem Numeral.head_of_unsigned (N : Numeral) (h : N.sign = []) :
    ∀ c ∈ (N.digits ++ N.rest).head?, isspace c = false ∧ c ≠ chr '-' ∧ c ≠ chr '+' := by
  cases hds : N.digits with
  | nil => exact N.unsigned_head h hds
  | cons d ds =>
      rintro c ⟨⟩
      exact (isdigit_spec (N.digits_isdigit d (hds ▸ List.mem_cons_self))).2

/-- **The value that `std::atoi` gives to a numeral.** -/
theorem atoi_eq_value (N : Numeral) {s : List UInt8} (h : cStr s = N.text) : atoi s = N.value := by
  have hspace : skipSpace N.text = N.sign ++ N.digits ++ N.rest := by
    have htext : N.text = N.blanks ++ (N.sign ++ N.digits ++ N.rest) := by simp [Numeral.text]
    rw [htext]
    apply skipSpace_append N.blanks_isspace
    rcases N.sign_eq with hsign | hsign | hsign
    · rw [hsign, List.nil_append]
      exact fun c hc => (N.head_of_unsigned hsign c hc).1
    · rw [hsign]
      rintro c ⟨⟩
      rfl
    · rw [hsign]
      rintro c ⟨⟩
      rfl
  have hread : readSign (N.sign ++ N.digits ++ N.rest) =
      (decide (N.sign = [chr '-']), N.digits ++ N.rest) := by
    rcases N.sign_eq with hsign | hsign | hsign
    · rw [hsign, List.nil_append]
      exact readSign_of_unsigned fun c hc => (N.head_of_unsigned hsign c hc).2
    · rw [hsign]
      rfl
    · rw [hsign]
      rfl
  rw [atoi, h, hspace, hread, Numeral.value]
  simp only [takeWhile_isdigit N.digits_isdigit N.rest_head]

/-- The sign at the beginning of a text. -/
theorem readSign_spec (t : List UInt8) :
    ∃ sign, t = sign ++ (readSign t).2 ∧ (sign = [] ∨ sign = [chr '-'] ∨ sign = [chr '+']) ∧
      (sign = [] → ∀ c ∈ t.head?, c ≠ chr '-' ∧ c ≠ chr '+') := by
  cases t with
  | nil => exact ⟨[], rfl, Or.inl rfl, by simp⟩
  | cons c t =>
      by_cases hminus : c = chr '-'
      · exact ⟨[chr '-'], by simp [readSign, hminus], Or.inr (Or.inl rfl), by simp⟩
      · by_cases hplus : c = chr '+'
        · refine ⟨[chr '+'], ?_, Or.inr (Or.inr rfl), by simp⟩
          rw [readSign, if_neg hminus, if_pos hplus, hplus]
          rfl
        · refine ⟨[], by simp [readSign, hminus, hplus], Or.inl rfl, ?_⟩
          rintro _ c ⟨⟩
          exact ⟨hminus, hplus⟩

theorem head?_dropWhile_eq_false (p : UInt8 → Bool) (l : List UInt8) :
    ∀ c ∈ (l.dropWhile p).head?, p c = false := by
  intro c hc
  have hnot := List.head?_dropWhile_not p l
  rw [Option.mem_def.1 hc] at hnot
  simpa using hnot

/-- **Every text is a numeral**, with nothing but an unread rest where it begins with none. -/
theorem exists_numeral (s : List UInt8) : ∃ N : Numeral, N.text = s := by
  obtain ⟨sign, hsign, heq, hhead⟩ := readSign_spec (skipSpace s)
  have hspace : s.takeWhile isspace ++ skipSpace s = s := List.takeWhile_append_dropWhile
  have hdigits : (readSign (skipSpace s)).2.takeWhile isdigit ++
      (readSign (skipSpace s)).2.dropWhile isdigit = (readSign (skipSpace s)).2 :=
    List.takeWhile_append_dropWhile
  refine ⟨⟨s.takeWhile isspace, sign, (readSign (skipSpace s)).2.takeWhile isdigit,
    (readSign (skipSpace s)).2.dropWhile isdigit, fun c => List.mem_takeWhile_imp, heq,
    fun c => List.mem_takeWhile_imp, head?_dropWhile_eq_false isdigit _, ?_⟩, ?_⟩
  · intro hnil hds c hc
    -- without a sign and a digit, the rest is all that stands behind the blanks
    rw [hds, List.nil_append] at hdigits
    rw [hnil, List.nil_append] at hsign
    rw [hdigits, ← hsign] at hc
    exact ⟨head?_dropWhile_eq_false isspace s c hc, hhead hnil c hc⟩
  · simp only [Numeral.text, List.append_assoc]
    rw [hdigits, ← hsign, hspace]

/-- A numeral of `k` digits is below `10 ^ k`. -/
theorem decimal_lt {ds : List UInt8} (h : ∀ c ∈ ds, isdigit c = true) :
    decimal ds < 10 ^ ds.length := by
  induction ds using List.reverseRecOn with
  | nil => decide
  | append_singleton ds d ih =>
      obtain ⟨hds, hd⟩ := List.forall_mem_append.1 h
      have hval : digitVal d ≤ 9 := by
        have hdigit := hd d List.mem_cons_self
        revert hdigit
        exact forall_byte (P := fun c => isdigit c = true → digitVal c ≤ 9) (by decide +kernel) d
      have hlt := ih hds
      rw [decimal_concat, List.length_append, List.length_singleton, Nat.pow_succ]
      omega

/-! ## Reading back what was written -/

theorem isdigit_ofNat {d : Nat} (h : d < 10) : isdigit (UInt8.ofNat (48 + d)) = true := by
  interval_cases d <;> decide

theorem digitVal_ofNat {d : Nat} (h : d < 10) : digitVal (UInt8.ofNat (48 + d)) = d := by
  interval_cases d <;> rfl

/-- A numeral has digits only. -/
theorem isdigit_of_mem_digits {n : Nat} {c : UInt8} (h : c ∈ digits n) : isdigit c = true := by
  rw [digits] at h
  split at h
  · rw [List.mem_singleton.1 h]
    decide
  · obtain ⟨d, hd, rfl⟩ := List.mem_map.1 h
    exact isdigit_ofNat (Nat.digits_lt_base (by decide) (List.mem_reverse.1 hd))

theorem digits_ne_nil (n : Nat) : digits n ≠ [] := by
  rw [digits]
  split
  · exact List.cons_ne_nil _ _
  · rename_i h
    simpa [Nat.digits_eq_nil_iff_eq_zero] using h

/-- A numeral of at most `k` digits. -/
theorem length_digits_le {n k : Nat} (hk : 0 < k) (h : n < 10 ^ k) : (digits n).length ≤ k := by
  rw [digits]
  split
  · exact hk
  · rw [List.length_map, List.length_reverse]
    exact (Nat.digits_length_le_iff (by decide) n).2 h

/-- The value of the digits of a number, least significant first, is the number. -/
theorem foldr_digitVal {ds : List Nat} (h : ∀ d ∈ ds, d < 10) :
    (ds.map fun d => UInt8.ofNat (48 + d)).foldr (fun c n => 10 * n + digitVal c) 0 =
      Nat.ofDigits 10 ds := by
  induction ds with
  | nil => rfl
  | cons d ds ih =>
      obtain ⟨hd, hds⟩ := List.forall_mem_cons.1 h
      rw [List.map_cons, List.foldr_cons, ih hds, digitVal_ofNat hd, Nat.ofDigits_cons]
      exact Nat.add_comm _ _

/-- **A numeral has the value it was written for.** -/
theorem decimal_digits (n : Nat) : decimal (digits n) = n := by
  rw [digits]
  split
  · rename_i h
    rw [h]
    rfl
  · rw [decimal, List.map_reverse, List.foldl_reverse,
      foldr_digitVal fun d => Nat.digits_lt_base (by decide), Nat.ofDigits_digits]

/-- There is no NUL in blanks and digits. -/
theorem cStr_replicate_digits (k n : Nat) :
    cStr (List.replicate k (chr ' ') ++ digits n) = List.replicate k (chr ' ') ++ digits n := by
  rw [cStr, List.takeWhile_eq_self_iff]
  intro c hc
  rcases List.mem_append.1 hc with hc | hc
  · rw [List.eq_of_mem_replicate hc]
    decide
  · simpa using (isdigit_spec (isdigit_of_mem_digits hc)).1

/-- `std::atoi` reads the number behind any number of blanks. -/
theorem atoi_replicate_digits (k n : Nat) : atoi (List.replicate k (chr ' ') ++ digits n) = n := by
  have hblanks : ∀ c ∈ List.replicate k (chr ' '), isspace c = true := by
    intro c hc
    rw [List.eq_of_mem_replicate hc]
    decide
  -- blanks and digits, without a sign and with nothing unread
  let N : Numeral := ⟨List.replicate k (chr ' '), [], digits n, [], hblanks, Or.inl rfl,
    fun c => isdigit_of_mem_digits, by simp, fun _ hnil => absurd hnil (digits_ne_nil n)⟩
  have htext : N.text = List.replicate k (chr ' ') ++ digits n := by simp [Numeral.text, N]
  have hvalue : N.value = n := by simp [Numeral.value, N, decimal_digits, signed]
  rw [atoi_eq_value N ((cStr_replicate_digits k n).trans htext.symm), hvalue]

/-- `%4d` writes a number that is not negative as blanks and its digits. -/
theorem sprintf4d_natCast (n : Nat) : sprintf4d n = (digits n).leftpad 4 (chr ' ') := by
  rw [sprintf4d, itoa, if_neg (by omega), Int.natAbs_natCast]

theorem cStr_sprintf4d (n : Nat) : cStr (sprintf4d n) = sprintf4d n := by
  rw [sprintf4d_natCast, List.leftpad]
  exact cStr_replicate_digits _ n

/-- **What `%4d` writes, `std::atoi` reads.** -/
theorem atoi_sprintf4d (n : Nat) : atoi (sprintf4d n) = n := by
  rw [sprintf4d_natCast, List.leftpad]
  exact atoi_replicate_digits _ n

/-- A number of at most four digits fills the field exactly. -/
theorem length_sprintf4d {n : Nat} (h : n < 10 ^ 4) : (sprintf4d n).length = 4 := by
  have hle := length_digits_le (k := 4) (by decide) h
  rw [sprintf4d_natCast, List.length_leftpad]
  omega

/-- The conversions of a small number keep it. -/
theorem toInt_of_lt {n : Nat} (h : n < 2 ^ 31) : toInt n = n := by
  apply Int.bmod_eq_of_le <;> omega

theorem toChar_natCast (n : Nat) : toChar n = UInt8.ofNat n := by
  rw [toChar, ← UInt8.toNat_inj, UInt8.toNat_ofNat', UInt8.toNat_ofNat']
  omega

/-- A negative number is a large `std::size_t`: one that is small after the conversion was so before. -/
theorem toSize_eq_iff {v : Int} {n : Nat} (hv : v.natAbs < 2 ^ 63) (hn : n < 2 ^ 63) :
    toSize v = n ↔ v = n := by
  rw [toSize]
  omega

theorem toSize_natCast {n : Nat} (h : n < 2 ^ 64) : toSize n = n := by
  rw [toSize]
  omega

end AsioExamples.Cxx
