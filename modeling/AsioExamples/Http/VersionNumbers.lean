import AsioExamples.Http.RequestGrammar
import AsioExamples.Http.Transitions

/-!
# The version numbers as `int`s

`consume` accumulates a version number as `version * 10 + input - '0'`, digit after digit, and nothing
bounds the number of digits. `versionInts` lists the ints that one call of `consume` computes for it,
as exact numbers, so an overflow is one of them that is no `int`.

`versionInts_fit_iff` gives the inputs on which none overflows: the ones whose two version numbers are
at most `maxVersion`. That is 48 less than the largest `int`, since the sum overflows before `'0'` is
taken off. `ReadUpTo` says what has been read when the parser is in a state of the request line.
-/

set_option autoImplicit false

namespace AsioExamples.Http

open AsioExamples.Cxx AsioExamples.Lib

/-! ## The ints of the version states -/

/-- An `int` holds the number. -/
def FitsInt (n : Int) : Prop := -2 ^ 31 ≤ n ∧ n < 2 ^ 31

instance (n : Int) : Decidable (FitsInt n) := inferInstanceAs (Decidable (_ ∧ _))

/-- The ints of `version * 10 + input - '0'`: the product, the sum and the difference. -/
def digitInts (version : Int32) (input : UInt8) : List Int :=
  [version.toInt * 10, version.toInt * 10 + charToInt input,
    version.toInt * 10 + charToInt input - charToInt (chr '0')]

/-- The ints that a call of `consume` computes for a version number. -/
def RequestParser.versionInts (p : RequestParser) (req : Request) (input : UInt8) : List Int :=
  let c := charToInt input
  match p.state_ with
  | .httpVersionMajorStart => if isDigit c then digitInts req.httpVersionMajor input else []
  | .httpVersionMajor =>
      if input = chr '.' then []
      else if isDigit c then digitInts req.httpVersionMajor input
      else []
  | .httpVersionMinorStart => if isDigit c then digitInts req.httpVersionMinor input else []
  | .httpVersionMinor =>
      if input = chr '\r' then []
      else if isDigit c then digitInts req.httpVersionMinor input
      else []
  | _ => []

/-- The largest version number that is accumulated without an overflow: the largest `int` less the
character `'0'`. -/
def maxVersion : Nat := 2147483599

theorem charToInt_digit {b : UInt8} (hb : DigitByte b) : charToInt b = (digitVal b : Int) + 48 := by
  revert hb
  exact forall_byte (P := fun b => DigitByte b → charToInt b = (digitVal b : Int) + 48)
    (by decide +kernel) b

/-- The ints of one digit fit exactly when the number with the digit is at most `maxVersion`. -/
theorem digitInts_fit_iff {n : Nat} {b : UInt8} (hn : n ≤ maxVersion) (hb : DigitByte b) :
    (∀ m ∈ digitInts (Int32.ofNat n) b, FitsInt m) ↔ 10 * n + digitVal b ≤ maxVersion := by
  have hint : (Int32.ofNat n).toInt = n := by
    apply Int32.toInt_ofNat_of_lt
    rw [maxVersion] at hn
    omega
  have hzero : charToInt (chr '0') = 48 := rfl
  simp only [digitInts, hint, charToInt_digit hb, hzero, List.mem_cons, List.not_mem_nil, or_false,
    forall_eq_or_imp, forall_eq, FitsInt, maxVersion]
  omega

/-! ## Where a version number stands -/

/-- The request line up to its version. -/
def beforeVersion (method : Token) (uri : UriText) : List UInt8 :=
  method.1 ++ chr ' ' :: uri.1 ++ chr ' ' :: str "HTTP/"

/-- The input ends in the digits `ds` of a version number, the major or the minor one. -/
inductive EndsInVersion : List UInt8 → List UInt8 → Prop where
  | major (method : Token) (uri : UriText) (ds : List UInt8) (h : ∀ b ∈ ds, DigitByte b) :
      EndsInVersion (beforeVersion method uri ++ ds) ds
  | minor (method : Token) (uri : UriText) (major : Digits) (ds : List UInt8)
      (h : ∀ b ∈ ds, DigitByte b) :
      EndsInVersion (beforeVersion method uri ++ major.1 ++ chr '.' :: ds) ds

/-- `ds` are digits of a version number of the input `s`, from its first digit on. -/
def VersionDigits (s ds : List UInt8) : Prop := ∃ pre, pre <+: s ∧ EndsInVersion pre ds

/-- A word of a class goes on with a byte of the class. -/
theorem forall_mem_concat {P : UInt8 → Prop} {ws : List UInt8} {b : UInt8} (h : ∀ c ∈ ws, P c)
    (hb : P b) : ∀ c ∈ ws ++ [b], P c :=
  List.forall_mem_append.2 ⟨h, List.forall_mem_singleton.2 hb⟩

theorem EndsInVersion.concat {pre ds : List UInt8} {d : UInt8} (h : EndsInVersion pre ds)
    (hd : DigitByte d) : EndsInVersion (pre ++ [d]) (ds ++ [d]) := by
  cases h with
  | major method uri ds hds =>
      rw [List.append_assoc]
      exact .major method uri (ds ++ [d]) (forall_mem_concat hds hd)
  | minor method uri major ds hds =>
      rw [List.append_assoc, List.cons_append]
      exact .minor method uri major (ds ++ [d]) (forall_mem_concat hds hd)

/-- All but the last of the digits end an input that is one byte shorter. -/
theorem EndsInVersion.of_concat {s ds : List UInt8} {d : UInt8} (h : EndsInVersion s (ds ++ [d])) :
    ∃ pre, s = pre ++ [d] ∧ EndsInVersion pre ds ∧ DigitByte d := by
  generalize hcat : ds ++ [d] = ds' at h
  cases h with
  | major method uri ds' hds =>
      subst hcat
      obtain ⟨hds, hd⟩ := List.forall_mem_append.1 hds
      exact ⟨_, by rw [List.append_assoc], .major method uri ds hds, hd d List.mem_cons_self⟩
  | minor method uri major ds' hds =>
      subst hcat
      obtain ⟨hds, hd⟩ := List.forall_mem_append.1 hds
      exact ⟨_, by simp only [List.append_assoc, List.cons_append], .minor method uri major ds hds,
        hd d List.mem_cons_self⟩

/-! ## What has been read -/

/-- What has been read when the parser is in a state of the request line: a literal is given by the
part of it that is still to come. -/
def ReadUpTo (pre : List UInt8) (t : RequestParser × Request) : Prop :=
  match t.1.state_ with
  | .methodStart => pre = []
  | .method => ∃ method : Token, pre = method.1
  | .uri => ∃ (method : Token) (uri : UriText), pre = method.1 ++ chr ' ' :: uri.1
  | .httpVersionH => ∃ method uri, pre ++ str "HTTP/" = beforeVersion method uri
  | .httpVersionT1 => ∃ method uri, pre ++ str "TTP/" = beforeVersion method uri
  | .httpVersionT2 => ∃ method uri, pre ++ str "TP/" = beforeVersion method uri
  | .httpVersionP => ∃ method uri, pre ++ str "P/" = beforeVersion method uri
  | .httpVersionSlash => ∃ method uri, pre ++ str "/" = beforeVersion method uri
  | .httpVersionMajorStart =>
      (∃ method uri, pre = beforeVersion method uri) ∧
        t.2.httpVersionMajor = 0 ∧ t.2.httpVersionMinor = 0
  | .httpVersionMajor =>
      (∃ method uri, ∃ ds : Digits, pre = beforeVersion method uri ++ ds.1 ∧
        t.2.httpVersionMajor = Int32.ofNat (decimal ds.1)) ∧ t.2.httpVersionMinor = 0
  | .httpVersionMinorStart =>
      (∃ method uri, ∃ major : Digits, pre = beforeVersion method uri ++ major.1 ++ [chr '.']) ∧
        t.2.httpVersionMinor = 0
  | .httpVersionMinor =>
      ∃ method uri, ∃ major ds : Digits,
        pre = beforeVersion method uri ++ major.1 ++ chr '.' :: ds.1 ∧
          t.2.httpVersionMinor = Int32.ofNat (decimal ds.1)
  | _ => True

/-- Digits and one more. -/
def Digits.concat (ds : Digits) {d : UInt8} (hd : DigitByte d) : Digits :=
  ⟨ds.1 ++ [d], by simp, forall_mem_concat ds.2.2 hd⟩

/-- The digit `d` alone. -/
def Digits.single {d : UInt8} (hd : DigitByte d) : Digits := ⟨[d], by simp, List.forall_mem_singleton.2 hd⟩

/-- A digit more in the register of a version number. -/
theorem pushDigit_decimal (ds : List UInt8) {d : UInt8} (hd : DigitByte d) :
    pushDigit (Int32.ofNat (decimal ds)) d = Int32.ofNat (decimal (ds ++ [d])) := by
  rw [pushDigit_ofNat _ hd, decimal_concat]

/-- A step that asks for more is one of `consume`. -/
theorem consume_of_feeder_step {t u : RequestParser × Request} {b : UInt8}
    (h : feeder.step t b = (u, none)) : t.1.consume t.2 b = (.indeterminate, u.1, u.2) := by
  obtain ⟨rfl, hv⟩ := Prod.mk.inj h
  rcases hc : t.1.consume t.2 b with ⟨_ | _ | _, p', r'⟩
  · simp [hc, ResultType.verdict] at hv
  · simp [hc, ResultType.verdict] at hv
  · rfl

/-- A byte `x` of a literal. -/
theorem readUpTo_literal {pre : List UInt8} {x : UInt8} {rest : List UInt8}
    (h : ∃ method uri, pre ++ x :: rest = beforeVersion method uri) :
    ∃ method uri, pre ++ [x] ++ rest = beforeVersion method uri := by
  simpa using h

/-- **A byte that asks for more keeps what is known of the bytes read.** -/
theorem readUpTo_step {pre : List UInt8} {t u : RequestParser × Request} {b : UInt8}
    (h : ReadUpTo pre t) (hstep : feeder.step t b = (u, none)) : ReadUpTo (pre ++ [b]) u := by
  obtain ⟨⟨q⟩, r⟩ := t
  obtain ⟨⟨q'⟩, r'⟩ := u
  have htransition : Transition q r b q' r' := transition_of_consume (consume_of_feeder_step hstep)
  cases htransition with
  | methodStart hb =>
      have hpre : pre = [] := h
      subst hpre
      exact ⟨⟨[b], by simp, List.forall_mem_singleton.2 hb⟩, rfl⟩
  | method hb =>
      obtain ⟨method, rfl⟩ := h
      exact ⟨⟨method.1 ++ [b], by simp, forall_mem_concat method.2.2 hb⟩, rfl⟩
  | methodEnd =>
      obtain ⟨method, rfl⟩ := h
      exact ⟨method, ⟨[], by simp⟩, rfl⟩
  | uri hne hb =>
      obtain ⟨method, uri, rfl⟩ := h
      exact ⟨method, ⟨uri.1 ++ [b], forall_mem_concat uri.2 ⟨hne, hb⟩⟩, by simp⟩
  | uriEnd =>
      obtain ⟨method, uri, rfl⟩ := h
      exact ⟨method, uri, by simp [beforeVersion]⟩
  | httpVersionH | httpVersionT1 | httpVersionT2 | httpVersionP => exact readUpTo_literal h
  | httpVersionSlash => exact ⟨h, rfl, rfl⟩
  | majorStart hb =>
      obtain ⟨⟨method, uri, rfl⟩, hmajor, hminor⟩ := h
      refine ⟨⟨method, uri, .single hb, rfl, ?_⟩, hminor⟩
      have hzero : r.httpVersionMajor = Int32.ofNat (decimal []) := hmajor
      simp only [hzero, pushDigit_decimal [] hb]
      rfl
  | major hb =>
      obtain ⟨⟨method, uri, ds, rfl, hmajor⟩, hminor⟩ := h
      refine ⟨⟨method, uri, ds.concat hb, by simp [Digits.concat], ?_⟩, hminor⟩
      have hds : r.httpVersionMajor = Int32.ofNat (decimal ds.1) := hmajor
      simp only [hds, pushDigit_decimal ds.1 hb]
      rfl
  | majorEnd =>
      obtain ⟨⟨method, uri, ds, rfl, -⟩, hminor⟩ := h
      exact ⟨⟨method, uri, ds, rfl⟩, hminor⟩
  | minorStart hb =>
      obtain ⟨⟨method, uri, major, rfl⟩, hminor⟩ := h
      refine ⟨method, uri, major, .single hb, by simp [Digits.single], ?_⟩
      have hzero : r.httpVersionMinor = Int32.ofNat (decimal []) := hminor
      simp only [hzero, pushDigit_decimal [] hb]
      rfl
  | minor hb =>
      obtain ⟨method, uri, major, ds, rfl, hminor⟩ := h
      refine ⟨method, uri, major, ds.concat hb, by simp [Digits.concat], ?_⟩
      have hds : r.httpVersionMinor = Int32.ofNat (decimal ds.1) := hminor
      simp only [hds, pushDigit_decimal ds.1 hb]
      rfl
  -- from the end of the request line on, nothing is stated
  | _ => exact trivial

/-! ## Runs over a version number -/

/-- A word that the state `q` reads into the register `add`. -/
theorem run_word {q : State} {P : UInt8 → Prop} {add : Request → List UInt8 → Request}
    (hfold : ∀ r ws, ws.foldl (fun r b => add r [b]) r = add r ws)
    (hmore : ∀ r b, P b → (⟨q⟩ : RequestParser).consume r b = (.indeterminate, ⟨q⟩, add r [b]))
    {ws : List UInt8} (r : Request) (h : ∀ b ∈ ws, P b) :
    feeder.run (⟨q⟩, r) ws = ⟨(⟨q⟩, add r ws), none, []⟩ := by
  rw [← hfold]
  exact feeder.run_loop (q := fun r => (⟨q⟩, r)) (fun r b hb => feeder_step_more (hmore r b hb)) r h

/-- A word whose first byte the state `first` reads and the others the state `loop`. -/
theorem run_firstWord {first loop : State} {P : UInt8 → Prop}
    {add : Request → List UInt8 → Request}
    (hfold : ∀ r ws, ws.foldl (fun r b => add r [b]) r = add r ws)
    (hfirst : ∀ r b, P b →
      (⟨first⟩ : RequestParser).consume r b = (.indeterminate, ⟨loop⟩, add r [b]))
    (hmore : ∀ r b, P b →
      (⟨loop⟩ : RequestParser).consume r b = (.indeterminate, ⟨loop⟩, add r [b]))
    {ws : List UInt8} (r : Request) (h : ∀ b ∈ ws, P b) :
    ∃ q, (q = first ∧ ws = [] ∨ q = loop) ∧
      feeder.run (⟨first⟩, r) ws = ⟨(⟨q⟩, add r ws), none, []⟩ := by
  cases ws with
  | nil =>
      have hnil : add r [] = r := (hfold r []).symm
      exact ⟨first, Or.inl ⟨rfl, rfl⟩, by rw [hnil, feeder.run_nil]⟩
  | cons b ws =>
      obtain ⟨hb, hws⟩ := List.forall_mem_cons.1 h
      have hadd : add (add r [b]) ws = add r (b :: ws) := by
        rw [← hfold r (b :: ws), List.foldl_cons, hfold]
      refine ⟨loop, Or.inr rfl, ?_⟩
      rw [feeder.run_cons_of_none (feeder_step_more (hfirst r b hb)), ← hadd]
      exact run_word hfold hmore _ hws

/-- The request where the major version begins: both version numbers are zero. -/
def Request.atVersion (r : Request) (method : Token) (uri : UriText) : Request :=
  { (r.addMethod method.1).addUri uri.1 with httpVersionMajor := 0, httpVersionMinor := 0 }

theorem run_beforeVersion (r : Request) (method : Token) (uri : UriText) :
    feeder.run (.new, r) (beforeVersion method uri) =
      ⟨(⟨.httpVersionMajorStart⟩, r.atVersion method uri), none, []⟩ := by
  obtain ⟨q, hq, hmethod⟩ := run_firstWord foldl_addMethod (fun r b hb => consume_methodStart r hb)
    (fun r b hb => consume_method r hb) r method.2.2
  obtain rfl : q = .method := hq.resolve_left fun hnil => method.2.1 hnil.2
  -- the method, the uri and the literal, each from where the one before has stopped
  rw [beforeVersion, List.append_assoc]
  apply feeder.run_append_eq hmethod
  rw [List.cons_append, feeder.run_cons_of_none (feeder_step_more rfl)]
  exact feeder.run_append_eq (run_word foldl_addUri (fun r b hb => consume_uri r hb) _ uri.2) rfl

/-- The digits of the major version. -/
theorem run_major (r : Request) {ds : List UInt8} (h : ∀ b ∈ ds, DigitByte b) :
    ∃ q, (q = .httpVersionMajorStart ∧ ds = [] ∨ q = .httpVersionMajor) ∧
      feeder.run (⟨.httpVersionMajorStart⟩, r) ds = ⟨(⟨q⟩, r.addMajor ds), none, []⟩ :=
  run_firstWord foldl_addMajor (fun r _ hb => consume_majorStart r hb)
    (fun r _ hb => consume_major r hb) r h

/-- The digits of the minor version. -/
theorem run_minor (r : Request) {ds : List UInt8} (h : ∀ b ∈ ds, DigitByte b) :
    ∃ q, (q = .httpVersionMinorStart ∧ ds = [] ∨ q = .httpVersionMinor) ∧
      feeder.run (⟨.httpVersionMinorStart⟩, r) ds = ⟨(⟨q⟩, r.addMinor ds), none, []⟩ :=
  run_firstWord foldl_addMinor (fun r _ hb => consume_minorStart r hb)
    (fun r _ hb => consume_minor r hb) r h

/-- In the states that read a digit into a version number, the ints are those of the digit. -/
theorem versionInts_of_major {q : State} {r : Request} {n : Nat} {d : UInt8}
    (hq : q = .httpVersionMajorStart ∨ q = .httpVersionMajor)
    (hn : r.httpVersionMajor = Int32.ofNat n) (hd : DigitByte d) :
    (⟨q⟩ : RequestParser).versionInts r d = digitInts (Int32.ofNat n) d := by
  have hne : d ≠ chr '.' := by rintro rfl; exact absurd hd (by decide)
  rcases hq with rfl | rfl <;>
    simp only [RequestParser.versionInts, isDigit_iff, hd, hne, hn, if_true, if_false]

theorem versionInts_of_minor {q : State} {r : Request} {n : Nat} {d : UInt8}
    (hq : q = .httpVersionMinorStart ∨ q = .httpVersionMinor)
    (hn : r.httpVersionMinor = Int32.ofNat n) (hd : DigitByte d) :
    (⟨q⟩ : RequestParser).versionInts r d = digitInts (Int32.ofNat n) d := by
  have hne : d ≠ chr '\r' := by rintro rfl; exact absurd hd (by decide)
  rcases hq with rfl | rfl <;>
    simp only [RequestParser.versionInts, isDigit_iff, hd, hne, hn, if_true, if_false]

/-- **An input that ends in a version number**: the parser asks for more, and at a further digit it
computes the ints of that digit. -/
theorem run_of_endsInVersion (major minor : Int32) {pre ds : List UInt8} (h : EndsInVersion pre ds) :
    ∃ t, feeder.run (.new, .fresh major minor) pre = ⟨t, none, []⟩ ∧
      ∀ d, DigitByte d → t.1.versionInts t.2 d = digitInts (Int32.ofNat (decimal ds)) d := by
  cases h with
  | major method uri ds hds =>
      obtain ⟨q, hq, hrun⟩ := run_major ((Request.fresh major minor).atVersion method uri) hds
      refine ⟨_, feeder.run_append_eq (run_beforeVersion _ method uri) hrun, fun d hd => ?_⟩
      exact versionInts_of_major (hq.imp_left And.left) (foldl_pushDigit hds) hd
  | minor method uri major' ds hds =>
      obtain ⟨q, hq, hrun⟩ :=
        run_major ((Request.fresh major minor).atVersion method uri) major'.2.2
      -- the major version has a digit, so the point follows in the state of its loop
      obtain rfl : q = .httpVersionMajor := hq.resolve_left fun hnil => major'.2.1 hnil.2
      have hmajor := feeder.run_append_eq (run_beforeVersion _ method uri) hrun
      obtain ⟨q, hq, hrun⟩ :=
        run_minor (((Request.fresh major minor).atVersion method uri).addMajor major'.1) hds
      have hpoint : feeder.run (⟨.httpVersionMajor⟩, _) (chr '.' :: ds) = _ :=
        (feeder.run_cons_of_none (feeder_step_more rfl) ds).trans hrun
      refine ⟨_, feeder.run_append_eq hmajor hpoint, fun d hd => ?_⟩
      exact versionInts_of_minor (hq.imp_left And.left) (foldl_pushDigit hds) hd

/-- Where a call of `consume` computes ints for a version number, the input before ends in it. -/
theorem endsInVersion_of_run {major minor : Int32} {pre : List UInt8}
    {t : RequestParser × Request} {d : UInt8}
    (hrun : feeder.run (.new, .fresh major minor) pre = ⟨t, none, []⟩)
    (hne : t.1.versionInts t.2 d ≠ []) :
    DigitByte d ∧ ∃ ds, EndsInVersion pre ds ∧
      t.1.versionInts t.2 d = digitInts (Int32.ofNat (decimal ds)) d := by
  have hread : ReadUpTo pre t := feeder.run_invariant rfl
    (fun pre t b u h hstep => readUpTo_step h hstep) hrun
  obtain ⟨⟨q⟩, r⟩ := t
  have hd : DigitByte d := by
    by_contra hd
    cases q <;> simp [RequestParser.versionInts, isDigit_iff, hd] at hne
  refine ⟨hd, ?_⟩
  cases q with
  | httpVersionMajorStart =>
      obtain ⟨⟨method, uri, rfl⟩, hmajor, -⟩ := hread
      refine ⟨[], ?_, versionInts_of_major (Or.inl rfl) hmajor hd⟩
      simpa using EndsInVersion.major method uri [] (by simp)
  | httpVersionMajor =>
      obtain ⟨⟨method, uri, ds, rfl, hmajor⟩, -⟩ := hread
      exact ⟨ds.1, .major method uri ds.1 ds.2.2, versionInts_of_major (Or.inr rfl) hmajor hd⟩
  | httpVersionMinorStart =>
      obtain ⟨⟨method, uri, major', rfl⟩, hminor⟩ := hread
      exact ⟨[], .minor method uri major' [] (by simp), versionInts_of_minor (Or.inl rfl) hminor hd⟩
  | httpVersionMinor =>
      obtain ⟨method, uri, major', ds, rfl, hminor⟩ := hread
      exact ⟨ds.1, .minor method uri major' ds.1 ds.2.2,
        versionInts_of_minor (Or.inr rfl) hminor hd⟩
  | _ => exact absurd rfl hne

/-! ## The inputs without an overflow -/

/-- **The version numbers overflow exactly beyond `maxVersion`.** Whatever bytes are fed to a new parser
with a new request, in whatever chunks: every int that is computed for a version number fits an `int`
exactly when every run of digits of a version number in the input is at most `maxVersion`. -/
theorem versionInts_fit_iff (major minor : Int32) (chunks : List (List UInt8)) :
    (∀ call ∈ feeder.callsChunks (.new, .fresh major minor) chunks,
        ∀ n ∈ call.1.1.versionInts call.1.2 call.2, FitsInt n) ↔
      ∀ ds, VersionDigits chunks.flatten ds → decimal ds ≤ maxVersion := by
  rw [feeder.callsChunks_eq]
  constructor
  · intro hfit ds
    -- the digits before the last one are as small, so the register holds them exactly
    induction ds using List.reverseRecOn with
    | nil =>
        intro _
        exact Nat.zero_le _
    | append_singleton ds d ih =>
        rintro ⟨pre', ⟨post, hpost⟩, hends⟩
        obtain ⟨pre, rfl, hends, hd⟩ := hends.of_concat
        have hle := ih ⟨pre, ⟨[d] ++ post, by simpa using hpost⟩, hends⟩
        obtain ⟨t, hrun, hints⟩ := run_of_endsInVersion major minor hends
        have hcall := feeder.mem_calls_iff.2 ⟨pre, post, by simpa using hpost.symm, hrun⟩
        rw [decimal_concat, ← digitInts_fit_iff hle hd, ← hints d hd]
        exact hfit (t, d) hcall
  · rintro hbound ⟨t, d⟩ hcall
    obtain ⟨pre, post, hpost, hrun⟩ := feeder.mem_calls_iff.1 hcall
    by_cases hne : t.1.versionInts t.2 d = []
    · simp [hne]
    · obtain ⟨hd, ds, hends, hints⟩ := endsInVersion_of_run hrun hne
      have hle := hbound ds ⟨pre, ⟨d :: post, hpost.symm⟩, hends⟩
      have hle' := hbound (ds ++ [d]) ⟨pre ++ [d], ⟨post, by simp [hpost]⟩, hends.concat hd⟩
      simp only [hints]
      rwa [digitInts_fit_iff hle hd, ← decimal_concat]

/-- A version number of ten digits, of which the last one overflows the sum. -/
theorem versionInts_overflow :
    ¬ ∀ call ∈ feeder.callsChunks (.new, .fresh 0 0) [str "GET / HTTP/2147483600"],
      ∀ n ∈ call.1.1.versionInts call.1.2 call.2, FitsInt n := by
  decide +kernel

end AsioExamples.Http
