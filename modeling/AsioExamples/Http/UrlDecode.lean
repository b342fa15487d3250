import AsioExamples.Http.RequestHandler

/-!
# What url_decode accepts

Scanning from the left, an encoded string falls into characters that stand for themselves, `+`, and
escapes. `url_decode` reads the two characters of an escape with a formatted extraction, so that an
escape is of one of three kinds: two hexadecimal digits (`Valid`), something else in which the
extraction finds a number (`Lenient`), and what it refuses (`Refused`). A valid encoding is decoded as it
should be (`urlDecodeLoop_valid`), and `urlDecode_sound_iff` says for which strings `url_decode` accepts
nothing else.
-/

set_option autoImplicit false

namespace AsioExamples.Http

open AsioExamples.Cxx

/-! ## Encoded strings -/

/-- A hexadecimal digit is below 16, and is no white space and no sign. -/
theorem isxdigit_spec {c : UInt8} (h : isxdigit c = true) :
    (hexVal c).getD 0 < 16 ∧ isspace c = false ∧ c ≠ chr '-' ∧ c ≠ chr '+' ∧ c ≠ chr 'x' ∧
      c ≠ chr 'X' := by
  revert h
  apply forall_byte (P := fun c => isxdigit c = true → (hexVal c).getD 0 < 16 ∧ isspace c = false ∧
    c ≠ chr '-' ∧ c ≠ chr '+' ∧ c ≠ chr 'x' ∧ c ≠ chr 'X')
  decide +kernel

/-- What an encoded string consists of: a character, an escape, or a `%` with less than two characters
behind it. -/
inductive Piece where
  | literal (c : UInt8)
  | escape (d₁ d₂ : UInt8)
  | cut (rest : List UInt8)
  deriving DecidableEq, Repr

/-- Scan a string from the left. -/
def pieces : List UInt8 → List Piece
  | [] => []
  | c :: rest =>
      if c = chr '%' then
        match rest with
        | d₁ :: d₂ :: rest' => .escape d₁ d₂ :: pieces rest'
        | rest => [.cut rest]
      else .literal c :: pieces rest

namespace Piece

/-- An escape has two hexadecimal digits. -/
def Valid : Piece → Prop
  | literal _ => True
  | escape d₁ d₂ => isxdigit d₁ = true ∧ isxdigit d₂ = true
  | cut _ => False

/-- An escape without two hexadecimal digits from which a number can be extracted: a digit behind white
space or a sign, or a digit in front of something else that does not make it a prefix `0x`. -/
def Lenient : Piece → Prop
  | escape d₁ d₂ =>
      (isspace d₁ = true ∨ d₁ = chr '+' ∨ d₁ = chr '-') ∧ isxdigit d₂ = true ∨
        isxdigit d₁ = true ∧ isxdigit d₂ = false ∧
          ¬ (d₁ = chr '0' ∧ (d₂ = chr 'x' ∨ d₂ = chr 'X'))
  | _ => False

/-- Any other escape, and one that the string ends in. -/
def Refused (p : Piece) : Prop := ¬ p.Valid ∧ ¬ p.Lenient

/-- What a piece stands for. -/
def bytes : Piece → List UInt8
  | literal c => if c = chr '+' then [chr ' '] else [c]
  | escape d₁ d₂ => [UInt8.ofNat (hexadecimal [d₁, d₂])]
  | cut _ => []

end Piece

theorem Piece.Valid.not_lenient {p : Piece} (h : p.Valid) : ¬ p.Lenient := by
  cases p with
  | literal c => exact not_false
  | escape d₁ d₂ =>
      obtain ⟨h₁, h₂⟩ := h
      obtain ⟨-, hspace, hminus, hplus, -, -⟩ := isxdigit_spec h₁
      simp [Lenient, h₁, h₂, hspace, hminus, hplus]
  | cut rest => exact h.elim

/-- Every `%` begins an escape of two hexadecimal digits. -/
def ValidEncoding (s : List UInt8) : Prop := ∀ p ∈ pieces s, p.Valid

/-- The string with every escape replaced by its byte and every `+` by a space. -/
def decoded (s : List UInt8) : List UInt8 := (pieces s).flatMap Piece.bytes

/-! ## Two characters as a number -/

theorem not_space_of_sign {c : UInt8} (h : c = chr '+' ∨ c = chr '-') : isspace c = false := by
  rcases h with rfl | rfl <;> decide

/-- What is extracted behind white space and a sign from digits whose number is small. -/
theorem extractHex_eq_some {s ds : List UInt8} {negative : Bool}
    (hsign : (readSign (skipSpace s)).1 = negative)
    (hds : (skipHexPrefix (readSign (skipSpace s)).2).takeWhile isxdigit = ds) (hne : ds ≠ [])
    (hlt : hexadecimal ds < 2 ^ 31) : extractHex s = some (signed negative (hexadecimal ds)) := by
  have hfits : -2 ^ 31 ≤ signed negative (hexadecimal ds) ∧
      signed negative (hexadecimal ds) < 2 ^ 31 := by
    rw [signed]
    split <;> omega
  simp only [extractHex, hds, hsign, if_neg hne, if_pos hfits]

/-- Without a digit there is nothing to extract. -/
theorem extractHex_eq_none {s : List UInt8}
    (hds : (skipHexPrefix (readSign (skipSpace s)).2).takeWhile isxdigit = []) :
    extractHex s = none := by
  simp only [extractHex, hds, if_true]

theorem hexadecimal_singleton (d : UInt8) : hexadecimal [d] = (hexVal d).getD 0 := by
  simp [hexadecimal]

theorem hexadecimal_pair (d₁ d₂ : UInt8) :
    hexadecimal [d₁, d₂] = 16 * (hexVal d₁).getD 0 + (hexVal d₂).getD 0 := by
  simp [hexadecimal]

/-- Two hexadecimal digits are the number that they write. -/
theorem extractHex_valid {d₁ d₂ : UInt8} (h₁ : isxdigit d₁ = true) (h₂ : isxdigit d₂ = true) :
    extractHex [d₁, d₂] = some (hexadecimal [d₁, d₂] : ℕ) := by
  obtain ⟨hlt₁, hspace, hminus, hplus, -, -⟩ := isxdigit_spec h₁
  obtain ⟨hlt₂, -, -, -, hx, hX⟩ := isxdigit_spec h₂
  have hsign : readSign (skipSpace [d₁, d₂]) = (false, [d₁, d₂]) := by
    rw [skipSpace_cons_of_neg hspace, readSign_cons_of_ne hminus hplus]
  have hds : (skipHexPrefix (readSign (skipSpace [d₁, d₂])).2).takeWhile isxdigit = [d₁, d₂] := by
    rw [hsign, skipHexPrefix, if_neg (by simp [hx, hX])]
    simp [h₁, h₂]
  apply extractHex_eq_some (congrArg Prod.fst hsign) hds (List.cons_ne_nil _ _)
  rw [hexadecimal_pair]
  omega

/-- A digit behind white space or a sign is the number that it writes, with the sign. -/
theorem extractHex_second {d₁ d₂ : UInt8}
    (h₁ : isspace d₁ = true ∨ d₁ = chr '+' ∨ d₁ = chr '-') (h₂ : isxdigit d₂ = true) :
    ∃ value, extractHex [d₁, d₂] = some value := by
  obtain ⟨hlt, hspace, hminus, hplus, -, -⟩ := isxdigit_spec h₂
  have hrest : (readSign (skipSpace [d₁, d₂])).2 = [d₂] := by
    rcases h₁ with h₁ | h₁
    · rw [skipSpace, List.dropWhile_cons_of_pos h₁, ← skipSpace, skipSpace_cons_of_neg hspace,
        readSign_cons_of_ne hminus hplus]
    · rw [skipSpace_cons_of_neg (not_space_of_sign h₁)]
      rcases h₁ with rfl | rfl <;> rfl
  have hds : (skipHexPrefix (readSign (skipSpace [d₁, d₂])).2).takeWhile isxdigit = [d₂] := by
    rw [hrest]
    simp [skipHexPrefix, h₂]
  refine ⟨_, extractHex_eq_some rfl hds (List.cons_ne_nil _ _) ?_⟩
  rw [hexadecimal_singleton]
  omega

/-- A digit in front of something else is the number that it writes. -/
theorem extractHex_first {d₁ d₂ : UInt8} (h₁ : isxdigit d₁ = true) (h₂ : isxdigit d₂ = false)
    (h0x : ¬ (d₁ = chr '0' ∧ (d₂ = chr 'x' ∨ d₂ = chr 'X'))) :
    ∃ value, extractHex [d₁, d₂] = some value := by
  obtain ⟨hlt, hspace, hminus, hplus, -, -⟩ := isxdigit_spec h₁
  have hds : (skipHexPrefix (readSign (skipSpace [d₁, d₂])).2).takeWhile isxdigit = [d₁] := by
    rw [skipSpace_cons_of_neg hspace, readSign_cons_of_ne hminus hplus, skipHexPrefix, if_neg h0x]
    simp [h₁, h₂]
  refine ⟨_, extractHex_eq_some rfl hds (List.cons_ne_nil _ _) ?_⟩
  rw [hexadecimal_singleton]
  omega

/-- In one character that is no digit there is nothing to extract. -/
theorem takeWhile_isxdigit_singleton {d : UInt8} (h : isxdigit d = false) :
    (skipHexPrefix (readSign (skipSpace [d])).2).takeWhile isxdigit = [] := by
  revert h
  apply forall_byte (P := fun d => isxdigit d = false →
    (skipHexPrefix (readSign (skipSpace [d])).2).takeWhile isxdigit = [])
  decide +kernel

/-- From anything else no number can be extracted. -/
theorem extractHex_refused {d₁ d₂ : UInt8} (h : (Piece.escape d₁ d₂).Refused) :
    extractHex [d₁, d₂] = none := by
  obtain ⟨hvalid, hlenient⟩ := h
  rw [Piece.Lenient, not_or] at hlenient
  obtain ⟨hsecond, hfirst⟩ := hlenient
  apply extractHex_eq_none
  cases h₁ : isxdigit d₁ with
  | true =>
      -- a prefix `0x` with nothing behind it
      have h₂ : isxdigit d₂ = false := by
        cases h₂ : isxdigit d₂ with
        | true => exact absurd ⟨h₁, h₂⟩ hvalid
        | false => rfl
      have h0x : d₁ = chr '0' ∧ (d₂ = chr 'x' ∨ d₂ = chr 'X') := by
        by_contra h0x
        exact hfirst ⟨h₁, h₂, h0x⟩
      obtain ⟨-, hspace, hminus, hplus, -, -⟩ := isxdigit_spec h₁
      rw [skipSpace_cons_of_neg hspace, readSign_cons_of_ne hminus hplus, skipHexPrefix, if_pos h0x]
      rfl
  | false =>
      by_cases hspace : isspace d₁ = true
      · -- white space with no digit behind it
        have h₂ : isxdigit d₂ = false := by simpa [hspace] using hsecond
        rw [skipSpace, List.dropWhile_cons_of_pos hspace, ← skipSpace]
        exact takeWhile_isxdigit_singleton h₂
      · rw [skipSpace_cons_of_neg (by simpa using hspace)]
        by_cases hsign : d₁ = chr '+' ∨ d₁ = chr '-'
        · -- a sign with no digit behind it
          have h₂ : isxdigit d₂ = false := by simpa [hsign] using hsecond
          have hrest : (readSign [d₁, d₂]).2 = [d₂] := by rcases hsign with rfl | rfl <;> rfl
          rw [hrest]
          simp [skipHexPrefix, h₂]
        · -- anything else is where the digits would have to begin
          obtain ⟨hplus, hminus⟩ := not_or.1 hsign
          have h0 : d₁ ≠ chr '0' := by
            rintro rfl
            exact absurd h₁ (by decide)
          rw [readSign_cons_of_ne hminus hplus, skipHexPrefix, if_neg (fun h => h0 h.1)]
          simp [h₁]

/-! ## The loop over the pieces -/

theorem pieces_nil : pieces [] = [] := rfl

theorem pieces_escape (d₁ d₂ : UInt8) (s : List UInt8) :
    pieces (chr '%' :: d₁ :: d₂ :: s) = .escape d₁ d₂ :: pieces s := rfl

theorem pieces_literal {c : UInt8} (h : c ≠ chr '%') (s : List UInt8) :
    pieces (c :: s) = .literal c :: pieces s := by
  rw [pieces.eq_def (c :: s)]
  exact if_neg h

theorem pieces_cut {rest : List UInt8} (h : ∀ d₁ d₂ rest', rest = d₁ :: d₂ :: rest' → False) :
    pieces (chr '%' :: rest) = [.cut rest] := by
  match rest, h with
  | [], _ => rfl
  | [_], _ => rfl
  | d₁ :: d₂ :: rest', h => exact absurd rfl (h d₁ d₂ rest')

/-- A string that begins with a piece. -/
theorem validEncoding_of_pieces {s t : List UInt8} {p : Piece} (h : pieces s = p :: pieces t) :
    ValidEncoding s ↔ p.Valid ∧ ValidEncoding t := by
  rw [ValidEncoding, h, List.forall_mem_cons]
  exact Iff.rfl

theorem decoded_of_pieces {s t : List UInt8} {p : Piece} (h : pieces s = p :: pieces t) :
    decoded s = p.bytes ++ decoded t := by
  rw [decoded, h, List.flatMap_cons]
  rfl

theorem Piece.not_refused_literal (c : UInt8) : ¬ (Piece.literal c).Refused := fun h => h.1 trivial

/-- `url_decode` returns true where it refuses no piece. -/
theorem urlDecodeLoop_fst (out s : List UInt8) :
    (urlDecodeLoop out s).1 = true ↔ ∀ p ∈ pieces s, ¬ p.Refused := by
  fun_induction urlDecodeLoop out s with
  | case1 out => simp [pieces_nil]
  | case2 out d₁ d₂ rest value hvalue ih =>
      -- an escape from which a number was extracted
      have hok : ¬ (Piece.escape d₁ d₂).Refused := by
        intro h
        rw [extractHex_refused h] at hvalue
        cases hvalue
      rw [ih, pieces_escape, List.forall_mem_cons, and_iff_right hok]
  | case3 out d₁ d₂ rest hvalue =>
      -- an escape from which no number was extracted is neither valid nor lenient
      have hrefused : (Piece.escape d₁ d₂).Refused := by
        constructor
        · rintro ⟨h₁, h₂⟩
          rw [extractHex_valid h₁ h₂] at hvalue
          cases hvalue
        · rintro (⟨h₁, h₂⟩ | ⟨h₁, h₂, h0x⟩)
          · obtain ⟨value, h⟩ := extractHex_second h₁ h₂
            rw [h] at hvalue
            cases hvalue
          · obtain ⟨value, h⟩ := extractHex_first h₁ h₂ h0x
            rw [h] at hvalue
            cases hvalue
      rw [pieces_escape, List.forall_mem_cons]
      simp [hrefused]
  | case4 out rest hcut =>
      rw [pieces_cut hcut, List.forall_mem_singleton]
      simp [Piece.Refused, Piece.Valid, Piece.Lenient]
  | case5 out rest hpercent ih =>
      rw [ih, pieces_literal hpercent, List.forall_mem_cons,
        and_iff_right (Piece.not_refused_literal _)]
  | case6 out c rest hpercent hplus ih =>
      rw [ih, pieces_literal hpercent, List.forall_mem_cons,
        and_iff_right (Piece.not_refused_literal _)]

/-- A valid encoding is decoded piece by piece. -/
theorem urlDecodeLoop_valid (out s : List UInt8) (h : ValidEncoding s) :
    urlDecodeLoop out s = (true, out ++ decoded s) := by
  fun_induction urlDecodeLoop out s with
  | case1 out => simp [decoded, pieces_nil]
  | case2 out d₁ d₂ rest value hvalue ih =>
      have hpieces := pieces_escape d₁ d₂ rest
      obtain ⟨⟨h₁, h₂⟩, hrest⟩ := (validEncoding_of_pieces hpieces).1 h
      -- the number is small, so the conversion to `char` keeps it
      rw [extractHex_valid h₁ h₂] at hvalue
      cases hvalue
      rw [ih hrest, toChar_natCast, decoded_of_pieces hpieces, List.append_assoc]
      rfl
  | case3 out d₁ d₂ rest hvalue =>
      obtain ⟨⟨h₁, h₂⟩, -⟩ := (validEncoding_of_pieces (pieces_escape d₁ d₂ rest)).1 h
      rw [extractHex_valid h₁ h₂] at hvalue
      cases hvalue
  | case4 out rest hcut =>
      rw [ValidEncoding, pieces_cut hcut, List.forall_mem_singleton] at h
      exact h.elim
  | case5 out rest hpercent ih =>
      have hpieces := pieces_literal hpercent rest
      obtain ⟨-, hrest⟩ := (validEncoding_of_pieces hpieces).1 h
      rw [ih hrest, decoded_of_pieces hpieces, List.append_assoc]
      rfl
  | case6 out c rest hpercent hplus ih =>
      have hpieces := pieces_literal hpercent rest
      obtain ⟨-, hrest⟩ := (validEncoding_of_pieces hpieces).1 h
      rw [ih hrest, decoded_of_pieces hpieces, List.append_assoc, Piece.bytes, if_neg hplus]

/-! ## Soundness -/

/-- What `url_decode` should keep to: where it returns true, the encoding is a valid one, and every
escape contributes its byte. -/
def DecodesSoundly (s : List UInt8) : Prop :=
  ∀ held out, urlDecode s held = (true, out) → ValidEncoding s ∧ out = decoded s

/-- In other words: it returns false on every string that is not a valid encoding. -/
theorem decodesSoundly_iff (s : List UInt8) :
    DecodesSoundly s ↔ (¬ ValidEncoding s → ∀ held, (urlDecode s held).1 = false) := by
  constructor
  · intro hsound hinvalid held
    cases hreturned : (urlDecode s held).1 with
    | false => rfl
    | true => exact absurd (hsound held _ (Prod.ext hreturned rfl)).1 hinvalid
  · rintro h held out hout
    by_cases hvalid : ValidEncoding s
    · have hdecoded := (urlDecodeLoop_valid [] s hvalid).symm.trans hout
      exact ⟨hvalid, (congrArg Prod.snd hdecoded).symm⟩
    · have hfalse := h hvalid held
      rw [hout] at hfalse
      cases hfalse

/-- **Where `url_decode` is sound**: it accepts nothing but valid encodings exactly where the string
has a piece that it refuses, or none that is lenient. -/
theorem urlDecode_sound_iff (s : List UInt8) :
    DecodesSoundly s ↔ (∃ p ∈ pieces s, p.Refused) ∨ ∀ p ∈ pieces s, ¬ p.Lenient := by
  rw [decodesSoundly_iff]
  constructor
  · intro hfalse
    by_contra hnot
    push Not at hnot
    obtain ⟨hnone, p, hp, hlenient⟩ := hnot
    -- nothing is refused, so the lenient piece is accepted
    have htrue : (urlDecode s []).1 = true := (urlDecodeLoop_fst [] s).2 hnone
    have hinvalid : ¬ ValidEncoding s := fun hvalid => (hvalid p hp).not_lenient hlenient
    rw [hfalse hinvalid []] at htrue
    cases htrue
  · rintro h hinvalid held
    -- a string that is no valid encoding has a piece that is refused
    have hrefused : ∃ p ∈ pieces s, p.Refused := by
      rcases h with hrefused | hlenient
      · exact hrefused
      · simp only [ValidEncoding, not_forall] at hinvalid
        obtain ⟨p, hp, hinvalid⟩ := hinvalid
        exact ⟨p, hp, hinvalid, hlenient p hp⟩
    obtain ⟨p, hp, hrefused⟩ := hrefused
    apply Bool.eq_false_iff.2
    intro htrue
    exact (urlDecodeLoop_fst [] s).1 htrue p hp hrefused

/-- An escape with one digit is accepted, and the character behind the digit is swallowed. -/
theorem urlDecode_accepts_one_digit : ¬ DecodesSoundly (str "/%1g") := by
  intro hsound
  have hout : urlDecode (str "/%1g") [] = (true, [chr '/', 1]) := by decide +kernel
  have hmem : Piece.escape (chr '1') (chr 'g') ∈ pieces (str "/%1g") := by decide +kernel
  have hvalid := (hsound _ _ hout).1 _ hmem
  exact absurd hvalid.2 (by decide)

/-! ## Completeness -/

/-- The ways to write one byte. -/
inductive EncodesByte : UInt8 → List UInt8 → Prop where
  | escape {d₁ d₂ : UInt8} (h₁ : isxdigit d₁ = true) (h₂ : isxdigit d₂ = true) :
      EncodesByte (UInt8.ofNat (hexadecimal [d₁, d₂])) [chr '%', d₁, d₂]
  | literal {b : UInt8} (hpercent : b ≠ chr '%') (hplus : b ≠ chr '+') : EncodesByte b [b]
  | space : EncodesByte (chr ' ') [chr '+']

/-- One byte in front of an encoding. -/
theorem EncodesByte.append {b : UInt8} {part s : List UInt8} (h : EncodesByte b part) :
    (ValidEncoding (part ++ s) ↔ ValidEncoding s) ∧ decoded (part ++ s) = b :: decoded s := by
  cases h with
  | @escape d₁ d₂ h₁ h₂ =>
      have hpieces := pieces_escape d₁ d₂ s
      exact ⟨(validEncoding_of_pieces hpieces).trans (and_iff_right (And.intro h₁ h₂)),
        decoded_of_pieces hpieces⟩
  | literal hpercent hplus =>
      have hpieces := pieces_literal hpercent s
      refine ⟨(validEncoding_of_pieces hpieces).trans (and_iff_right trivial), ?_⟩
      rw [List.singleton_append, decoded_of_pieces hpieces, Piece.bytes, if_neg hplus]
      rfl
  | space =>
      have hpieces := pieces_literal (c := chr '+') (by decide) s
      exact ⟨(validEncoding_of_pieces hpieces).trans (and_iff_right trivial),
        decoded_of_pieces hpieces⟩

/-- An encoding of a byte string is valid and stands for it. -/
theorem decoded_flatten {p : List UInt8} {parts : List (List UInt8)}
    (h : List.Forall₂ EncodesByte p parts) :
    ValidEncoding parts.flatten ∧ decoded parts.flatten = p := by
  induction h with
  | nil => exact ⟨fun _ h => absurd h List.not_mem_nil, rfl⟩
  | cons hbyte _ ih =>
      obtain ⟨hvalid, hdecoded⟩ := hbyte.append
      rw [List.flatten_cons, hvalid, hdecoded, ih.2]
      exact ⟨ih.1, rfl⟩

/-- **Every valid encoding is decoded**, whatever `out` held before: each escape to its byte, each `+` to
a space, and every other byte to itself. So each encoding of a byte string gives back the string. -/
theorem urlDecode_complete :
    (∀ s held, ValidEncoding s → urlDecode s held = (true, decoded s)) ∧
      ∀ p parts held, List.Forall₂ EncodesByte p parts →
        urlDecode parts.flatten held = (true, p) := by
  have hvalid : ∀ s held, ValidEncoding s → urlDecode s held = (true, decoded s) := by
    intro s held h
    exact urlDecodeLoop_valid [] s h
  refine ⟨hvalid, ?_⟩
  intro p parts held h
  obtain ⟨hencoding, hdecoded⟩ := decoded_flatten h
  rw [hvalid _ held hencoding, hdecoded]

/-- An escape at the very end, for a byte above 127, and an escape for `%` that is not decoded twice. -/
theorem urlDecode_complete_escapes :
    urlDecode (str "+a%fF") (str "held") = (true, [chr ' ', chr 'a', 255]) ∧
      urlDecode ([str "%25", str "4", str "1"].flatten) (str "held") = (true, str "%41") := by
  constructor
  · apply urlDecode_complete.1 (str "+a%fF") (str "held")
    intro p hp
    have hpieces : pieces (str "+a%fF") =
        [.literal (chr '+'), .literal (chr 'a'), .escape (chr 'f') (chr 'F')] := by decide +kernel
    rw [hpieces] at hp
    simp only [List.mem_cons, List.not_mem_nil, or_false] at hp
    rcases hp with rfl | rfl | rfl
    · exact trivial
    · exact trivial
    · exact ⟨by decide, by decide⟩
  · apply urlDecode_complete.2 (str "%41") [str "%25", str "4", str "1"]
    have hpercent : EncodesByte (chr '%') (str "%25") :=
      @EncodesByte.escape (chr '2') (chr '5') (by decide) (by decide)
    exact .cons hpercent (.cons (.literal (by decide) (by decide))
      (.cons (.literal (by decide) (by decide)) .nil))

end AsioExamples.Http
