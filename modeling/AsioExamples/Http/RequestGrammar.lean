import Mathlib.Tactic.Common
import AsioExamples.Http.RequestParser

/-!
# The language of the request parser

`RequestText` is the grammar of a request: the request line, and header lines of which the first is
no continuation line. Its parts are subtypes, so that every value renders to a well-formed request.
`parse_good_iff_requestText` says that the parser accepts exactly the renderings and fills the
request with the parts.

The proof follows the parser through its states. A lemma `accepts_…` for each loop of the automaton
says which words leave it towards acceptance; `accepts_headerLines` puts the header lines together by
induction.
-/

set_option autoImplicit false

namespace AsioExamples.Http

open AsioExamples.Cxx AsioExamples.Lib

/-! ## The grammar -/

/-- One or more token bytes. -/
abbrev Token := { m : List UInt8 // m ≠ [] ∧ ∀ b ∈ m, TokenByte b }

/-- Any bytes other than spaces and control bytes. -/
abbrev UriText := { u : List UInt8 // ∀ b ∈ u, b ≠ chr ' ' ∧ ¬ Control b }

/-- One or more decimal digits. -/
abbrev Digits := { ds : List UInt8 // ds ≠ [] ∧ ∀ b ∈ ds, DigitByte b }

/-- Any bytes other than control bytes. -/
abbrev Text := { v : List UInt8 // ∀ b ∈ v, ¬ Control b }

/-- A space or a horizontal tab. -/
def Blank (b : UInt8) : Prop := b = chr ' ' ∨ b = chr '\t'

instance (b : UInt8) : Decidable (Blank b) := inferInstanceAs (Decidable (_ ∨ _))

/-- One or more blanks. -/
abbrev Blanks := { w : List UInt8 // w ≠ [] ∧ ∀ b ∈ w, Blank b }

/-- Nothing, or bytes other than control bytes of which the first is no space. -/
abbrev FoldedText := { v : List UInt8 // (∀ b ∈ v, ¬ Control b) ∧ v.head? ≠ some (chr ' ') }

/-- A header line: a field, or the continuation of the field above it. -/
inductive HeaderLine where
  | field (name : Token) (value : Text)
  | continuation (blanks : Blanks) (text : FoldedText)

/-- The line is a field line. -/
def HeaderLine.IsField : HeaderLine → Prop
  | .field _ _ => True
  | .continuation _ _ => False

/-- The bytes of a header line. -/
def HeaderLine.render : HeaderLine → List UInt8
  | .field name value => name.1 ++ chr ':' :: chr ' ' :: value.1 ++ crlf
  | .continuation blanks text => blanks.1 ++ text.1 ++ crlf

/-- The texts of the continuation lines before the next field line. -/
def continuationTexts : List HeaderLine → List UInt8
  | .continuation _ text :: lines => text.1 ++ continuationTexts lines
  | _ => []

/-- One header for each field line: the value of the field followed by the texts of its continuation
lines. -/
def headersOf : List HeaderLine → List Header
  | [] => []
  | .field name value :: lines => ⟨name.1, value.1 ++ continuationTexts lines⟩ :: headersOf lines
  | .continuation _ _ :: lines => headersOf lines

/-- A well-formed request. A continuation line stands only after a field line. -/
structure RequestText where
  method : Token
  uri : UriText
  major : Digits
  minor : Digits
  lines : List HeaderLine
  startsWithField : ∀ line ∈ lines.head?, line.IsField

/-- The bytes of a request. -/
def RequestText.render (g : RequestText) : List UInt8 :=
  g.method.1 ++ chr ' ' :: g.uri.1 ++ chr ' ' :: str "HTTP/" ++ g.major.1 ++ chr '.' ::
    g.minor.1 ++ crlf ++ g.lines.flatMap HeaderLine.render ++ crlf

/-- The request that a well-formed request stands for. -/
def RequestText.request (g : RequestText) : Request where
  method := g.method.1
  uri := g.uri.1
  httpVersionMajor := Int32.ofNat (decimal g.major.1)
  httpVersionMinor := Int32.ofNat (decimal g.minor.1)
  headers := headersOf g.lines

/-! ## Registers

What the loops of the automaton accumulate in the request. -/

@[simp] theorem modifyBack_append_singleton (f : Header → Header) (hs : List Header) (h : Header) :
    modifyBack f (hs ++ [h]) = hs ++ [f h] := by
  induction hs with
  | nil => rfl
  | cons h' hs ih =>
      cases hs with
      | nil => rfl
      | cons h'' hs =>
          rw [List.cons_append, List.cons_append, modifyBack]
          rw [List.cons_append] at ih
          rw [ih]
          rfl

theorem modifyBack_id (hs : List Header) : modifyBack (fun h => h) hs = hs := by
  induction hs using List.reverseRecOn with
  | nil => rfl
  | append_singleton hs h _ => simp

theorem modifyBack_modifyBack (f g : Header → Header) (hs : List Header) :
    modifyBack f (modifyBack g hs) = modifyBack (fun h => f (g h)) hs := by
  induction hs using List.reverseRecOn with
  | nil => rfl
  | append_singleton hs h _ => simp

/-- Append a word to the method. -/
def Request.addMethod (r : Request) (ws : List UInt8) : Request :=
  { r with method := r.method ++ ws }

/-- Append a word to the uri. -/
def Request.addUri (r : Request) (ws : List UInt8) : Request := { r with uri := r.uri ++ ws }

/-- Append a word to the name of the last header. -/
def Request.addName (r : Request) (ws : List UInt8) : Request :=
  { r with headers := modifyBack (fun h => { h with name := h.name ++ ws }) r.headers }

/-- Append a word to the value of the last header. -/
def Request.addValue (r : Request) (ws : List UInt8) : Request :=
  { r with headers := modifyBack (fun h => { h with value := h.value ++ ws }) r.headers }

/-- Read digits of the major version. -/
def Request.addMajor (r : Request) (ds : List UInt8) : Request :=
  { r with httpVersionMajor := ds.foldl pushDigit r.httpVersionMajor }

/-- Read digits of the minor version. -/
def Request.addMinor (r : Request) (ds : List UInt8) : Request :=
  { r with httpVersionMinor := ds.foldl pushDigit r.httpVersionMinor }

/-- A register that takes a word byte by byte takes it at once. -/
theorem foldl_register {ρ : Type*} {add : ρ → List UInt8 → ρ} (hnil : ∀ r, add r [] = r)
    (hcons : ∀ r b ws, add (add r [b]) ws = add r (b :: ws)) (r : ρ) (ws : List UInt8) :
    ws.foldl (fun r b => add r [b]) r = add r ws := by
  -- the register holds what has been read, so the induction is over all of them
  induction ws generalizing r with
  | nil => exact (hnil r).symm
  | cons b ws ih => rw [List.foldl_cons, ih, hcons]

theorem foldl_addMethod (r : Request) (ws : List UInt8) :
    ws.foldl (fun r b => r.addMethod [b]) r = r.addMethod ws :=
  foldl_register (by simp [Request.addMethod]) (by simp [Request.addMethod]) r ws

theorem foldl_addUri (r : Request) (ws : List UInt8) :
    ws.foldl (fun r b => r.addUri [b]) r = r.addUri ws :=
  foldl_register (by simp [Request.addUri]) (by simp [Request.addUri]) r ws

theorem foldl_addName (r : Request) (ws : List UInt8) :
    ws.foldl (fun r b => r.addName [b]) r = r.addName ws :=
  foldl_register (by simp [Request.addName, modifyBack_id])
    (by simp [Request.addName, modifyBack_modifyBack]) r ws

theorem addValue_nil (r : Request) : r.addValue [] = r := by
  simp [Request.addValue, modifyBack_id]

theorem addValue_addValue (r : Request) (us vs : List UInt8) :
    (r.addValue us).addValue vs = r.addValue (us ++ vs) := by
  simp [Request.addValue, modifyBack_modifyBack]

theorem foldl_addValue (r : Request) (ws : List UInt8) :
    ws.foldl (fun r b => r.addValue [b]) r = r.addValue ws :=
  foldl_register addValue_nil (fun r b ws => addValue_addValue r [b] ws) r ws

theorem foldl_addMajor (r : Request) (ds : List UInt8) :
    ds.foldl (fun r b => r.addMajor [b]) r = r.addMajor ds :=
  foldl_register (by simp [Request.addMajor]) (by simp [Request.addMajor]) r ds

theorem foldl_addMinor (r : Request) (ds : List UInt8) :
    ds.foldl (fun r b => r.addMinor [b]) r = r.addMinor ds :=
  foldl_register (by simp [Request.addMinor]) (by simp [Request.addMinor]) r ds

/-! ## The bytes that a state of the request line reads -/

theorem TokenByte.ne {b x : UInt8} (hb : TokenByte b) (hx : x ∈ tspecials) : b ≠ x := by
  rintro rfl
  exact hb.2.2 hx

theorem consume_methodStart (r : Request) {b : UInt8} (hb : TokenByte b) :
    (⟨.methodStart⟩ : RequestParser).consume r b =
      (.indeterminate, ⟨.method⟩, r.addMethod [b]) := by
  simp only [RequestParser.consume, notToken_iff, hb, not_true, if_false]
  rfl

theorem consume_method (r : Request) {b : UInt8} (hb : TokenByte b) :
    (⟨.method⟩ : RequestParser).consume r b = (.indeterminate, ⟨.method⟩, r.addMethod [b]) := by
  have hne : b ≠ chr ' ' := hb.ne (by decide)
  simp only [RequestParser.consume, notToken_iff, hb, hne, not_true, if_false]
  rfl

theorem consume_uri (r : Request) {b : UInt8} (hb : b ≠ chr ' ' ∧ ¬ Control b) :
    (⟨.uri⟩ : RequestParser).consume r b = (.indeterminate, ⟨.uri⟩, r.addUri [b]) := by
  simp only [RequestParser.consume, isCtl_iff, hb.1, hb.2, if_false]
  rfl

theorem consume_majorStart (r : Request) {b : UInt8} (hb : DigitByte b) :
    (⟨.httpVersionMajorStart⟩ : RequestParser).consume r b =
      (.indeterminate, ⟨.httpVersionMajor⟩, r.addMajor [b]) := by
  simp only [RequestParser.consume, isDigit_iff, hb, if_true]
  rfl

theorem consume_major (r : Request) {b : UInt8} (hb : DigitByte b) :
    (⟨.httpVersionMajor⟩ : RequestParser).consume r b =
      (.indeterminate, ⟨.httpVersionMajor⟩, r.addMajor [b]) := by
  have hne : b ≠ chr '.' := by rintro rfl; exact absurd hb (by decide)
  simp only [RequestParser.consume, isDigit_iff, hb, hne, if_true, if_false]
  rfl

theorem consume_minorStart (r : Request) {b : UInt8} (hb : DigitByte b) :
    (⟨.httpVersionMinorStart⟩ : RequestParser).consume r b =
      (.indeterminate, ⟨.httpVersionMinor⟩, r.addMinor [b]) := by
  simp only [RequestParser.consume, isDigit_iff, hb, if_true]
  rfl

theorem consume_minor (r : Request) {b : UInt8} (hb : DigitByte b) :
    (⟨.httpVersionMinor⟩ : RequestParser).consume r b =
      (.indeterminate, ⟨.httpVersionMinor⟩, r.addMinor [b]) := by
  have hne : b ≠ chr '\r' := by rintro rfl; exact absurd hb (by decide)
  simp only [RequestParser.consume, isDigit_iff, hb, hne, if_true, if_false]
  rfl

/-! ## The loops of the automaton -/

/-- From the parser state `q` with the request `r`, the input `s` is accepted in `t`. -/
abbrev AcceptsFrom (q : State) (r : Request) (s : List UInt8) (t : RequestParser × Request) : Prop :=
  feeder.Accepts .good (⟨q⟩, r) s t

variable {r : Request} {s : List UInt8} {t : RequestParser × Request}

/-- A step that asks for more. -/
theorem feeder_step_more {p p' : RequestParser} {r r' : Request} {b : UInt8}
    (h : p.consume r b = (.indeterminate, p', r')) : feeder.step (p, r) b = ((p', r'), none) := by
  simp [feeder, h, ResultType.verdict]

/-- A step that rejects. -/
theorem feeder_step_bad {p p' : RequestParser} {r r' : Request} {b : UInt8}
    (h : p.consume r b = (.bad, p', r')) :
    ∃ u v, v ≠ Verdict.good ∧ feeder.step (p, r) b = (u, some v) :=
  ⟨(p', r'), .bad, by simp, by simp [feeder, h, ResultType.verdict]⟩

theorem not_control_ne {b x : UInt8} (hb : ¬ Control b) (hx : Control x) : b ≠ x := by
  rintro rfl
  exact hb hx

/-- A state that reads one byte `x`. -/
theorem acceptsFrom_literal {q n : State} {x : UInt8} {f : Request → Request}
    (hx : ∀ r, (⟨q⟩ : RequestParser).consume r x = (.indeterminate, ⟨n⟩, f r))
    (hbad : ∀ r b, b ≠ x → (⟨q⟩ : RequestParser).consume r b = (.bad, ⟨q⟩, r)) :
    AcceptsFrom q r s t ↔ ∃ s', s = x :: s' ∧ AcceptsFrom n (f r) s' t :=
  Feeder.accepts_literal_iff (feeder_step_more (hx r))
    (fun b hb => feeder_step_bad (hbad r b hb))

/-- A state that reads one byte of the class `P` into the register. -/
theorem acceptsFrom_first {q n : State} {P : UInt8 → Prop} {add : Request → List UInt8 → Request}
    (hmore : ∀ r b, P b → (⟨q⟩ : RequestParser).consume r b = (.indeterminate, ⟨n⟩, add r [b]))
    (hbad : ∀ r b, ¬ P b → (⟨q⟩ : RequestParser).consume r b = (.bad, ⟨q⟩, r)) :
    AcceptsFrom q r s t ↔ ∃ b s', P b ∧ s = b :: s' ∧ AcceptsFrom n (add r [b]) s' t := by
  cases s with
  | nil => simp [Feeder.not_accepts_nil]
  | cons b s =>
      by_cases hb : P b
      · rw [AcceptsFrom, Feeder.accepts_cons_of_none (feeder_step_more (hmore r b hb))]
        simp [hb]
      · obtain ⟨u, v, hv, hstep⟩ := feeder_step_bad (hbad r b hb)
        simp only [AcceptsFrom, Feeder.not_accepts_cons_of_some hv hstep, false_iff]
        rintro ⟨b', s', hb', heq, -⟩
        apply hb
        exact (List.cons.inj heq).1 ▸ hb'

/-- A state that reads a word of the class `P` into the register, up to the byte `x`. -/
theorem acceptsFrom_word {q n : State} {P : UInt8 → Prop} [DecidablePred P]
    {add : Request → List UInt8 → Request} {x : UInt8}
    (hfold : ∀ r ws, ws.foldl (fun r b => add r [b]) r = add r ws)
    (hmore : ∀ r b, P b → (⟨q⟩ : RequestParser).consume r b = (.indeterminate, ⟨q⟩, add r [b]))
    (hx : ∀ r, (⟨q⟩ : RequestParser).consume r x = (.indeterminate, ⟨n⟩, r)) (hPx : ¬ P x)
    (hbad : ∀ r b, ¬ P b → b ≠ x → (⟨q⟩ : RequestParser).consume r b = (.bad, ⟨q⟩, r)) :
    AcceptsFrom q r s t ↔
      ∃ ws s', (∀ b ∈ ws, P b) ∧ s = ws ++ x :: s' ∧ AcceptsFrom n (add r ws) s' t := by
  have h := Feeder.accepts_loop_literal_iff (F := feeder) (v := .good) (P := P)
    (q := fun r => (⟨q⟩, r)) (p := fun r => (⟨n⟩, r)) (f := fun r b => add r [b]) (x := x)
    (r := r) (l := s) (t := t) (fun r b hb => feeder_step_more (hmore r b hb))
    (fun r => feeder_step_more (hx r)) hPx
    (fun r b hb hne => feeder_step_bad (hbad r b hb hne))
  simpa only [hfold] using h

theorem accepts_methodStart :
    AcceptsFrom .methodStart r s t ↔
      ∃ b s', TokenByte b ∧ s = b :: s' ∧ AcceptsFrom .method (r.addMethod [b]) s' t :=
  acceptsFrom_first (P := TokenByte)
    (fun r b hb => consume_methodStart r hb)
    (fun r b hb => by simp only [RequestParser.consume, notToken_iff, hb, not_false_iff, if_true])

theorem accepts_method :
    AcceptsFrom .method r s t ↔
      ∃ ws s', (∀ b ∈ ws, TokenByte b) ∧ s = ws ++ chr ' ' :: s' ∧
        AcceptsFrom .uri (r.addMethod ws) s' t :=
  acceptsFrom_word foldl_addMethod (fun r b hb => consume_method r hb) (fun r => rfl) (by decide)
    (fun r b hb hne => by
      simp only [RequestParser.consume, notToken_iff, hb, hne, not_false_iff, if_true, if_false])

theorem accepts_uri :
    AcceptsFrom .uri r s t ↔
      ∃ ws s', (∀ b ∈ ws, b ≠ chr ' ' ∧ ¬ Control b) ∧ s = ws ++ chr ' ' :: s' ∧
        AcceptsFrom .httpVersionH (r.addUri ws) s' t :=
  acceptsFrom_word foldl_addUri (fun r b hb => consume_uri r hb) (fun r => rfl) (by decide)
    (fun r b hb hne => by
      have hctl : Control b := by simpa [hne] using hb
      simp only [RequestParser.consume, isCtl_iff, hctl, hne, if_true, if_false])

/-- The five literal states before the version, and the reset of the version numbers. -/
theorem accepts_httpVersionH :
    AcceptsFrom .httpVersionH r s t ↔
      ∃ s', s = str "HTTP/" ++ s' ∧
        AcceptsFrom .httpVersionMajorStart
          { r with httpVersionMajor := 0, httpVersionMinor := 0 } s' t := by
  rw [acceptsFrom_literal (n := .httpVersionT1) (x := chr 'H') (f := id) (fun r => rfl)
    (fun r b hb => by simp only [RequestParser.consume, hb, if_false])]
  simp only [acceptsFrom_literal (q := .httpVersionT1) (n := .httpVersionT2) (x := chr 'T')
    (f := id) (fun r => rfl) (fun r b hb => by simp only [RequestParser.consume, hb, if_false]),
    acceptsFrom_literal (q := .httpVersionT2) (n := .httpVersionP) (x := chr 'T')
    (f := id) (fun r => rfl) (fun r b hb => by simp only [RequestParser.consume, hb, if_false]),
    acceptsFrom_literal (q := .httpVersionP) (n := .httpVersionSlash) (x := chr 'P')
    (f := id) (fun r => rfl) (fun r b hb => by simp only [RequestParser.consume, hb, if_false]),
    acceptsFrom_literal (q := .httpVersionSlash) (n := .httpVersionMajorStart) (x := chr '/')
    (f := fun r => { r with httpVersionMajor := 0, httpVersionMinor := 0 }) (fun r => rfl)
    (fun r b hb => by simp only [RequestParser.consume, hb, if_false])]
  -- the bytes of the five states are those of the literal
  constructor
  · rintro ⟨s₁, rfl, s₂, rfl, s₃, rfl, s₄, rfl, s', rfl, h⟩
    exact ⟨s', rfl, h⟩
  · rintro ⟨s', rfl, h⟩
    exact ⟨_, rfl, _, rfl, _, rfl, _, rfl, s', rfl, h⟩

theorem accepts_httpVersionMajorStart :
    AcceptsFrom .httpVersionMajorStart r s t ↔
      ∃ b s', DigitByte b ∧ s = b :: s' ∧ AcceptsFrom .httpVersionMajor (r.addMajor [b]) s' t :=
  acceptsFrom_first (P := DigitByte) (fun r b hb => consume_majorStart r hb)
    (fun r b hb => by simp only [RequestParser.consume, isDigit_iff, hb, if_false])

theorem accepts_httpVersionMajor :
    AcceptsFrom .httpVersionMajor r s t ↔
      ∃ ws s', (∀ b ∈ ws, DigitByte b) ∧ s = ws ++ chr '.' :: s' ∧
        AcceptsFrom .httpVersionMinorStart (r.addMajor ws) s' t :=
  acceptsFrom_word foldl_addMajor (fun r b hb => consume_major r hb) (fun r => rfl) (by decide)
    (fun r b hb hne => by simp only [RequestParser.consume, isDigit_iff, hb, hne, if_false])

theorem accepts_httpVersionMinorStart :
    AcceptsFrom .httpVersionMinorStart r s t ↔
      ∃ b s', DigitByte b ∧ s = b :: s' ∧ AcceptsFrom .httpVersionMinor (r.addMinor [b]) s' t :=
  acceptsFrom_first (P := DigitByte) (fun r b hb => consume_minorStart r hb)
    (fun r b hb => by simp only [RequestParser.consume, isDigit_iff, hb, if_false])

theorem accepts_expectingNewline1 :
    AcceptsFrom .expectingNewline1 r s t ↔
      ∃ s', s = chr '\n' :: s' ∧ AcceptsFrom .headerLineStart r s' t :=
  acceptsFrom_literal (f := id) (fun r => rfl)
    (fun r b hb => by simp only [RequestParser.consume, hb, if_false])

theorem accepts_httpVersionMinor :
    AcceptsFrom .httpVersionMinor r s t ↔
      ∃ ws s', (∀ b ∈ ws, DigitByte b) ∧ s = ws ++ crlf ++ s' ∧
        AcceptsFrom .headerLineStart (r.addMinor ws) s' t := by
  rw [acceptsFrom_word (P := DigitByte) (n := .expectingNewline1) (x := chr '\r') foldl_addMinor
    (fun r b hb => consume_minor r hb) (fun r => rfl) (by decide)
    (fun r b hb hne => by simp only [RequestParser.consume, isDigit_iff, hb, hne, if_false])]
  simp only [accepts_expectingNewline1]
  constructor
  · rintro ⟨ws, _, hws, rfl, s', rfl, h⟩
    exact ⟨ws, s', hws, by simp [crlf], h⟩
  · rintro ⟨ws, s', hws, rfl, h⟩
    exact ⟨ws, chr '\n' :: s', hws, by simp [crlf], s', rfl, h⟩

/-! ## Header lines -/

theorem accepts_expectingNewline2 :
    AcceptsFrom .expectingNewline2 r s t ↔
      ∃ s', s = chr '\n' :: s' ∧ AcceptsFrom .headerLineStart r s' t :=
  acceptsFrom_literal (f := id) (fun r => rfl)
    (fun r b hb => by simp only [RequestParser.consume, hb, if_false])

theorem accepts_headerValue :
    AcceptsFrom .headerValue r s t ↔
      ∃ ws s', (∀ b ∈ ws, ¬ Control b) ∧ s = ws ++ crlf ++ s' ∧
        AcceptsFrom .headerLineStart (r.addValue ws) s' t := by
  rw [acceptsFrom_word (P := fun b => ¬ Control b) (n := .expectingNewline2) (x := chr '\r')
    foldl_addValue
    (fun r b hb => by
      have hne : b ≠ chr '\r' := not_control_ne hb (by decide)
      simp only [RequestParser.consume, isCtl_iff, hb, hne, if_false]; rfl)
    (fun r => rfl) (by decide)
    (fun r b hb hne => by
      simp only [RequestParser.consume, isCtl_iff, not_not.1 hb, hne, if_true, if_false])]
  simp only [accepts_expectingNewline2]
  constructor
  · rintro ⟨ws, _, hws, rfl, s', rfl, h⟩
    exact ⟨ws, s', hws, by simp [crlf], h⟩
  · rintro ⟨ws, s', hws, rfl, h⟩
    exact ⟨ws, chr '\n' :: s', hws, by simp [crlf], s', rfl, h⟩

theorem accepts_headerName :
    AcceptsFrom .headerName r s t ↔
      ∃ ws vs s', (∀ b ∈ ws, TokenByte b) ∧ (∀ b ∈ vs, ¬ Control b) ∧
        s = ws ++ chr ':' :: chr ' ' :: vs ++ crlf ++ s' ∧
        AcceptsFrom .headerLineStart ((r.addName ws).addValue vs) s' t := by
  rw [acceptsFrom_word (P := TokenByte) (n := .spaceBeforeHeaderValue) (x := chr ':')
    foldl_addName
    (fun r b hb => by
      have hne : b ≠ chr ':' := hb.ne (by decide)
      simp only [RequestParser.consume, notToken_iff, hb, hne, not_true, if_false]; rfl)
    (fun r => rfl) (by decide)
    (fun r b hb hne => by
      simp only [RequestParser.consume, notToken_iff, hb, hne, not_false_iff, if_true, if_false])]
  simp only [acceptsFrom_literal (q := .spaceBeforeHeaderValue) (n := .headerValue)
    (x := chr ' ') (f := id) (fun r => rfl)
    (fun r b hb => by simp only [RequestParser.consume, hb, if_false]), accepts_headerValue]
  constructor
  · rintro ⟨ws, _, hws, rfl, _, rfl, vs, s', hvs, rfl, h⟩
    exact ⟨ws, vs, s', hws, hvs, by simp, h⟩
  · rintro ⟨ws, vs, s', hws, hvs, rfl, h⟩
    exact ⟨ws, chr ' ' :: (vs ++ crlf ++ s'), hws, by simp, vs ++ crlf ++ s', rfl, vs, s', hvs,
      rfl, h⟩

/-- Where a continuation line goes on after its blanks. -/
theorem accepts_headerLws_of_not_blank {b : UInt8} (hb : ¬ Blank b) :
    AcceptsFrom .headerLws r (b :: s) t ↔
      ∃ vs s', (∀ c ∈ vs, ¬ Control c) ∧ b :: s = vs ++ crlf ++ s' ∧
        AcceptsFrom .headerLineStart (r.addValue vs) s' t := by
  have hne : ¬ (b = chr ' ' ∨ b = chr '\t') := hb
  by_cases hcr : b = chr '\r'
  · -- the line ends after its blanks, and its text is empty
    subst hcr
    rw [AcceptsFrom, Feeder.accepts_cons_of_none (feeder_step_more rfl)]
    rw [← AcceptsFrom, accepts_expectingNewline2]
    constructor
    · rintro ⟨s', rfl, h⟩
      exact ⟨[], s', by simp, rfl, by rwa [addValue_nil]⟩
    · rintro ⟨vs, s', hvs, heq, h⟩
      cases vs with
      | nil =>
          rw [addValue_nil] at h
          exact ⟨s', by simpa [crlf] using heq, h⟩
      | cons c vs =>
          obtain ⟨rfl, -⟩ := List.cons.inj heq
          apply absurd (hvs _ List.mem_cons_self)
          decide
  · by_cases hctl : Control b
    · -- a control byte is rejected, and begins no text
      have hstep : (⟨.headerLws⟩ : RequestParser).consume r b = (.bad, ⟨.headerLws⟩, r) := by
        simp only [RequestParser.consume, isCtl_iff, hctl, hcr, Bool.or_eq_true, decide_eq_true_eq,
          hne, if_true, if_false]
      obtain ⟨u, v, hv, hstep⟩ := feeder_step_bad hstep
      simp only [AcceptsFrom, Feeder.not_accepts_cons_of_some hv hstep, false_iff]
      rintro ⟨vs, s', hvs, heq, -⟩
      cases vs with
      | nil =>
          apply hcr
          exact (List.cons.inj heq).1
      | cons c vs =>
          obtain ⟨rfl, -⟩ := List.cons.inj heq
          apply hvs _ List.mem_cons_self
          exact hctl
    · -- the first byte of the text; `headerValue` reads the others
      have hstep : (⟨.headerLws⟩ : RequestParser).consume r b =
          (.indeterminate, ⟨.headerValue⟩, r.addValue [b]) := by
        simp only [RequestParser.consume, isCtl_iff, hctl, hcr, Bool.or_eq_true, decide_eq_true_eq,
          hne, if_false]
        rfl
      rw [AcceptsFrom, Feeder.accepts_cons_of_none (feeder_step_more hstep)]
      rw [← AcceptsFrom, accepts_headerValue]
      constructor
      · rintro ⟨vs, s', hvs, rfl, h⟩
        rw [addValue_addValue] at h
        exact ⟨b :: vs, s', List.forall_mem_cons.2 ⟨hctl, hvs⟩, rfl, h⟩
      · rintro ⟨vs, s', hvs, heq, h⟩
        cases vs with
        | nil => exact absurd (List.cons.inj heq).1 hcr
        | cons c vs =>
            obtain ⟨rfl, rfl⟩ := List.cons.inj heq
            refine ⟨vs, s', (List.forall_mem_cons.1 hvs).2, rfl, ?_⟩
            rwa [addValue_addValue]

theorem accepts_headerLws :
    AcceptsFrom .headerLws r s t ↔
      ∃ (ws vs s' : List UInt8), (∀ b ∈ ws, Blank b) ∧ (∀ b ∈ vs, ¬ Control b) ∧
        vs.head? ≠ some (chr ' ') ∧ s = ws ++ vs ++ crlf ++ s' ∧
        AcceptsFrom .headerLineStart (r.addValue vs) s' t := by
  -- the loop over the blanks leaves the request as it is
  have hloop := Feeder.accepts_loop_iff (F := feeder) (v := .good) (P := Blank)
    (q := fun r => (⟨.headerLws⟩, r)) (f := fun r _ => r) (r := r) (l := s) (t := t)
    (fun r b hb => feeder_step_more (by
      have hne : b ≠ chr '\r' := by rintro rfl; exact absurd hb (by decide)
      have hb' : b = chr ' ' ∨ b = chr '\t' := hb
      simp only [RequestParser.consume, hne, Bool.or_eq_true, decide_eq_true_eq, hb', if_true,
        if_false]))
  have hfold : ∀ ws : List UInt8, ws.foldl (fun (r : Request) _ => r) r = r := by
    intro ws
    induction ws with
    | nil => rfl
    | cons b ws ih => exact ih
  simp only [hfold] at hloop
  rw [AcceptsFrom, hloop]
  constructor
  · rintro ⟨ws, b, ys, hws, hb, rfl, h⟩
    obtain ⟨vs, s', hvs, heq, h'⟩ := (accepts_headerLws_of_not_blank hb).1 h
    refine ⟨ws, vs, s', hws, hvs, ?_, by rw [heq]; simp, h'⟩
    -- the first byte of the text is the one that left the loop
    intro hhead
    cases vs with
    | nil => simp at hhead
    | cons c vs =>
        obtain ⟨rfl, -⟩ := List.cons.inj heq
        apply hb
        exact Or.inl (by simpa using hhead)
  · rintro ⟨ws, vs, s', hws, hvs, hhead, rfl, h⟩
    -- the loop is left at the first byte of the text, or at the line end where there is none
    cases vs with
    | nil =>
        have hb : ¬ Blank (chr '\r') := by decide
        refine ⟨ws, chr '\r', chr '\n' :: s', hws, hb, by simp [crlf], ?_⟩
        apply (accepts_headerLws_of_not_blank hb).2
        exact ⟨[], s', by simp, rfl, h⟩
    | cons b vs =>
        have hb : ¬ Blank b := by
          rintro (rfl | rfl)
          · exact hhead rfl
          · apply hvs _ List.mem_cons_self
            decide
        refine ⟨ws, b, vs ++ crlf ++ s', hws, hb, by simp, ?_⟩
        apply (accepts_headerLws_of_not_blank hb).2
        exact ⟨b :: vs, s', hvs, rfl, h⟩

/-- The state that ends the request. -/
theorem accepts_expectingNewline3 :
    AcceptsFrom .expectingNewline3 r s t ↔ s = [chr '\n'] ∧ t = (⟨.expectingNewline3⟩, r) := by
  cases s with
  | nil => simp [Feeder.not_accepts_nil]
  | cons b s =>
      by_cases hb : b = chr '\n'
      · subst hb
        have hstep : feeder.step (⟨.expectingNewline3⟩, r) (chr '\n') =
            ((⟨.expectingNewline3⟩, r), some .good) := rfl
        rw [AcceptsFrom, Feeder.Accepts, Feeder.run_cons_of_some feeder hstep]
        simp [eq_comm, and_comm]
      · have hstep : (⟨.expectingNewline3⟩ : RequestParser).consume r b =
            (.bad, ⟨.expectingNewline3⟩, r) := by
          simp only [RequestParser.consume, hb, if_false]
        obtain ⟨u, v, hv, hstep⟩ := feeder_step_bad hstep
        simp only [AcceptsFrom, Feeder.not_accepts_cons_of_some hv hstep, false_iff]
        rintro ⟨heq, -⟩
        apply hb
        exact (List.cons.inj heq).1

/-- What a header line adds to the headers. -/
def HeaderLine.addTo (hs : List Header) : HeaderLine → List Header
  | .field name value => hs ++ [⟨name.1, value.1⟩]
  | .continuation _ text => modifyBack (fun h => { h with value := h.value ++ text.1 }) hs

/-- A line the parser takes when the headers so far are `hs`. -/
def HeaderLine.AllowedAfter (hs : List Header) (line : HeaderLine) : Prop :=
  hs = [] → line.IsField

theorem accepts_headerLineStart_cr :
    AcceptsFrom .headerLineStart r (chr '\r' :: s) t ↔
      s = [chr '\n'] ∧ t = (⟨.expectingNewline3⟩, r) := by
  rw [AcceptsFrom, Feeder.accepts_cons_of_none (feeder_step_more rfl)]
  exact accepts_expectingNewline3

theorem accepts_headerLineStart_blank {b : UInt8} (hr : r.headers ≠ []) (hb : Blank b) :
    AcceptsFrom .headerLineStart r (b :: s) t ↔ AcceptsFrom .headerLws r s t := by
  have hne : b ≠ chr '\r' := by rintro rfl; exact absurd hb (by decide)
  have hempty : r.headers.isEmpty = false := by simpa using hr
  have hb' : (decide (b = chr ' ') || decide (b = chr '\t')) = true := by
    have hor : b = chr ' ' ∨ b = chr '\t' := hb
    simpa only [Bool.or_eq_true, decide_eq_true_eq] using hor
  have hstep : (⟨.headerLineStart⟩ : RequestParser).consume r b =
      (.indeterminate, ⟨.headerLws⟩, r) := by
    simp only [RequestParser.consume, hne, hempty, hb', Bool.not_false, Bool.and_self, if_true,
      if_false]
  rw [AcceptsFrom, Feeder.accepts_cons_of_none (feeder_step_more hstep)]

theorem accepts_headerLineStart_token {b : UInt8} (hb : TokenByte b) :
    AcceptsFrom .headerLineStart r (b :: s) t ↔
      AcceptsFrom .headerName { r with headers := r.headers ++ [⟨[b], []⟩] } s t := by
  have hcr : b ≠ chr '\r' := not_control_ne hb.2.1 (by decide)
  have hsp : b ≠ chr ' ' := hb.ne (by decide)
  have hht : b ≠ chr '\t' := hb.ne (by decide)
  have hstep : (⟨.headerLineStart⟩ : RequestParser).consume r b =
      (.indeterminate, ⟨.headerName⟩, { r with headers := r.headers ++ [⟨[b], []⟩] }) := by
    simp only [RequestParser.consume, notToken_iff, hb, hcr, hsp, hht, decide_false, Bool.or_self,
      Bool.and_false, Bool.false_eq_true, not_true, if_false, modifyBack_append_singleton]
    rfl
  rw [AcceptsFrom, Feeder.accepts_cons_of_none (feeder_step_more hstep)]

theorem not_accepts_headerLineStart {b : UInt8} (hcr : b ≠ chr '\r') (hb : ¬ TokenByte b)
    (hblank : r.headers ≠ [] → ¬ Blank b) : ¬ AcceptsFrom .headerLineStart r (b :: s) t := by
  have hcont : (!r.headers.isEmpty && (decide (b = chr ' ') || decide (b = chr '\t'))) = false := by
    by_cases hr : r.headers = []
    · simp [hr]
    · have hnb : ¬ (b = chr ' ' ∨ b = chr '\t') := hblank hr
      rw [not_or] at hnb
      simp [hnb]
  have hstep : (⟨.headerLineStart⟩ : RequestParser).consume r b = (.bad, ⟨.headerLineStart⟩, r) := by
    simp only [RequestParser.consume, notToken_iff, hb, hcr, hcont, Bool.false_eq_true,
      not_false_iff, if_true, if_false]
  obtain ⟨u, v, hv, hstep⟩ := feeder_step_bad hstep
  exact Feeder.not_accepts_cons_of_some hv hstep

/-- A field line is taken. -/
theorem accepts_field (name : Token) (value : Text) {s' : List UInt8} :
    AcceptsFrom .headerLineStart { r with headers := r.headers ++ [⟨name.1, value.1⟩] } s' t →
      AcceptsFrom .headerLineStart r ((HeaderLine.field name value).render ++ s') t := by
  obtain ⟨name, hne, hname⟩ := name
  intro h
  cases name with
  | nil => exact absurd rfl hne
  | cons b ws =>
      obtain ⟨hb, hws⟩ := List.forall_mem_cons.1 hname
      rw [HeaderLine.render, List.cons_append, List.cons_append, List.cons_append]
      rw [accepts_headerLineStart_token hb, accepts_headerName]
      exact ⟨ws, value.1, s', hws, value.2, rfl, by simpa [Request.addName, Request.addValue] using h⟩

/-- After a field line, a continuation line is taken. -/
theorem accepts_continuation (hr : r.headers ≠ []) (blanks : Blanks) (text : FoldedText)
    {s' : List UInt8} :
    AcceptsFrom .headerLineStart (r.addValue text.1) s' t →
      AcceptsFrom .headerLineStart r ((HeaderLine.continuation blanks text).render ++ s') t := by
  obtain ⟨blanks, hne, hblanks⟩ := blanks
  intro h
  cases blanks with
  | nil => exact absurd rfl hne
  | cons b ws =>
      obtain ⟨hb, hws⟩ := List.forall_mem_cons.1 hblanks
      rw [HeaderLine.render, List.cons_append, List.cons_append, List.cons_append]
      rw [accepts_headerLineStart_blank hr hb, accepts_headerLws]
      exact ⟨ws, text.1, s', hws, text.2.1, text.2.2, rfl, h⟩

/-- **One header line.** At the start of a line an accepted input is the line end that closes the
request, or a header line and then an accepted input. -/
theorem accepts_headerLineStart :
    AcceptsFrom .headerLineStart r s t ↔
      (s = crlf ∧ t = (⟨.expectingNewline3⟩, r)) ∨
        ∃ (line : HeaderLine) (s' : List UInt8), line.AllowedAfter r.headers ∧
          s = line.render ++ s' ∧
          AcceptsFrom .headerLineStart { r with headers := line.addTo r.headers } s' t := by
  constructor
  · intro h
    cases s with
    | nil => exact absurd h Feeder.not_accepts_nil
    | cons b s =>
        by_cases hcr : b = chr '\r'
        · -- the empty line that closes the request
          subst hcr
          obtain ⟨rfl, rfl⟩ := accepts_headerLineStart_cr.1 h
          apply Or.inl
          exact ⟨rfl, rfl⟩
        by_cases htok : TokenByte b
        · -- a field line: `b` is the first byte of its name
          rw [accepts_headerLineStart_token htok, accepts_headerName] at h
          obtain ⟨ws, vs, s', hws, hvs, rfl, h⟩ := h
          apply Or.inr
          refine ⟨.field ⟨b :: ws, by simp, List.forall_mem_cons.2 ⟨htok, hws⟩⟩ ⟨vs, hvs⟩, s',
            fun _ => trivial, rfl, ?_⟩
          simpa [HeaderLine.addTo, Request.addName, Request.addValue] using h
        by_cases hblank : r.headers ≠ [] ∧ Blank b
        · -- a continuation line: `b` is its first blank
          obtain ⟨hr, hb⟩ := hblank
          rw [accepts_headerLineStart_blank hr hb, accepts_headerLws] at h
          obtain ⟨ws, vs, s', hws, hvs, hhead, rfl, h⟩ := h
          apply Or.inr
          exact ⟨.continuation ⟨b :: ws, by simp, List.forall_mem_cons.2 ⟨hb, hws⟩⟩
            ⟨vs, hvs, hhead⟩, s', fun hr' => absurd hr' hr, rfl, h⟩
        · -- any other byte is rejected
          apply absurd h
          apply not_accepts_headerLineStart hcr htok
          intro hr hb
          exact hblank ⟨hr, hb⟩
  · rintro (⟨rfl, rfl⟩ | ⟨line, s', hline, rfl, h⟩)
    · apply accepts_headerLineStart_cr.2
      exact ⟨rfl, rfl⟩
    · cases line with
      | field name value => exact accepts_field name value h
      | continuation blanks text =>
          apply accepts_continuation _ blanks text h
          intro hr
          exact hline hr

theorem HeaderLine.addTo_ne_nil {hs : List Header} {line : HeaderLine}
    (h : line.AllowedAfter hs) : line.addTo hs ≠ [] := by
  cases line with
  | field name value => simp [addTo]
  | continuation blanks text =>
      -- without a header the line would have to be a field line
      induction hs using List.reverseRecOn with
      | nil => exact absurd (h rfl) id
      | append_singleton hs h' _ => simp [addTo]

/-- **All header lines.** -/
theorem accepts_headerLines :
    AcceptsFrom .headerLineStart r s t ↔
      ∃ lines : List HeaderLine, (∀ line ∈ lines.head?, line.AllowedAfter r.headers) ∧
        s = lines.flatMap HeaderLine.render ++ crlf ∧
        t = (⟨.expectingNewline3⟩, { r with headers := lines.foldl HeaderLine.addTo r.headers }) := by
  constructor
  · intro h
    -- every header line is a non-empty part of the input
    generalize hn : s.length = n
    induction n using Nat.strongRecOn generalizing s r with
    | ind n ih =>
        rcases accepts_headerLineStart.1 h with ⟨rfl, rfl⟩ | ⟨line, s', hline, rfl, h'⟩
        · exact ⟨[], by simp, by simp, rfl⟩
        · have hpos : 0 < line.render.length := by
            cases line <;> simp only [HeaderLine.render, crlf, List.length_append, List.length_cons] <;>
              omega
          rw [List.length_append] at hn
          obtain ⟨lines, -, rfl, rfl⟩ := ih s'.length (by omega) h' rfl
          exact ⟨line :: lines, by simpa using hline, by simp, rfl⟩
  · rintro ⟨lines, hhead, rfl, rfl⟩
    induction lines generalizing r with
    | nil =>
        apply accepts_headerLineStart.2
        exact Or.inl ⟨rfl, rfl⟩
    | cons line lines ih =>
        have hline : line.AllowedAfter r.headers := hhead line (by simp)
        -- after this line there is a header, so any line may follow
        have hrest := ih (r := { r with headers := line.addTo r.headers })
          fun _ _ hnil => absurd hnil (HeaderLine.addTo_ne_nil hline)
        apply accepts_headerLineStart.2
        exact Or.inr ⟨line, _, hline, by simp, hrest⟩

/-- The headers that lines build up are those that `headersOf` reads off. -/
theorem foldl_addTo_append (hs : List Header) (h : Header) (lines : List HeaderLine) :
    lines.foldl HeaderLine.addTo (hs ++ [h]) =
      hs ++ { h with value := h.value ++ continuationTexts lines } :: headersOf lines := by
  induction lines generalizing hs h with
  | nil => simp [continuationTexts, headersOf]
  | cons line lines ih =>
      cases line with
      | field name value =>
          rw [List.foldl_cons, HeaderLine.addTo, ih (hs ++ [h])]
          simp [continuationTexts, headersOf]
      | continuation blanks text =>
          rw [List.foldl_cons, HeaderLine.addTo, modifyBack_append_singleton, ih]
          simp [continuationTexts, headersOf]

theorem foldl_addTo_nil {lines : List HeaderLine} (h : ∀ line ∈ lines.head?, line.IsField) :
    lines.foldl HeaderLine.addTo [] = headersOf lines := by
  cases lines with
  | nil => rfl
  | cons line lines =>
      cases line with
      | field name value => exact foldl_addTo_append [] ⟨name.1, value.1⟩ lines
      | continuation blanks text => exact absurd (h _ rfl) id

/-! ## The version numbers -/

theorem pushDigit_ofNat (n : Nat) {b : UInt8} (hb : DigitByte b) :
    pushDigit (Int32.ofNat n) b = Int32.ofNat (10 * n + digitVal b) := by
  have hval : charToInt b = (digitVal b : Int) + charToInt (chr '0') := by
    revert hb
    exact forall_byte (P := fun b => DigitByte b →
      charToInt b = (digitVal b : Int) + charToInt (chr '0')) (by decide +kernel) b
  rw [pushDigit, hval, Int32.ofInt_add, ← Int32.add_assoc, Int32.add_sub_cancel,
    Int32.ofInt_eq_ofNat, Int32.mul_comm, Int32.ofNat_add, Int32.ofNat_mul]
  rfl

/-- The digits of a numeral leave its value in the register, as far as an `int` holds it. -/
theorem foldl_pushDigit {ds : List UInt8} (h : ∀ b ∈ ds, DigitByte b) :
    ds.foldl pushDigit 0 = Int32.ofNat (decimal ds) := by
  have key : ∀ (ds : List UInt8) (n : Nat), (∀ b ∈ ds, DigitByte b) →
      ds.foldl pushDigit (Int32.ofNat n) =
        Int32.ofNat (ds.foldl (fun n d => 10 * n + digitVal d) n) := by
    intro ds
    induction ds with
    | nil => intro n _; rfl
    | cons d ds ih =>
        intro n hds
        obtain ⟨hd, hds⟩ := List.forall_mem_cons.1 hds
        rw [List.foldl_cons, List.foldl_cons, pushDigit_ofNat n hd, ih _ hds]
  exact key ds 0 h

/-! ## The whole request -/

/-- The request line: what is read before the header lines. -/
theorem accepts_requestLine :
    AcceptsFrom .methodStart r s t ↔
      ∃ (method : Token) (uri : UriText) (major minor : Digits) (s' : List UInt8),
        s = method.1 ++ chr ' ' :: uri.1 ++ chr ' ' :: str "HTTP/" ++ major.1 ++ chr '.' ::
          minor.1 ++ crlf ++ s' ∧
        AcceptsFrom .headerLineStart
          { r with
            method := r.method ++ method.1
            uri := r.uri ++ uri.1
            httpVersionMajor := Int32.ofNat (decimal major.1)
            httpVersionMinor := Int32.ofNat (decimal minor.1) } s' t := by
  simp only [accepts_methodStart, accepts_method, accepts_uri, accepts_httpVersionH,
    accepts_httpVersionMajorStart, accepts_httpVersionMajor, accepts_httpVersionMinorStart,
    accepts_httpVersionMinor]
  constructor
  · rintro ⟨m, _, hm, rfl, ms, _, hms, rfl, u, _, hu, rfl, _, rfl, d, _, hd, rfl, ds, _, hds, rfl,
      e, _, he, rfl, es, s', hes, rfl, h⟩
    have hmajor := List.forall_mem_cons.2 ⟨hd, hds⟩
    have hminor := List.forall_mem_cons.2 ⟨he, hes⟩
    refine ⟨⟨m :: ms, by simp, List.forall_mem_cons.2 ⟨hm, hms⟩⟩, ⟨u, hu⟩,
      ⟨d :: ds, by simp, hmajor⟩, ⟨e :: es, by simp, hminor⟩, s', by simp, ?_⟩
    rw [← foldl_pushDigit hmajor, ← foldl_pushDigit hminor]
    simpa [Request.addMethod, Request.addUri, Request.addMajor, Request.addMinor] using h
  · rintro ⟨⟨method, hne, hmethod⟩, ⟨u, hu⟩, ⟨major, hne', hmajor⟩, ⟨minor, hne'', hminor⟩, s', rfl,
      h⟩
    rw [← foldl_pushDigit hmajor, ← foldl_pushDigit hminor] at h
    obtain ⟨m, ms, rfl⟩ := List.exists_cons_of_ne_nil hne
    obtain ⟨d, ds, rfl⟩ := List.exists_cons_of_ne_nil hne'
    obtain ⟨e, es, rfl⟩ := List.exists_cons_of_ne_nil hne''
    obtain ⟨hm, hms⟩ := List.forall_mem_cons.1 hmethod
    obtain ⟨hd, hds⟩ := List.forall_mem_cons.1 hmajor
    obtain ⟨he, hes⟩ := List.forall_mem_cons.1 hminor
    refine ⟨m, ms ++ chr ' ' :: (u ++ chr ' ' :: (str "HTTP/" ++ (d :: ds ++ chr '.' ::
      (e :: es ++ crlf ++ s')))), hm, by simp, ms, _, hms, rfl, u, _, hu, rfl, _, rfl, d,
      ds ++ chr '.' :: (e :: es ++ crlf ++ s'), hd, rfl, ds, _, hds, rfl, e, es ++ crlf ++ s', he,
      rfl, es, s', hes, rfl, ?_⟩
    simpa [Request.addMethod, Request.addUri, Request.addMajor, Request.addMinor] using h

/-- **The parser accepts exactly the well-formed requests.** From a new parser and an empty request,
`parse` says `good` at the last byte of `s` and leaves the request `req` exactly when `s` is the
rendering of a well-formed request that `req` stands for. -/
theorem parse_good_iff_requestText (major minor : Int32) (s : List UInt8) (req : Request) :
    (∃ p, RequestParser.new.parse (Request.fresh major minor) s = ⟨.good, [], p, req⟩) ↔
      ∃ g : RequestText, s = g.render ∧ req = g.request := by
  have hparse : ∀ p, RequestParser.new.parse (Request.fresh major minor) s = ⟨.good, [], p, req⟩ ↔
      AcceptsFrom .methodStart (Request.fresh major minor) s (p, req) := fun p => parse_eq_good_iff
  simp only [hparse, accepts_requestLine, accepts_headerLines]
  constructor
  · rintro ⟨p, method, uri, maj, min, _, rfl, lines, hlines, rfl, heq⟩
    have hfield : ∀ line ∈ lines.head?, line.IsField := fun line hl => hlines line hl rfl
    refine ⟨⟨method, uri, maj, min, lines, hfield⟩, by simp [RequestText.render], ?_⟩
    obtain ⟨-, rfl⟩ := Prod.mk.inj heq
    simp [RequestText.request, Request.fresh, foldl_addTo_nil hfield]
  · rintro ⟨⟨method, uri, maj, min, lines, hfield⟩, rfl, rfl⟩
    refine ⟨⟨.expectingNewline3⟩, method, uri, maj, min, lines.flatMap HeaderLine.render ++ crlf,
      by simp [RequestText.render], lines, fun line hl _ => hfield line hl, rfl, ?_⟩
    simp [RequestText.request, Request.fresh, foldl_addTo_nil hfield]

/-- A folded header: the text of the continuation line follows the value directly. -/
example :
    (RequestParser.new.parse (.fresh 0 0)
      (str "GET / HTTP/1.0\r\nA: b\r\n \t c\r\n\r\n")).request.headers =
    [⟨str "A", str "bc"⟩] := by
  decide +kernel

end AsioExamples.Http
