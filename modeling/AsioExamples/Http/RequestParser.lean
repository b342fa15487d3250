import Mathlib.Data.Int.Notation
import AsioExamples.Cxx.Char
import AsioExamples.Lib.Feeder

/-!
# The request and its parser

`header.hpp`, `request.hpp`, `request_parser.hpp` and `request_parser.cpp`, which the three servers
share. The version numbers are `int`s: the model wraps them, where C++ leaves an overflow undefined;
no branch of the parser reads them.

`feeder` presents `consume` as a recogniser that gives the verdicts `good` and `bad`;
`parse_eq_run` says that `parse` runs it.
-/

set_option autoImplicit false

namespace AsioExamples.Http

open AsioExamples.Cxx AsioExamples.Lib

/-- `struct header`. -/
structure Header where
  name : List UInt8
  value : List UInt8
  deriving DecidableEq, Repr

/-- `struct request`. -/
structure Request where
  method : List UInt8
  uri : List UInt8
  httpVersionMajor : Int32
  httpVersionMinor : Int32
  headers : List Header
  deriving DecidableEq, Repr

/-- An empty request; its two `int`s are not initialised and hold any value. -/
def Request.fresh (major minor : Int32) : Request := ⟨[], [], major, minor, []⟩

/-- Apply `f` to `headers.back()`. On an empty vector C++ leaves this undefined; here nothing is
changed. -/
def modifyBack (f : Header → Header) : List Header → List Header
  | [] => []
  | [h] => [f h]
  | h :: h' :: hs => h :: modifyBack f (h' :: hs)

/-- `headers.back().name.push_back(c)` -/
def pushName (c : UInt8) (h : Header) : Header := { h with name := h.name ++ [c] }

/-- `headers.back().value.push_back(c)` -/
def pushValue (c : UInt8) (h : Header) : Header := { h with value := h.value ++ [c] }

/-- `request_parser::state`. -/
inductive State where
  | methodStart
  | method
  | uri
  | httpVersionH
  | httpVersionT1
  | httpVersionT2
  | httpVersionP
  | httpVersionSlash
  | httpVersionMajorStart
  | httpVersionMajor
  | httpVersionMinorStart
  | httpVersionMinor
  | expectingNewline1
  | headerLineStart
  | headerLws
  | headerName
  | spaceBeforeHeaderValue
  | headerValue
  | expectingNewline2
  | expectingNewline3
  deriving DecidableEq, Repr

/-- `class request_parser`. -/
structure RequestParser where
  state_ : State
  deriving DecidableEq, Repr

/-- The constructor: ready to parse the request method. -/
def RequestParser.new : RequestParser := ⟨.methodStart⟩

/-- `request_parser::reset` -/
def RequestParser.reset (_ : RequestParser) : RequestParser := ⟨.methodStart⟩

/-- `request_parser::result_type`. -/
inductive ResultType where
  | good
  | bad
  | indeterminate
  deriving DecidableEq, Repr

/-- `request_parser::is_char` -/
def isChar (c : Int) : Bool := 0 ≤ c && c ≤ 127

/-- `request_parser::is_ctl` -/
def isCtl (c : Int) : Bool := (0 ≤ c && c ≤ 31) || c = 127

/-- The cases of the switch in `is_tspecial`. -/
def tspecials : List UInt8 :=
  [chr '(', chr ')', chr '<', chr '>', chr '@', chr ',', chr ';', chr ':', chr '\\', chr '"',
    chr '/', chr '[', chr ']', chr '?', chr '=', 0x7B, 0x7D, chr ' ', chr '\t']

/-- `request_parser::is_tspecial` -/
def isTspecial (c : Int) : Bool := tspecials.any fun t => charToInt t = c

/-- `request_parser::is_digit` -/
def isDigit (c : Int) : Bool := charToInt (chr '0') ≤ c && c ≤ charToInt (chr '9')

/-- `version * 10 + input - '0'` in `int`s. -/
def pushDigit (version : Int32) (input : UInt8) : Int32 :=
  version * 10 + Int32.ofInt (charToInt input) - Int32.ofInt (charToInt (chr '0'))

/-- `request_parser::consume` -/
def RequestParser.consume (p : RequestParser) (req : Request) (input : UInt8) :
    ResultType × RequestParser × Request :=
  let c := charToInt input
  match p.state_ with
  | .methodStart =>
      -- the first byte of the method: a method is not empty
      if !isChar c || isCtl c || isTspecial c then (.bad, p, req)
      else (.indeterminate, ⟨.method⟩, { req with method := req.method ++ [input] })
  | .method =>
      if input = chr ' ' then (.indeterminate, ⟨.uri⟩, req)
      else if !isChar c || isCtl c || isTspecial c then (.bad, p, req)
      else (.indeterminate, p, { req with method := req.method ++ [input] })
  | .uri =>
      -- a second space ends an empty uri; a byte from 128 on is a negative `char` and no control byte
      if input = chr ' ' then (.indeterminate, ⟨.httpVersionH⟩, req)
      else if isCtl c then (.bad, p, req)
      else (.indeterminate, p, { req with uri := req.uri ++ [input] })
  | .httpVersionH =>
      if input = chr 'H' then (.indeterminate, ⟨.httpVersionT1⟩, req) else (.bad, p, req)
  | .httpVersionT1 =>
      if input = chr 'T' then (.indeterminate, ⟨.httpVersionT2⟩, req) else (.bad, p, req)
  | .httpVersionT2 =>
      if input = chr 'T' then (.indeterminate, ⟨.httpVersionP⟩, req) else (.bad, p, req)
  | .httpVersionP =>
      if input = chr 'P' then (.indeterminate, ⟨.httpVersionSlash⟩, req) else (.bad, p, req)
  | .httpVersionSlash =>
      if input = chr '/' then
        -- both numbers begin at zero here, whatever the members held
        (.indeterminate, ⟨.httpVersionMajorStart⟩,
          { req with httpVersionMajor := 0, httpVersionMinor := 0 })
      else (.bad, p, req)
  | .httpVersionMajorStart =>
      if isDigit c then
        (.indeterminate, ⟨.httpVersionMajor⟩,
          { req with httpVersionMajor := pushDigit req.httpVersionMajor input })
      else (.bad, p, req)
  | .httpVersionMajor =>
      if input = chr '.' then (.indeterminate, ⟨.httpVersionMinorStart⟩, req)
      else if isDigit c then
        (.indeterminate, p, { req with httpVersionMajor := pushDigit req.httpVersionMajor input })
      else (.bad, p, req)
  | .httpVersionMinorStart =>
      if isDigit c then
        (.indeterminate, ⟨.httpVersionMinor⟩,
          { req with httpVersionMinor := pushDigit req.httpVersionMinor input })
      else (.bad, p, req)
  | .httpVersionMinor =>
      if input = chr '\r' then (.indeterminate, ⟨.expectingNewline1⟩, req)
      else if isDigit c then
        (.indeterminate, p, { req with httpVersionMinor := pushDigit req.httpVersionMinor input })
      else (.bad, p, req)
  | .expectingNewline1 =>
      if input = chr '\n' then (.indeterminate, ⟨.headerLineStart⟩, req) else (.bad, p, req)
  | .headerLineStart =>
      -- the one transition that depends on the request: a line is continued only after a header
      if input = chr '\r' then (.indeterminate, ⟨.expectingNewline3⟩, req)
      else if !req.headers.isEmpty && (input = chr ' ' || input = chr '\t') then
        (.indeterminate, ⟨.headerLws⟩, req)
      else if !isChar c || isCtl c || isTspecial c then (.bad, p, req)
      else
        -- a header is added, and the byte is the first of its name
        (.indeterminate, ⟨.headerName⟩,
          { req with headers := modifyBack (pushName input) (req.headers ++ [⟨[], []⟩]) })
  | .headerLws =>
      -- blanks at the beginning of a continuation line are not stored
      if input = chr '\r' then (.indeterminate, ⟨.expectingNewline2⟩, req)
      else if input = chr ' ' || input = chr '\t' then (.indeterminate, p, req)
      else if isCtl c then (.bad, p, req)
      else
        (.indeterminate, ⟨.headerValue⟩,
          { req with headers := modifyBack (pushValue input) req.headers })
  | .headerName =>
      if input = chr ':' then (.indeterminate, ⟨.spaceBeforeHeaderValue⟩, req)
      else if !isChar c || isCtl c || isTspecial c then (.bad, p, req)
      else
        (.indeterminate, p, { req with headers := modifyBack (pushName input) req.headers })
  | .spaceBeforeHeaderValue =>
      if input = chr ' ' then (.indeterminate, ⟨.headerValue⟩, req) else (.bad, p, req)
  | .headerValue =>
      if input = chr '\r' then (.indeterminate, ⟨.expectingNewline2⟩, req)
      else if isCtl c then (.bad, p, req)
      else
        (.indeterminate, p, { req with headers := modifyBack (pushValue input) req.headers })
  | .expectingNewline2 =>
      if input = chr '\n' then (.indeterminate, ⟨.headerLineStart⟩, req) else (.bad, p, req)
  | .expectingNewline3 =>
      -- `state_` stays as it is, also when the request is complete
      (if input = chr '\n' then .good else .bad, p, req)

/-- What `parse` returns, with the parser and the request it leaves behind. `rest` is the input
from the returned iterator on. -/
structure ParseResult where
  result : ResultType
  rest : List UInt8
  parser : RequestParser
  request : Request
  deriving DecidableEq, Repr

/-- `request_parser::parse` -/
def RequestParser.parse (p : RequestParser) (req : Request) : List UInt8 → ParseResult
  | [] => ⟨.indeterminate, [], p, req⟩
  | b :: rest =>
      match p.consume req b with
      | (.good, p', req') => ⟨.good, rest, p', req'⟩
      | (.bad, p', req') => ⟨.bad, rest, p', req'⟩
      | (.indeterminate, p', req') => p'.parse req' rest

/-! ## The parser as a feeder -/

/-- The two verdicts of the parser. -/
inductive Verdict where
  | good
  | bad
  deriving DecidableEq, Repr

/-- A result is a verdict or asks for more. -/
def ResultType.verdict : ResultType → Option Verdict
  | .good => some .good
  | .bad => some .bad
  | .indeterminate => none

/-- The result type of a verdict, `indeterminate` where none has fallen. -/
def ResultType.ofVerdict : Option Verdict → ResultType
  | some .good => .good
  | some .bad => .bad
  | none => .indeterminate

/-- `consume` as a feeder whose state is the parser and the request. -/
def feeder : Feeder (RequestParser × Request) UInt8 Verdict where
  step s b := ((s.1.consume s.2 b).2, (s.1.consume s.2 b).1.verdict)

/-- `parse` runs the feeder. -/
theorem parse_eq_run (p : RequestParser) (req : Request) (s : List UInt8) :
    p.parse req s =
      ⟨.ofVerdict (feeder.run (p, req) s).verdict, (feeder.run (p, req) s).rest,
        (feeder.run (p, req) s).state.1, (feeder.run (p, req) s).state.2⟩ := by
  induction s generalizing p req with
  | nil => rfl
  | cons b s ih =>
      -- the three results of `consume`: only the last one goes on to the next byte
      rcases h : p.consume req b with ⟨_ | _ | _, p', req'⟩
      · rw [feeder.run_cons_of_some (t := (p', req')) (v := .good)
          (by simp [feeder, h, ResultType.verdict])]
        simp [RequestParser.parse, h, ResultType.ofVerdict]
      · rw [feeder.run_cons_of_some (t := (p', req')) (v := .bad)
          (by simp [feeder, h, ResultType.verdict])]
        simp [RequestParser.parse, h, ResultType.ofVerdict]
      · rw [feeder.run_cons_of_none (t := (p', req'))
          (by simp [feeder, h, ResultType.verdict])]
        simp [RequestParser.parse, h, ih]

/-- `parse` says `good` at the last byte exactly when the feeder accepts. -/
theorem parse_eq_good_iff {p p' : RequestParser} {req req' : Request} {s : List UInt8} :
    p.parse req s = ⟨.good, [], p', req'⟩ ↔ feeder.Accepts .good (p, req) s (p', req') := by
  rw [parse_eq_run, Feeder.Accepts]
  rcases feeder.run (p, req) s with ⟨⟨q, r⟩, v, rest⟩
  rcases v with _ | _ | _ <;> simp [ResultType.ofVerdict, and_comm]

/-! ## Classes of bytes -/

/-- A control byte. -/
def Control (b : UInt8) : Prop := b < 32 ∨ b = 127

instance (b : UInt8) : Decidable (Control b) := inferInstanceAs (Decidable (_ ∨ _))

/-- A byte of a token: an ASCII byte that is neither a control byte nor a tspecial. -/
def TokenByte (b : UInt8) : Prop := b < 128 ∧ ¬ Control b ∧ b ∉ tspecials

instance (b : UInt8) : Decidable (TokenByte b) := inferInstanceAs (Decidable (_ ∧ _))

/-- A decimal digit. -/
def DigitByte (b : UInt8) : Prop := chr '0' ≤ b ∧ b ≤ chr '9'

instance (b : UInt8) : Decidable (DigitByte b) := inferInstanceAs (Decidable (_ ∧ _))

theorem isCtl_iff (b : UInt8) : isCtl (charToInt b) = true ↔ Control b :=
  forall_byte (P := fun b => isCtl (charToInt b) = true ↔ Control b) (by decide +kernel) b

theorem isDigit_iff (b : UInt8) : isDigit (charToInt b) = true ↔ DigitByte b :=
  forall_byte (P := fun b => isDigit (charToInt b) = true ↔ DigitByte b) (by decide +kernel) b

/-- The test that guards every token of the parser. -/
theorem notToken_iff (b : UInt8) :
    (!isChar (charToInt b) || isCtl (charToInt b) || isTspecial (charToInt b)) = true ↔
      ¬ TokenByte b :=
  forall_byte (P := fun b =>
    (!isChar (charToInt b) || isCtl (charToInt b) || isTspecial (charToInt b)) = true ↔
      ¬ TokenByte b) (by decide +kernel) b

end AsioExamples.Http
