import Mathlib.Tactic.Common
import AsioExamples.Http.RequestParser

/-!
# The transitions of the parser

A byte that gives no verdict takes the parser along one of the transitions of its automaton
(`transition_of_consume`), and one that gives a verdict changes nothing (`consume_of_verdict`). What a byte
keeps of the parser and the request is proved by cases on `Transition`.
-/

set_option autoImplicit false

namespace AsioExamples.Http

open AsioExamples.Cxx

/-- The transitions of `consume` that ask for more: the state and the request, the byte, and the state and
the request after it. -/
inductive Transition : State → Request → UInt8 → State → Request → Prop where
  | methodStart {r : Request} {b : UInt8} (hb : TokenByte b) :
      Transition .methodStart r b .method { r with method := r.method ++ [b] }
  | method {r : Request} {b : UInt8} (hb : TokenByte b) :
      Transition .method r b .method { r with method := r.method ++ [b] }
  | methodEnd {r : Request} : Transition .method r (chr ' ') .uri r
  | uri {r : Request} {b : UInt8} (hne : b ≠ chr ' ') (hb : ¬ Control b) :
      Transition .uri r b .uri { r with uri := r.uri ++ [b] }
  | uriEnd {r : Request} : Transition .uri r (chr ' ') .httpVersionH r
  | httpVersionH {r : Request} : Transition .httpVersionH r (chr 'H') .httpVersionT1 r
  | httpVersionT1 {r : Request} : Transition .httpVersionT1 r (chr 'T') .httpVersionT2 r
  | httpVersionT2 {r : Request} : Transition .httpVersionT2 r (chr 'T') .httpVersionP r
  | httpVersionP {r : Request} : Transition .httpVersionP r (chr 'P') .httpVersionSlash r
  | httpVersionSlash {r : Request} :
      Transition .httpVersionSlash r (chr '/') .httpVersionMajorStart
        { r with httpVersionMajor := 0, httpVersionMinor := 0 }
  | majorStart {r : Request} {b : UInt8} (hb : DigitByte b) :
      Transition .httpVersionMajorStart r b .httpVersionMajor
        { r with httpVersionMajor := pushDigit r.httpVersionMajor b }
  | major {r : Request} {b : UInt8} (hb : DigitByte b) :
      Transition .httpVersionMajor r b .httpVersionMajor
        { r with httpVersionMajor := pushDigit r.httpVersionMajor b }
  | majorEnd {r : Request} : Transition .httpVersionMajor r (chr '.') .httpVersionMinorStart r
  | minorStart {r : Request} {b : UInt8} (hb : DigitByte b) :
      Transition .httpVersionMinorStart r b .httpVersionMinor
        { r with httpVersionMinor := pushDigit r.httpVersionMinor b }
  | minor {r : Request} {b : UInt8} (hb : DigitByte b) :
      Transition .httpVersionMinor r b .httpVersionMinor
        { r with httpVersionMinor := pushDigit r.httpVersionMinor b }
  | minorEnd {r : Request} : Transition .httpVersionMinor r (chr '\r') .expectingNewline1 r
  | newline1 {r : Request} : Transition .expectingNewline1 r (chr '\n') .headerLineStart r
  | headersEnd {r : Request} : Transition .headerLineStart r (chr '\r') .expectingNewline3 r
  | continuation {r : Request} {b : UInt8} (hne : r.headers ≠ [])
      (hb : b = chr ' ' ∨ b = chr '\t') : Transition .headerLineStart r b .headerLws r
  | headerStart {r : Request} {b : UInt8} (hb : TokenByte b) :
      Transition .headerLineStart r b .headerName
        { r with headers := modifyBack (pushName b) (r.headers ++ [⟨[], []⟩]) }
  | lwsEnd {r : Request} : Transition .headerLws r (chr '\r') .expectingNewline2 r
  | lws {r : Request} {b : UInt8} (hb : b = chr ' ' ∨ b = chr '\t') :
      Transition .headerLws r b .headerLws r
  | lwsText {r : Request} {b : UInt8} (hb : ¬ Control b) :
      Transition .headerLws r b .headerValue
        { r with headers := modifyBack (pushValue b) r.headers }
  | nameEnd {r : Request} : Transition .headerName r (chr ':') .spaceBeforeHeaderValue r
  | name {r : Request} {b : UInt8} (hb : TokenByte b) :
      Transition .headerName r b .headerName
        { r with headers := modifyBack (pushName b) r.headers }
  | space {r : Request} : Transition .spaceBeforeHeaderValue r (chr ' ') .headerValue r
  | valueEnd {r : Request} : Transition .headerValue r (chr '\r') .expectingNewline2 r
  | value {r : Request} {b : UInt8} (hb : ¬ Control b) :
      Transition .headerValue r b .headerValue
        { r with headers := modifyBack (pushValue b) r.headers }
  | newline2 {r : Request} : Transition .expectingNewline2 r (chr '\n') .headerLineStart r

section

variable {c : Prop} [Decidable c] {p p' : RequestParser} {r r' : Request}
  {x : ResultType × RequestParser × Request}

/-- Where the first branch is `bad`, the second one asks for more. -/
theorem of_bad_else (h : (if c then (.bad, p, r) else x) = (.indeterminate, p', r')) :
    ¬ c ∧ x = (.indeterminate, p', r') := by
  split at h
  · cases h
  · rename_i hc
    exact ⟨hc, h⟩

/-- Where the second branch is `bad`, the first one asks for more. -/
theorem of_else_bad (h : (if c then x else (.bad, p, r)) = (.indeterminate, p', r')) :
    c ∧ x = (.indeterminate, p', r') := by
  split at h
  · rename_i hc
    exact ⟨hc, h⟩
  · cases h

end

/-- **A byte that asks for more makes a transition.** -/
theorem transition_of_consume {q q' : State} {r r' : Request} {b : UInt8}
    (h : (⟨q⟩ : RequestParser).consume r b = (.indeterminate, ⟨q'⟩, r')) :
    Transition q r b q' r' := by
  cases q with
  | methodStart =>
      simp only [RequestParser.consume, notToken_iff] at h
      obtain ⟨hb, heq⟩ := of_bad_else h
      cases heq
      exact .methodStart (not_not.1 hb)
  | method =>
      simp only [RequestParser.consume, notToken_iff] at h
      split at h
      · rename_i hend
        cases h
        exact hend ▸ .methodEnd
      · obtain ⟨hb, heq⟩ := of_bad_else h
        cases heq
        exact .method (not_not.1 hb)
  | uri =>
      simp only [RequestParser.consume, isCtl_iff] at h
      split at h
      · rename_i hend
        cases h
        exact hend ▸ .uriEnd
      · rename_i hne
        obtain ⟨hb, heq⟩ := of_bad_else h
        cases heq
        exact .uri hne hb
  | httpVersionH | httpVersionT1 | httpVersionT2 | httpVersionP | httpVersionSlash
  | expectingNewline1 | spaceBeforeHeaderValue | expectingNewline2 =>
      -- one byte is expected
      simp only [RequestParser.consume] at h
      obtain ⟨rfl, heq⟩ := of_else_bad h
      cases heq
      constructor
  | httpVersionMajorStart =>
      simp only [RequestParser.consume, isDigit_iff] at h
      obtain ⟨hb, heq⟩ := of_else_bad h
      cases heq
      exact .majorStart hb
  | httpVersionMajor =>
      simp only [RequestParser.consume, isDigit_iff] at h
      split at h
      · rename_i hend
        cases h
        exact hend ▸ .majorEnd
      · obtain ⟨hb, heq⟩ := of_else_bad h
        cases heq
        exact .major hb
  | httpVersionMinorStart =>
      simp only [RequestParser.consume, isDigit_iff] at h
      obtain ⟨hb, heq⟩ := of_else_bad h
      cases heq
      exact .minorStart hb
  | httpVersionMinor =>
      simp only [RequestParser.consume, isDigit_iff] at h
      split at h
      · rename_i hend
        cases h
        exact hend ▸ .minorEnd
      · obtain ⟨hb, heq⟩ := of_else_bad h
        cases heq
        exact .minor hb
  | headerLineStart =>
      simp only [RequestParser.consume, notToken_iff] at h
      split at h
      · rename_i hend
        cases h
        exact hend ▸ .headersEnd
      · split at h
        · rename_i hblank
          cases h
          simp only [Bool.and_eq_true, Bool.not_eq_true', List.isEmpty_eq_false_iff,
            Bool.or_eq_true, decide_eq_true_eq] at hblank
          exact .continuation hblank.1 hblank.2
        · obtain ⟨hb, heq⟩ := of_bad_else h
          cases heq
          exact .headerStart (not_not.1 hb)
  | headerLws =>
      simp only [RequestParser.consume, isCtl_iff] at h
      split at h
      · rename_i hend
        cases h
        exact hend ▸ .lwsEnd
      · split at h
        · rename_i hblank
          cases h
          simp only [Bool.or_eq_true, decide_eq_true_eq] at hblank
          exact .lws hblank
        · obtain ⟨hb, heq⟩ := of_bad_else h
          cases heq
          exact .lwsText hb
  | headerName =>
      simp only [RequestParser.consume, notToken_iff] at h
      split at h
      · rename_i hend
        cases h
        exact hend ▸ .nameEnd
      · obtain ⟨hb, heq⟩ := of_bad_else h
        cases heq
        exact .name (not_not.1 hb)
  | headerValue =>
      simp only [RequestParser.consume, isCtl_iff] at h
      split at h
      · rename_i hend
        cases h
        exact hend ▸ .valueEnd
      · obtain ⟨hb, heq⟩ := of_bad_else h
        cases heq
        exact .value hb
  | expectingNewline3 =>
      -- the last byte gives a verdict in any case
      simp only [RequestParser.consume] at h
      split at h <;> cases h

/-- A byte that gives a verdict leaves the parser and the request as they are. -/
theorem consume_of_verdict {p : RequestParser} {r : Request} {b : UInt8}
    (h : (p.consume r b).1 ≠ .indeterminate) : (p.consume r b).2 = (p, r) := by
  revert h
  rcases p with ⟨q⟩
  cases q <;> simp only [RequestParser.consume] <;> split_ifs <;> simp

end AsioExamples.Http
