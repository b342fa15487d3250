import AsioExamples.Http.RequestParser

/-!
# The parser rejects at the earliest byte

From every state of the parser, whatever the request holds, some input completes the request
(`completion_accepts`). So the inputs on which `parse` asks for more are exactly the proper prefixes
of accepted ones, and it says `bad` at the first byte that no accepted input has in that place.
-/

set_option autoImplicit false

namespace AsioExamples.Http

open AsioExamples.Cxx AsioExamples.Lib

/-- Bytes that complete the request from a parser state. -/
def completion : State → List UInt8
  | .methodStart => str "G  HTTP/0.0\r\n\r\n"
  | .method => str "  HTTP/0.0\r\n\r\n"
  | .uri => str " HTTP/0.0\r\n\r\n"
  | .httpVersionH => str "HTTP/0.0\r\n\r\n"
  | .httpVersionT1 => str "TTP/0.0\r\n\r\n"
  | .httpVersionT2 => str "TP/0.0\r\n\r\n"
  | .httpVersionP => str "P/0.0\r\n\r\n"
  | .httpVersionSlash => str "/0.0\r\n\r\n"
  | .httpVersionMajorStart => str "0.0\r\n\r\n"
  | .httpVersionMajor => str ".0\r\n\r\n"
  | .httpVersionMinorStart => str "0\r\n\r\n"
  | .httpVersionMinor => str "\r\n\r\n"
  | .expectingNewline1 => str "\n\r\n"
  | .headerLineStart => str "\r\n"
  | .headerLws => str "\r\n\r\n"
  | .headerName => str ": \r\n\r\n"
  | .spaceBeforeHeaderValue => str " \r\n\r\n"
  | .headerValue => str "\r\n\r\n"
  | .expectingNewline2 => str "\n\r\n"
  | .expectingNewline3 => str "\n"

/-- **No state of the parser is dead.** -/
theorem completion_accepts (q : State) (r : Request) :
    ∃ t, feeder.Accepts .good (⟨q⟩, r) (completion q) t := by
  -- the header list decides nothing on these inputs, so the run computes for any request
  cases q <;> exact ⟨_, rfl⟩

theorem feeder_complete (s : RequestParser × Request) :
    ∃ ys t, feeder.Accepts .good s ys t := by
  obtain ⟨⟨q⟩, r⟩ := s
  exact ⟨completion q, completion_accepts q r⟩

/-- From a new parser and an empty request, `parse` says `good` having consumed all of `s`. -/
def Accepted (major minor : Int32) (s : List UInt8) : Prop :=
  (RequestParser.new.parse (.fresh major minor) s).result = .good ∧
    (RequestParser.new.parse (.fresh major minor) s).rest = []

/-- How many bytes `parse` has consumed. -/
def consumed (major minor : Int32) (s : List UInt8) : Nat :=
  s.length - (RequestParser.new.parse (.fresh major minor) s).rest.length

variable {major minor : Int32} {s : List UInt8}

/-- The state of the feeder at the start of a connection. -/
abbrev feederStart (major minor : Int32) : RequestParser × Request :=
  (.new, .fresh major minor)

theorem accepted_iff :
    Accepted major minor s ↔ ∃ t, feeder.Accepts .good (feederStart major minor) s t := by
  rw [Accepted, parse_eq_run]
  rcases h : feeder.run (feederStart major minor) s with ⟨t, v, rest⟩
  rcases v with _ | _ | _ <;> simp [Feeder.Accepts, h, ResultType.ofVerdict]

theorem parse_result_indeterminate_iff :
    (RequestParser.new.parse (.fresh major minor) s).result = .indeterminate ↔
      ∃ ys, ys ≠ [] ∧ Accepted major minor (s ++ ys) := by
  have hnone : (RequestParser.new.parse (.fresh major minor) s).result = .indeterminate ↔
      (feeder.run (feederStart major minor) s).verdict = none := by
    rw [parse_eq_run]
    rcases (feeder.run (feederStart major minor) s).verdict with _ | _ | _ <;>
      simp [ResultType.ofVerdict]
  rw [hnone, Feeder.verdict_eq_none_iff (v := .good) feeder_complete]
  simp only [accepted_iff, exists_and_left]

/-- The bytes up to and including the one at which `bad` falls. -/
theorem exists_of_parse_bad (h : (RequestParser.new.parse (.fresh major minor) s).result = .bad) :
    ∃ xs b rest t, s = xs ++ b :: rest ∧ consumed major minor s = xs.length + 1 ∧
      feeder.run (feederStart major minor) s = ⟨t, some .bad, rest⟩ := by
  rcases hrun : feeder.run (feederStart major minor) s with ⟨t, v, rest⟩
  have hv : v = some .bad := by
    rw [parse_eq_run, hrun] at h
    rcases v with _ | _ | _ <;> simp_all [ResultType.ofVerdict]
  subst hv
  obtain ⟨pre, hpre⟩ : rest <:+ s := by
    have hsuf := feeder.rest_suffix (feederStart major minor) s
    rwa [hrun] at hsuf
  rcases List.eq_nil_or_concat pre with rfl | ⟨xs, b, rfl⟩
  · -- a verdict needs a byte: with `rest = s` there would have been none
    rw [List.nil_append] at hpre
    subst hpre
    cases rest with
    | nil => simp at hrun
    | cons b rest =>
        rcases hb : feeder.step (feederStart major minor) b with ⟨u, _ | v⟩
        · rw [feeder.run_cons_of_none hb] at hrun
          have hle := (feeder.rest_suffix u rest).length_le
          rw [hrun, List.length_cons] at hle
          omega
        · rw [feeder.run_cons_of_some hb] at hrun
          apply absurd (congrArg (fun o => o.rest.length) hrun)
          simp
  · have hs : s = xs ++ b :: rest := by rw [← hpre]; simp
    refine ⟨xs, b, rest, t, hs, ?_, rfl⟩
    rw [consumed, parse_eq_run, hrun, hs]
    simp only [List.length_append, List.length_cons]
    omega

/-- **Viable prefixes.** From a new parser and an empty request:

- `parse` asks for more exactly on the proper prefixes of accepted inputs;
- where it says `bad` after `k` bytes, the first `k - 1` of them are such a prefix and the first `k`
  are a prefix of no accepted input;
- no accepted input is a proper prefix of another one, and every state can be completed. -/
theorem parse_viable_prefix (major minor : Int32) :
    (∀ s, (RequestParser.new.parse (.fresh major minor) s).result = .indeterminate ↔
      ∃ ys, ys ≠ [] ∧ Accepted major minor (s ++ ys)) ∧
    (∀ s, (RequestParser.new.parse (.fresh major minor) s).result = .bad →
      0 < consumed major minor s ∧
      (∃ ys, ys ≠ [] ∧ Accepted major minor (s.take (consumed major minor s - 1) ++ ys)) ∧
      ∀ ys, ¬ Accepted major minor (s.take (consumed major minor s) ++ ys)) ∧
    (∀ s ys, Accepted major minor s → Accepted major minor (s ++ ys) → ys = []) ∧
    ∀ (q : State) (r : Request), ∃ ys p r',
      (⟨q⟩ : RequestParser).parse r ys = ⟨.good, [], p, r'⟩ := by
  refine ⟨fun s => parse_result_indeterminate_iff, ?_, ?_, ?_⟩
  · intro s h
    obtain ⟨xs, b, rest, t, rfl, hk, hrun⟩ := exists_of_parse_bad h
    refine ⟨by omega, ?_, ?_⟩
    · have htake : (xs ++ b :: rest).take (consumed major minor (xs ++ b :: rest) - 1) = xs := by
        rw [hk, Nat.add_sub_cancel, List.take_left]
      obtain ⟨ys, u, hne, hacc⟩ :=
        Feeder.viable_of_verdict (v := .good) feeder_complete hrun
      rw [htake]
      exact ⟨ys, hne, accepted_iff.2 ⟨u, hacc⟩⟩
    · have htake : (xs ++ b :: rest).take (consumed major minor (xs ++ b :: rest)) = xs ++ [b] := by
        rw [hk]
        simp [List.take_append]
      have hrun' : feeder.run (feederStart major minor) ((xs ++ [b]) ++ rest) =
          ⟨t, some .bad, rest⟩ := by simpa using hrun
      rw [htake]
      intro ys hacc
      obtain ⟨u, hacc⟩ := accepted_iff.1 hacc
      apply Feeder.not_accepts_of_rejected hrun' _ ys u hacc
      simp
  · intro s ys hs hys
    obtain ⟨t, ht⟩ := accepted_iff.1 hs
    obtain ⟨u, hu⟩ := accepted_iff.1 hys
    exact ht.append_eq_nil hu
  · intro q r
    obtain ⟨ys, ⟨p, r'⟩, h⟩ := feeder_complete (⟨q⟩, r)
    exact ⟨ys, p, r', parse_eq_good_iff.2 h⟩

end AsioExamples.Http
