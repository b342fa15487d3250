import AsioExamples.Lib.LexicalPath
import AsioExamples.Http.RequestHandler

/-!
# Requests stay inside the document root

Whatever a uri decodes to, the path that `handle_request` opens is the document root followed by a
path that no lexical resolution leads out of it. The check is made on the decoded path
(`requestPath_spec`); adding `index.html` and cutting at a NUL bring no two dots together.
-/

set_option autoImplicit false

namespace AsioExamples.Http

open AsioExamples.Cxx AsioExamples.Lib

/-- `find` succeeds exactly where the string occurs. -/
theorem find_isSome_iff {s t : List UInt8} : (find s t).isSome = true ↔ t <:+: s := by
  rw [find, List.find?_isSome]
  simp only [List.mem_range, List.isPrefixOf_iff_prefix]
  constructor
  · rintro ⟨i, -, hi⟩
    exact hi.isInfix.trans (List.drop_suffix i s).isInfix
  · rintro ⟨u, v, rfl⟩
    refine ⟨u.length, by simp only [List.length_append]; omega, ?_⟩
    rw [List.append_assoc, List.drop_left]
    exact List.prefix_append t v

/-- Two dots come together in `index.html` nowhere, nor after a slash. -/
theorem not_dots_append_index {path : List UInt8} (hdots : ¬ str ".." <:+: path)
    (hlast : path.getLast? = some (chr '/')) : ¬ str ".." <:+: path ++ str "index.html" := by
  rw [List.infix_append_iff_ne_nil]
  rintro (h | h | ⟨l₁, l₂, hne₁, hne₂, heq, hsuf, hpre⟩)
  · exact hdots h
  · apply absurd h
    decide
  · -- the only cut of the two dots leaves a dot at the end of `path`
    obtain ⟨u, rfl⟩ := hsuf
    rw [List.getLast?_append_of_ne_nil u hne₁] at hlast
    have hmem : chr '/' ∈ l₁ ++ l₂ := List.mem_append_left l₂ (List.mem_of_getLast? hlast)
    rw [← heq] at hmem
    apply absurd hmem
    decide

/-- The checks of `handle_request`, and what is added to a directory. -/
theorem requestPath_eq_some_iff {req : Request} {path : List UInt8} :
    requestPath req = some path ↔
      ∃ p, urlDecode req.uri [] = (true, p) ∧ p.head? = some (chr '/') ∧ ¬ str ".." <:+: p ∧
        path = if p.getLast? = some (chr '/') then p ++ str "index.html" else p := by
  rw [requestPath]
  rcases urlDecode req.uri [] with ⟨_ | _, p⟩
  · simp
  · by_cases hcheck : p.head? = some (chr '/') ∧ ¬ str ".." <:+: p
    · have hne : p.isEmpty = false := by
        cases p with
        | nil => simp at hcheck
        | cons c rest => rfl
      have hfind : (find p (str "..")).isSome = false := by
        rw [Bool.eq_false_iff, ne_eq, find_isSome_iff]
        exact hcheck.2
      simp [hne, hfind, hcheck, ← apply_ite some, eq_comm]
    · -- one of the three checks fails
      have hfail : (p.isEmpty || p.head? != some (chr '/') || (find p (str "..")).isSome) = true := by
        rw [Bool.or_eq_true, find_isSome_iff, Bool.or_eq_true, bne_iff_ne]
        tauto
      simp only [hfail, if_true]
      constructor
      · simp
      · rintro ⟨p', hp', hhead, hdots, -⟩
        cases hp'
        exact absurd ⟨hhead, hdots⟩ hcheck

/-- What the checks of `handle_request` leave. -/
theorem requestPath_spec {req : Request} {path : List UInt8} (h : requestPath req = some path) :
    path.head? = some (chr '/') ∧ ¬ str ".." <:+: path := by
  obtain ⟨p, -, hhead, hdots, rfl⟩ := requestPath_eq_some_iff.1 h
  split
  · -- `index.html` is added to a directory
    rename_i hlast
    refine ⟨?_, not_dots_append_index hdots hlast⟩
    rw [List.head?_append, hhead]
    rfl
  · exact ⟨hhead, hdots⟩

/-- The C string with which a file is opened. -/
theorem handleRequest_opened {docRoot : List UInt8} {fs : FileSystem} {req : Request} {rep : Reply}
    {opened : List UInt8} (h : (handleRequest docRoot fs req rep).opened = some opened) :
    ∃ path, requestPath req = some path ∧ opened = cStr (docRoot ++ path) := by
  rw [handleRequest] at h
  cases hpath : requestPath req with
  | none => simp [hpath] at h
  | some path =>
      refine ⟨path, rfl, ?_⟩
      simp only [hpath] at h
      split at h <;> exact (Option.some.inj h).symm

/-- **No request leaves the document root.** When `handle_request` opens a file, the C string it opens
is the document root followed by a path that starts with a slash, has no component `..`, and leads
out of the document root at no prefix. -/
theorem handleRequest_opens_inside_docRoot (docRoot : List UInt8) (fs : FileSystem) (req : Request)
    (rep : Reply) (opened : List UInt8) (hroot : (0 : UInt8) ∉ docRoot)
    (h : (handleRequest docRoot fs req rep).opened = some opened) :
    ∃ p, opened = docRoot ++ p ∧ p.head? = some (chr '/') ∧
      str ".." ∉ LexicalPath.components (chr '/') p ∧
      LexicalPath.StaysInside (chr '/') (chr '.') p := by
  obtain ⟨path, hpath, rfl⟩ := handleRequest_opened h
  obtain ⟨hhead, hdots⟩ := requestPath_spec hpath
  -- the path that is opened is a prefix of the one that was checked
  have hdots' : ¬ str ".." <:+: cStr path := by
    intro hinf
    apply hdots
    exact hinf.trans (cStr_isPrefix path).isInfix
  refine ⟨cStr path, cStr_append_of_notMem hroot, ?_,
    LexicalPath.notMem_components_of_not_infix hdots', LexicalPath.staysInside_of_not_infix hdots'⟩
  -- the cut leaves the slash, which is no NUL
  obtain ⟨rest, rfl⟩ : ∃ rest, path = chr '/' :: rest := by
    cases path with
    | nil => simp at hhead
    | cons c rest => exact ⟨rest, by simpa using hhead⟩
  rfl

/-- Escapes for a slash, a dot and a NUL: the path is cut before the directory it names. -/
theorem handleRequest_opens_inside_docRoot_nul :
    ∃ p, str "/srv/a/.x" = str "/srv" ++ p ∧ p.head? = some (chr '/') ∧
      str ".." ∉ LexicalPath.components (chr '/') p ∧
      LexicalPath.StaysInside (chr '/') (chr '.') p :=
  handleRequest_opens_inside_docRoot (str "/srv") (fun _ => none)
    ⟨str "GET", str "/a%2F%2ex%00./", 1, 1, []⟩ ⟨.ok, [], []⟩ (str "/srv/a/.x") (by decide)
    (by decide +kernel)

end AsioExamples.Http
