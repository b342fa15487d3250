import Mathlib.Data.List.Find
import AsioExamples.Lib.Lists
import AsioExamples.Http.DocRoot

/-!
# The type that a reply claims

`handle_request` finds the extension of a file in the request path, a `std::string`, and opens the file
through a C string. Up to the first NUL the two are the same, and `extensionOf` reads off a path what its
last component says (`extensionToType_extensionOf`). `contentType_iff` says when the reply has the type
of the file that was opened.
-/

set_option autoImplicit false

namespace AsioExamples.Http

open AsioExamples.Cxx AsioExamples.Lib

/-! ## The extension of a path -/

/-- The component of a path behind its last slash. -/
def lastComponent (path : List UInt8) : List UInt8 := afterLast (chr '/') path

/-- The extension of a path: what stands behind the last dot of its last component, where there is a
dot. -/
def fileExtension (path : List UInt8) : Option (List UInt8) :=
  if chr '.' ∈ lastComponent path then some (afterLast (chr '.') (lastComponent path)) else none

/-- The MIME type of a path: that of its extension, and `text/plain` without one. -/
def mimeTypeOf (path : List UInt8) : List UInt8 :=
  match fileExtension path with
  | some extension => extensionToType extension
  | none => str "text/plain"

/-- A header of a reply. -/
def Reply.header? (rep : Reply) (name : List UInt8) : Option (List UInt8) :=
  (rep.headers.find? fun h => h.name = name).map Header.value

/-! ## The last position of a character -/

theorem findLastOf_concat (s : List UInt8) (x c : UInt8) :
    findLastOf (s ++ [x]) c = if x = c then some s.length else findLastOf s c := by
  have hlen : (s ++ [x]).length = s.length + 1 := by simp
  rw [findLastOf, hlen, List.range_succ, List.reverse_concat, List.find?_cons]
  by_cases hx : x = c
  · simp [hx]
  · have hlast : ¬ (s ++ [x])[s.length]? = some c := by simpa using hx
    simp only [hlast, decide_false, if_neg hx]
    -- in front of the new character there is what was there before
    apply List.find?_congr
    intro i hi
    have hi : i < s.length := by simpa using hi
    rw [List.getElem?_append_left hi]

theorem findLastOf_of_notMem {s : List UInt8} {c : UInt8} (h : c ∉ s) : findLastOf s c = none := by
  rw [findLastOf, List.find?_eq_none]
  intro i _ hi
  apply h
  exact List.mem_of_getElem? (by simpa using hi)

/-- `find_last_of` finds the last occurrence. -/
theorem findLastOf_append_cons {v : List UInt8} {c : UInt8} (u : List UInt8) (h : c ∉ v) :
    findLastOf (u ++ c :: v) c = some u.length := by
  induction v using List.reverseRecOn with
  | nil => rw [findLastOf_concat, if_pos rfl]
  | append_singleton v x ih =>
      rw [List.mem_append, List.mem_singleton, not_or] at h
      rw [← List.cons_append, ← List.append_assoc, findLastOf_concat, if_neg (Ne.symm h.2), ih h.1]

/-! ## The extension that is determined -/

/-- The comparison of the two positions finds the extension of the last component. -/
theorem extensionOf_eq {path : List UInt8} (h : chr '/' ∈ path) :
    extensionOf path = (fileExtension path).getD [] := by
  obtain ⟨u, v, rfl, hv⟩ := exists_last_occurrence h
  have hcomponent : lastComponent (u ++ chr '/' :: v) = v := afterLast_append_cons u hv
  rw [extensionOf, findLastOf_append_cons u hv, fileExtension, hcomponent]
  by_cases hdot : chr '.' ∈ v
  · -- the last dot is behind the last slash
    obtain ⟨a, b, rfl, hb⟩ := exists_last_occurrence hdot
    have hsplit : u ++ chr '/' :: (a ++ chr '.' :: b) = (u ++ chr '/' :: a) ++ chr '.' :: b := by simp
    have hdrop : (u ++ chr '/' :: a ++ chr '.' :: b).drop ((u ++ chr '/' :: a).length + 1) = b := by
      rw [← List.drop_drop, List.drop_left]
      rfl
    have hlt : u.length < (u ++ chr '/' :: a).length := by simp
    rw [hsplit, findLastOf_append_cons _ hb, if_pos hdot, afterLast_append_cons a hb]
    simp only [if_pos hlt, hdrop, Option.getD_some]
  · have hne : chr '.' ≠ chr '/' := by decide
    rw [if_neg hdot]
    by_cases hdir : chr '.' ∈ u
    · -- the last dot is in front of the last slash
      obtain ⟨a, b, rfl, hb⟩ := exists_last_occurrence hdir
      have hrest : chr '.' ∉ b ++ chr '/' :: v := by
        simp [hb, hdot, hne]
      rw [List.append_assoc, List.cons_append, findLastOf_append_cons a hrest]
      exact if_neg (by simp)
    · have hnone : chr '.' ∉ u ++ chr '/' :: v := by
        simp [hdir, hdot, hne]
      rw [findLastOf_of_notMem hnone]
      rfl

/-- The type that is looked up is that of the path. -/
theorem extensionToType_extensionOf {path : List UInt8} (h : chr '/' ∈ path) :
    extensionToType (extensionOf path) = mimeTypeOf path := by
  rw [extensionOf_eq h, mimeTypeOf]
  cases fileExtension path with
  | none => decide
  | some extension => rfl

/-! ## Paths with a NUL -/

/-- No extension of the table has a NUL. -/
theorem extensionToType_of_nul {extension : List UInt8} (h : 0 ∈ extension) :
    extensionToType extension = str "text/plain" := by
  have hnone : mappings.find? (fun m => m.extension = extension) = none := by
    rw [List.find?_eq_none]
    intro m hm hext
    have hnul : ∀ m ∈ mappings, (0 : UInt8) ∉ m.extension := by decide
    apply hnul m hm
    rw [of_decide_eq_true hext]
    exact h
  rw [extensionToType, hnone]

/-- What is put in front of a path with a slash does not matter. -/
theorem mimeTypeOf_append {t : List UInt8} (s : List UInt8) (h : chr '/' ∈ t) :
    mimeTypeOf (s ++ t) = mimeTypeOf t := by
  rw [mimeTypeOf, mimeTypeOf, fileExtension, fileExtension, lastComponent, lastComponent,
    afterLast_append_of_mem s h]

/-- Behind a NUL only what follows it has a say. -/
theorem mimeTypeOf_nul (z w : List UInt8) : mimeTypeOf (z ++ 0 :: w) = mimeTypeOf w := by
  by_cases hslash : chr '/' ∈ w
  · rw [← List.singleton_append, ← List.append_assoc, mimeTypeOf_append _ hslash]
  · have hslash' : chr '/' ∉ 0 :: w := by simp [hslash, show chr '/' ≠ 0 by decide]
    have hleft : lastComponent (z ++ 0 :: w) = lastComponent z ++ 0 :: w :=
      afterLast_append_of_notMem z hslash'
    have hright : lastComponent w = w := afterLast_of_notMem hslash
    rw [mimeTypeOf, mimeTypeOf, fileExtension, fileExtension, hleft, hright]
    by_cases hdot : chr '.' ∈ w
    · have hdot' : chr '.' ∈ 0 :: w := List.mem_cons_of_mem 0 hdot
      rw [if_pos (List.mem_append_right _ hdot'), if_pos hdot, ← List.singleton_append,
        ← List.append_assoc, afterLast_append_of_mem _ hdot]
    · -- an extension with a NUL is as good as none
      have hdot' : chr '.' ∉ 0 :: w := by simp [hdot, show chr '.' ≠ 0 by decide]
      rw [if_neg hdot, afterLast_append_of_notMem _ hdot']
      split
      · rename_i extension hext
        split at hext
        · cases hext
          exact extensionToType_of_nul (by simp)
        · cases hext
      · rfl

/-! ## The reply -/

/-- What a reply with a file should keep to: its type is that of the file that was opened. -/
def Handled.TypeMatches (h : Handled) : Prop :=
  h.reply.status = .ok →
    ∃ opened, h.opened = some opened ∧
      h.reply.header? (str "Content-Type") = some (mimeTypeOf opened)

/-- The path is absolute. -/
theorem slash_mem_requestPath {req : Request} {path : List UInt8} (h : requestPath req = some path) :
    chr '/' ∈ path :=
  List.mem_of_head? (requestPath_spec h).1

/-- The second of the two headers is found under its name. -/
theorem header?_contentType {rep : Reply} {length type : List UInt8}
    (h : rep.headers = [⟨str "Content-Length", length⟩, ⟨str "Content-Type", type⟩]) :
    rep.header? (str "Content-Type") = some type := by
  have hne : ¬ str "Content-Length" = str "Content-Type" := by decide
  rw [Reply.header?, h, List.find?_cons_of_neg (by simpa using hne),
    List.find?_cons_of_pos (by simp)]
  rfl

/-- **When the type matches the file.** The reply has the type of the file that was opened exactly when
the path has no NUL, or what follows its first NUL names the same type as what precedes it. -/
theorem contentType_iff (docRoot : List UInt8) (fs : FileSystem) (req : Request) (rep : Reply) :
    (handleRequest docRoot fs req rep).TypeMatches ↔
      ∀ path w, requestPath req = some path → (fs (cStr (docRoot ++ path))).isSome = true →
        docRoot ++ path = cStr (docRoot ++ path) ++ 0 :: w →
          mimeTypeOf w = mimeTypeOf (cStr (docRoot ++ path)) := by
  constructor
  · intro hmatches path w hpath hfile hsplit
    obtain ⟨bytes, hbytes⟩ := Option.isSome_iff_exists.1 hfile
    obtain ⟨hopened, hok, -, hheaders⟩ := handleRequest_of_file rep hpath hbytes
    obtain ⟨opened, hopened', htype⟩ := hmatches hok
    have hslash := slash_mem_requestPath hpath
    rw [hopened] at hopened'
    cases hopened'
    rw [header?_contentType hheaders, extensionToType_extensionOf hslash] at htype
    calc mimeTypeOf w = mimeTypeOf (cStr (docRoot ++ path) ++ 0 :: w) := (mimeTypeOf_nul _ w).symm
      _ = mimeTypeOf (docRoot ++ path) := by rw [← hsplit]
      _ = mimeTypeOf path := mimeTypeOf_append docRoot hslash
      _ = mimeTypeOf (cStr (docRoot ++ path)) := Option.some.inj htype
  · intro hsame hok
    obtain ⟨path, bytes, hpath, hbytes⟩ := handleRequest_ok hok
    obtain ⟨hopened, -, -, hheaders⟩ := handleRequest_of_file rep hpath hbytes
    have hslash := slash_mem_requestPath hpath
    refine ⟨_, hopened, ?_⟩
    rw [header?_contentType hheaders, extensionToType_extensionOf hslash,
      ← mimeTypeOf_append docRoot hslash]
    apply congrArg some
    rcases eq_cStr_or (docRoot ++ path) with hwhole | ⟨w, hsplit⟩
    · -- without a NUL the two paths are the same
      rw [← hwhole]
    · have htype := hsame path w hpath (by rw [hbytes]; rfl) hsplit
      rw [← htype, ← mimeTypeOf_nul (cStr (docRoot ++ path)) w, ← hsplit]

/-- An HTML file is sent as an image. -/
theorem contentType_html_as_gif :
    ¬ (handleRequest (str "/srv") (fun path => if path = str "/srv/a.html" then some (str "x") else none)
      ⟨str "GET", str "/a.html%00.gif", 1, 0, []⟩ ⟨.ok, [], []⟩).TypeMatches := by
  intro hmatches
  have hpath : requestPath ⟨str "GET", str "/a.html%00.gif", 1, 0, []⟩ =
      some (str "/a.html" ++ 0 :: str ".gif") := by decide +kernel
  obtain ⟨hopened, hok, -, hheaders⟩ := @handleRequest_of_file (str "/srv")
    (fun path => if path = str "/srv/a.html" then some (str "x") else none) _ _ (str "x")
    ⟨.ok, [], []⟩ hpath (by decide +kernel)
  obtain ⟨opened, hopened', htype⟩ := hmatches hok
  rw [hopened] at hopened'
  cases hopened'
  rw [header?_contentType hheaders] at htype
  exact absurd htype (by decide +kernel)

end AsioExamples.Http
