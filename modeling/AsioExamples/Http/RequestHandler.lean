import AsioExamples.Cxx.Stream
import AsioExamples.Http.MimeTypes
import AsioExamples.Http.Reply

/-!
# The request handler

`request_handler.hpp` and `request_handler.cpp`, which the three servers share. A string index is the
suffix of the string from there on, and `npos` is `none`.
-/

set_option autoImplicit false

namespace AsioExamples.Http

open AsioExamples.Cxx

/-- The loop of `url_decode`: the string from index `i` on, and `out` so far. -/
def urlDecodeLoop (out : List UInt8) : List UInt8 → Bool × List UInt8
  | [] => (true, out)
  | c :: rest =>
      if c = chr '%' then
        -- `i + 3 <= in.size()`: two more characters, which need not be digits
        match rest with
        | d₁ :: d₂ :: rest' =>
            match extractHex [d₁, d₂] with
            | some value => urlDecodeLoop (out ++ [toChar value]) rest'
            | none => (false, out)
        | _ => (false, out)
      else if c = chr '+' then urlDecodeLoop (out ++ [chr ' ']) rest
      else urlDecodeLoop (out ++ [c]) rest

/-- `request_handler::url_decode`: what it returns, and what it leaves in `out`. -/
def urlDecode (inp _out : List UInt8) : Bool × List UInt8 := urlDecodeLoop [] inp

/-- `s.find(t)` -/
def find (s t : List UInt8) : Option Nat :=
  (List.range (s.length + 1)).find? fun i => t.isPrefixOf (s.drop i)

/-- `s.find_last_of(c)` for a string of one character. -/
def findLastOf (s : List UInt8) (c : UInt8) : Option Nat :=
  (List.range s.length).reverse.find? fun i => s[i]? = some c

/-- The first half of `handle_request`: the path to look up, with `index.html` added to a
directory, or nothing where the request is a bad one. -/
def requestPath (req : Request) : Option (List UInt8) :=
  match urlDecode req.uri [] with
  | (false, _) => none
  | (true, path) =>
      -- the path must be absolute, and must not contain ".."
      if path.isEmpty || path.head? != some (chr '/') || (find path (str "..")).isSome then none
      else if path.getLast? = some (chr '/') then some (path ++ str "index.html")
      else some path

/-- The file extension that `handle_request` determines. -/
def extensionOf (path : List UInt8) : List UInt8 :=
  let lastSlashPos := findLastOf path (chr '/')
  let lastDotPos := findLastOf path (chr '.')
  match lastDotPos, lastSlashPos with
  | some dot, some slash => if slash < dot then path.drop (dot + 1) else []
  | _, _ => []

/-- What `handle_request` does: the reply it leaves, and the C string with which it opened a file,
when it got that far. -/
structure Handled where
  reply : Reply
  opened : Option (List UInt8)
  deriving DecidableEq, Repr

/-- `request_handler::handle_request`. The reply `rep` is the one passed in. -/
def handleRequest (docRoot : List UInt8) (fs : FileSystem) (req : Request) (rep : Reply) :
    Handled :=
  match requestPath req with
  | none => ⟨.stockReply .badRequest, none⟩
  | some path =>
      let fullPath := docRoot ++ path
      match openFile fs (cStr fullPath) with
      | none => ⟨.stockReply .notFound, some (cStr fullPath)⟩
      | some is =>
          -- the content is appended to the reply, 512 characters at a time
          let content := readAll 512 is rep.content
          ⟨{ status := .ok
             content := content
             headers := setTwoHeaders rep.headers (str "Content-Length")
               (stdToString content.length) (str "Content-Type")
               (extensionToType (extensionOf path)) },
            some (cStr fullPath)⟩

/-! ## What a request is answered with -/

/-- What `handle_request` leaves for a path that names a file. -/
theorem handleRequest_of_file {docRoot : List UInt8} {fs : FileSystem} {req : Request}
    {path bytes : List UInt8} (rep : Reply) (hpath : requestPath req = some path)
    (hfile : fs (cStr (docRoot ++ path)) = some bytes) :
    (handleRequest docRoot fs req rep).opened = some (cStr (docRoot ++ path)) ∧
      (handleRequest docRoot fs req rep).reply.status = .ok ∧
      (handleRequest docRoot fs req rep).reply.content = rep.content ++ bytes ∧
      (handleRequest docRoot fs req rep).reply.headers =
        [⟨str "Content-Length", stdToString (rep.content ++ bytes).length⟩,
          ⟨str "Content-Type", extensionToType (extensionOf path)⟩] := by
  have hopen : openFile fs (cStr (docRoot ++ path)) = some ⟨bytes, false⟩ := by
    rw [openFile, hfile]
    rfl
  have hread : readAll 512 ⟨bytes, false⟩ rep.content = rep.content ++ bytes :=
    readAll_eq (by decide) bytes rep.content
  simp only [handleRequest, hpath, hopen, hread, setTwoHeaders_eq, and_self]

/-- A reply is a stock reply with an error, or its path names a file. -/
theorem handleRequest_cases (docRoot : List UInt8) (fs : FileSystem) (req : Request) (rep : Reply) :
    (∃ status, status ≠ .ok ∧ (handleRequest docRoot fs req rep).reply = .stockReply status) ∨
      ∃ path bytes, requestPath req = some path ∧ fs (cStr (docRoot ++ path)) = some bytes := by
  cases hpath : requestPath req with
  | none =>
      refine Or.inl ⟨.badRequest, nofun, ?_⟩
      simp only [handleRequest, hpath]
  | some path =>
      cases hfile : fs (cStr (docRoot ++ path)) with
      | none =>
          refine Or.inl ⟨.notFound, nofun, ?_⟩
          simp only [handleRequest, hpath, openFile, hfile, Option.map_none]
      | some bytes => exact Or.inr ⟨path, bytes, rfl, hfile⟩

/-- A reply with the status `ok` comes from a path that names a file. -/
theorem handleRequest_ok {docRoot : List UInt8} {fs : FileSystem} {req : Request} {rep : Reply}
    (h : (handleRequest docRoot fs req rep).reply.status = .ok) :
    ∃ path bytes, requestPath req = some path ∧ fs (cStr (docRoot ++ path)) = some bytes := by
  rcases handleRequest_cases docRoot fs req rep with ⟨status, hne, hreply⟩ | hfile
  · rw [hreply] at h
    exact absurd h hne
  · exact hfile

end AsioExamples.Http
