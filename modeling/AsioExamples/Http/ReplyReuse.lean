import AsioExamples.Http.ConnectionRuns
import AsioExamples.Http.DocRoot

/-!
# A reply that is used again

`handle_request` is given a reply to fill. The error replies replace all of it. A file is appended to the
content that is there, so a reply that has some keeps it (`handleRequest_reply_eq_iff`). A connection
handles one request with the reply it was made with, which has none (`reply_unused`).
-/

set_option autoImplicit false

namespace AsioExamples.Http

open AsioExamples.Cxx AsioExamples.Lib AsioExamples.Asio

/-! ## The requests that are answered with a file -/

/-- The uri decodes to an absolute path without `..`, and there is a file under it, or under its
`index.html`, in the document root. -/
def NamesFile (docRoot : List UInt8) (fs : FileSystem) (req : Request) : Prop :=
  ∃ path, urlDecode req.uri [] = (true, path) ∧ path.head? = some (chr '/') ∧ ¬ str ".." <:+: path ∧
    (fs (cStr (docRoot ++
      if path.getLast? = some (chr '/') then path ++ str "index.html" else path))).isSome = true

theorem namesFile_iff {docRoot : List UInt8} {fs : FileSystem} {req : Request} :
    NamesFile docRoot fs req ↔
      ∃ path bytes, requestPath req = some path ∧ fs (cStr (docRoot ++ path)) = some bytes := by
  constructor
  · rintro ⟨p, hdecode, hhead, hdots, hfile⟩
    obtain ⟨bytes, hbytes⟩ := Option.isSome_iff_exists.1 hfile
    exact ⟨_, bytes, requestPath_eq_some_iff.2 ⟨p, hdecode, hhead, hdots, rfl⟩, hbytes⟩
  · rintro ⟨path, bytes, hpath, hbytes⟩
    obtain ⟨p, hdecode, hhead, hdots, rfl⟩ := requestPath_eq_some_iff.1 hpath
    exact ⟨p, hdecode, hhead, hdots, Option.isSome_iff_exists.2 ⟨bytes, hbytes⟩⟩

/-! ## Two replies for one request -/

/-- A request without a file gets the same reply whatever was in it. -/
theorem handleRequest_reply_of_not_namesFile {docRoot : List UInt8} {fs : FileSystem} {req : Request}
    (r₁ r₂ : Reply) (h : ¬ NamesFile docRoot fs req) :
    (handleRequest docRoot fs req r₁).reply = (handleRequest docRoot fs req r₂).reply := by
  rw [handleRequest, handleRequest]
  cases hpath : requestPath req with
  | none => rfl
  | some path =>
      have hfile : fs (cStr (docRoot ++ path)) = none := by
        rw [Option.eq_none_iff_forall_ne_some]
        intro bytes hbytes
        exact h (namesFile_iff.2 ⟨path, bytes, hpath, hbytes⟩)
      simp only [openFile, hfile, Option.map_none]

/-- A reply with a file keeps the content it was given. -/
theorem handleRequest_reply_of_namesFile {docRoot : List UInt8} {fs : FileSystem} {req : Request}
    (h : NamesFile docRoot fs req) :
    ∃ bytes type, ∀ rep, (handleRequest docRoot fs req rep).reply =
      ⟨.ok, [⟨str "Content-Length", stdToString (rep.content ++ bytes).length⟩,
        ⟨str "Content-Type", type⟩], rep.content ++ bytes⟩ := by
  obtain ⟨path, bytes, hpath, hbytes⟩ := namesFile_iff.1 h
  refine ⟨bytes, extensionToType (extensionOf path), fun rep => ?_⟩
  obtain ⟨-, hok, hcontent, hheaders⟩ := handleRequest_of_file rep hpath hbytes
  cases hreply : (handleRequest docRoot fs req rep).reply
  simp_all only

/-- **When two replies end up the same.** Two replies that are passed in for the same request come out
the same exactly when they held the same content, or the request is a bad one or names no file. -/
theorem handleRequest_reply_eq_iff (docRoot : List UInt8) (fs : FileSystem) (req : Request)
    (r₁ r₂ : Reply) :
    (handleRequest docRoot fs req r₁).reply = (handleRequest docRoot fs req r₂).reply ↔
      r₁.content = r₂.content ∨ ¬ NamesFile docRoot fs req := by
  by_cases hfile : NamesFile docRoot fs req
  · obtain ⟨bytes, type, hreply⟩ := handleRequest_reply_of_namesFile hfile
    rw [hreply r₁, hreply r₂]
    constructor
    · intro heq
      apply Or.inl
      exact List.append_cancel_right (congrArg Reply.content heq)
    · rintro (hcontent | hnot)
      · rw [hcontent]
      · exact absurd hfile hnot
  · exact iff_of_true (handleRequest_reply_of_not_namesFile r₁ r₂ hfile) (Or.inr hfile)

/-- The content of an earlier reply is sent again, in front of the file. -/
theorem handleRequest_leaks_content :
    ¬ ∀ docRoot fs req r₁ r₂,
      (handleRequest docRoot fs req r₁).reply = (handleRequest docRoot fs req r₂).reply := by
  intro hsame
  have hfile : NamesFile (str "/srv") (fun _ => some (str "x")) ⟨str "GET", str "/a.txt", 1, 0, []⟩ :=
    ⟨str "/a.txt", by decide +kernel⟩
  obtain ⟨bytes, type, hreply⟩ := handleRequest_reply_of_namesFile hfile
  -- a reply as the constructor leaves it, and one that answered an earlier request
  have heq := hsame (str "/srv") (fun _ => some (str "x")) ⟨str "GET", str "/a.txt", 1, 0, []⟩
    ⟨.ok, [], []⟩ (.stockReply .notFound)
  rw [hreply, hreply] at heq
  have hcontent := List.append_cancel_right (congrArg Reply.content heq)
  apply absurd hcontent
  decide

/-! ## The reply of a connection -/

/-- A reply that no handler has filled has no headers and no content. -/
theorem reply_unused {srv : Server} {docRoot : List UInt8} {s : ConnectionState}
    (h : (connectionMachine srv docRoot).Reachable s) (hfill : Action.fillReply ∉ s.trace) :
    s.conn.reply_.headers = [] ∧ s.conn.reply_.content = [] := by
  revert hfill
  apply h.induct (I := fun s => Action.fillReply ∉ s.trace →
    s.conn.reply_.headers = [] ∧ s.conn.reply_.content = [])
  · rintro s ⟨major, minor, status, rfl⟩ -
    exact ⟨rfl, rfl⟩
  · intro s e t hr hs hstep hfill
    have hlen : s.pending.length ≤ 1 := length_pending_le_one hr
    cases e with
    | complete i c =>
        obtain ⟨p, -, -, -, rfl⟩ := ConnectionState.complete_eq_some hlen hstep
        exact hs hfill
    | handler i fs =>
        obtain ⟨⟨t', acts⟩, hrun, rfl⟩ := Option.map_eq_some_iff.1 hstep
        obtain ⟨p, done, -, -, c', rfl, hcases⟩ := ConnectionState.handler_eq_some hlen hrun
        rw [ConnectionState.foldl_perform_trace, List.mem_append, not_or] at hfill
        rw [ConnectionState.foldl_perform_conn]
        rcases hcases with ⟨-, hread⟩ | ⟨rep, -, rfl, -⟩
        · rcases readHandler_cases srv (fun req rep => (handleRequest docRoot fs req rep).reply) s.conn
            done with ⟨ec, -, heq⟩ | ⟨-, c₁, n, hkeep, heq⟩ | ⟨-, c₁, r, n, -, heq⟩
          · obtain ⟨rfl, -⟩ := Prod.mk.inj (hread.trans heq)
            exact hs hfill.1
          · obtain ⟨rfl, -⟩ := Prod.mk.inj (hread.trans heq)
            rw [hkeep]
            exact hs hfill.1
          · -- a verdict fills the reply
            obtain ⟨-, rfl⟩ := Prod.mk.inj (hread.trans heq)
            exact absurd (by simp) hfill.2
        · exact hs hfill.1
    | stop =>
        obtain rfl := stop_eq_some hstep
        exact hs hfill

end AsioExamples.Http
