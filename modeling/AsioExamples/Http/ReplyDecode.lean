import AsioExamples.Lib.Lines
import AsioExamples.Http.ContentType

/-!
# Replies read back

A client takes the status line up to the first line end, the headers up to the first empty line, and the
content behind it. It finds the reply again wherever no line end stands in a header and no colon in its
name (`decodeReply_toBuffers`). All replies that a server sends are such (`Sendable.framed`), whatever
their content holds, and tell its length (`sendable_decodes`).
-/

set_option autoImplicit false

namespace AsioExamples.Http

open AsioExamples.Cxx AsioExamples.Lib

/-! ## Decoding -/

/-- The line end, and what separates the name of a header from its value. -/
def lineEnd : Delimiter UInt8 := ⟨chr '\r', [chr '\n']⟩

def separator : Delimiter UInt8 := ⟨chr ':', [chr ' ']⟩

/-- Every status there is. -/
def StatusType.all : List StatusType :=
  [.ok, .created, .accepted, .noContent, .multipleChoices, .movedPermanently, .movedTemporarily,
    .notModified, .badRequest, .unauthorized, .forbidden, .notFound, .internalServerError,
    .notImplemented, .badGateway, .serviceUnavailable]

/-- The status that a status line tells. -/
def decodeStatus (line : List UInt8) : Option StatusType :=
  StatusType.all.find? fun status => statusString status = line ++ crlf

/-- The header that a line tells. -/
def decodeHeaderLine (line : List UInt8) : Option Header :=
  (separator.cut line).map fun r => ⟨r.1, r.2⟩

/-- The reply that a byte string is. -/
def decodeReply (s : List UInt8) : Option Reply := do
  let (statusLine, rest) ← lineEnd.cut s
  let status ← decodeStatus statusLine
  let (lines, content) ← lineEnd.readBlock rest
  let headers ← lines.mapM decodeHeaderLine
  return ⟨status, headers, content⟩

/-! ## Encoding and decoding -/

/-- The line of a header, without its end. -/
def Header.line (h : Header) : List UInt8 := h.name ++ nameValueSeparator ++ h.value

/-- No line end stands in a header, and no colon in its name. -/
structure Header.Framed (h : Header) : Prop where
  name : chr '\r' ∉ h.name
  colon : chr ':' ∉ h.name
  value : chr '\r' ∉ h.value

theorem Header.Framed.line {h : Header} (hh : h.Framed) : h.line ≠ [] ∧ lineEnd.first ∉ h.line := by
  constructor
  · simp [Header.line, nameValueSeparator]
  · have hseparator : chr '\r' ∉ nameValueSeparator := by decide
    simp only [Header.line, List.mem_append, not_or]
    exact ⟨⟨hh.name, hseparator⟩, hh.value⟩

/-- A header is found in its line. -/
theorem decodeHeaderLine_line {h : Header} (hh : h.Framed) : decodeHeaderLine h.line = some h := by
  have hcut : separator.cut h.line = some (h.name, h.value) := separator.cut_append hh.colon h.value
  rw [decodeHeaderLine, hcut]
  rfl

theorem mapM_decodeHeaderLine {hs : List Header} (hhs : ∀ h ∈ hs, h.Framed) :
    (hs.map Header.line).mapM decodeHeaderLine = some hs := by
  induction hs with
  | nil => rfl
  | cons h hs ih =>
      obtain ⟨hh, hhs⟩ := List.forall_mem_cons.1 hhs
      rw [List.map_cons, List.mapM_cons, decodeHeaderLine_line hh, ih hhs]
      rfl

theorem StatusType.mem_all (status : StatusType) : status ∈ StatusType.all := by
  cases status <;> decide

/-- The status strings are all different, and each of them is a line and its end. -/
theorem statusString_all :
    (StatusType.all.map statusString).Nodup ∧
      ∀ status ∈ StatusType.all,
        statusString status = (statusString status).dropLast.dropLast ++ crlf ∧
          chr '\r' ∉ (statusString status).dropLast.dropLast := by
  decide +kernel

/-- The line of a status. -/
theorem statusString_eq (status : StatusType) :
    ∃ line, statusString status = line ++ crlf ∧ chr '\r' ∉ line :=
  ⟨_, statusString_all.2 status status.mem_all⟩

/-- A status is found by its string. -/
theorem find?_statusString (status : StatusType) :
    (StatusType.all.find? fun st => statusString st = statusString status) = some status := by
  have hsame : ∀ st ∈ StatusType.all,
      decide (statusString st = statusString status) = decide (st = status) := by
    intro st hst
    have hinj := List.inj_on_of_nodup_map statusString_all.1 hst status.mem_all
    simp only [decide_eq_decide]
    exact ⟨hinj, congrArg statusString⟩
  rw [List.find?_congr hsame]
  cases status <;> rfl

/-- The bytes that the buffers of a reply refer to. -/
theorem flatten_toBuffers (rep : Reply) :
    rep.toBuffers.flatten =
      statusString rep.status ++
        ((rep.headers.map Header.line).flatMap (· ++ crlf) ++ crlf ++ rep.content) := by
  have hheaders : ∀ hs : List Header,
      (hs.flatMap fun h => [h.name, nameValueSeparator, h.value, crlf]).flatten =
        (hs.map Header.line).flatMap (· ++ crlf) := by
    intro hs
    induction hs with
    | nil => rfl
    | cons h hs ih =>
        rw [List.flatMap_cons, List.flatten_append, ih, List.map_cons, List.flatMap_cons]
        simp [Header.line]
  simp [Reply.toBuffers, hheaders]

/-- **A reply is found again in its bytes**, whatever its content is. -/
theorem decodeReply_toBuffers {rep : Reply} (h : ∀ hd ∈ rep.headers, hd.Framed) :
    decodeReply rep.toBuffers.flatten = some rep := by
  obtain ⟨line, hline, hfirst⟩ := statusString_eq rep.status
  have hlines : ∀ l ∈ rep.headers.map Header.line, l ≠ [] ∧ lineEnd.first ∉ l := by
    intro l hl
    obtain ⟨hd, hhd, rfl⟩ := List.mem_map.1 hl
    exact (h hd hhd).line
  have hcut : lineEnd.cut rep.toBuffers.flatten =
      some (line, (rep.headers.map Header.line).flatMap (· ++ crlf) ++ crlf ++ rep.content) := by
    rw [flatten_toBuffers, hline]
    exact lineEnd.cut_append hfirst _
  have hstatus : decodeStatus line = some rep.status := by
    rw [decodeStatus, ← hline]
    exact find?_statusString rep.status
  have hblock : lineEnd.readBlock
      ((rep.headers.map Header.line).flatMap (· ++ crlf) ++ crlf ++ rep.content) =
        some (rep.headers.map Header.line, rep.content) :=
    lineEnd.readBlock_append hlines rep.content
  simp only [decodeReply, hcut, hstatus, hblock, mapM_decodeHeaderLine h, Option.bind_eq_bind,
    Option.bind_some, Option.pure_def]

/-! ## The replies that are sent -/

/-- The replies that a server sends: a stock reply, or what `handle_request` makes of a
default-constructed reply, whose status is not set. -/
inductive Sendable : Reply → Prop where
  | stock (status : StatusType) : Sendable (.stockReply status)
  | handled (docRoot : List UInt8) (fs : FileSystem) (req : Request) (status : StatusType) :
      Sendable (handleRequest docRoot fs req ⟨status, [], []⟩).reply

/-- No line end is in a MIME type. -/
theorem notMem_extensionToType (extension : List UInt8) :
    chr '\r' ∉ extensionToType extension := by
  have htypes : ∀ m ∈ mappings, chr '\r' ∉ m.mimeType := by decide
  rw [extensionToType]
  cases hfind : mappings.find? fun m => m.extension = extension with
  | none => decide
  | some m => exact htypes m (List.mem_of_find?_eq_some hfind)

/-- Such a reply has two headers, the length of its content and its type. -/
theorem Sendable.headers_eq {rep : Reply} (h : Sendable rep) :
    ∃ type, chr '\r' ∉ type ∧
      rep.headers = [⟨str "Content-Length", stdToString rep.content.length⟩,
        ⟨str "Content-Type", type⟩] := by
  have hstock : ∀ status, ∃ type, chr '\r' ∉ type ∧ (Reply.stockReply status).headers =
      [⟨str "Content-Length", stdToString (Reply.stockReply status).content.length⟩,
        ⟨str "Content-Type", type⟩] := by
    intro status
    exact ⟨str "text/html", by decide, setTwoHeaders_eq _ _ _ _ _⟩
  cases h with
  | stock status => exact hstock status
  | handled docRoot fs req status =>
      rcases handleRequest_cases docRoot fs req ⟨status, [], []⟩ with ⟨st, -, hreply⟩ | hfile
      · rw [hreply]
        exact hstock st
      · obtain ⟨path, bytes, hpath, hbytes⟩ := hfile
        obtain ⟨-, -, hcontent, hheaders⟩ := handleRequest_of_file ⟨status, [], []⟩ hpath hbytes
        rw [hcontent]
        exact ⟨_, notMem_extensionToType _, hheaders⟩

theorem isdigit_of_mem_stdToString {n : ℕ} {c : UInt8} (h : c ∈ stdToString n) : isdigit c = true :=
  isdigit_of_mem_digits h

/-- No line end stands in the headers of such a reply, and no colon in their names. -/
theorem Sendable.framed {rep : Reply} (h : Sendable rep) : ∀ hd ∈ rep.headers, hd.Framed := by
  obtain ⟨type, htype, hheaders⟩ := h.headers_eq
  have hlength : chr '\r' ∉ stdToString rep.content.length := by
    intro hmem
    exact absurd (isdigit_of_mem_stdToString hmem) (by decide)
  have hnames : chr '\r' ∉ str "Content-Length" ∧ chr ':' ∉ str "Content-Length" ∧
      chr '\r' ∉ str "Content-Type" ∧ chr ':' ∉ str "Content-Type" := by decide
  rw [hheaders]
  simp only [List.mem_cons, List.not_mem_nil, or_false, forall_eq_or_imp, forall_eq]
  exact ⟨⟨hnames.1, hnames.2.1, hlength⟩, ⟨hnames.2.2.1, hnames.2.2.2, htype⟩⟩

/-- **Every reply that is sent decodes**, uniquely, to its status, its headers and its content, and its
header `Content-Length` is the decimal number of the bytes of the content. The content of a reply with
the status `ok` is the file that was opened, of whatever length. -/
theorem sendable_decodes :
    (∀ rep, Sendable rep →
      decodeReply rep.toBuffers.flatten = some rep ∧
        (∀ rep', Sendable rep' → rep'.toBuffers.flatten = rep.toBuffers.flatten → rep' = rep) ∧
        ∃ value, rep.header? (str "Content-Length") = some value ∧ value ≠ [] ∧
          (∀ c ∈ value, isdigit c = true) ∧ decimal value = rep.content.length) ∧
      ∀ docRoot fs req status,
        (handleRequest docRoot fs req ⟨status, [], []⟩).reply.status = .ok →
          ∃ opened bytes, (handleRequest docRoot fs req ⟨status, [], []⟩).opened = some opened ∧
            fs opened = some bytes ∧
            (handleRequest docRoot fs req ⟨status, [], []⟩).reply.content = bytes := by
  constructor
  · intro rep hrep
    have hdecode := decodeReply_toBuffers hrep.framed
    refine ⟨hdecode, ?_, ?_⟩
    · intro rep' hrep' hsame
      have hdecode' := decodeReply_toBuffers hrep'.framed
      rw [hsame, hdecode] at hdecode'
      exact (Option.some.inj hdecode').symm
    · obtain ⟨type, -, hheaders⟩ := hrep.headers_eq
      refine ⟨stdToString rep.content.length, ?_, digits_ne_nil _,
        fun c => isdigit_of_mem_stdToString, decimal_digits _⟩
      rw [Reply.header?, hheaders, List.find?_cons_of_pos (by simp)]
      rfl
  · intro docRoot fs req status hok
    obtain ⟨path, bytes, hpath, hbytes⟩ := handleRequest_ok hok
    obtain ⟨hopened, -, hcontent, -⟩ := handleRequest_of_file ⟨status, [], []⟩ hpath hbytes
    exact ⟨_, bytes, hopened, hbytes, hcontent⟩

/-- A file that looks like a header and the end of the headers, sent for a directory. -/
theorem sendable_decodes_headerLike :
    let handled := handleRequest (str "/srv") (fun _ => some (str "A: b\r\n\r\n"))
      ⟨str "GET", str "/", 1, 0, []⟩ ⟨.notFound, [], []⟩
    decodeReply handled.reply.toBuffers.flatten = some handled.reply ∧
      ∃ opened bytes, handled.opened = some opened ∧ some (str "A: b\r\n\r\n") = some bytes ∧
        handled.reply.content = bytes :=
  ⟨(sendable_decodes.1 _ (.handled _ _ _ _)).1,
    sendable_decodes.2 (str "/srv") (fun _ => some (str "A: b\r\n\r\n"))
      ⟨str "GET", str "/", 1, 0, []⟩ .notFound (by decide +kernel)⟩

end AsioExamples.Http
