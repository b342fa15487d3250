import AsioExamples.Cxx.Char

/-!
# MIME types

`mime_types.cpp`.
-/

set_option autoImplicit false

namespace AsioExamples.Http

open AsioExamples.Cxx

/-- `struct mapping`. -/
structure Mapping where
  extension : List UInt8
  mimeType : List UInt8
  deriving DecidableEq, Repr

/-- The table `mappings`. -/
def mappings : List Mapping :=
  [⟨str "gif", str "image/gif"⟩, ⟨str "htm", str "text/html"⟩, ⟨str "html", str "text/html"⟩,
    ⟨str "jpg", str "image/jpeg"⟩, ⟨str "png", str "image/png"⟩]

/-- `mime_types::extension_to_type` -/
def extensionToType (extension : List UInt8) : List UInt8 :=
  match mappings.find? fun m => m.extension = extension with
  | some m => m.mimeType
  | none => str "text/plain"

end AsioExamples.Http
