import AsioExamples.Cxx.Numeric
import AsioExamples.Http.RequestParser

/-!
# Replies

`reply.hpp` and `reply.cpp`, which the three servers share. A buffer of `to_buffers` is the bytes it
refers to.
-/

set_option autoImplicit false

namespace AsioExamples.Http

open AsioExamples.Cxx

/-- `reply::status_type`. -/
inductive StatusType where
  | ok
  | created
  | accepted
  | noContent
  | multipleChoices
  | movedPermanently
  | movedTemporarily
  | notModified
  | badRequest
  | unauthorized
  | forbidden
  | notFound
  | internalServerError
  | notImplemented
  | badGateway
  | serviceUnavailable
  deriving DecidableEq, Repr

/-- `struct reply`. -/
structure Reply where
  status : StatusType
  headers : List Header
  content : List UInt8
  deriving DecidableEq, Repr

/-- `status_strings::to_buffer` -/
def statusString : StatusType → List UInt8
  | .ok => str "HTTP/1.0 200 OK\r\n"
  | .created => str "HTTP/1.0 201 Created\r\n"
  | .accepted => str "HTTP/1.0 202 Accepted\r\n"
  | .noContent => str "HTTP/1.0 204 No Content\r\n"
  | .multipleChoices => str "HTTP/1.0 300 Multiple Choices\r\n"
  | .movedPermanently => str "HTTP/1.0 301 Moved Permanently\r\n"
  | .movedTemporarily => str "HTTP/1.0 302 Moved Temporarily\r\n"
  | .notModified => str "HTTP/1.0 304 Not Modified\r\n"
  | .badRequest => str "HTTP/1.0 400 Bad Request\r\n"
  | .unauthorized => str "HTTP/1.0 401 Unauthorized\r\n"
  | .forbidden => str "HTTP/1.0 403 Forbidden\r\n"
  | .notFound => str "HTTP/1.0 404 Not Found\r\n"
  | .internalServerError => str "HTTP/1.0 500 Internal Server Error\r\n"
  | .notImplemented => str "HTTP/1.0 501 Not Implemented\r\n"
  | .badGateway => str "HTTP/1.0 502 Bad Gateway\r\n"
  | .serviceUnavailable => str "HTTP/1.0 503 Service Unavailable\r\n"

/-- `misc_strings::name_value_separator` -/
def nameValueSeparator : List UInt8 := [chr ':', chr ' ']

/-- `reply::to_buffers` -/
def Reply.toBuffers (rep : Reply) : List (List UInt8) :=
  [statusString rep.status] ++
    rep.headers.flatMap (fun h => [h.name, nameValueSeparator, h.value, crlf]) ++
    [crlf, rep.content]

/-- `stock_replies::to_string` -/
def stockContent : StatusType → List UInt8
  | .ok => str ""
  | .created =>
      str "<html><head><title>Created</title></head>" ++
        str "<body><h1>201 Created</h1></body></html>"
  | .accepted =>
      str "<html><head><title>Accepted</title></head>" ++
        str "<body><h1>202 Accepted</h1></body></html>"
  | .noContent =>
      str "<html><head><title>No Content</title></head>" ++
        str "<body><h1>204 Content</h1></body></html>"
  | .multipleChoices =>
      str "<html><head><title>Multiple Choices</title></head>" ++
        str "<body><h1>300 Multiple Choices</h1></body></html>"
  | .movedPermanently =>
      str "<html><head><title>Moved Permanently</title></head>" ++
        str "<body><h1>301 Moved Permanently</h1></body></html>"
  | .movedTemporarily =>
      str "<html><head><title>Moved Temporarily</title></head>" ++
        str "<body><h1>302 Moved Temporarily</h1></body></html>"
  | .notModified =>
      str "<html><head><title>Not Modified</title></head>" ++
        str "<body><h1>304 Not Modified</h1></body></html>"
  | .badRequest =>
      str "<html><head><title>Bad Request</title></head>" ++
        str "<body><h1>400 Bad Request</h1></body></html>"
  | .unauthorized =>
      str "<html><head><title>Unauthorized</title></head>" ++
        str "<body><h1>401 Unauthorized</h1></body></html>"
  | .forbidden =>
      str "<html><head><title>Forbidden</title></head>" ++
        str "<body><h1>403 Forbidden</h1></body></html>"
  | .notFound =>
      str "<html><head><title>Not Found</title></head>" ++
        str "<body><h1>404 Not Found</h1></body></html>"
  | .internalServerError =>
      str "<html><head><title>Internal Server Error</title></head>" ++
        str "<body><h1>500 Internal Server Error</h1></body></html>"
  | .notImplemented =>
      str "<html><head><title>Not Implemented</title></head>" ++
        str "<body><h1>501 Not Implemented</h1></body></html>"
  | .badGateway =>
      str "<html><head><title>Bad Gateway</title></head>" ++
        str "<body><h1>502 Bad Gateway</h1></body></html>"
  | .serviceUnavailable =>
      str "<html><head><title>Service Unavailable</title></head>" ++
        str "<body><h1>503 Service Unavailable</h1></body></html>"

/-- `headers.resize(2)`, and the assignments to the names and values of both headers. -/
def setTwoHeaders (hs : List Header) (name₀ value₀ name₁ value₁ : List UInt8) : List Header :=
  let resized := (hs ++ List.replicate (2 - hs.length) (⟨[], []⟩ : Header)).take 2
  (((resized.modify 0 fun h => { h with name := name₀ }).modify 0
    fun h => { h with value := value₀ }).modify 1
    fun h => { h with name := name₁ }).modify 1 fun h => { h with value := value₁ }

/-- Whatever headers there were, exactly the two assigned ones are left. -/
@[simp] theorem setTwoHeaders_eq (hs : List Header) (name₀ value₀ name₁ value₁ : List UInt8) :
    setTwoHeaders hs name₀ value₀ name₁ value₁ = [⟨name₀, value₀⟩, ⟨name₁, value₁⟩] := by
  match hs with
  | [] => rfl
  | [_] => rfl
  | _ :: _ :: _ => simp [setTwoHeaders]

/-- `reply::stock_reply` -/
def Reply.stockReply (status : StatusType) : Reply :=
  let content := stockContent status
  { status := status
    content := content
    headers := setTwoHeaders [] (str "Content-Length") (stdToString content.length)
      (str "Content-Type") (str "text/html") }

end AsioExamples.Http
