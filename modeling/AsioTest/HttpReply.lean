import AsioTest.HttpRequestParser

/-!
The reply of `http_server`: its status lines, its stock replies and the buffers it is written
from. A buffer is kept with the object it points into, the terminating NUL of a string included.
-/

namespace AsioTest.Http

open ByteStrings

inductive StatusType where
  | ok
  | created
  | accepted
  | noContent
  | multipleChoices
  | movedPermanently
  | movedTemporarily
  | notModified
  | badRequest
  | unauthorized
  | forbidden
  | notFound
  | internalServerError
  | notImplemented
  | badGateway
  | serviceUnavailable
  deriving DecidableEq

/-- The status of a reply nobody has filled yet is `none`. -/
structure Reply where
  status : Option StatusType := none
  headers : List Header := []
  content : Bytes := []
  deriving DecidableEq

/-- `const_buffer`: the first `size` bytes of `object`. -/
structure ConstBuffer where
  object : Bytes
  size : Nat
  deriving DecidableEq

def ConstBuffer.bytes (b : ConstBuffer) : Bytes := b.object.take b.size

/-- `asio::buffer` of a `std::string`. -/
def stringBuffer (s : Bytes) : ConstBuffer := ⟨s ++ [0], s.length⟩

/-- `asio::buffer` of an array of `char`. -/
def arrayBuffer (a : Bytes) : ConstBuffer := ⟨a, a.length⟩

@[simp] theorem stringBuffer_bytes (s : Bytes) : (stringBuffer s).bytes = s := by
  simp [stringBuffer, ConstBuffer.bytes]

@[simp] theorem arrayBuffer_bytes (a : Bytes) : (arrayBuffer a).bytes = a := by
  simp [arrayBuffer, ConstBuffer.bytes]

namespace StatusStrings

def ok := ascii "HTTP/1.0 200 OK\r\n"
def created := ascii "HTTP/1.0 201 Created\r\n"
def accepted := ascii "HTTP/1.0 202 Accepted\r\n"
def noContent := ascii "HTTP/1.0 204 No Content\r\n"
def multipleChoices := ascii "HTTP/1.0 300 Multiple Choices\r\n"
def movedPermanently := ascii "HTTP/1.0 301 Moved Permanently\r\n"
def movedTemporarily := ascii "HTTP/1.0 302 Moved Temporarily\r\n"
def notModified := ascii "HTTP/1.0 304 Not Modified\r\n"
def badRequest := ascii "HTTP/1.0 400 Bad Request\r\n"
def unauthorized := ascii "HTTP/1.0 401 Unauthorized\r\n"
def forbidden := ascii "HTTP/1.0 403 Forbidden\r\n"
def notFound := ascii "HTTP/1.0 404 Not Found\r\n"
def internalServerError := ascii "HTTP/1.0 500 Internal Server Error\r\n"
def notImplemented := ascii "HTTP/1.0 501 Not Implemented\r\n"
def badGateway := ascii "HTTP/1.0 502 Bad Gateway\r\n"
def serviceUnavailable := ascii "HTTP/1.0 503 Service Unavailable\r\n"

/-- The string the buffer of a status refers to; anything but the enumerators is the default. -/
def toString : Option StatusType → Bytes
  | some .ok => ok
  | some .created => created
  | some .accepted => accepted
  | some .noContent => noContent
  | some .multipleChoices => multipleChoices
  | some .movedPermanently => movedPermanently
  | some .movedTemporarily => movedTemporarily
  | some .notModified => notModified
  | some .badRequest => badRequest
  | some .unauthorized => unauthorized
  | some .forbidden => forbidden
  | some .notFound => notFound
  | some .internalServerError => internalServerError
  | some .notImplemented => notImplemented
  | some .badGateway => badGateway
  | some .serviceUnavailable => serviceUnavailable
  | none => internalServerError

def toBuffer (status : Option StatusType) : ConstBuffer := stringBuffer (toString status)

end StatusStrings

namespace MiscStrings

def nameValueSeparator : Bytes := [chr ':', chr ' ']
def crlf : Bytes := [chr '\r', chr '\n']

end MiscStrings

def headerBuffers (h : Header) : List ConstBuffer :=
  [stringBuffer h.name, arrayBuffer MiscStrings.nameValueSeparator, stringBuffer h.value,
    arrayBuffer MiscStrings.crlf]

def Reply.toBuffers (rep : Reply) : List ConstBuffer :=
  StatusStrings.toBuffer rep.status :: rep.headers.flatMap headerBuffers ++
    [arrayBuffer MiscStrings.crlf, stringBuffer rep.content]

/-- The bytes a sequence of buffers is written as. -/
def wireBytes (buffers : List ConstBuffer) : Bytes := buffers.flatMap ConstBuffer.bytes

namespace StockReplies

/-- The page of a stock reply with the given title and heading. -/
def page (title heading : String) : Bytes :=
  ascii "<html><head><title>" ++ ascii title ++ ascii "</title></head><body><h1>" ++
    ascii heading ++ ascii "</h1></body></html>"

def ok : Bytes := ascii ""
def created := page "Created" "201 Created"
def accepted := page "Accepted" "202 Accepted"
def noContent := page "No Content" "204 Content"
def multipleChoices := page "Multiple Choices" "300 Multiple Choices"
def movedPermanently := page "Moved Permanently" "301 Moved Permanently"
def movedTemporarily := page "Moved Temporarily" "302 Moved Temporarily"
def notModified := page "Not Modified" "304 Not Modified"
def badRequest := page "Bad Request" "400 Bad Request"
def unauthorized := page "Unauthorized" "401 Unauthorized"
def forbidden := page "Forbidden" "403 Forbidden"
def notFound := page "Not Found" "404 Not Found"
def internalServerError := page "Internal Server Error" "500 Internal Server Error"
def notImplemented := page "Not Implemented" "501 Not Implemented"
def badGateway := page "Bad Gateway" "502 Bad Gateway"
def serviceUnavailable := page "Service Unavailable" "503 Service Unavailable"

def toString : StatusType → Bytes
  | .ok => ok
  | .created => created
  | .accepted => accepted
  | .noContent => noContent
  | .multipleChoices => multipleChoices
  | .movedPermanently => movedPermanently
  | .movedTemporarily => movedTemporarily
  | .notModified => notModified
  | .badRequest => badRequest
  | .unauthorized => unauthorized
  | .forbidden => forbidden
  | .notFound => notFound
  | .internalServerError => internalServerError
  | .notImplemented => notImplemented
  | .badGateway => badGateway
  | .serviceUnavailable => serviceUnavailable

end StockReplies

def stockReply (status : StatusType) : Reply where
  status := some status
  content := StockReplies.toString status
  headers :=
    [⟨ascii "Content-Length", decimal (StockReplies.toString status).length⟩,
      ⟨ascii "Content-Type", ascii "test/html"⟩]

/-! ### The bytes of a reply -/

def Header.text (h : Header) : Bytes := h.name ++ ascii ": " ++ h.value

theorem wireBytes_toBuffers (rep : Reply) : wireBytes rep.toBuffers =
    StatusStrings.toString rep.status ++
        (rep.headers.flatMap fun h => h.text ++ MiscStrings.crlf) ++
      MiscStrings.crlf ++ rep.content := by
  have hheaders : (rep.headers.flatMap headerBuffers).flatMap ConstBuffer.bytes =
      rep.headers.flatMap fun h => h.text ++ MiscStrings.crlf := by
    rw [List.flatMap_assoc]
    refine List.flatMap_congr fun h _ => ?_
    simp [headerBuffers, Header.text, MiscStrings.nameValueSeparator, ascii]
  simp only [wireBytes, Reply.toBuffers, List.cons_append, List.flatMap_cons, List.flatMap_append,
    hheaders, StatusStrings.toBuffer, stringBuffer_bytes, arrayBuffer_bytes, List.flatMap_nil,
    List.append_nil, List.append_assoc]

end AsioTest.Http
