import HttpCache.Message.Headers
import HttpCache.Message.Status

/-!
# HttpCache.Message.Response

A response and its HTTP/1.1 form.

* `Response.ofParts` — a response that keeps the connection open.
* `Response.wireHeaders` — the headers as they are sent: a content type is added to a body
  without one, and one `Connection` field says what happens to the connection.
* `Response.wire` — status line, header lines, one `Content-Length` line, empty line, body.
-/

namespace HttpCache

structure Response where
  status : Status
  headers : Headers
  body : Bytes
  keepAlive : Bool
  deriving DecidableEq, Repr

namespace Response

open Ascii

def ofParts (status : Status) (headers : Headers) (body : Bytes) : Response :=
  { status, headers, body, keepAlive := true }

def ofStatus (status : Status) : Response := ofParts status .empty []

def ofText (status : Status) (text : String) : Response := ofParts status .empty (Text.utf8 text)

def addHeader (r : Response) (name value : String) : Response :=
  { r with headers := r.headers.insert name value }

def withBody (r : Response) (body : Bytes) : Response := { r with body }

def withKeepAlive (r : Response) (keepAlive : Bool) : Response := { r with keepAlive }

def defaultContentType : String := "text/plain; charset=utf-8"

def connection (r : Response) : String := if r.keepAlive then "keep-alive" else "close"

def wireHeaders (r : Response) : Headers :=
  let typed :=
    if !r.body.isEmpty && !r.headers.contains "content-type" then
      r.headers.insert "Content-Type" defaultContentType
    else r.headers
  typed.set "Connection" r.connection

def statusLine (r : Response) : String := "HTTP/1.1 " ++ r.status.text ++ "\r\n"

/-- The lines of the head, in order; a length given among the headers is not sent. -/
def wireLines (r : Response) : List String :=
  r.statusLine ::
    (r.wireHeaders.remove "content-length").fields.map Headers.line ++
    [Headers.line ("Content-Length", Decimal.text r.body.length)]

def wire (r : Response) : Bytes :=
  r.wireLines.flatMap Text.utf8 ++ Text.utf8 "\r\n" ++ r.body

end Response
end HttpCache
