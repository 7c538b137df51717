import HttpEngine.Message.Cookies
import HttpEngine.Message.Headers
import HttpEngine.Message.Status
import HttpEngine.Transport.Script

/-!
# Responses

* `Body`: nothing, bytes in memory, or a source that is read while the response is sent.
* `Response.make`: a response with a `Content-Length` header **when the length is known** and
  none was given.
* `Response.head`: what is sent before the body.
-/

namespace HttpEngine

open Text

/-- The payload of a response. -/
inductive Body
  | empty
  | bytes (data : Bytes)
  /-- Read while it is sent; whoever makes it sees to the headers. -/
  | reader (source : Script)
  deriving Repr

namespace Body

/-- The number of bytes, **if known** without reading. -/
def length? : Body → Option Nat
  | empty => some 0
  | bytes data => some data.length
  | reader _ => none

/-- Whether the body is known to have no bytes. -/
def isEmpty (b : Body) : Bool := b.length? == some 0

/-- The kind of a body, with the length of one in memory. -/
def kind : Body → String
  | empty => "Empty"
  | bytes data => "Bytes(" ++ toString data.length ++ ")"
  | reader _ => "Reader(..)"

/-- All the bytes of a body, and how they end. -/
def collect : Body → Bytes × Ending
  | empty => ([], .ended)
  | bytes data => (data, .ended)
  | reader source => source.collect

end Body

/-- A response, ready to be sent. -/
structure Response where
  status : Status
  /-- Sent in this order; names may repeat. -/
  headers : Headers
  /-- Close the connection once this response was sent. -/
  close : Bool := false
  body : Body := .empty
  deriving Repr

namespace Response

/-- A response, with a `Content-Length` header **added at the end** unless one was given or
the length of the body is not known. -/
def make (status : Status) (headers : Headers := {}) (body : Body := .empty)
    (close : Bool := false) : Response :=
  let headers :=
    if headers.contains "content-length" then headers
    else
      match body.length? with
      | some n => headers.append "Content-Length" (toString n)
      | none => headers
  { status, headers, close, body }

/-- A step in building a response. -/
inductive Step
  /-- A header **after** those given before; names may repeat. -/
  | header (name value : String)
  /-- A body in place of any given before. -/
  | body (b : Body)
  | close (b : Bool)
  deriving Repr

/-- A response being built, with one step more taken. -/
def take (r : Response) : Step → Response
  | .header name value => { r with headers := r.headers.append name value }
  | .body b => { r with body := b }
  | .close b => { r with close := b }

/-- A response **built step by step**. -/
def build (status : Status) (steps : List Step) : Response :=
  let r := steps.foldl take { status, headers := {} }
  make r.status r.headers r.body r.close

/-- A success with a body. -/
def ok (body : Body) : Response := make .ok {} body

/-- A response with a text. -/
def text (status : Status) (s : String) : Response :=
  make status (Headers.empty.append "Content-Type" "text/plain; charset=utf-8") (.bytes (utf8 s))

/-- A response without a body. -/
def empty (status : Status) : Response := make status

/-- The response for a path that leads nowhere. -/
def notFound : Response := text .notFound "404 Not Found"

/-- The response for a failure inside. -/
def internalError : Response := text .internalServerError "500 Internal Server Error"

/-- The first line of a response. -/
def statusLine (r : Response) : String := "HTTP/1.1 " ++ r.status.text ++ "\r\n"

/-- One header as a line. -/
def headerLine (e : String × String) : String := e.1 ++ ": " ++ e.2 ++ "\r\n"

/-- The cookie lines of a response: **none unless the store was touched**. -/
def cookieLines : Option CookieStore → String
  | some store => if store.touched then store.cookieData else ""
  | none => ""

/-- **Everything before the body**: status line, headers, cookies, and an empty line. -/
def head (r : Response) (cookies : Option CookieStore) : String :=
  r.statusLine ++ String.join (r.headers.entries.map headerLine) ++ cookieLines cookies ++ "\r\n"

end Response

end HttpEngine
