import HttpEngine.Message.Headers
import HttpEngine.Message.Method
import HttpEngine.Message.Params

/-!
# Requests

A request is what was received: method, target, protocol, headers and body. Everything else
is read off those.

* `uri`, `query`: the target before and after its first `?`.
* `segments`: the decoded path between slashes, empty pieces dropped.
* `form`: the body as parameters; `params` asks the query first and the form second.
-/

namespace HttpEngine

open Text

/-- A received request. -/
structure Request where
  method : Method
  target : String
  protocol : String
  headers : Headers
  body : Bytes
  deriving Repr

namespace Request

/-- The path as sent: **the target up to the first `?`**. -/
def uri (r : Request) : String :=
  match cut '?' r.target.toList with
  | some (path, _) => String.ofList path
  | none => r.target

/-- The parameters behind the first `?`. -/
def query (r : Request) : Params :=
  match cut '?' r.target.toList with
  | some (_, query) => Params.parse (String.ofList query)
  | none => Params.empty

/-- The pieces of a path: escapes undone **before** the slashes are looked for. -/
def segmentsOf (path : String) : List String :=
  ((pieces '/' (Utf8.lossyChars (percentDecode (utf8 path)))).filter (!·.isEmpty)).map
    String.ofList

/-- The decoded path segments. -/
def segments (r : Request) : List String := segmentsOf r.uri

/-- The first value of a header. -/
def header? (r : Request) (name : String) : Option String := r.headers.get? name

/-- The body **read as form parameters**. -/
def form (r : Request) : Params := Params.parse (Utf8.lossy r.body)

/-- Query parameters, then form fields. -/
def params (r : Request) : ParamsChain := ⟨[r.query, r.form]⟩

/-- The announced body length, zero when none is given or it is no 64-bit number. -/
def contentLength (r : Request) : Nat :=
  (r.headers.natUpTo? "content-length" maxWord64).getD 0

/-- Whether the client asked for the connection to stay open. -/
def keepAlive (r : Request) : Bool := r.headers.keepAlive

/-- The same request with another method. -/
def withMethod (r : Request) (m : Method) : Request := { r with method := m }

end Request

end HttpEngine
