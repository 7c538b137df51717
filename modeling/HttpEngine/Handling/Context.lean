import HttpEngine.Handling.Shelf
import HttpEngine.Message.Request
import HttpEngine.Message.Response
import HttpEngine.Transport.Journal

/-!
# What handlers see of one request

* `Context.withCookies`: the cookie store, **read from the request at the first use** and
  kept from then on.
* `Context.note`: a line in the log of this request.
-/

namespace HttpEngine

/-- Where a client or a listener is reached. -/
structure Address where
  host : String := "127.0.0.1"
  port : Nat
  deriving DecidableEq, Repr

/-- An address as text. -/
def Address.text (a : Address) : String := a.host ++ ":" ++ toString a.port

/-- What handlers may keep for each other. -/
inductive Slot
  | text
  | count
  deriving DecidableEq, Repr

/-- The type of the value in a slot. -/
def Slot.Value : Slot → Type
  | text => String
  | count => UInt64

/-- Everything handlers see of one request. -/
structure Context where
  request : Request
  /-- What will be sent, so far. -/
  response? : Option Response := none
  /-- The client. -/
  remote : Address
  /-- The cookies, once someone has asked for them. -/
  cookies? : Option CookieStore := none
  /-- What handlers keep for each other. -/
  state : Shelf Slot.Value := {}
  /-- The phase of the connection that the request came on, if it came on one. -/
  phase? : Option Phase := none
  /-- What happened before on the connection that the request came on. No handler is shown it, but
  **what handlers remember** depends on it. -/
  past : Journal := []
  /-- Lines that handlers noted, newest first. -/
  log : List String := []

namespace Context

/-- Note a line. -/
def note (c : Context) (line : String) : Context := { c with log := line :: c.log }

/-- The lines noted, oldest first. -/
def notes (c : Context) : List String := c.log.reverse

/-- Store a response in place of whatever is there. -/
def respond (c : Context) (r : Response) : Context := { c with response? := some r }

/-- Take the response away. -/
def withoutResponse (c : Context) : Context := { c with response? := none }

/-- Change the response, if there is one. -/
def mapResponse (c : Context) (f : Response → Response) : Context :=
  { c with response? := c.response?.map f }

/-- The cookies of the request as they were sent. -/
def sentCookies (r : Request) : CookieStore :=
  ((r.header? "cookie").map CookieStore.parse).getD .empty

/-- The cookie store as it is, or **as the request brings it** when nobody asked before. -/
def cookies (c : Context) : CookieStore := c.cookies?.getD (sentCookies c.request)

/-- Work on the cookie store. -/
def withCookies {α : Type} (c : Context) (f : CookieStore → α × CookieStore) : α × Context :=
  let (answer, store) := f c.cookies
  (answer, { c with cookies? := some store })

/-- The status of the response, in words. -/
def statusText (c : Context) : String :=
  match c.response? with
  | some r => r.status.text
  | none => "none"

end Context

end HttpEngine
