import HttpEngine.Message.Response
import HttpEngine.Transport.Copying

/-!
# Sending a response

Head and body are written into the link's buffer and then sent; a body that is read from a
source is copied block by block.
-/

namespace HttpEngine

/-- Write a body. -/
def Body.writeTo : Body → Link.Act Unit
  | .empty => return ()
  | .bytes data => Link.writeAll data
  | .reader source => Link.copy source

/-- Write a body and say **how many bytes** that were. -/
def Body.writeCounted : Body → Link.Act Nat
  | .empty => return 0
  | .bytes data => do
    Link.writeAll data
    return data.length
  | .reader source => Link.copyCounted false { source } 0

/-- **Send a response**: the head, the body, and only then everything held. -/
def Response.deliver (r : Response) (cookies : Option CookieStore) : Link.Act Unit := do
  Link.writeAll (Text.utf8 (r.head cookies))
  r.body.writeTo
  Link.send

end HttpEngine
