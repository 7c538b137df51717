import HttpEngine.Message.Named
import HttpEngine.Text.Blank
import HttpEngine.Text.Cut

/-!
# Cookies

The cookies a client sent, and whether anything changed them since. A store that was
**touched** is written back in full, one `Set-Cookie` line per cookie; one that was not
writes nothing.
-/

namespace HttpEngine

open Text

/-- The cookies of one request. -/
structure CookieStore where
  entries : List (String × String) := []
  touched : Bool := false
  deriving DecidableEq, Repr

namespace CookieStore

/-- No cookies, untouched. -/
def empty : CookieStore := {}

/-- The number of cookies. -/
def size (s : CookieStore) : Nat := s.entries.length

/-- The value of a cookie. -/
def get? (s : CookieStore) (name : String) : Option String := Named.find? name s.entries

/-- The name and value in one piece between semicolons; a piece without `=` has none. -/
def pairOf? (piece : List Char) : Option (String × String) :=
  (cut '=' (trimChars piece)).map fun (name, value) =>
    (String.ofList (trimChars name), String.ofList (trimChars value))

/-- The cookies **in a `Cookie` header**: a repeated name keeps its first place and its last
value. -/
def parse (header : String) : CookieStore :=
  { entries := ((pieces ';' header.toList).filterMap pairOf?).foldl
      (fun es e => Named.put e.1 e.2 es) [] }

/-- Set a cookie, which **touches** the store. -/
def upsert (s : CookieStore) (name value : String) : CookieStore :=
  { entries := Named.put name value s.entries, touched := true }

/-- Drop a cookie, which touches the store **if it was there**. -/
def remove (s : CookieStore) (name : String) : Bool × CookieStore :=
  let kept := Named.without name s.entries
  let gone := kept.length != s.entries.length
  (gone, { entries := kept, touched := s.touched || gone })

/-- One cookie as a header line. -/
def setLine (e : String × String) : String := "Set-Cookie: " ++ e.1 ++ "=" ++ e.2 ++ "\r\n"

/-- Every cookie as a **`Set-Cookie` line**. -/
def cookieData (s : CookieStore) : String := String.join (s.entries.map setLine)

end CookieStore

end HttpEngine
