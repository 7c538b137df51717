import HttpEngine.Error
import HttpEngine.Text.Case

/-!
# Request methods

* `Method.ofName?`: the method whose token a text equals, ASCII case ignored.
* `MethodCache`: names already looked up. A lookup answers what `ofName?` answers, and only
  known names are kept.
-/

namespace HttpEngine

/-- The methods a request may have. -/
inductive Method
  | connect
  | delete
  | get
  | head
  | options
  | patch
  | post
  | put
  | trace
  deriving DecidableEq, Repr

namespace Method

/-- Every method, in alphabetical order. -/
def all : List Method := [connect, delete, get, head, options, patch, post, put, trace]

/-- The token of a method on a request line. -/
def token : Method → String
  | connect => "CONNECT"
  | delete => "DELETE"
  | get => "GET"
  | head => "HEAD"
  | options => "OPTIONS"
  | patch => "PATCH"
  | post => "POST"
  | put => "PUT"
  | trace => "TRACE"

/-- The token as an identifier, only its first letter great. -/
def identifier (m : Method) : String := String.ofList (Text.capitalised m.token.toList)

/-- The method **with this token**, in any ASCII case. -/
def ofName? (name : String) : Option Method := all.find? fun m => Text.sameName m.token name

/-- The method with this token, or the failure that there is none. -/
def ofName (name : String) : Except Error Method :=
  match ofName? name with
  | some m => .ok m
  | none => .error (.unknownMethod name)

end Method

/-- The names of methods looked up before, each with its method. -/
structure MethodCache where
  entries : List (String × Method) := []
  deriving Repr

namespace MethodCache

/-- A cache that has seen no name. -/
def empty : MethodCache := {}

/-- The number of names kept. -/
def size (cache : MethodCache) : Nat := cache.entries.length

/-- First step of a lookup: the method kept under exactly this name. -/
def find? (cache : MethodCache) (name : String) : Option Method := cache.entries.lookup name

/-- Last step of a lookup: **keep the name unless it is kept already**; the entry that is then
under the name answers. -/
def keep (cache : MethodCache) (name : String) (m : Method) : Method × MethodCache :=
  match cache.find? name with
  | some kept => (kept, cache)
  | none => (m, { entries := cache.entries ++ [(name, m)] })

/-- The method under a name, read from the cache when it is there and kept for the next time
when it is not. Unknown names are never kept. -/
def provide (cache : MethodCache) (name : String) : Except Error Method × MethodCache :=
  match cache.find? name with
  | some m => (.ok m, cache)
  | none =>
    match Method.ofName name with
    | .error e => (.error e, cache)
    | .ok m =>
      let (kept, cache) := cache.keep name m
      (.ok kept, cache)

end MethodCache

end HttpEngine
