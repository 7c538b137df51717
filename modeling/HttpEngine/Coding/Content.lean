import HttpEngine.Coding.Gzip
import HttpEngine.Error
import HttpEngine.Text.Case

/-!
# Content codings

The codings that can be applied to the body of a response.

* `ContentCoding.ofName`: the coding with a name, in any ASCII case.
* `Encoder`: a way to write bodies in the codings; `ContentCoding.encode` is one of them.
* `ContentCoding.decode?`: the body behind a coded one.
* `ContentCoding.undo`: a body with one coding after another taken off.
-/

namespace HttpEngine

open Coding

/-- A way to write a body. -/
inductive ContentCoding
  | gzip
  | deflate
  deriving DecidableEq, Repr

namespace ContentCoding

/-- The name of a coding. -/
def name : ContentCoding → String
  | gzip => "gzip"
  | deflate => "deflate"

/-- Every coding. -/
def all : List ContentCoding := [gzip, deflate]

/-- The coding with exactly this name. -/
def ofName? (s : String) : Option ContentCoding := all.find? (·.name == s)

/-- The coding with a name, **upper and lower case alike**. -/
def ofName (s : String) : Except Error ContentCoding :=
  let low := String.ofList (Text.folded s)
  match ofName? low with
  | some c => .ok c
  | none => .error (.config ("unknown compression encoding " ++ Text.quoted low))

/-- The level used unless another one is asked for. -/
def defaultLevel : Nat := 6

end ContentCoding

/-- A way to write bodies **in every coding, at every level**. -/
abbrev Encoder := ContentCoding → Nat → Bytes → Bytes

namespace ContentCoding

/-- A body in this coding, by the simplest encoder. -/
def encode : Encoder
  | gzip, level, data => Gzip.encode level data
  | deflate, level, data => Deflate.encode level data

/-- The body behind a coded one. -/
def decode? : ContentCoding → Bytes → Option Bytes
  | gzip, stream => Gzip.decode? stream
  | deflate, stream => (Deflate.decode? stream).map (·.1)

/-- A body with codings undone, named last one first, **up to one that is unknown** or does
not decode. -/
def undo : List String → Bytes → Bytes
  | [], body => body
  | name :: earlier, body =>
    match (ofName? name).bind (·.decode? body) with
    | some plain => undo earlier plain
    | none => body

end ContentCoding

end HttpEngine
