import HttpEngine.Text.Bytes
import HttpEngine.Yaml.Scalar

/-!
# The tokens of a document

* `Token`: the signs and words that a document is made of, those included that only its layout
  stands for.
* `name?`, `tag?`, `directive?`: the words that begin with a sign of their own, and the place
  after them.

A tag is kept as bytes, since its escapes may spell any; **a zero byte ends it**.
-/

namespace HttpEngine.Yaml

/-- A line in front of a document. -/
inductive Directive
  | version (major minor : Nat)
  /-- Tags with this handle begin with these bytes. -/
  | handle (name : String) (stem : Bytes)
  deriving DecidableEq, Repr

/-- A piece of a document. -/
inductive Token
  | directive (d : Directive)
  | documentStart
  | documentEnd
  /-- A sequence begins that is laid out in lines. -/
  | blockSequence
  /-- A mapping begins that is laid out in lines. -/
  | blockMapping
  /-- What was laid out in lines is over. -/
  | blockEnd
  | sequenceOpen
  | sequenceClose
  | mappingOpen
  | mappingClose
  /-- The sign in front of an item that has lines of its own. -/
  | entry
  | comma
  | key
  | value
  | alias (name : String)
  | anchor (name : String)
  | tag (handle : String) (rest : Bytes)
  | text (style : Style) (content : String)
  deriving DecidableEq, Repr

/-- The characters of names. -/
def isNameChar (c : Char) : Bool := c.isAlphanum || c == '_' || c == '-'

/-! ### Names -/

/-- The signs that may touch the end of a name. -/
def nameEnds : List Char := ['?', ':', ',', ']', '}', '%', '@', '\x60']

/-- The name behind the sign at a place; **there has to be one**. -/
def name? (c : Cursor) : Option (String × Cursor) :=
  let (name, c) := (c.skip 1).span isNameChar
  if name.isEmpty || !(c.atWordEnd || c.here.any nameEnds.contains) then none
  else some (String.ofList name, c)

/-! ### Tags -/

/-- The characters that stand for themselves in a tag; some only if it is **written in
full**. -/
def isTagChar (full : Bool) (c : Char) : Bool :=
  isNameChar c
    || [';', '/', '?', ':', '@', '&', '=', '+', '$', '.', '!', '~', '*', '\'', '(', ')'].contains c
    || (full && [',', '[', ']'].contains c)

/-- How many bytes follow the first byte of a character. -/
def bytesAfter? (lead : Nat) : Option Nat :=
  if lead < 0x80 then some 0
  else if lead < 0xC0 then none
  else if lead < 0xE0 then some 1
  else if lead < 0xF0 then some 2
  else if lead < 0xF8 then some 3
  else none

/-- The bytes that a tag begins with here and the number of characters they are written in.
**An escape is a byte**; the bytes of one character, of which `due` are to come, must follow
each other. -/
def tagBytes? (full : Bool) : Nat → List Char → Option (Bytes × Nat)
  | due, '%' :: a :: b :: rest => do
    let n ← Text.numeral? 16 [a, b]
    let due ← match due with
      | 0 => bytesAfter? n
      | more + 1 => if 0x80 ≤ n && n < 0xC0 then some more else none
    let (bytes, width) ← tagBytes? full due rest
    return (UInt8.ofNat n :: bytes, width + 3)
  | 0, c :: rest =>
    if c == '%' then none
    else if isTagChar full c then
      (tagBytes? full 0 rest).map fun (bytes, width) => (UInt8.ofNat c.toNat :: bytes, width + 1)
    else some ([], 0)
  | 0, [] => some ([], 0)
  | _ + 1, _ => none

/-- What counts of the bytes of a tag: those **in front of a zero**. -/
def beforeZero (bytes : Bytes) : Bytes := bytes.takeWhile (· != 0)

/-- The bytes of a tag at a place, where something must be written, and the place after it. -/
def tagPart? (full : Bool) (c : Cursor) : Option (Bytes × Cursor) := do
  let (bytes, width) ← tagBytes? full 0 c.rest
  if width = 0 then none else some (beforeZero bytes, c.skip width)

/-- The handle and the rest of the tag at a place. **A tag in full has no handle**, nor has
the sign that stands alone. -/
def tagParts? (c : Cursor) : Option (String × Bytes × Cursor) := do
  if (c.skip 1).isAt '<' then
    let (bytes, c) ← tagPart? true (c.skip 2)
    if c.isAt '>' then some ("", bytes, c.skip 1) else none
  else
    let (name, after) := (c.skip 1).span isNameChar
    let name := String.ofList name
    if after.isAt '!' then
      let (bytes, c) ← tagPart? false (after.skip 1)
      return ("!" ++ name ++ "!", bytes, c)
    else
      let (bytes, width) ← tagBytes? false 0 after.rest
      match beforeZero (Text.ascii name ++ bytes) with
      | [] => return ("", Text.ascii "!", after.skip width)
      | rest => return ("!", rest, after.skip width)

/-- **The tag** at a place. -/
def tag? (inFlow : Bool) (c : Cursor) : Option (Token × Cursor) := do
  let (handle, rest, c) ← tagParts? c
  if c.atWordEnd || (inFlow && c.isAt ',') then some (.tag handle rest, c) else none

/-! ### Directives -/

/-- A number of **at most nine** digits. -/
def shortNumber? (c : Cursor) : Option (Nat × Cursor) :=
  let (digits, c) := c.span Char.isDigit
  if digits.isEmpty || 9 < digits.length then none
  else some (digits.foldl (fun n d => n * 10 + (d.toNat - '0'.toNat)) 0, c)

/-- The two numbers of a version. -/
def version? (c : Cursor) : Option (Directive × Cursor) := do
  let (major, c) ← shortNumber? c
  if c.isAt '.' then
    let (minor, c) ← shortNumber? (c.skip 1)
    return (.version major minor, c)
  else none

/-- A handle and what tags with it begin with. -/
def handle? (c : Cursor) : Option (Directive × Cursor) :=
  if c.isAt '!' then do
    let (name, c) := (c.skip 1).span isNameChar
    let name := String.ofList name
    let (handle, c) ←
      if c.isAt '!' then some ("!" ++ name ++ "!", c.skip 1)
      else if name.isEmpty then some ("!", c)
      else none
    if c.here.any isGap then
      let (stem, c) ← tagPart? true (c.skipWhile isGap)
      if c.atWordEnd then some (.handle handle stem, c) else none
    else none
  else none

/-- **The directive** on the line at a place, and the place of the next line. -/
def directive? (c : Cursor) : Option (Directive × Cursor) := do
  let (name, c) := (c.skip 1).span isNameChar
  if c.atWordEnd then
    let c := c.skipWhile isGap
    let (d, c) ← match String.ofList name with
      | "YAML" => version? c
      | "TAG" => handle? c
      | _ => none
    return (d, ← c.restOfLine?)
  else none

end HttpEngine.Yaml
