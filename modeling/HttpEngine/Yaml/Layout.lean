import HttpEngine.Yaml.Token

/-!
# Tokens that the layout of a text stands for

A text is read token by token. How far its lines are indented says where what is laid out in
lines begins and ends. That something is the key of an entry shows only at the colon behind
it, so the places where a key may have begun are remembered until then.

* `Layout.next?`: the next token, with those that come before it by the layout.
* `Token.ofText?`: **all tokens of a text**, none if it cannot be read.
-/

namespace HttpEngine.Yaml

/-- A place where a key may have begun. -/
structure KeyPlace where
  /-- The number of tokens before it. -/
  tokens : Nat
  index : Nat
  line : Nat
  column : Nat
  /-- Whether there is an error unless a key began here. -/
  required : Bool
  deriving Repr

/-- Whether no key that began at a place can end here: a key stays **on its line** and does
not reach too far. -/
def KeyPlace.isStale (k : KeyPlace) (c : Cursor) : Bool :=
  k.line < c.line || k.index + 1024 < c.index

/-- How far a text has been read. -/
structure Layout where
  cursor : Cursor
  /-- The tokens read, newest first. -/
  tokens : List Token := []
  /-- The number of tokens read. -/
  count : Nat := 0
  /-- The columns of what is laid out in lines, innermost first. -/
  indents : List Nat := []
  /-- Where the key of the next colon may have begun. -/
  key? : Option KeyPlace := none
  /-- The same for what stands around each open bracket, innermost first. -/
  outer : List (Option KeyPlace) := []
  /-- Whether a key may begin here. -/
  keyAllowed : Bool := true

namespace Layout

/-- Whether a bracket is open. -/
def inFlow (l : Layout) : Bool := !l.outer.isEmpty

/-- With one more token. -/
def put (l : Layout) (t : Token) : Layout :=
  { l with tokens := t :: l.tokens, count := l.count + 1 }

/-- With one more token after the first `n`. -/
def putAfter (l : Layout) (n : Nat) (t : Token) : Layout :=
  let later := l.count - n
  { l with
    tokens := l.tokens.take later ++ t :: l.tokens.drop later
    count := l.count + 1 }

/-- Past so many characters of a line. -/
def skip (l : Layout) (n : Nat) : Layout := { l with cursor := l.cursor.skip n }

/-! ### Indentation -/

/-- Something laid out in lines begins at a column, if that is **further in**; the token for
it comes after the first `n`. -/
def deepen (l : Layout) (column n : Nat) (t : Token) : Layout :=
  if l.inFlow || l.indents.head?.any (column ≤ ·) then l
  else { l.putAfter n t with indents := column :: l.indents }

/-- Close what is laid out in lines and **further in** than a column, or all of it. -/
def closeBlocks (column? : Option Nat) (l : Layout) : Layout :=
  if l.inFlow then l
  else
    let further := fun indent => column?.all (· < indent)
    let ended := l.indents.takeWhile further
    { l with
      tokens := ended.map (fun _ => .blockEnd) ++ l.tokens
      count := l.count + ended.length
      indents := l.indents.dropWhile further }

/-! ### Keys -/

/-- No key began where one may have; an error if one had to. -/
def dropKey? (l : Layout) : Option Layout :=
  if l.key?.any (·.required) then none else some { l with key? := none }

/-- A key may begin here, if it is allowed to. In lines **it has to** where the next entry of
a mapping would begin. -/
def keepKey? (l : Layout) : Option Layout :=
  if l.keyAllowed then
    l.dropKey?.map fun l =>
      let c := l.cursor
      { l with
        key? := some ⟨l.count, c.index, c.line, c.column,
          !l.inFlow && l.indents.head? == some c.column⟩ }
  else some l

/-- Forget the places where no key can have begun any more. -/
def dropStale? (l : Layout) : Option Layout :=
  let stale := fun (k : KeyPlace) => k.isStale l.cursor
  if (l.key? :: l.outer).any (·.any fun k => k.required && stale k) then none
  else some { l with
    key? := l.key?.filter (!stale ·)
    outer := l.outer.map (·.filter (!stale ·)) }

/-! ### Reading on -/

/-- Past blanks, comments, line ends, and a byte order mark that begins a line. **A tab is no
blank** where a key may begin. -/
def toToken (l : Layout) : Nat → Layout
  | 0 => l
  | fuel + 1 =>
    let isBlank := fun x => x == ' ' || (x == '\t' && (l.inFlow || !l.keyAllowed))
    let c := l.cursor.skipOrderMark.skipWhile isBlank
    let c := if c.isAt '#' then c.skipWhile (!isBreak ·) else c
    if c.atBreak then
      toToken { l with cursor := c.nextLine.2, keyAllowed := l.keyAllowed || !l.inFlow } fuel
    else { l with cursor := c }

/-- A line that is no part of a document's contents. -/
def edge? (l : Layout) : Option Layout :=
  (l.closeBlocks none).dropKey?.map ({ · with keyAllowed := false })

/-- A bracket opens. -/
def opening? (l : Layout) (t : Token) : Option Layout :=
  l.keepKey?.map fun l =>
    { (l.put t).skip 1 with key? := none, outer := l.key? :: l.outer, keyAllowed := true }

/-- A bracket closes. -/
def closing? (l : Layout) (t : Token) : Option Layout :=
  l.dropKey?.map fun l =>
    { (l.put t).skip 1 with key? := l.outer.head?.join, outer := l.outer.tail, keyAllowed := false }

/-- A comma. -/
def comma? (l : Layout) : Option Layout :=
  l.dropKey?.map fun l => { (l.put .comma).skip 1 with keyAllowed := true }

/-- The sign in front of an item in a line of its own. -/
def entry? (l : Layout) : Option Layout :=
  if !l.inFlow && !l.keyAllowed then none
  else
    (l.deepen l.cursor.column l.count .blockSequence).dropKey?.map fun l =>
      { (l.put .entry).skip 1 with keyAllowed := true }

/-- The sign in front of a key. -/
def explicitKey? (l : Layout) : Option Layout :=
  if !l.inFlow && !l.keyAllowed then none
  else
    (l.deepen l.cursor.column l.count .blockMapping).dropKey?.map fun l =>
      { (l.put .key).skip 1 with keyAllowed := !l.inFlow }

/-- The sign in front of a value. **A key has begun** where one may have. -/
def value? (l : Layout) : Option Layout :=
  match l.key? with
  | some k =>
    let l := (l.putAfter k.tokens .key).deepen k.column k.tokens .blockMapping
    some { (l.put .value).skip 1 with key? := none, keyAllowed := false }
  | none =>
    if !l.inFlow && !l.keyAllowed then none
    else
      let l := l.deepen l.cursor.column l.count .blockMapping
      some { (l.put .value).skip 1 with keyAllowed := !l.inFlow }

/-- A word that may begin a key. -/
def word? (l : Layout) (read : Cursor → Option (Token × Cursor)) : Option Layout := do
  let l ← l.keepKey?
  let (t, cursor) ← read l.cursor
  return { l.put t with cursor, keyAllowed := false }

/-- A text between quotes. -/
def quotedText? (l : Layout) (single : Bool) : Option Layout :=
  l.word? fun c => (quoted? single c).map fun (cs, c) => (.text .quoted (String.ofList cs), c)

/-- A text as it stands. **A key may follow** if it ends in front of a line. -/
def plainText? (l : Layout) : Option Layout := do
  let l ← l.keepKey?
  let p ← plain? l.inFlow ((l.indents.head?.map (· + 1)).getD 0) l.cursor
  return { l.put (.text .plain (String.ofList p.text)) with
    cursor := p.cursor, keyAllowed := p.broken }

/-- A text in lines of its own. -/
def blockText? (l : Layout) (style : Style) : Option Layout :=
  if l.inFlow then none
  else do
    let l ← l.dropKey?
    let (cs, cursor) ← block? style l.indents.head? l.cursor
    return { l.put (.text style (String.ofList cs)) with cursor, keyAllowed := true }

/-- What begins with a sign at a place. -/
def sign? (l : Layout) (x : Char) : Option Layout :=
  let c := l.cursor
  let alone := (c.skip 1).atWordEnd
  match x with
  | '[' => l.opening? .sequenceOpen
  | '{' => l.opening? .mappingOpen
  | ']' => l.closing? .sequenceClose
  | '}' => l.closing? .mappingClose
  | ',' => l.comma?
  | '-' => if alone then l.entry? else l.plainText?
  | '?' => if l.inFlow || alone then l.explicitKey? else l.plainText?
  | ':' => if l.inFlow || alone then l.value? else l.plainText?
  | '*' => l.word? fun c => (name? c).map fun (n, c) => (.alias n, c)
  | '&' => l.word? fun c => (name? c).map fun (n, c) => (.anchor n, c)
  | '!' => l.word? (tag? l.inFlow)
  | '|' => l.blockText? .literal
  | '>' => l.blockText? .folded
  | '\'' => l.quotedText? true
  | '"' => l.quotedText? false
  | _ => if isGap x || ['%', '@', '\x60'].contains x then none else l.plainText?

/-- **The next token**, at a place where it begins. -/
def next? (l : Layout) (x : Char) : Option Layout :=
  let c := l.cursor
  if c.column == 0 && x == '%' then do
    let l ← l.edge?
    let (d, cursor) ← directive? l.cursor
    return { l.put (.directive d) with cursor }
  else if c.atMark '-' then l.edge?.map fun l => (l.put .documentStart).skip 3
  else if c.atMark '.' then l.edge?.map fun l => (l.put .documentEnd).skip 3
  else l.sign? x

/-- The tokens up to the end of the text. -/
def finish? : Nat → Layout → Option (List Token)
  | 0, _ => none
  | fuel + 1, l => do
    let l ← (l.toToken (fuel + 1)).dropStale?
    let l := l.closeBlocks (some l.cursor.column)
    match l.cursor.here with
    | none => return (← l.edge?).tokens.reverse
    | some x => finish? fuel (← l.next? x)

end Layout

/-- The characters that may stand in a document, as inclusive ranges. -/
def readable : List (Nat × Nat) :=
  [(0x09, 0x0A), (0x0D, 0x0D), (0x20, 0x7E), (0x85, 0x85), (0xA0, 0xD7FF), (0xE000, 0xFFFD),
    (0x10000, 0x10FFFF)]

/-- A character that may stand in a document. -/
def isReadable (c : Char) : Bool := readable.any fun (lo, hi) => lo ≤ c.toNat && c.toNat ≤ hi

/-- **All tokens of a text**, none if it cannot be read. -/
def Token.ofText? (text : String) : Option (List Token) :=
  let cs := text.toList
  if cs.all isReadable then Layout.finish? (cs.length + 1) { cursor := { rest := cs } } else none

end HttpEngine.Yaml
