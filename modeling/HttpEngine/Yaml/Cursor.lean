/-!
# A place in a text

What is left of a text, and how far into it that is, counted in bytes of UTF-8, lines and
columns, a column for each character. A carriage return, a line feed, the two together, and the
three Unicode line ends each end a line.

* `Cursor.skip`: past some characters of a line.
* `Cursor.nextLine`: past the end of a line.
-/

namespace HttpEngine.Yaml

/-- A place in a text. -/
structure Cursor where
  rest : List Char
  index : Nat := 0
  line : Nat := 0
  column : Nat := 0
  deriving Repr

/-- Whether a character ends a line. -/
def isBreak (c : Char) : Bool :=
  c == '\n' || c == '\r' || c == '\x85' || c == '\u2028' || c == '\u2029'

/-- Whether a character is a blank on a line. -/
def isGap (c : Char) : Bool := c == ' ' || c == '\t'

/-- Whether a word ends in front of this. -/
def endsWord : List Char → Bool
  | [] => true
  | c :: _ => isGap c || isBreak c

/-- How many bytes characters are written in. -/
def bytesOf (cs : List Char) : Nat := cs.foldl (fun n x => n + x.utf8Size) 0

namespace Cursor

/-- The character at a place, if the text is not over. -/
def here (c : Cursor) : Option Char := c.rest.head?

/-- Whether the character at a place is this one. -/
def isAt (c : Cursor) (x : Char) : Bool := c.here == some x

/-- Past so many characters of a line. -/
def skip (c : Cursor) (n : Nat) : Cursor :=
  { c with
    rest := c.rest.drop n
    index := c.index + bytesOf (c.rest.take n)
    column := c.column + n }

/-- Past **a byte order mark** at the beginning of a line. It takes up a column, so a second one
is a character like any other. -/
def skipOrderMark (c : Cursor) : Cursor :=
  if c.column == 0 && c.isAt '\ufeff' then c.skip 1 else c

/-- The characters up to the first that `p` does not hold of, and the place of that one. -/
def span (c : Cursor) (p : Char → Bool) : List Char × Cursor :=
  let taken := c.rest.takeWhile p
  (taken, c.skip taken.length)

/-- Past the characters that `p` holds of. -/
def skipWhile (c : Cursor) (p : Char → Bool) : Cursor := (c.span p).2

/-- Whether a word ends at a place. -/
def atWordEnd (c : Cursor) : Bool := endsWord c.rest

/-- Whether a line ends at a place. -/
def atBreak (c : Cursor) : Bool := c.here.any isBreak

/-- Whether a line or the whole text ends at a place. -/
def atLineEnd (c : Cursor) : Bool := c.rest.isEmpty || c.atBreak

/-- Past the end of a line, and what that end **counts as**. -/
def nextLine (c : Cursor) : List Char × Cursor :=
  let past := fun (text : List Char) (n : Nat) (rest : List Char) =>
    (text, { rest, index := c.index + n, line := c.line + 1, column := 0 : Cursor })
  match c.rest with
  | '\r' :: '\n' :: rest => past ['\n'] 2 rest
  | x :: rest =>
    if x == '\u2028' || x == '\u2029' then past [x] x.utf8Size rest
    else if isBreak x then past ['\n'] x.utf8Size rest
    else ([], c)
  | [] => ([], c)

/-- Past the blanks and the comment on a line; nothing else may be left on it. -/
def restOfLine? (c : Cursor) : Option Cursor :=
  let c := c.skipWhile isGap
  let c := if c.isAt '#' then c.skipWhile (!isBreak ·) else c
  if c.atLineEnd then some c.nextLine.2 else none

/-- Whether a line begins here with three characters of one kind and a word's end, as lines
between documents do. -/
def atMark (c : Cursor) (x : Char) : Bool :=
  c.column == 0 && c.rest.take 3 == [x, x, x] && endsWord (c.rest.drop 3)

/-- Whether a line that ends a document begins here. -/
def atDocumentEdge (c : Cursor) : Bool := c.atMark '-' || c.atMark '.'

end Cursor

end HttpEngine.Yaml
