import HttpEngine.Text.Integer
import HttpEngine.Yaml.Cursor

/-!
# Texts in a document

A text may stand as it is, between quotes of two kinds, or in a block of lines of its own.

* `plain?`, `quoted?`, `block?`: the text at a place, and the place after it.

Line breaks inside a text are folded: one alone becomes a blank, of several the first goes.
-/

namespace HttpEngine.Yaml

/-- How a text is written. -/
inductive Style
  | plain
  | quoted
  | literal
  | folded
  deriving DecidableEq, Repr

/-- What stands between two words of a text. -/
structure Gap where
  /-- Blanks, while there was no line break. -/
  blanks : List Char := []
  /-- Whether there was a line break. -/
  broken : Bool := false
  /-- The first line break. -/
  first : List Char := []
  /-- The line breaks after the first. -/
  more : List Char := []
  deriving Repr

namespace Gap

/-- What a gap stands for: **one line break becomes a blank**. -/
def text (g : Gap) : List Char :=
  if g.broken then
    if g.first == ['\n'] then (if g.more.isEmpty then [' '] else g.more) else g.first ++ g.more
  else g.blanks

/-- A gap with one more line break. -/
def withBreak (g : Gap) (b : List Char) : Gap :=
  if g.broken then { g with more := g.more ++ b } else { broken := true, first := b }

/-- A gap with one more blank, which counts for nothing after a line break. -/
def withBlank (g : Gap) (b : Char) : Gap :=
  if g.broken then g else { g with blanks := g.blanks ++ [b] }

/-- The gap at a place and the place after it. **A tab must not stand** where the text, after
a line break, has to be indented to at least `indent`. -/
def scan? (indent : Nat) : Nat → Gap → Cursor → Option (Gap × Cursor)
  | 0, g, c => some (g, c)
  | fuel + 1, g, c =>
    match c.here with
    | none => some (g, c)
    | some x =>
      if isGap x then
        if g.broken && c.column < indent && x == '\t' then none
        else scan? indent fuel (g.withBlank x) (c.skip 1)
      else if isBreak x then scan? indent fuel (g.withBreak c.nextLine.1) c.nextLine.2
      else some (g, c)

end Gap

/-! ### Plain texts -/

/-- The characters that end a text inside brackets. -/
def isBracketSign (c : Char) : Bool :=
  c == ',' || c == '[' || c == ']' || c == '{' || c == '}'

/-- The word at the front. Inside brackets **a colon must not touch** a sign that ends a
text. -/
def word? (inFlow : Bool) : List Char → Option (List Char)
  | [] => some []
  | c :: rest =>
    if isGap c || isBreak c then some []
    else if inFlow && c == ':' && rest.head?.any (fun x => isBracketSign x || x == '?') then none
    else if (c == ':' && endsWord rest) || (inFlow && isBracketSign c) then some []
    else (word? inFlow rest).map (c :: ·)

/-- A text as it stands, with its end and whether that end comes after a line break. -/
structure Plain where
  text : List Char
  cursor : Cursor
  broken : Bool
  deriving Repr

/-- The rest of a plain text behind a gap. -/
def plainFrom? (inFlow : Bool) (indent : Nat) : Nat → Gap → Cursor → Option Plain
  | 0, gap, c => some ⟨[], c, gap.broken⟩
  | fuel + 1, gap, c =>
    if c.atDocumentEdge || c.isAt '#' then some ⟨[], c, gap.broken⟩
    else do
      let word ← word? inFlow c.rest
      let c := c.skip word.length
      let (front, gap) := if word.isEmpty then ([], gap) else (gap.text ++ word, {})
      if c.rest.isEmpty || !c.atWordEnd then return ⟨front, c, gap.broken⟩
      else
        let (gap, c) ← Gap.scan? indent (fuel + 1) gap c
        if !inFlow && c.column < indent then return ⟨front, c, gap.broken⟩
        else
          let rest ← plainFrom? inFlow indent fuel gap c
          return { rest with text := front ++ rest.text }

/-- **The plain text** at a place. -/
def plain? (inFlow : Bool) (indent : Nat) (c : Cursor) : Option Plain :=
  plainFrom? inFlow indent (c.rest.length + 1) {} c

/-! ### Quoted texts -/

/-- The character with a number, none for a surrogate or a number beyond the last. -/
def charOf? (n : Nat) : Option Char :=
  if n < 0xD800 ∨ (0xDFFF < n ∧ n < 0x110000) then some (Char.ofNat n) else none

/-- What a letter after a backslash stands for. -/
def escapes : List (Char × Char) :=
  [('0', '\x00'), ('a', '\x07'), ('b', '\x08'), ('t', '\t'), ('\t', '\t'), ('n', '\n'), ('v', '\x0b'),
    ('f', '\x0c'), ('r', '\r'), ('e', '\x1b'), (' ', ' '), ('"', '"'), ('/', '/'), ('\\', '\\'),
    ('N', '\x85'), ('_', '\xa0'), ('L', '\u2028'), ('P', '\u2029')]

/-- How many digits follow a letter after a backslash. -/
def escapeWidths : List (Char × Nat) := [('x', 2), ('u', 4), ('U', 8)]

/-- The character that an escape stands for and the number of characters it is written in,
the backslash left out. -/
def escape? : List Char → Option (Char × Nat)
  | [] => none
  | c :: rest =>
    match escapes.lookup c with
    | some x => some (x, 1)
    | none => do
      let width ← escapeWidths.lookup c
      if rest.length < width then none
      else
        let n ← Text.numeral? 16 (rest.take width)
        let x ← charOf? n
        return (x, width + 1)

/-- A stretch of a quoted text without blanks and line breaks. A line break that is escaped
ends it, and **nothing comes in its place**. -/
def stretch? (single : Bool) : Nat → Cursor → Option (List Char × Gap × Cursor)
  | 0, c => some ([], {}, c)
  | fuel + 1, c =>
    let after := fun (x : Char) (width : Nat) =>
      (stretch? single fuel (c.skip width)).map fun (text, finish) => (x :: text, finish)
    match c.rest with
    | [] => some ([], {}, c)
    | x :: rest =>
      if isGap x || isBreak x then some ([], {}, c)
      else if single && x == '\'' then
        if rest.head? == some '\'' then after '\'' 2 else some ([], {}, c)
      else if !single && x == '"' then some ([], {}, c)
      else if !single && x == '\\' then
        if rest.head?.any isBreak then some ([], { broken := true }, (c.skip 1).nextLine.2)
        else do
          let (y, width) ← escape? rest
          after y (width + 1)
      else after x 1

/-- The rest of a quoted text. It must not run into the line that ends a document, nor into
the end of the text. -/
def quotedFrom? (single : Bool) : Nat → Cursor → Option (List Char × Cursor)
  | 0, _ => none
  | fuel + 1, c =>
    if c.atDocumentEdge || c.rest.isEmpty then none
    else do
      let (front, gap, c) ← stretch? single (fuel + 1) c
      if c.isAt (if single then '\'' else '"') then return (front, c.skip 1)
      else
        let (gap, c) ← Gap.scan? 0 (fuel + 1) gap c
        let (text, c) ← quotedFrom? single fuel c
        return (front ++ gap.text ++ text, c)

/-- **The quoted text** at a place, its first quote included. -/
def quoted? (single : Bool) (c : Cursor) : Option (List Char × Cursor) :=
  quotedFrom? single (c.rest.length + 1) (c.skip 1)

/-! ### Blocks -/

/-- What becomes of the line breaks at the end of a block. -/
inductive Chomp
  | strip
  | clip
  | keep
  deriving DecidableEq, Repr

/-- The sign at a place that says what becomes of the last line breaks. -/
def chomp? (c : Cursor) : Option Chomp :=
  if c.isAt '+' then some .keep else if c.isAt '-' then some .strip else none

/-- The digit at a place that says how far a block is indented; **zero is refused**. -/
def indentSign? (c : Cursor) : Option (Nat × Cursor) :=
  match c.here with
  | some x =>
    if x == '0' then none
    else if '1' ≤ x && x ≤ '9' then some (x.toNat - 48, c.skip 1)
    else some (0, c)
  | none => some (0, c)

/-- The two signs at the head of a block, in either order. -/
def blockSigns? (c : Cursor) : Option (Chomp × Nat × Cursor) :=
  match chomp? c with
  | some chomp => (indentSign? (c.skip 1)).map fun (n, c) => (chomp, n, c)
  | none => do
    let (n, c') ← indentSign? c
    if n = 0 then return (.clip, 0, c')
    match chomp? c' with
    | some chomp => return (chomp, n, c'.skip 1)
    | none => return (.clip, n, c')

/-- Past the empty lines of a block: their line breaks, the deepest indentation among them,
and the place of the next line's first sign. An indentation of zero is one not known yet. -/
def emptyLines? (indent : Nat) :
    Nat → List Char → Nat → Cursor → Option (List Char × Nat × Cursor)
  | 0, breaks, deepest, c => some (breaks, deepest, c)
  | fuel + 1, breaks, deepest, c =>
    let room := if indent = 0 then c.rest.length else indent - c.column
    let c := c.skip ((c.rest.take room).takeWhile (· == ' ')).length
    let deepest := max deepest c.column
    if (indent = 0 || c.column < indent) && c.isAt '\t' then none
    else if c.atBreak then
      emptyLines? indent fuel (breaks ++ c.nextLine.1) deepest c.nextLine.2
    else some (breaks, deepest, c)

/-- What stands between two lines of a block. -/
structure Seam where
  /-- The break of the last line. -/
  last : List Char := []
  /-- The breaks of the empty lines after it. -/
  breaks : List Char := []
  /-- Whether the last line began with a blank. -/
  blankStart : Bool := false
  deriving Repr

/-- What a seam stands for in front of a line. It is **folded** unless the block is literal or
a line begins with a blank. -/
def Seam.text (s : Seam) (style : Style) (blankStart : Bool) : List Char :=
  let folds := style == .folded && s.last == ['\n'] && !s.blankStart && !blankStart
  let join := if folds then (if s.breaks.isEmpty then [' '] else []) else s.last
  join ++ s.breaks

/-- The lines of a block that are indented as it is, behind a seam, with the seam after
them. -/
def blockLines? (style : Style) (indent : Nat) :
    Nat → Seam → Cursor → Option (List Char × Seam × Cursor)
  | 0, s, c => some ([], s, c)
  | fuel + 1, s, c =>
    if c.column != indent || c.rest.isEmpty then some ([], s, c)
    else do
      let blankStart := c.here.any isGap
      let (line, c) := c.span (!isBreak ·)
      let (last, c) := c.nextLine
      let (breaks, _, c) ← emptyLines? indent (fuel + 1) [] 0 c
      let (text, finish) ← blockLines? style indent fuel { last, breaks, blankStart } c
      return (s.text style blankStart ++ line ++ text, finish)

/-- **The text of a block** at a place, the sign that begins it included, inside something
indented by `parent`, or by nothing at all. -/
def block? (style : Style) (parent : Option Nat) (c : Cursor) : Option (List Char × Cursor) := do
  let (chomp, more, c) ← blockSigns? (c.skip 1)
  let c ← c.restOfLine?
  let given := if more = 0 then 0 else parent.getD 0 + more
  let (breaks, deepest, c) ← emptyLines? given (c.rest.length + 1) [] 0 c
  let least := match parent with
    | some n => n + 1
    | none => 1
  let indent := if given = 0 then max deepest least else given
  let (text, seam, c) ← blockLines? style indent (c.rest.length + 1) { breaks } c
  let ending := match chomp with
    | .strip => []
    | .clip => seam.last
    | .keep => seam.last ++ seam.breaks
  return (text ++ ending, c)

end HttpEngine.Yaml
