import HttpEngine.Text.Integer
import HttpEngine.Text.Utf8
import HttpEngine.Yaml.Node

/-!
# What is asked of a node

A document is read with something particular in mind: a text, a number, a list, or a mapping
with certain fields. Each question has an answer or there is an error; **a text never is a
number, nor the other way round, by its looks alone**: any text answers a question for a text.

* `Document.text`, `Document.natUpTo`, `Document.items`, `Document.choice`.
* `Document.optional`: an answer, or what stands for none.
* `Document.record`: the fields of a mapping, each named once.
* `Document.answer`: the answers together. **References may be followed only so often**, or a
  short document could stand for a huge one.
-/

namespace HttpEngine.Yaml

/-- The words for nothing. -/
def isNull (s : String) : Bool := ["null", "Null", "NULL", "~"].contains s

/-- A tag for values of a common kind. -/
def commonTag (kind : String) : Bytes := Text.ascii ("tag:yaml.org,2002:" ++ kind)

/-- The number that a text says: sixteen, eight or two is its base behind `0x`, `0o` or `0b`.
**A decimal number does not begin with a zero.** -/
def natural? (s : String) : Option Nat :=
  let unsigned := match s.toList with
    | '+' :: rest => rest
    | cs => cs
  match unsigned with
  | '0' :: 'x' :: digits => Text.numeral? 16 digits
  | '0' :: 'o' :: digits => Text.numeral? 8 digits
  | '0' :: 'b' :: digits => Text.numeral? 2 digits
  | '0' :: _ :: _ => none
  | digits => Text.numeral? 10 digits

/-- The name that a tag gives to a value, if it is one of the document's own tags. -/
def ownTag? (tag? : Option Bytes) : Option String :=
  match tag? with
  | some (33 :: name) => Text.Utf8.decode? name
  | _ => none

/-- A question about a document. Its state is how many references may still be followed, and
nothing comes of an error. -/
abbrev Query := StateT Nat Option

namespace Document

/-- How often references are followed for each part of a document. -/
def repetition : Nat := 100

/-- The answer to a question about the whole document. -/
def answer {α : Type} (d : Document) (q : Node → Query α) : Option α :=
  (q d.root).run' (repetition * d.root.size)

/-- The node that is meant. -/
def follow (d : Document) : Node → Query Node
  | .reference number => do
    match ← get with
    | 0 => failure
    | left + 1 =>
      set left
      return (d.shared.lookup number).getD .empty
  | n => return n

/-- A text. -/
def text (d : Document) (n : Node) : Query String := do
  match ← d.follow n with
  | .text _ _ s => return s
  | _ => failure

/-- A number **up to a greatest one**. It is not quoted, nor in lines of its own unless a tag
says that it is a number. -/
def natUpTo (d : Document) (greatest : Nat) (n : Node) : Query Nat := do
  match ← d.follow n with
  | .text tag? style s =>
    if style == .plain || (style == .literal && tag? == some (commonTag "int")) then
      (natural? s).filter (· ≤ greatest)
    else failure
  | _ => failure

/-- The items of a sequence; **an empty text has none**, unless it is quoted or in lines of its
own. -/
def items (d : Document) (n : Node) : Query (List Node) := do
  match ← d.follow n with
  | .sequence items => return items
  | .text _ .plain "" => return []
  | _ => failure

/-- The entries of a mapping; an empty text has none, in the same way. -/
def entries (d : Document) (n : Node) : Query (List (Node × Node)) := do
  match ← d.follow n with
  | .mapping entries => return entries
  | .text _ .plain "" => return []
  | _ => failure

/-- What `read` makes of a node, unless the node stands for nothing. -/
def optional {α : Type} (d : Document) (read : Node → Query α) (n : Node) : Query (Option α) := do
  let n ← d.follow n
  match n with
  | .text none .plain s => if s.isEmpty || isNull s then return none else some <$> read n
  | .text (some tag) .plain s =>
    if tag == commonTag "null" then (if isNull s then return none else failure)
    else some <$> read n
  | _ => some <$> read n

/-- One of several words. It is the text of a node, or **its tag**, and then nothing else. -/
def choice {α : Type} (d : Document) (words : List (String × α)) (n : Node) : Query α := do
  match ← d.follow n with
  | .text tag? style s =>
    match ownTag? tag? with
    | none => words.lookup s
    | some word =>
      if style == .plain && (s.isEmpty || isNull s) then words.lookup word else failure
  | _ => failure

/-- The fields of a mapping that have one of these names. Every name has to be a text, and
**none of these may occur twice**. -/
def record (d : Document) (names : List String) (n : Node) : Query (List (String × Node)) := do
  let fields ← (← d.entries n).mapM fun (k, v) => do return (← d.text k, v)
  let known := fields.filter fun (k, _) => names.contains k
  if (known.map (·.1)).Nodup then return known else failure

end Document

/-- What `read` makes of a field, or a value for a field that is missing. -/
def fieldOr {α : Type} (fields : List (String × Node)) (name : String) (missing : α)
    (read : Node → Query α) : Query α :=
  match fields.lookup name with
  | some n => read n
  | none => return missing

/-- What `read` makes of a field **that must not be missing**. -/
def field {α : Type} (fields : List (String × Node)) (name : String)
    (read : Node → Query α) : Query α := do read (← fields.lookup name)

end HttpEngine.Yaml
