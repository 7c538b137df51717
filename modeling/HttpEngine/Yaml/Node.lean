import HttpEngine.Yaml.Layout

/-!
# What a document says

* `Node`: texts, sequences, mappings, and references to nodes that have a name.
* `Document.ofText?`: **the one document** in a text, none if there is an error in it or a
  second document after it.

What is left out where a node may stand is an empty text. The tag of a sequence or a mapping
says nothing, but it has to be one.
-/

namespace HttpEngine.Yaml

/-- A part of a document. -/
inductive Node
  | text (tag? : Option Bytes) (style : Style) (content : String)
  | sequence (items : List Node)
  | mapping (entries : List (Node × Node))
  /-- The node with a number. -/
  | reference (number : Nat)

mutual

/-- The number of parts of a node. **A bracket counts where it opens and where it closes.** -/
def Node.size : Node → Nat
  | .text .. => 1
  | .sequence items => 2 + itemsSize items
  | .mapping entries => 2 + entriesSize entries
  | .reference _ => 1

/-- The number of parts of some nodes. -/
def Node.itemsSize : List Node → Nat
  | [] => 0
  | n :: rest => n.size + itemsSize rest

/-- The number of parts of some entries. -/
def Node.entriesSize : List (Node × Node) → Nat
  | [] => 0
  | (k, v) :: rest => k.size + v.size + entriesSize rest

end

/-- What stands for **nothing at all**. -/
def Node.empty : Node := .text none .plain ""

/-- A document. -/
structure Document where
  root : Node := .empty
  /-- The nodes that have numbers. Of two with one number, **the one that begins later** comes
  first. -/
  shared : List (Nat × Node) := []

/-- How far the tokens of a document have been read. -/
structure Reading where
  tokens : List Token
  /-- What tags with a handle begin with. -/
  handles : List (String × Bytes)
  /-- The number that a name refers to. -/
  names : List (String × Nat) := []
  shared : List (Nat × Node) := []

/-- A step in the reading of a document; nothing comes of an error. -/
abbrev Parse := StateT Reading Option

namespace Parse

/-- The next token, none at the end. -/
def peek : Parse (Option Token) := return (← get).tokens.head?

/-- Past the next token. -/
def skip : Parse Unit := modify fun r => { r with tokens := r.tokens.tail }

/-- The next token, and past it. -/
def next : Parse (Option Token) := do
  let t ← peek
  skip
  return t

/-- Past the next token if it is this one. -/
def takes (t : Token) : Parse Bool := do
  if (← peek) == some t then
    skip
    return true
  else return false

/-- A node, or an empty one in front of certain tokens. -/
def orEmpty (ends : List Token) (node : Parse Node) : Parse Node := do
  if (← peek).any ends.contains then return .empty else node

/-- A node behind a token, or an empty one if that token is missing. -/
def behind (t : Token) (ends : List Token) (node : Parse Node) : Parse Node := do
  if ← takes t then orEmpty ends node else return .empty

/-- The tag with a handle; **the handle must be known**. -/
def tagWith (handle : String) (rest : Bytes) : Parse Bytes := do
  if handle.isEmpty then return rest
  else
    let stem ← (← get).handles.lookup handle
    return stem ++ rest

/-- What stands in front of a node: its name and its tag, in either order. -/
def marks : Parse (Option String × Option Bytes) := do
  match ← peek with
  | some (.anchor name) =>
    skip
    match ← peek with
    | some (.tag handle rest) =>
      skip
      return (some name, some (← tagWith handle rest))
    | _ => return (some name, none)
  | some (.tag handle rest) =>
    skip
    match ← peek with
    | some (.anchor name) =>
      skip
      return (some name, some (← tagWith handle rest))
    | _ => return (none, some (← tagWith handle rest))
  | _ => return (none, none)

/-- Give a name to the node that begins here: its number is **how many names there were**. -/
def declare (name : String) : Parse Nat := do
  let r ← get
  let number := r.names.length
  set { r with names := (name, number) :: r.names.filter (·.1 != name) }
  return number

/-- Read a node under a name. It is known from where it begins on, so the nodes inside it come
**after it**. -/
def naming (name? : Option String) (node : Parse Node) : Parse Node := do
  match name? with
  | none => node
  | some name =>
    let number ← declare name
    let before := (← get).shared.length
    let n ← node
    modify fun r =>
      let inside := r.shared.length - before
      { r with shared := r.shared.take inside ++ (number, n) :: r.shared.drop inside }
    return n

mutual

/-- A node. One that is `laidOut` may have lines of its own, and where a `bare` one may stand,
a sequence needs no indentation. -/
def node (laidOut bare : Bool) : Nat → Parse Node
  | 0 => failure
  | fuel + 1 => do
    match ← peek with
    | some (.alias name) =>
      skip
      let number ← (← get).names.lookup name
      return .reference number
    | _ =>
      let (name?, tag?) ← marks
      naming name? do
        match ← peek with
        | some (.text style content) =>
          skip
          return .text tag? style content
        | some .sequenceOpen =>
          skip
          return .sequence (← flowItems true fuel)
        | some .mappingOpen =>
          skip
          return .mapping (← flowEntries true fuel)
        | t =>
          if t == some .entry && bare then return .sequence (← bareItems fuel)
          else if t == some .blockSequence && laidOut then
            skip
            return .sequence (← blockItems fuel)
          else if t == some .blockMapping && laidOut then
            skip
            return .mapping (← blockEntries fuel)
          else if name?.isSome || tag?.isSome then return .text tag? .plain ""
          else failure

/-- The items of a sequence laid out in lines. -/
def blockItems : Nat → Parse (List Node)
  | 0 => failure
  | fuel + 1 => do
    match ← next with
    | some .entry =>
      let item ← orEmpty [.entry, .blockEnd] (node true false fuel)
      return item :: (← blockItems fuel)
    | some .blockEnd => return []
    | _ => failure

/-- The items of a sequence that is not indented. -/
def bareItems : Nat → Parse (List Node)
  | 0 => failure
  | fuel + 1 => do
    if ← takes .entry then
      let item ← orEmpty [.entry, .key, .value, .blockEnd] (node true false fuel)
      return item :: (← bareItems fuel)
    else return []

/-- The entries of a mapping laid out in lines. -/
def blockEntries : Nat → Parse (List (Node × Node))
  | 0 => failure
  | fuel + 1 => do
    match ← next with
    | some .key =>
      let ends := [.key, .value, .blockEnd]
      let k ← orEmpty ends (node true true fuel)
      let v ← behind .value ends (node true true fuel)
      return (k, v) :: (← blockEntries fuel)
    | some .blockEnd => return []
    | _ => failure

/-- The items of a sequence in brackets. -/
def flowItems (first : Bool) : Nat → Parse (List Node)
  | 0 => failure
  | fuel + 1 => do
    if ← takes .sequenceClose then return []
    if !first then
      if !(← takes .comma) then failure
    if ← takes .sequenceClose then return []
    let item ← if ← takes .key then flowPair fuel else node false false fuel
    return item :: (← flowItems false fuel)

/-- A mapping of one entry as an item in brackets. A key that is left out **takes the token
after it along**. -/
def flowPair : Nat → Parse Node
  | 0 => failure
  | fuel + 1 => do
    let k ←
      if (← peek).any [.value, .comma, .sequenceClose].contains then
        skip
        pure .empty
      else node false false fuel
    let v ← behind .value [.comma, .sequenceClose] (node false false fuel)
    return .mapping [(k, v)]

/-- The entries of a mapping in brackets. -/
def flowEntries (first : Bool) : Nat → Parse (List (Node × Node))
  | 0 => failure
  | fuel + 1 => do
    if ← takes .mappingClose then return []
    if !first then
      if !(← takes .comma) then failure
    if ← takes .mappingClose then return []
    let entry ←
      if ← takes .key then
        let k ← orEmpty [.value, .comma, .mappingClose] (node false false fuel)
        let v ← behind .value [.comma, .mappingClose] (node false false fuel)
        pure (k, v)
      else
        let k ← node false false fuel
        pure (k, .empty)
    return entry :: (← flowEntries false fuel)

end

end Parse

/-! ### Documents -/

/-- The directive that a token is. -/
def Token.directive? : Token → Option Directive
  | .directive d => some d
  | _ => none

/-- The handles that are always known. -/
def commonHandles : List (String × Bytes) :=
  [("!", Text.ascii "!"), ("!!", Text.ascii "tag:yaml.org,2002:")]

/-- The versions that can be read. -/
def knownVersions : List Directive := [.version 1 1, .version 1 2]

/-- The handles that directives make known. There may be **one version** among them, and no
handle twice. -/
def handlesOf? (directives : List Directive) : Option (List (String × Bytes)) :=
  let handles := directives.filterMap fun
    | .handle name stem => some (name, stem)
    | .version .. => none
  let versions := directives.filter fun
    | .version .. => true
    | .handle .. => false
  if versions.length ≤ 1 ∧ versions.all knownVersions.contains ∧ (handles.map (·.1)).Nodup then
    some (handles ++ commonHandles)
  else none

/-- Whether a document is over where a token stands. -/
def endsDocument : Option Token → Bool
  | none => true
  | some t => t == .documentStart || t == .documentEnd || t.directive?.isSome

namespace Document

/-- The tokens of a document's contents, with the handles it knows, and whether something
stands in front of it. -/
def opening? (tokens : List Token) : Option (Bool × Reading) := do
  let directives := tokens.filterMap Token.directive?
  let rest := tokens.dropWhile (·.directive?.isSome)
  let front := directives.take (tokens.length - rest.length)
  let handles ← handlesOf? front
  match rest with
  | .documentStart :: rest => return (true, { tokens := rest, handles })
  | rest => if front.isEmpty then some (false, { tokens := rest, handles }) else none

/-- The one document that some tokens make up. -/
def ofTokens? (tokens : List Token) : Option Document :=
  if tokens.isEmpty then some {}
  else do
    let (explicit, r) ← opening? tokens
    let node := Parse.node true false (2 * tokens.length + 2)
    let (root, r) ←
      if explicit && endsDocument r.tokens.head? then some (.empty, r) else node.run r
    if r.tokens.all (· == .documentEnd) then some { root, shared := r.shared } else none

/-- **The one document** in a text. -/
def ofText? (text : String) : Option Document := do ofTokens? (← Token.ofText? text)

end Document

end HttpEngine.Yaml
