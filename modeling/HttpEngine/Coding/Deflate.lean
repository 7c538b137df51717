import HttpEngine.Coding.Codeword
import HttpEngine.Coding.Token

/-!
# The deflate format

Data in blocks, the last one marked: stored as it is, or as tokens in a code that is fixed or
sent along.

* `Deflate.encode`: data in this format, stored at level zero and as tokens in the fixed code
  above it.
* `Deflate.decode?`: the data behind a stream and the bytes after it, **nothing when it is
  malformed or cut short**.
-/

namespace HttpEngine.Coding.Deflate

/-! ### The alphabets -/

/-- For each length symbol the least length and how many further bits there are. -/
def lengthSteps : List (Nat × Nat) :=
  [(3, 0), (4, 0), (5, 0), (6, 0), (7, 0), (8, 0), (9, 0), (10, 0), (11, 1), (13, 1), (15, 1),
    (17, 1), (19, 2), (23, 2), (27, 2), (31, 2), (35, 3), (43, 3), (51, 3), (59, 3), (67, 4),
    (83, 4), (99, 4), (115, 4), (131, 5), (163, 5), (195, 5), (227, 5), (258, 0)]

/-- For each distance symbol the least distance and how many further bits there are. -/
def distanceSteps : List (Nat × Nat) :=
  [(1, 0), (2, 0), (3, 0), (4, 0), (5, 1), (7, 1), (9, 2), (13, 2), (17, 3), (25, 3), (33, 4),
    (49, 4), (65, 5), (97, 5), (129, 6), (193, 6), (257, 7), (385, 7), (513, 8), (769, 8),
    (1025, 9), (1537, 9), (2049, 10), (3073, 10), (4097, 11), (6145, 11), (8193, 12),
    (12289, 12), (16385, 13), (24577, 13)]

/-- The step a number is on: the last one that is not above it. -/
def stepOf (steps : List (Nat × Nat)) (n : Nat) : Nat := (steps.filter (·.1 ≤ n)).length - 1

/-- The symbol that ends a block. -/
def endOfBlock : Nat := 256

/-- Codeword lengths of the fixed code for bytes, lengths and the end. -/
def fixedLengths : List Nat :=
  List.replicate 144 8 ++ List.replicate 112 9 ++ List.replicate 24 7 ++ List.replicate 8 8

/-- Codeword lengths of the fixed code for distances. -/
def fixedDistances : List Nat := List.replicate 32 5

/-! ### Writing -/

/-- A number as its step's symbol and the further bits. -/
def stepped (lengths : List Nat) (first : Nat) (steps : List (Nat × Nat)) (n : Nat) : Bits :=
  let s := stepOf steps n
  let (least, width) := steps.getD s (0, 0)
  codeword lengths (first + s) ++ bitsOf width (n - least)

/-- One token in the fixed code. -/
def tokenBits : Token → Bits
  | .literal b => codeword fixedLengths b.toNat
  | .copy distance length =>
    stepped fixedLengths (endOfBlock + 1) lengthSteps length
      ++ stepped fixedDistances 0 distanceSteps distance

/-- Tokens as **one last block** in the fixed code. -/
def fixedBlock (tokens : List Token) : Bits :=
  true :: bitsOf 2 1 ++ tokens.flatMap tokenBits ++ codeword fixedLengths endOfBlock

/-- What the two lengths of a stored block **add up to**, the second being the first inverted. -/
def lengthsTotal : Nat := 65535

/-- A stored block. -/
def storedBlock (last : Bool) (data : Bytes) : Bytes :=
  let n := data.length
  [if last then 1 else 0, UInt8.ofNat n, UInt8.ofNat (n / 256), ~~~ (UInt8.ofNat n),
    ~~~ (UInt8.ofNat (n / 256))] ++ data

/-- The bytes after which a stored block is closed: one more than 31 times 1024. -/
def storedSpan : Nat := 31745

/-- Data as **stored** blocks. The last one holds what is left, which may be nothing. -/
def stored (data : Bytes) : Bytes :=
  if data.length < storedSpan then storedBlock true data
  else storedBlock false (data.take storedSpan) ++ stored (data.drop storedSpan)
termination_by data.length
decreasing_by simp only [List.length_drop, storedSpan] at *; omega

/-- How far back repetitions are looked for at a level. -/
def reachAt (level : Nat) : Nat := 32 * min level 10

/-- **Data in this format.** -/
def encode (level : Nat) (data : Bytes) : Bytes :=
  if level = 0 then stored data
  else pack (fixedBlock (Token.cover (reachAt level) data))

/-! ### Reading -/

/-- A number off the front, given as its step's symbol and further bits. -/
def takeStepped? (steps : List (Nat × Nat)) (s : Nat) (bits : Bits) : Option (Nat × Bits) := do
  let (least, width) ← steps[s]?
  let (more, bits) ← takeNumber? width bits
  return (least + more, bits)

/-- Read tokens up to the end of the block, data newest byte first. -/
def takeTokens? (symbols distances : Tree) : Nat → Bits → Bytes → Option (Bytes × Bits)
  | 0, _, _ => none
  | fuel + 1, bits, soFar => do
    let (s, bits) ← symbols.take? bits
    if s < endOfBlock then takeTokens? symbols distances fuel bits (UInt8.ofNat s :: soFar)
    else if s = endOfBlock then return (soFar, bits)
    else
      let (length, bits) ← takeStepped? lengthSteps (s - (endOfBlock + 1)) bits
      let (d, bits) ← distances.take? bits
      let (distance, bits) ← takeStepped? distanceSteps d bits
      takeTokens? symbols distances fuel bits (Token.copyBack distance length soFar)

/-- The order in which the lengths of the code for lengths are sent. -/
def lengthOrder : List Nat :=
  [16, 17, 18, 0, 8, 7, 9, 6, 10, 5, 11, 4, 12, 3, 13, 2, 14, 1, 15]

/-- Read so many codeword lengths, newest first; some symbols stand for runs. -/
def takeLengths? (code : Tree) (want : Nat) : Nat → Bits → List Nat → Option (List Nat × Bits)
  | 0, _, _ => none
  | fuel + 1, bits, soFar =>
    if soFar.length = want then some (soFar, bits)
    else if want < soFar.length then none
    else do
      let (s, bits) ← code.take? bits
      let (run, value, bits) ←
        if s < 16 then some (1, s, bits)
        else if s = 16 then do
          let last ← soFar.head?
          let (n, bits) ← takeNumber? 2 bits
          some (n + 3, last, bits)
        else if s = 17 then do
          let (n, bits) ← takeNumber? 3 bits
          some (n + 3, 0, bits)
        else do
          let (n, bits) ← takeNumber? 7 bits
          some (n + 11, 0, bits)
      takeLengths? code want fuel bits (List.replicate run value ++ soFar)

/-- Read so many numbers of three bits. -/
def takeTriples? : Nat → Bits → Option (List Nat × Bits)
  | 0, bits => some ([], bits)
  | n + 1, bits => do
    let (v, bits) ← takeNumber? 3 bits
    let (vs, bits) ← takeTriples? n bits
    return (v :: vs, bits)

/-- Read the two codes that a block brings along. **Symbols that stand for nothing** must have
no place in them. -/
def takeCodes? (bits : Bits) : Option (Tree × Tree × Bits) := do
  let (more, bits) ← takeNumber? 5 bits
  let (distances, bits) ← takeNumber? 5 bits
  let (count, bits) ← takeNumber? 4 bits
  let symbols := endOfBlock + 1 + more
  if endOfBlock + 1 + lengthSteps.length < symbols ∨ distanceSteps.length < distances + 1 then none
  else
    let (sent, bits) ← takeTriples? (count + 4) bits
    let named := lengthOrder.zip sent
    let code ← Tree.ofLengths? ((List.range 19).map fun s => (named.lookup s).getD 0)
    let want := symbols + (distances + 1)
    let (lengths, bits) ← takeLengths? code want (want + 1) bits []
    let lengths := lengths.reverse
    let symbolTree ← Tree.sparse? (lengths.take symbols)
    let distanceTree ← Tree.sparse? (lengths.drop symbols)
    return (symbolTree, distanceTree, bits)

/-- Read a stored block: it starts on a whole byte, and its length comes twice, the second
time inverted. -/
def takeStored? (bits : Bits) (soFar : Bytes) : Option (Bytes × Bits) := do
  let bits := bits.drop (bits.length % 8)
  let (n, bits) ← takeNumber? 16 bits
  let (inverse, bits) ← takeNumber? 16 bits
  if n + inverse ≠ lengthsTotal then none
  else if bits.length < 8 * n then none
  else return ((pack (bits.take (8 * n))).reverse ++ soFar, bits.drop (8 * n))

/-- Read blocks up to the last one, data newest byte first. -/
def takeBlocks? : Nat → Bits → Bytes → Option (Bytes × Bits)
  | 0, _, _ => none
  | fuel + 1, bits, soFar => do
    let (last, bits) ← takeNumber? 1 bits
    let (kind, bits) ← takeNumber? 2 bits
    let (soFar, bits) ← match kind with
      | 0 => takeStored? bits soFar
      | 1 => do
        let symbols ← Tree.ofLengths? fixedLengths
        let distances ← Tree.ofLengths? fixedDistances
        takeTokens? symbols distances (bits.length + 1) bits soFar
      | 2 => do
        let (symbols, distances, bits) ← takeCodes? bits
        takeTokens? symbols distances (bits.length + 1) bits soFar
      | _ => none
    if last = 1 then return (soFar, bits) else takeBlocks? fuel bits soFar

/-- **The data behind a stream**, and the bytes after it. -/
def decode? (stream : Bytes) : Option (Bytes × Bytes) := do
  let bits := unpack stream
  let (data, rest) ← takeBlocks? (bits.length + 1) bits []
  return (data.reverse, stream.drop (stream.length - rest.length / 8))

end HttpEngine.Coding.Deflate
