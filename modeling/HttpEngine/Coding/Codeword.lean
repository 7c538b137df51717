import HttpEngine.Coding.Bits

/-!
# Codes of variable length

A code is given by the **lengths** of its codewords, one per symbol; zero stands for a symbol
that has none. The codewords are then handed out in order, shorter ones first and symbols of
one length one after another.

* `codeword`: the bits of one symbol.
* `Tree.ofLengths?`: the code as a tree, refused when the lengths do not fit together;
  `Tree.sparse?` lets codes of one symbol pass, and of none.
* `Tree.take?`: one symbol off the front.
-/

namespace HttpEngine.Coding

/-- The number of a symbol's codeword: **what the codewords before it use up**. -/
def codeNumber (lengths : List Nat) (symbol : Nat) : Nat :=
  let own := lengths.getD symbol 0
  lengths.zipIdx.foldl (fun n (length, s) =>
    if length ≠ 0 ∧ (length < own ∨ length = own ∧ s < symbol) then n + 1 <<< (own - length)
    else n) 0

/-- The codeword of a symbol, **highest bit first**. -/
def codeword (lengths : List Nat) (symbol : Nat) : Bits :=
  (bitsOf (lengths.getD symbol 0) (codeNumber lengths symbol)).reverse

/-- A code as a tree. -/
inductive Tree
  | bare
  | leaf (symbol : Nat)
  | fork (zero one : Tree)
  deriving Repr

namespace Tree

/-- The tree with one more codeword; nothing when another one is in its way. -/
def insert (symbol : Nat) : Bits → Tree → Option Tree
  | [], bare => some (leaf symbol)
  | false :: rest, bare => (insert symbol rest bare).map (fork · bare)
  | true :: rest, bare => (insert symbol rest bare).map (fork bare ·)
  | false :: rest, fork zero one => (insert symbol rest zero).map (fork · one)
  | true :: rest, fork zero one => (insert symbol rest one).map (fork zero ·)
  | _, _ => none

/-- Whether every branch ends in a symbol. -/
def full : Tree → Bool
  | bare => false
  | leaf _ => true
  | fork zero one => zero.full && one.full

/-- The codewords of these lengths in a tree, unless one **leads into another**. -/
def planted? (lengths : List Nat) : Option Tree :=
  ((lengths.zipIdx.filter (·.1 ≠ 0)).map (·.2)).foldlM
    (fun tree s => tree.insert s (codeword lengths s)) bare

/-- The code with these lengths: **every row of bits begins with one codeword**. -/
def ofLengths? (lengths : List Nat) : Option Tree := (planted? lengths).filter full

/-- The code with these lengths, which may also be that of one symbol **in one bit**, or of
none. -/
def sparse? (lengths : List Nat) : Option Tree :=
  (planted? lengths).filter fun tree =>
    tree.full || lengths.filter (· ≠ 0) == [1] || lengths.all (· = 0)

/-- The symbol at the front, and the bits after it. -/
def take? : Tree → Bits → Option (Nat × Bits)
  | leaf s, bits => some (s, bits)
  | fork zero _, false :: rest => zero.take? rest
  | fork _ one, true :: rest => one.take? rest
  | _, _ => none

end Tree

end HttpEngine.Coding
