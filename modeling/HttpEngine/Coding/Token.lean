import HttpEngine.Text.Bytes

/-!
# Repetitions

Data as a list of tokens: a byte as it is, or so many bytes copied from so far back. **Zeros**
count as standing in front of all data.

* `Token.expand`: the data that tokens stand for.
* `Token.cover`: tokens for data, **the longest repetition first** among those within reach.
-/

namespace HttpEngine.Coding

/-- A piece of data. -/
inductive Token
  | literal (byte : UInt8)
  /-- So many bytes as they stand so far back, where the copy may run into itself. -/
  | copy (distance length : Nat)
  deriving DecidableEq, Repr

namespace Token

/-- Data, newest byte first, with so many bytes copied from so far back. -/
def copyBack (distance : Nat) : Nat → Bytes → Bytes
  | 0, soFar => soFar
  | n + 1, soFar => copyBack distance n (soFar.getD (distance - 1) 0 :: soFar)

/-- Data, newest byte first, continued by a token. -/
def apply (soFar : Bytes) : Token → Bytes
  | literal b => b :: soFar
  | copy distance length => copyBack distance length soFar

/-- The data, newest byte first, after these tokens. -/
def expand (soFar : Bytes) (tokens : List Token) : Bytes := tokens.foldl apply soFar

/-- The shortest repetition that is worth a copy. -/
def shortest : Nat := 3

/-- The longest repetition that one copy can stand for. -/
def longest : Nat := 258

/-- How many bytes from `i` on are the same as those from `j` on, counting at most so many. -/
def agreement (data : Array UInt8) (i j : Nat) : Nat → Nat
  | 0 => 0
  | n + 1 =>
    match data[i]? with
    | some b => if data[j]? = some b then agreement data (i + 1) (j + 1) n + 1 else 0
    | none => 0

/-- The longest repetition at `i` of what stands at most `reach` back, **the nearest** of
several. -/
def best (data : Array UInt8) (i : Nat) : Nat → Nat × Nat
  | 0 => (0, 0)
  | reach + 1 =>
    let (distance, length) := best data i reach
    if reach + 1 ≤ i then
      let n := agreement data i (i - (reach + 1)) longest
      if length < n then (reach + 1, n) else (distance, length)
    else (distance, length)

/-- Tokens for the data from `i` on. -/
def coverFrom (data : Array UInt8) (reach i : Nat) : List Token :=
  if h : i < data.size then
    let (distance, length) := best data i reach
    if shortest ≤ length then copy distance length :: coverFrom data reach (i + length)
    else literal data[i] :: coverFrom data reach (i + 1)
  else []
termination_by data.size - i
decreasing_by
  · rename_i hlong
    simp only [shortest] at hlong
    omega
  · omega

/-- Tokens for data, with repetitions of what stands at most `reach` back. -/
def cover (reach : Nat) (data : Bytes) : List Token := coverFrom data.toArray reach 0

end Token

end HttpEngine.Coding
