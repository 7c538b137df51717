import HttpEngine.Serving.Handshake.Refusal

/-!
# Reading what a message says

Messages are made of numbers, of bytes behind their length, and of lists of such things.

* `Take`: something read from the front of bytes, or what is wrong with them.
* `Take.number`, `Take.counted`, `Take.each`: the three ways to read.
* `Take.numberOf`: the bytes of a number.
-/

namespace HttpEngine.Handshake

/-- Something read from the front of bytes. -/
abbrev Take (α : Type) := StateT Bytes (Except Corruption) α

namespace Take

variable {α : Type}

/-- So many bytes. -/
def bytes (n : Nat) (otherwise : Corruption) : Take Bytes := fun b =>
  if n ≤ b.length then .ok (b.take n, b.drop n) else .error otherwise

/-- The number that bytes stand for, the highest first. -/
def valueOf (b : Bytes) : Nat := b.foldl (fun n x => n * 256 + x.toNat) 0

/-- A number in so many bytes, the highest first. -/
def numberOf : Nat → Nat → Bytes
  | 0, _ => []
  | width + 1, n => numberOf width (n / 256) ++ [UInt8.ofNat n]

/-- Bytes behind their length. -/
def countedOf (width : Nat) (b : Bytes) : Bytes := numberOf width b.length ++ b

/-- A number of so many bytes, called by a name when it is missing. -/
def number (width : Nat) (name : String) : Take Nat := do
  return valueOf (← bytes width (.missing name))

/-- The name that a missing length of one or two bytes, or of three, is called by. -/
def lengthName (width : Nat) : String := if width = 3 then "u24" else "u8"

/-- Bytes **behind their length**, which is a number of so many bytes. -/
def counted (width : Nat) : Take Bytes := do
  bytes (← number width (lengthName width)) .cutShort

/-- The same for bytes of which there have to be some; how their lack is called. -/
def countedOr (empty : Corruption) (width : Nat) : Take Bytes := do
  let n ← number width (lengthName width)
  if n = 0 then throw empty
  bytes n .cutShort

/-- Bytes of which there have to be some. -/
def filled (width : Nat) : Take Bytes := countedOr .emptyValue width

/-- The bytes of a list that must not be empty. -/
def listed (width : Nat) (name : String) : Take Bytes := countedOr (.emptyList name) width

/-- All that is left. -/
def remainder : Take Bytes := fun b => .ok (b, [])

/-- Nothing may be left. -/
def done (name : String) : Take Unit := do
  if !(← get).isEmpty then throw (.trailing name)

/-- What is read **from other bytes**. -/
def within (b : Bytes) (item : Take α) : Take α :=
  match item.run b with
  | .ok (a, _) => return a
  | .error c => throw c

/-- Things one after the other up to the end, at most as many as the fuel. -/
def upToEnd (item : Take α) : Nat → Take (List α)
  | 0 => return []
  | fuel + 1 => do
    if (← get).isEmpty then return []
    return (← item) :: (← upToEnd item fuel)

/-- **The things of a list**, given its bytes. -/
def each (item : Take α) (b : Bytes) : Take (List α) := within b (upToEnd item (b.length + 1))

/-- The numbers of two bytes, called by a name, that a list holds. -/
def pairs (name listName : String) : Take (List Nat) := do
  each (number 2 name) (← listed 2 listName)

/-- The numbers of one byte that a list holds. -/
def singles (listName : String) : Take (List Nat) := do
  return (← listed 1 listName).map (·.toNat)

end Take

end HttpEngine.Handshake
