import HttpEngine.Text.Cut
import HttpEngine.Text.Integer

/-!
# Hosts

A host is a number of 32 bits or eight groups of 16. Either can be written in several ways.

* `Host.ofNumbers?`: one to four numbers with points between them.
* `Host.ofGroups?`: groups with colons between them, zeros left out once.
* `Host.ofName?`: a host as it stands in front of a port.
-/

namespace HttpEngine

/-- A machine, or one of the doors of this one. -/
inductive Host
  | four (address : Nat)
  | six (groups : List Nat)
  deriving DecidableEq, Repr

namespace Host

/-- A number in the base that **its beginning says**: `0x` for sixteen, another zero for
eight. -/
def number? : List Char → Option Nat
  | '0' :: 'x' :: digits | '0' :: 'X' :: digits => Text.numeral? 16 digits
  | '0' :: d :: digits => Text.numeral? 8 (d :: digits)
  | digits => Text.numeral? 10 digits

/-- The number that numbers with points between them make up, each of them a byte but the
last, which **fills what is left** of `room` bytes. -/
def joined? (room : Nat) : List Nat → Option Nat
  | [] => none
  | [last] => if last < 1 <<< (8 * room) then some last else none
  | n :: rest =>
    if n ≤ Text.maxByte then (joined? (room - 1) rest).map (n <<< (8 * (room - 1)) + ·) else none

/-- The host that **at most four numbers** stand for. -/
def ofNumbers? (cs : List Char) : Option Host := do
  let parts := Text.pieces '.' cs
  if 4 < parts.length then none
  else return .four (← joined? 4 (← parts.mapM number?))

/-- A byte in decimal digits, none of them needless. -/
def byte? (digits : List Char) : Option Nat :=
  if digits.head? == some '0' && digits != ['0'] then none
  else (Text.digits? digits).filter (· ≤ Text.maxByte)

/-- The two groups that four bytes with points between them stand for. -/
def twoGroups? (cs : List Char) : Option (List Nat) := do
  match ← (Text.pieces '.' cs).mapM byte? with
  | [a, b, c, d] => return [a * 256 + b, c * 256 + d]
  | _ => none

/-- Groups with colons between them; four bytes may stand for **the last two**. -/
def groups? (cs : List Char) : Option (List Nat) :=
  if cs.isEmpty then some []
  else
    let parts := Text.pieces ':' cs
    let group := fun (p : List Char) => if p.length ≤ 4 then Text.numeral? 16 p else none
    match parts.getLast? with
    | some last =>
      if last.contains '.' then do
        return (← parts.dropLast.mapM group) ++ (← twoGroups? last)
      else parts.mapM group
    | none => none

/-- The host that eight groups stand for. Where there are two colons **at least one** group of
zeros is left out. -/
def ofGroups? (cs : List Char) : Option Host := do
  let groups ←
    match Text.cutAt [':', ':'] cs with
    | none => groups? cs
    | some (front, back) =>
      if front.contains '.' then none
      else
        let front ← groups? front
        let back ← groups? back
        if 7 < front.length + back.length then none
        else some (front ++ List.replicate (8 - front.length - back.length) 0 ++ back)
  match groups with
  | [0, 0, 0, 0, 0, 0xffff, a, b] => return .four (a * 65536 + b)
  | groups => if groups.length = 8 then return .six groups else none

/-- The host that this machine calls itself by name. -/
def loopback : Host := .four 0x7f000001

/-- A host as it stands in front of a port, groups **between brackets or not**. -/
def ofName? (name : String) : Option Host :=
  match name.toList with
  | '[' :: rest => if rest.getLast? == some ']' then ofGroups? rest.dropLast else none
  | cs =>
    if cs.map Char.toLower == "localhost".toList then some loopback
    else (ofNumbers? cs).or (ofGroups? cs)

/-- Whether a host stands for every door of this machine. -/
def isEverywhere : Host → Bool
  | four n => n == 0
  | six groups => groups.all (· == 0)

end Host

end HttpEngine
