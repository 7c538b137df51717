/-!
# Decimal integers within bounds

A natural number may carry a `+`, an integer also a `-`; at least one ASCII digit follows
and nothing else, blanks included. A number past its bound does not parse. `numeral?` reads
digits in another base.
-/

namespace HttpEngine.Text

/-- The value of a run of ASCII digits, most significant first. -/
def digitsValue (cs : List Char) : Nat :=
  cs.foldl (fun n c => n * 10 + (c.toNat - '0'.toNat)) 0

/-- The value of a non-empty run of ASCII digits. -/
def digits? (cs : List Char) : Option Nat :=
  if cs.isEmpty || !cs.all Char.isDigit then none else some (digitsValue cs)

/-- A natural number **at most `max`**, with or without `+`. -/
def natUpTo? (max : Nat) (s : String) : Option Nat :=
  let value := match s.toList with
    | '+' :: rest => digits? rest
    | cs => digits? cs
  value.filter (· ≤ max)

/-- An integer **from `-max - 1` to `max`**, with or without a sign. -/
def intUpTo? (max : Nat) (s : String) : Option Int :=
  match s.toList with
  | '-' :: rest => (digits? rest).filter (· ≤ max + 1) |>.map fun n => -(n : Int)
  | '+' :: rest => (digits? rest).filter (· ≤ max) |>.map Int.ofNat
  | cs => (digits? cs).filter (· ≤ max) |>.map Int.ofNat

/-- The value of a digit, of which there are sixteen; letters may be small or great. -/
def digitValue? (c : Char) : Option Nat :=
  if c.isDigit then some (c.toNat - '0'.toNat)
  else if 'a' ≤ c && c ≤ 'f' then some (c.toNat - 'a'.toNat + 10)
  else if 'A' ≤ c && c ≤ 'F' then some (c.toNat - 'A'.toNat + 10)
  else none

/-- The value of a non-empty run of digits **in a base** up to sixteen. -/
def numeral? (base : Nat) (cs : List Char) : Option Nat :=
  if cs.isEmpty then none
  else cs.foldlM (fun n c => ((digitValue? c).filter (· < base)).map (n * base + ·)) 0

/-- The two truth values, written small. -/
def bool? : String → Option Bool
  | "true" => some true
  | "false" => some false
  | _ => none

/-- The greatest 8-bit number. -/
def maxByte : Nat := 255

/-- The greatest 16-bit number. -/
def maxWord16 : Nat := 65535

/-- The greatest 32-bit number. -/
def maxWord32 : Nat := 4294967295

/-- The greatest 64-bit number. -/
def maxWord64 : Nat := 18446744073709551615

/-- The greatest signed 64-bit number. -/
def maxInt64 : Nat := 9223372036854775807

end HttpEngine.Text
