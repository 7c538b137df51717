import HttpEngine.Text.Bytes

/-!
# Base64

Three bytes written as four characters of an alphabet of 64.

* `Base64.decode?`: the bytes behind a text, in which blanks do not count and the padding at
  the end may be left out.
-/

namespace HttpEngine.Base64

/-- The number a character of the alphabet stands for. -/
def digit? (c : UInt8) : Option Nat :=
  if 65 ≤ c ∧ c ≤ 90 then some (c.toNat - 65)
  else if 97 ≤ c ∧ c ≤ 122 then some (c.toNat - 97 + 26)
  else if 48 ≤ c ∧ c ≤ 57 then some (c.toNat - 48 + 52)
  else if c = 43 then some 62
  else if c = 47 then some 63
  else none

/-- The bytes that digits stand for; bits that fill no byte are dropped. -/
def ofDigits : List Nat → Bytes
  | a :: b :: c :: d :: rest =>
    UInt8.ofNat (a * 4 + b / 16) :: UInt8.ofNat (b * 16 + c / 4) :: UInt8.ofNat (c * 64 + d)
      :: ofDigits rest
  | [a, b, c] => [UInt8.ofNat (a * 4 + b / 16), UInt8.ofNat (b * 16 + c / 4)]
  | [a, b] => [UInt8.ofNat (a * 4 + b / 16)]
  | _ => []

/-- The characters that may stand anywhere and count for nothing. -/
def isFiller (c : UInt8) : Bool := c == 32 || (9 ≤ c && c ≤ 13)

/-- Whether so many signs of padding may follow so many digits. -/
def padsWell (digits pads : Nat) : Bool :=
  if pads = 0 then digits % 4 != 1 else pads ≤ 2 && (digits + pads) % 4 == 0

/-- **The bytes behind a text**, nothing when it is malformed. -/
def decode? (text : Bytes) : Option Bytes := do
  let signs := text.filter (!isFiller ·)
  let digits ← (signs.takeWhile (· ≠ 61)).mapM digit?
  let padding := signs.dropWhile (· ≠ 61)
  if padding.all (· = 61) && padsWell digits.length padding.length then some (ofDigits digits)
  else none

end HttpEngine.Base64
