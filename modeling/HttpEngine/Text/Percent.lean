import HttpEngine.Text.Bytes

/-!
# Percent escapes

`%` and two hex digits stand for one byte; a `%` without them stands for itself.
-/

namespace HttpEngine.Text

/-- The value of a hex digit, in either case. -/
def hexValue? (b : UInt8) : Option UInt8 :=
  if 48 ≤ b && b ≤ 57 then some (b - 48)
  else if 65 ≤ b && b ≤ 70 then some (b - 55)
  else if 97 ≤ b && b ≤ 102 then some (b - 87)
  else none

/-- The byte that three bytes in a row stand for, when they are an escape. -/
def escape? (percent high low : UInt8) : Option UInt8 :=
  if percent == 37 then
    match hexValue? high, hexValue? low with
    | some h, some l => some (h * 16 + l)
    | _, _ => none
  else none

/-- Undo the escapes; **malformed ones stay as they are**. -/
def percentDecode : Bytes → Bytes
  | [] => []
  | [a] => [a]
  | [a, b] => [a, b]
  | a :: b :: c :: rest =>
    match escape? a b c with
    | some byte => byte :: percentDecode rest
    | none => a :: percentDecode (b :: c :: rest)

/-- The capital hex digit of a value below 16. -/
def hexDigit (n : UInt8) : UInt8 := if n < 10 then 48 + n else 55 + n

/-- One byte as an escape. -/
def percentEscape (b : UInt8) : Bytes := [37, hexDigit (b / 16), hexDigit (b % 16)]

end HttpEngine.Text
