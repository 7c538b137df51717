import HttpEngine.Text.Percent

/-!
# Form encoding

The `application/x-www-form-urlencoded` form of a text: letters, digits, `*`, `-`, `.` and
`_` stand for themselves, a space is `+`, and every other byte of the UTF-8 form is a percent
escape.
-/

namespace HttpEngine.Text

/-- A byte that stands for itself in a form. -/
def isFormPlain (b : UInt8) : Bool :=
  b == 42 || b == 45 || b == 46 || b == 95 || (48 ≤ b && b ≤ 57) || (65 ≤ b && b ≤ 90)
    || (97 ≤ b && b ≤ 122)

/-- One byte in a form. -/
def formByte (b : UInt8) : Bytes :=
  if isFormPlain b then [b] else if b == 32 then [43] else percentEscape b

/-- A text **as a form component**. -/
def formEncode (s : String) : String := latin1 ((utf8 s).flatMap formByte)

/-- The bytes a form component stands for: **plus signs are spaces**, then the escapes are
undone. -/
def formDecode (component : Bytes) : Bytes :=
  percentDecode (component.map fun b => if b == 43 then 32 else b)

end HttpEngine.Text
