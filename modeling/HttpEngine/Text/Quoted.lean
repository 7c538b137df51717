import HttpEngine.Text.Printable

/-!
# Texts in quotes

How messages show a text that may hold anything: in double quotes, with an escape for each
character that could not be told apart otherwise.
-/

namespace HttpEngine.Text

/-- A code point in small hex digits. -/
def hexCode (c : Char) : String := String.ofList (Nat.toDigits 16 c.toNat)

/-- The character as it stands between quotes: a short escape where one exists, its **hex
code** where it is unprintable or joins its neighbour, else itself. -/
def quotedChar (c : Char) : String :=
  if c == '\x00' then "\\0"
  else if c == '\t' then "\\t"
  else if c == '\r' then "\\r"
  else if c == '\n' then "\\n"
  else if c == '\x5c' then "\\\\"
  else if c == '\x22' then "\\\""
  else if isExtending c || !isPrintable c then "\\u\x7b" ++ hexCode c ++ "\x7d"
  else c.toString

/-- A text **in double quotes**. -/
def quoted (s : String) : String := "\"" ++ String.join (s.toList.map quotedChar) ++ "\""

end HttpEngine.Text
