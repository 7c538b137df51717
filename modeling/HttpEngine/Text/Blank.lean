/-!
# White space at the ends of a text

* `isBlank`: the characters with the Unicode property White_Space.
* `trim`: a text without blanks at either end.
-/

namespace HttpEngine.Text

/-- The code points with the property **White_Space**, as inclusive ranges. -/
def blankRanges : List (Nat × Nat) :=
  [(0x09, 0x0D), (0x20, 0x20), (0x85, 0x85), (0xA0, 0xA0), (0x1680, 0x1680),
    (0x2000, 0x200A), (0x2028, 0x2029), (0x202F, 0x202F), (0x205F, 0x205F), (0x3000, 0x3000)]

/-- A white-space character. -/
def isBlank (c : Char) : Bool :=
  blankRanges.any fun (lo, hi) => lo ≤ c.toNat && c.toNat ≤ hi

/-- Drop the blanks at both ends of a list of characters. -/
def trimChars (cs : List Char) : List Char :=
  ((cs.dropWhile isBlank).reverse.dropWhile isBlank).reverse

/-- The text **without blanks at its ends**. -/
def trim (s : String) : String := String.ofList (trimChars s.toList)

end HttpEngine.Text
