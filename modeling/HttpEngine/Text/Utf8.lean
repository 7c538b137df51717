import HttpEngine.Text.Bytes

/-!
# Reading UTF-8

A byte sequence is read left to right. Each stretch that no encoded character can
continue is **broken**: the longest run of bytes that starts some character, or else a
single byte.

* `units`: the characters read, with `none` for each broken stretch.
* `lossy`: broken stretches become U+FFFD.
* `decode?`: nothing when any stretch is broken.
-/

namespace HttpEngine.Text.Utf8

/-- A character begun and not yet complete. -/
structure Partial where
  /-- Least byte that may come next. -/
  low : UInt8
  /-- Greatest byte that may come next. -/
  high : UInt8
  /-- Bytes still to come after the next one. -/
  more : Nat
  /-- The bits of the bytes read so far. -/
  code : Nat

/-- What a byte means at the start of a character. -/
inductive Lead
  /-- The byte is a whole character. -/
  | whole (c : Char)
  /-- The byte begins a longer character. -/
  | opening (p : Partial)
  /-- No character starts with this byte. -/
  | broken

/-- The meaning of a first byte. The ranges for the second byte leave out overlong forms,
surrogates and code points past the last. -/
def lead (b : UInt8) : Lead :=
  if b < 0x80 then .whole (Char.ofNat b.toNat)
  else if 0xC2 ≤ b && b ≤ 0xDF then .opening ⟨0x80, 0xBF, 0, b.toNat - 0xC0⟩
  else if b == 0xE0 then .opening ⟨0xA0, 0xBF, 1, 0⟩
  else if b == 0xED then .opening ⟨0x80, 0x9F, 1, 0x0D⟩
  else if 0xE1 ≤ b && b ≤ 0xEF then .opening ⟨0x80, 0xBF, 1, b.toNat - 0xE0⟩
  else if b == 0xF0 then .opening ⟨0x90, 0xBF, 2, 0⟩
  else if b == 0xF4 then .opening ⟨0x80, 0x8F, 2, 4⟩
  else if 0xF1 ≤ b && b ≤ 0xF3 then .opening ⟨0x80, 0xBF, 2, b.toNat - 0xF0⟩
  else .broken

/-- The code once a continuation byte has added its six bits. -/
def Partial.extend (p : Partial) (b : UInt8) : Nat := p.code * 64 + (b.toNat - 0x80)

/-- The characters of a byte sequence, `none` for each broken stretch, read after the
beginning `p` of a character if there is one. -/
def unitsFrom : Option Partial → Bytes → List (Option Char)
  | none, [] => []
  | some _, [] => [none]
  | none, b :: rest =>
    match lead b with
    | .whole c => some c :: unitsFrom none rest
    | .opening p => unitsFrom (some p) rest
    | .broken => none :: unitsFrom none rest
  | some p, b :: rest =>
    if p.low ≤ b && b ≤ p.high then
      match p.more with
      | 0 => some (Char.ofNat (p.extend b)) :: unitsFrom none rest
      | n + 1 => unitsFrom (some ⟨0x80, 0xBF, n, p.extend b⟩) rest
    else
      -- the stretch breaks before `b`, which then starts afresh
      match lead b with
      | .whole c => none :: some c :: unitsFrom none rest
      | .opening q => none :: unitsFrom (some q) rest
      | .broken => none :: none :: unitsFrom none rest

/-- The characters of a byte sequence, `none` for **each broken stretch**. -/
def units (bytes : Bytes) : List (Option Char) := unitsFrom none bytes

/-- What stands in a text for a broken stretch. -/
def replacement : Char := '\uFFFD'

/-- Read bytes as UTF-8, a **replacement character** for each broken stretch. -/
def lossyChars (bytes : Bytes) : List Char := (units bytes).map (·.getD replacement)

/-- `lossyChars` as a text. -/
def lossy (bytes : Bytes) : String := String.ofList (lossyChars bytes)

/-- Read bytes as UTF-8, or nothing when a stretch is broken. -/
def decode? (bytes : Bytes) : Option String := ((units bytes).mapM id).map String.ofList

end HttpEngine.Text.Utf8
