/-!
# Bytes and the two ways text is written in them

* `Bytes`: what streams carry.
* `latin1`: one character per byte, the reading of request lines and headers.
* `utf8`: the encoding in which texts leave the engine.
-/

namespace HttpEngine

/-- A run of bytes. -/
abbrev Bytes := List UInt8

namespace Text

/-- The character with the byte's own number. -/
def latin1Char (b : UInt8) : Char := Char.ofNat b.toNat

/-- Read bytes **one character each**, so no byte fails to decode. -/
def latin1 (bytes : Bytes) : String := String.ofList (bytes.map latin1Char)

/-- The UTF-8 encoding of a text. -/
def utf8 (s : String) : Bytes := s.toList.flatMap String.utf8EncodeChar

/-- The bytes of a text whose characters are all below 128. -/
def ascii (s : String) : Bytes := s.toList.map fun c => UInt8.ofNat c.toNat

/-- The carriage return and line feed that end a line. -/
def crlf : Bytes := [13, 10]

end Text

end HttpEngine
