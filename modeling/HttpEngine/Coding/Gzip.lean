import HttpEngine.Coding.Deflate

/-!
# The gzip format

A header, a deflate stream, and behind it the checksum and the length of the data.

* `Gzip.checksum`: the 32-bit cyclic redundancy check.
* `Gzip.encode`, `Gzip.decode?`: data in this format, and back; **a wrong checksum or length
  is refused**.
-/

namespace HttpEngine.Coding.Gzip

/-- One step of the check. -/
def checkStep (crc : UInt32) : UInt32 :=
  if crc &&& 1 = 1 then (crc >>> 1) ^^^ 0xEDB88320 else crc >>> 1

/-- One byte more under the check. -/
def checkByte (crc : UInt32) (b : UInt8) : UInt32 :=
  Nat.repeat checkStep 8 (crc ^^^ b.toUInt32)

/-- The checksum of data. -/
def checksum (data : Bytes) : UInt32 := ~~~ (data.foldl checkByte 0xFFFFFFFF)

/-- A number in four bytes, lowest first. -/
def fourBytes (n : Nat) : Bytes :=
  [UInt8.ofNat n, UInt8.ofNat (n >>> 8), UInt8.ofNat (n >>> 16), UInt8.ofNat (n >>> 24)]

/-- What the header says of the effort spent: least, most, or neither. -/
def effort (level : Nat) : UInt8 := if 9 ≤ level then 2 else if level ≤ 1 then 4 else 0

/-- The header: no name, no time, no known system. -/
def header (level : Nat) : Bytes := [0x1f, 0x8b, 8, 0, 0, 0, 0, 0, effort level, 0xff]

/-- What stands behind the data. -/
def trailer (data : Bytes) : Bytes := fourBytes (checksum data).toNat ++ fourBytes data.length

/-- **Data in this format.** -/
def encode (level : Nat) (data : Bytes) : Bytes :=
  header level ++ Deflate.encode level data ++ trailer data

/-- The most bytes a text in a header can have. -/
def longestText : Nat := 65535

/-- What comes after a text that **a zero byte ends**. -/
def pastText? (bytes : Bytes) : Option Bytes :=
  match bytes.drop (bytes.takeWhile (· ≠ 0)).length with
  | [] => none
  | _ :: rest => if (bytes.takeWhile (· ≠ 0)).length ≤ longestText then some rest else none

/-- What comes after the optional parts of a header that its flags announce. -/
def pastOptions? (flags : UInt8) (whole bytes : Bytes) : Option Bytes := do
  let bytes ← if flags &&& 4 = 0 then some bytes else
    match bytes with
    | low :: high :: rest =>
      let n := low.toNat + 256 * high.toNat
      if n ≤ rest.length then some (rest.drop n) else none
    | _ => none
  let bytes ← if flags &&& 8 = 0 then some bytes else pastText? bytes
  let bytes ← if flags &&& 16 = 0 then some bytes else pastText? bytes
  if flags &&& 2 = 0 then return bytes
  else
    let sum := (checksum (whole.take (whole.length - bytes.length))).toNat
    match bytes with
    | low :: high :: rest =>
      if low.toNat + 256 * high.toNat = sum % 65536 then some rest else none
    | _ => none

/-- What comes after the header. -/
def pastHeader? (stream : Bytes) : Option Bytes :=
  match stream with
  | 0x1f :: 0x8b :: 8 :: flags :: _ :: _ :: _ :: _ :: _ :: _ :: rest =>
    if flags &&& 0xe0 = 0 then pastOptions? flags stream rest else none
  | _ => none

/-- **The data behind a stream.** -/
def decode? (stream : Bytes) : Option Bytes := do
  let (data, rest) ← Deflate.decode? (← pastHeader? stream)
  if rest.take 8 = trailer data then some data else none

end HttpEngine.Coding.Gzip
