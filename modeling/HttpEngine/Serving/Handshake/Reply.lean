import HttpEngine.Serving.Handshake.Group
import HttpEngine.Serving.Handshake.Message

/-!
# What a server replies to a greeting

From what a client can do the server chooses a version, a cipher and a group for keys, always
**the client's first** that it knows itself. Its key is a point of the curve of 256 bits, and it
signs in one way only.

* `Greeting.reply`: what the greeting comes to, or why it is refused.
* `Asked.message`: how a client without a fitting share is asked for another greeting.
-/

namespace HttpEngine.Handshake

/-- The two versions that a server speaks. -/
inductive Version
  | older
  | newest
  deriving DecidableEq, Repr

namespace Version

/-- The number of a version. -/
def number : Version → Nat
  | older => 0x0303
  | newest => 0x0304

/-- The ciphers of a version that go with the server's key, and the bits of their digests. -/
def suites : Version → List (Nat × Nat)
  | older => [(0xc02c, 384), (0xc02b, 256), (0xcca9, 256)]
  | newest => [(0x1302, 384), (0x1301, 256), (0x1303, 256)]

end Version

/-- What a server asked a client for that had no fitting share. -/
structure Asked where
  /-- The server that the client had named. -/
  name? : Option (List Char)
  digest : Nat
  deriving Repr

/-- What a greeting comes to. -/
inductive Reply
  /-- The client shall greet again, with a share in this group. -/
  | askFor (asked : Asked) (suite group : Nat)
  /-- It is accepted in the newest version. Sealed records come next, so many bytes of which
  need not open. -/
  | newest (leeway : Nat)
  /-- It is accepted in the older version. A share in this group comes next. -/
  | older (group : Nat)
  deriving Repr

namespace Greeting

/-- The way in which the server signs. -/
def ownScheme : Nat := 0x0403

/-- The ways to sign that the ciphers of the older version go with. -/
def olderSchemes : List Nat := [0x0807, 0x0603, 0x0503, 0x0403]

/-- The form of a point that is not compressed. -/
def plainPoint : Nat := 0

/-- The way to compress that is none. -/
def uncompressed : Nat := 0

/-- The early data that a server without any use for it puts up with. -/
def earlyLeeway : Nat := 16384

variable (g : Greeting)

/-- The name of the server that is asked for, if that is a name. -/
def name? : Except Refusal (Option (List Char)) :=
  match g.server? with
  | some (.named name) => .ok (some name)
  | some .invalid => .error (.misbehaved .serverName)
  | some .addressed | none => .ok none

/-- **The version**: the newest that both speak. -/
def chooseVersion : Except Refusal Version :=
  match g.versions? with
  | some numbers =>
    if numbers.contains Version.newest.number then .ok .newest
    else if numbers.contains Version.older.number then .ok .older
    else .error (.incompatible .otherVersions)
  | none =>
    if g.version < Version.older.number then .error (.incompatible .oldVersion) else .ok .older

/-- The client's first group that the server knows. -/
def chooseGroup : Except Refusal (Nat × Group) :=
  match g.groups.findSome? fun n => (Group.ofNumber? n).map (n, ·) with
  | some group => .ok group
  | none => .error (.incompatible .groups)

/-- The client's first cipher that the server knows, with the bits of its digest. -/
def chooseSuite (v : Version) : Except Refusal (Nat × Nat) :=
  match g.suites.findSome? fun n => (v.suites.lookup n).map (n, ·) with
  | some suite => .ok suite
  | none => .error (.incompatible .suites)

/-- Demand something of a greeting. -/
def demand (holds : Bool) (otherwise : Refusal) : Except Refusal Unit :=
  if holds then .ok () else .error otherwise

/-- The reply in the newest version. -/
def newestReply (first? : Option Asked) (name? : Option (List Char)) (suite digest number : Nat)
    (group : Group) (schemes : List Nat) : Except Refusal Reply := do
  demand (g.compressions.length = 1) (.misbehaved .compressions)
  let some shares := g.shares? | .error (.incompatible .noShares)
  demand (shares.map (·.1)).Nodup (.misbehaved .repeatedShares)
  demand g.packings.Nodup (.misbehaved .repeatedPackings)
  demand (first?.isNone || !g.hasEarlyData) (.misbehaved .earlyData)
  match shares.lookup number with
  | none =>
    demand first?.isNone (.misbehaved .noShare)
    return .askFor { name?, digest } suite number
  | some share =>
    match g.earlierKeys? with
    | none => pure ()
    | some (keys, proofs) =>
      demand g.hasExchangeModes (.misbehaved .noExchangeModes)
      demand (keys = proofs) (.misbehaved .binders)
    demand (group.isShare share) (.misbehaved .share)
    demand (schemes.contains ownScheme) (.incompatible .schemes)
    return .newest (if g.hasEarlyData then earlyLeeway else 0)

/-- The reply in the older version. -/
def olderReply (number : Nat) (schemes : List Nat) : Except Refusal Reply := do
  demand (g.pointForms?.all (·.contains plainPoint)) (.incompatible .points)
  demand (schemes.any (olderSchemes.contains ·)) (.incompatible .schemes)
  demand (schemes.contains ownScheme) .unfitKey
  return .older number

/-- **What a greeting comes to**, the first or the second after one that asked for it; whether
it is the last of the messages so far. -/
def reply (first? : Option Asked) (aligned : Bool) : Except Refusal Reply := do
  demand (g.compressions.contains uncompressed) (.incompatible .compression)
  demand aligned (.misbehaved .fragmentBehind)
  let name? ← g.name?
  demand (first?.all (·.name? == name?)) (.misbehaved .otherServer)
  let some schemes := g.schemes? | .error (.incompatible .noSchemes)
  let v ← g.chooseVersion
  let (number, group) ← g.chooseGroup
  let (suite, digest) ← g.chooseSuite v
  demand (first?.all (·.digest = digest)) (.misbehaved .otherDigest)
  match v with
  | .newest => g.newestReply first? name? suite digest number group schemes
  | .older => g.olderReply number schemes

end Greeting

namespace Asked

/-- What stands in place of random bytes when a client is asked for another greeting. -/
def mark : Bytes :=
  Take.numberOf 32 0xcf21ad74e59a6111be1d8c021e65b891c2a211167abb8c5e079e09e2c8a8339c

/-- An extension with its number and length. -/
def extension (number : Nat) (body : Bytes) : Bytes :=
  Take.numberOf 2 number ++ Take.countedOf 2 body

/-- A record with its header. -/
def record (kind : UInt8) (payload : Bytes) : Bytes :=
  kind :: Take.numberOf 2 Version.older.number ++ Take.countedOf 2 payload

/-- **The bytes by which a client is asked** to greet again: a greeting that names the cipher,
the group and the version, and a change of ciphers for those who wait for one. -/
def message (session : Bytes) (suite group : Nat) : Bytes :=
  let extensions :=
    extension 51 (Take.numberOf 2 group) ++ extension 43 (Take.numberOf 2 Version.newest.number)
  let body :=
    Take.numberOf 2 Version.older.number ++ mark ++ Take.countedOf 1 session
      ++ Take.numberOf 2 suite ++ [0] ++ Take.countedOf 2 extensions
  record 0x16 (Message.encode Message.serverGreeting body) ++ record 0x14 [1]

end Asked

end HttpEngine.Handshake
