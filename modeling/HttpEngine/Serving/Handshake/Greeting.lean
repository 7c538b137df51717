import HttpEngine.Serving.Handshake.Take
import HttpEngine.Serving.Host

/-!
# A client's greeting

With it a client says what it can do, most of it in extensions.

* `Extension`: what an extension says that bears on the reply.
* `Greeting.read`: the greeting that the bytes of a message hold. An extension that is known has
  to be **exactly what it should be**, any other may be anything.
-/

namespace HttpEngine.Handshake

open Take

/-- The server that a client asks for. -/
inductive AskedServer
  /-- By its name, in small letters. -/
  | named (name : List Char)
  /-- By its address, which counts for nothing. -/
  | addressed
  | invalid
  deriving DecidableEq, Repr

namespace AskedServer

/-- The most bytes of a name. -/
def longestName : Nat := 253

/-- The most bytes of a part of a name. -/
def longestPart : Nat := 63

/-- Whether a byte may stand in a name. -/
def isNameByte (b : UInt8) : Bool :=
  let c := Text.latin1Char b
  c.isAlphanum || c == '-' || c == '_'

/-- Whether bytes are a part of a name, which has **no hyphen at an end**. -/
def isPart (part : Bytes) : Bool :=
  !part.isEmpty && part.length ≤ longestPart && part.all isNameByte
    && part.head? != some 0x2d && part.getLast? != some 0x2d

/-- Whether bytes are digits only. -/
def isNumeral (part : Bytes) : Bool := part.all fun b => (Text.latin1Char b).isDigit

/-- Whether bytes are a name. It may end in a point, and its last part is **no number**. -/
def isName (b : Bytes) : Bool :=
  let parts := Text.pieces 0x2e b
  let parts := if parts.getLast? == some [] then parts.dropLast else parts
  b.length ≤ longestName && parts.all isPart && parts.getLast?.any (!isNumeral ·)

/-- The server that bytes ask for. -/
def ofBytes (b : Bytes) : AskedServer :=
  let cs := (Text.latin1 b).toList
  if isName b then .named (cs.map Char.toLower)
  else if (Host.twoGroups? cs).isSome || (Host.ofGroups? cs).isSome then .addressed
  else .invalid

/-- The kind of a name that is a name of a server. -/
def nameKind : Nat := 0

/-- The server that a list of names asks for, after one found already. Behind a name of another
kind nothing can be read. -/
def inList : Nat → Option AskedServer → Take AskedServer
  | 0, found => return found.getD .invalid
  | fuel + 1, found => do
    if (← get).isEmpty then return found.getD .invalid
    if (← number 1 "ServerNameType") ≠ nameKind then return found.getD .invalid
    let name ← filled 2
    if found.isSome then throw .repeatedName
    inList fuel (some (ofBytes name))

end AskedServer

/-- What an extension says that bears on the reply. -/
inductive Extension
  | server (asked : AskedServer)
  /-- The groups in which the client makes keys. -/
  | groups (numbers : List Nat)
  /-- The forms in which it takes points of curves. -/
  | pointForms (numbers : List Nat)
  /-- The ways in which it lets the server sign. -/
  | schemes (numbers : List Nat)
  /-- The ways in which certificates may be packed. -/
  | packings (numbers : List Nat)
  /-- Keys from earlier connections, and the proofs that it has them. -/
  | earlierKeys (keys proofs : Nat)
  /-- Data that comes with the greeting. -/
  | earlyData
  | versions (numbers : List Nat)
  /-- The ways to use keys from earlier connections. -/
  | exchangeModes
  /-- Shares of keys, each for a group. -/
  | shares (list : List (Nat × Bytes))
  | other
  deriving DecidableEq, Repr

namespace Extension

/-- The extension with keys from earlier connections, which has to be the last. -/
def earlierKeysNumber : Nat := 41

/-- A question for the state of the certificate. -/
def statusQuestion : Take Unit := do
  if (← number 1 "CertificateStatusType") = 1 then
    let _ ← each (counted 2) (← counted 2)
    let _ ← counted 2
  else
    let _ ← remainder

/-- A sealed greeting inside the greeting. -/
def innerGreeting : Take Unit := do
  let kind ← number 1 "EchClientHelloType"
  if kind = 0 then
    let _ ← number 2 "HpkeKdf"
    let _ ← number 2 "HpkeAead"
    let _ ← number 1 "u8"
    let _ ← counted 2
    let _ ← filled 2
  else if kind ≠ 1 then throw .contentType

/-- A key from an earlier connection, and its age. -/
def earlierKey : Take Unit := do
  let _ ← filled 2
  let _ ← number 4 "u32"

/-- A share of a key. -/
def share : Take (Nat × Bytes) := do return (← number 2 "NamedGroup", ← filled 2)

/-- **How an extension is read**, by its number; nothing for one that is not known. -/
def reader? : Nat → Option (Take Extension)
  | 0 => some do
    let names ← listed 2 "ServerNames"
    return server (← within names (AskedServer.inList (names.length + 1) none))
  | 5 => some do statusQuestion; return other
  | 10 => some do return groups (← pairs "NamedGroup" "NamedGroups")
  | 11 => some do return pointForms (← singles "ECPointFormats")
  | 13 => some do return schemes (← pairs "SignatureScheme" "SignatureSchemes")
  | 16 => some do let _ ← each (filled 1) (← listed 2 "ProtocolNames"); return other
  | 19 | 20 => some do let _ ← singles "CertificateTypes"; return other
  | 23 => some do done "Empty"; return other
  | 27 => some do
    return packings (← each (number 2 "CertificateCompressionAlgorithm")
      (← listed 1 "CertificateCompressionAlgorithms"))
  | 35 => some do let _ ← remainder; return other
  | 41 => some do
    let keys ← each earlierKey (← listed 2 "PskIdentities")
    let proofs ← each (filled 1) (← listed 2 "PskBinders")
    return earlierKeys keys.length proofs.length
  | 42 => some do done "Empty"; return earlyData
  | 43 => some do
    return versions (← each (number 2 "ProtocolVersion") (← listed 1 "ProtocolVersions"))
  | 44 => some do let _ ← filled 2; return other
  | 45 => some do let _ ← singles "PskKeyExchangeModes"; return exchangeModes
  | 47 => some do let _ ← each (filled 2) (← counted 2); return other
  | 51 => some do return shares (← each share (← counted 2))
  | 57 => some do let _ ← remainder; return other
  | 0xfd00 => some do
    let _ ← each (number 2 "ExtensionType") (← listed 1 "ExtensionTypes")
    return other
  | 0xfe0d => some do innerGreeting; return other
  | 0xff01 => some do let _ ← counted 1; return other
  | _ => none

/-- What the extension of a number says in some bytes. -/
def ofBody (n : Nat) (body : Bytes) : Take Extension :=
  match reader? n with
  | some reader => within body do
    let e ← reader
    done "ClientExtensions"
    return e
  | none => return other

/-- The extensions in a block, each number **at most once**. -/
def inBlock : Nat → List Nat → Take (List Extension)
  | 0, _ => return []
  | fuel + 1, seen => do
    if (← get).isEmpty then return []
    if seen.head? == some earlierKeysNumber then throw .lateExtension
    let n ← number 2 "ExtensionType"
    let body ← counted 2
    if seen.contains n then throw (.repeatedExtension n)
    return (← ofBody n body) :: (← inBlock fuel (n :: seen))

/-- A block of extensions; one with nothing in it may be left out. -/
def block : Take (List Extension) := do
  if (← get).isEmpty then return []
  let b ← counted 2
  within b (inBlock (b.length + 1) [])

end Extension

/-- What a client's greeting says. -/
structure Greeting where
  version : Nat
  /-- What the client calls the session. -/
  session : Bytes
  /-- The ciphers that it knows, the best first. -/
  suites : List Nat
  /-- The ways to compress. -/
  compressions : List Nat
  extensions : List Extension
  deriving Repr

namespace Greeting

/-- The random bytes of a greeting. -/
def randomLength : Nat := 32

/-- The most bytes that a session is called by. -/
def longestSession : Nat := 32

/-- The part that both greetings begin with: a version, random bytes, and a session. -/
def salutation : Take (Nat × Bytes) := do
  let version ← number 2 "ProtocolVersion"
  let _ ← bytes randomLength (.missing "Random")
  let n ← number 1 "u8"
  if longestSession < n then throw (.trailing "SessionID")
  return (version, ← bytes n (.missing "SessionID"))

/-- **A client's greeting**, with nothing behind it. -/
def read : Take Greeting := do
  let (version, session) ← salutation
  let suites ← pairs "CipherSuite" "CipherSuites"
  let compressions ← singles "Compressions"
  let extensions ← Extension.block
  done "ClientHelloPayload"
  return { version, session, suites, compressions, extensions }

variable (g : Greeting)

/-- The server asked for. -/
def server? : Option AskedServer :=
  g.extensions.findSome? fun | .server asked => some asked | _ => none

/-- The groups in which the client makes keys. -/
def groups : List Nat :=
  (g.extensions.findSome? fun | .groups ns => some ns | _ => none).getD []

/-- The forms in which it takes points. -/
def pointForms? : Option (List Nat) :=
  g.extensions.findSome? fun | .pointForms ns => some ns | _ => none

/-- The ways in which it lets the server sign. -/
def schemes? : Option (List Nat) :=
  g.extensions.findSome? fun | .schemes ns => some ns | _ => none

/-- The ways in which certificates may be packed. -/
def packings : List Nat :=
  (g.extensions.findSome? fun | .packings ns => some ns | _ => none).getD []

/-- Keys and proofs from earlier connections. -/
def earlierKeys? : Option (Nat × Nat) :=
  g.extensions.findSome? fun | .earlierKeys keys proofs => some (keys, proofs) | _ => none

/-- The versions it speaks, where it lists them. -/
def versions? : Option (List Nat) :=
  g.extensions.findSome? fun | .versions ns => some ns | _ => none

/-- Its shares of keys. -/
def shares? : Option (List (Nat × Bytes)) :=
  g.extensions.findSome? fun | .shares list => some list | _ => none

/-- Whether it sends data with the greeting. -/
def hasEarlyData : Bool := g.extensions.contains .earlyData

/-- Whether it says how keys from earlier connections may be used. -/
def hasExchangeModes : Bool := g.extensions.contains .exchangeModes

end Greeting

end HttpEngine.Handshake
