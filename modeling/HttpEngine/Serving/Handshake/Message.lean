import HttpEngine.Serving.Handshake.Greeting

/-!
# Messages of a handshake

A message has a header of four bytes: its kind, and its length in three. Records may cut
messages in pieces, so a message stands in the payloads put together.

* `Message.first?`: the first message in such bytes, once it is all there.
* `Message.misfit`: why a message is refused where another kind is expected.
-/

namespace HttpEngine.Handshake

open Take

namespace Message

/-- A client's greeting. -/
def greeting : UInt8 := 0x01

/-- The greeting of a server. -/
def serverGreeting : UInt8 := 0x02

/-- The client's share of a key, where it comes behind the greetings. -/
def keyExchange : UInt8 := 0x10

/-- The proof that both sides have the same key. -/
def finished : UInt8 := 0x14

/-- The first number of a list that stands in it, or among those seen, before. -/
def repeated? (seen : List Nat) : List Nat → Option Nat
  | [] => none
  | n :: rest => if seen.contains n then some n else repeated? (n :: seen) rest

/-- A block of extensions whatever they say, each number at most once. -/
def unread : Take Unit := do
  if (← get).isEmpty then return ()
  let extension := do
    let n ← number 2 "ExtensionType"
    let _ ← counted 2
    return n
  let numbers ← each extension (← counted 2)
  match repeated? [] numbers with
  | some n => throw (.repeatedExtension n)
  | none => return ()

/-- A server's greeting. -/
def answer : Take Unit := do
  let _ ← Greeting.salutation
  let _ ← number 2 "CipherSuite"
  let _ ← number 1 "Compression"
  let _ ← unread
  done "ServerHelloPayload"

/-- The most bytes of a chain of certificates. -/
def longestChain : Nat := 0x10000

/-- A chain of certificates. -/
def chain : Take Unit := do
  let n ← number 3 (lengthName 3)
  if longestChain < n then throw .chainTooLong
  let _ ← each (counted 3) (← bytes n .cutShort)

/-- **What a message has to look like**, by its kind. -/
def shape (kind : UInt8) : Take Unit := do
  match kind with
  | 0x01 => let _ ← Greeting.read
  | 0x02 => answer
  | 0x04 => let _ ← number 4 "u32"; let _ ← counted 2
  | 0x05 => done "EndOfEarlyData"
  | 0x06 => throw (.neverSent "HelloRetryRequest")
  | 0x08 => let _ ← counted 2
  | 0x0b => chain
  | 0x0d =>
    let _ ← singles "ClientCertificateTypes"
    let _ ← pairs "SignatureScheme" "SignatureSchemes"
    let _ ← counted 2
  | 0x0e => done "ServerHelloDone"
  | 0x0f => let _ ← number 2 "SignatureScheme"; let _ ← counted 2
  | 0x16 =>
    if (← number 1 "CertificateStatusType") = 1 then let _ ← counted 3 else throw .statusType
  | 0x18 => let _ ← number 1 "KeyUpdateRequest"
  | 0x19 =>
    let _ ← number 2 "CertificateCompressionAlgorithm"
    let _ ← number 3 (lengthName 3)
    let _ ← counted 3
  | 0xfe => throw (.neverSent "MessageHash")
  | _ => let _ ← remainder
  done "HandshakeMessagePayload"

/-- The bytes of a header. -/
def headerLength : Nat := 4

/-- The length that a header announces, once it is all there. -/
def announced? (bytes : Bytes) : Option Nat :=
  if headerLength ≤ bytes.length then some (valueOf ((bytes.take headerLength).drop 1)) else none

/-- The first message, its kind and what it says, **once it is all there**, and the bytes behind
it. -/
def first? (joined : Bytes) : Option (UInt8 × Bytes × Bytes) := do
  let n ← announced? joined
  let kind ← joined.head?
  let rest := joined.drop headerLength
  if n ≤ rest.length then some (kind, rest.take n, rest.drop n) else none

/-- A message takes bytes away. -/
theorem length_first? {joined body behind : Bytes} {kind : UInt8}
    (h : first? joined = some (kind, body, behind)) : behind.length < joined.length := by
  unfold first? at h
  simp only [Option.bind_eq_bind, Option.bind_eq_some_iff] at h
  obtain ⟨n, _, k, hk, h⟩ := h
  split at h
  · cases h
    have : 0 < joined.length := by
      cases joined with
      | nil => cases hk
      | cons _ _ => simp
    simp only [List.length_drop, headerLength]
    omega
  · cases h

/-- The most bytes that a message may announce. -/
def longest : Nat := 0xffff

/-- Whether one of the messages in some bytes announces too much. -/
def announcesTooMuch : Nat → Bytes → Bool
  | 0, _ => false
  | fuel + 1, joined =>
    match announced? joined with
    | none => false
    | some n => longest < n || announcesTooMuch fuel (joined.drop (headerLength + n))

/-- Whether some bytes end where a message ends. -/
def isAligned : Nat → Bytes → Bool
  | 0, _ => true
  | fuel + 1, joined =>
    joined.isEmpty || match first? joined with
      | none => false
      | some (_, _, rest) => isAligned fuel rest

/-- A message with its header. -/
def encode (kind : UInt8) (body : Bytes) : Bytes := kind :: countedOf 3 body

/-- Why a message is refused where **another kind** is expected. -/
def misfit (kind : UInt8) (body : Bytes) (expected : UInt8) : Refusal :=
  match (shape kind).run body with
  | .error c => .corrupt c
  | .ok _ => .unexpectedMessage kind expected

end Message

end HttpEngine.Handshake
