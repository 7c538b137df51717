import HttpEngine.Text.Bytes

/-!
# Why handshakes are refused

* `Refusal`: what a peer did wrong, or cannot do.
* `Refusal.text`, `Refusal.alert?`: how that is reported, and **what the peer is told** of it.
-/

namespace HttpEngine.Handshake

/-- What can be wrong with bytes that ought to say something. -/
inductive Corruption
  /-- A record of no known kind, or of one that has no place here. -/
  | contentType
  /-- A version that is none of the protocol. -/
  | version
  /-- A record that must not be empty. -/
  | emptyPayload
  /-- A record that is longer than one may be. -/
  | recordTooLong
  /-- A message that is longer than is put up with. -/
  | messageTooLong
  /-- A chain of certificates that is. -/
  | chainTooLong
  /-- Nothing where this should be. -/
  | missing (what : String)
  /-- Something behind the end of this. -/
  | trailing (what : String)
  /-- Less than a length announces. -/
  | cutShort
  | emptyList (what : String)
  /-- No bytes where there have to be some. -/
  | emptyValue
  /-- A kind of message that is never sent. -/
  | neverSent (what : String)
  /-- A change of ciphers that does not look like one. -/
  | cipherChange
  | statusType
  | repeatedExtension (number : Nat)
  /-- An extension behind the one that has to be last. -/
  | lateExtension
  /-- Two names for one server. -/
  | repeatedName
  /-- Something behind the key in an exchange of keys. -/
  | keyParameters
  deriving DecidableEq, Repr

/-- The word for it. -/
def Corruption.text : Corruption → String
  | contentType => "InvalidContentType"
  | version => "UnknownProtocolVersion"
  | emptyPayload => "InvalidEmptyPayload"
  | recordTooLong => "MessageTooLarge"
  | messageTooLong => "HandshakePayloadTooLarge"
  | chainTooLong => "CertificatePayloadTooLarge"
  | missing what => "MissingData(\"" ++ what ++ "\")"
  | trailing what => "TrailingData(\"" ++ what ++ "\")"
  | cutShort => "MessageTooShort"
  | emptyList what => "IllegalEmptyList(\"" ++ what ++ "\")"
  | emptyValue => "IllegalEmptyValue"
  | neverSent what => "UnexpectedMessage(\"" ++ what ++ "\")"
  | cipherChange => "InvalidCcs"
  | statusType => "InvalidCertificateStatusType"
  | repeatedExtension n => "DuplicateExtension(" ++ toString n ++ ")"
  | lateExtension => "PreSharedKeyIsNotFinalExtension"
  | repeatedName => "InvalidServerName"
  | keyParameters => "InvalidDhParams"

/-- What a peer and the server may not have in common. -/
inductive Incompatibility
  /-- The peer insists on compression. -/
  | compression
  /-- It says nothing about ways to sign. -/
  | noSchemes
  /-- It speaks an old version. -/
  | oldVersion
  /-- It speaks other versions. -/
  | otherVersions
  /-- It knows other groups for keys. -/
  | groups
  /-- It knows other ciphers. -/
  | suites
  /-- It says nothing about shares of a key. -/
  | noShares
  /-- It knows other ways to sign. -/
  | schemes
  /-- It wants points of curves compressed. -/
  | points
  deriving DecidableEq, Repr

/-- The word for it. -/
def Incompatibility.text : Incompatibility → String
  | compression => "NullCompressionRequired"
  | noSchemes => "SignatureAlgorithmsExtensionRequired"
  | oldVersion => "Tls12NotOffered"
  | otherVersions => "Tls12NotOfferedOrEnabled"
  | groups => "NoKxGroupsInCommon"
  | suites => "NoCipherSuitesInCommon"
  | noShares => "KeyShareExtensionRequired"
  | schemes => "NoSignatureSchemesInCommon"
  | points => "UncompressedEcPointsRequired"

/-- What a peer must not do. -/
inductive Misbehaviour
  /-- A record of another kind inside a message. -/
  | interleaving
  /-- More warnings than are put up with. -/
  | manyWarnings
  /-- The beginning of another message behind one that has to be the last. -/
  | fragmentBehind
  /-- Something that is no name for a server. -/
  | serverName
  /-- Another server than in the first greeting. -/
  | otherServer
  /-- Ways to compress besides none. -/
  | compressions
  | repeatedShares
  | repeatedPackings
  /-- Keys offered without a way to use them. -/
  | noExchangeModes
  /-- Keys offered, and not a proof for each. -/
  | binders
  /-- A share that is no key. -/
  | share
  /-- A cipher whose digest is not that of the first choice. -/
  | otherDigest
  /-- Still no share of the kind that was asked for. -/
  | noShare
  /-- Early data with the second greeting. -/
  | earlyData
  /-- A change of ciphers that does not look like one. -/
  | cipherChange
  /-- One that does, once too often. -/
  | manyCipherChanges
  deriving DecidableEq, Repr

/-- The word for it. -/
def Misbehaviour.text : Misbehaviour → String
  | interleaving => "MessageInterleavedWithHandshakeMessage"
  | manyWarnings => "TooManyWarningAlertsReceived"
  | fragmentBehind => "KeyEpochWithPendingFragment"
  | serverName => "ServerNameMustContainOneHostName"
  | otherServer => "ServerNameDifferedOnRetry"
  | compressions => "OfferedIncorrectCompressions"
  | repeatedShares => "OfferedDuplicateKeyShares"
  | repeatedPackings => "OfferedDuplicateCertificateCompressions"
  | noExchangeModes => "MissingPskModesExtension"
  | binders => "PskExtensionWithMismatchedIdsAndBinders"
  | share => "InvalidKeyShare"
  | otherDigest => "HandshakeHashVariedAfterRetry"
  | noShare => "RefusedToFollowHelloRetryRequest"
  | earlyData => "EarlyDataAttemptedInSecondClientHello"
  | cipherChange | manyCipherChanges => "IllegalMiddleboxChangeCipherSpec"

/-- Why a peer is refused. -/
inductive Refusal
  | corrupt (c : Corruption)
  /-- A record of another kind than the one expected. -/
  | unexpectedRecord (kind expected : UInt8)
  /-- A message of another kind than the one expected. -/
  | unexpectedMessage (kind expected : UInt8)
  /-- The peer itself gives up. -/
  | alerted (description : UInt8)
  /-- A warning in the newest version, which has none. -/
  | warned (description : UInt8)
  /-- An alert that is neither a warning nor fatal. -/
  | oddAlert (description : UInt8)
  | incompatible (i : Incompatibility)
  | misbehaved (m : Misbehaviour)
  /-- A key that cannot sign in any of the ways that are left. -/
  | unfitKey
  /-- A sealed record that does not open. -/
  | sealBroken
  /-- A message that ought to prove what it does not. -/
  | proofBroken
  deriving DecidableEq, Repr

/-- The kinds of records. -/
def recordNames : List (UInt8 × String) :=
  [(0x14, "ChangeCipherSpec"), (0x16, "Handshake"), (0x17, "ApplicationData")]

/-- The kinds of messages. -/
def messageNames : List (UInt8 × String) :=
  [(0x00, "HelloRequest"), (0x01, "ClientHello"), (0x02, "ServerHello"),
    (0x04, "NewSessionTicket"), (0x05, "EndOfEarlyData"), (0x06, "HelloRetryRequest"),
    (0x08, "EncryptedExtensions"), (0x0b, "Certificate"), (0x0c, "ServerKeyExchange"),
    (0x0d, "CertificateRequest"), (0x0e, "ServerHelloDone"), (0x0f, "CertificateVerify"),
    (0x10, "ClientKeyExchange"), (0x14, "Finished"), (0x15, "CertificateURL"),
    (0x16, "CertificateStatus"), (0x18, "KeyUpdate"), (0x19, "CompressedCertificate"),
    (0xfe, "MessageHash")]

/-- What alerts say. -/
def alertNames : List (UInt8 × String) :=
  [(0x00, "CloseNotify"), (0x0a, "UnexpectedMessage"), (0x14, "BadRecordMac"),
    (0x15, "DecryptionFailed"), (0x16, "RecordOverflow"), (0x1e, "DecompressionFailure"),
    (0x28, "HandshakeFailure"), (0x29, "NoCertificate"), (0x2a, "BadCertificate"),
    (0x2b, "UnsupportedCertificate"), (0x2c, "CertificateRevoked"),
    (0x2d, "CertificateExpired"), (0x2e, "CertificateUnknown"), (0x2f, "IllegalParameter"),
    (0x30, "UnknownCA"), (0x31, "AccessDenied"), (0x32, "DecodeError"), (0x33, "DecryptError"),
    (0x3c, "ExportRestriction"), (0x46, "ProtocolVersion"), (0x47, "InsufficientSecurity"),
    (0x50, "InternalError"), (0x56, "InappropriateFallback"), (0x5a, "UserCanceled"),
    (0x64, "NoRenegotiation"), (0x6d, "MissingExtension"), (0x6e, "UnsupportedExtension"),
    (0x6f, "CertificateUnobtainable"), (0x70, "UnrecognisedName"),
    (0x71, "BadCertificateStatusResponse"), (0x72, "BadCertificateHashValue"),
    (0x73, "UnknownPSKIdentity"), (0x74, "CertificateRequired"),
    (0x78, "NoApplicationProtocol"), (0x79, "EncryptedClientHelloRequired")]

/-- A name, or the number itself **in hex digits** where there is none. -/
def nameOf (family : String) (names : List (UInt8 × String)) (n : UInt8) : String :=
  (names.lookup n).getD (family ++ "(0x" ++ String.ofList (Nat.toDigits 16 n.toNat) ++ ")")

namespace Refusal

/-- The text of a refusal. -/
def text : Refusal → String
  | corrupt c => "received corrupt message of type " ++ c.text
  | unexpectedRecord kind expected =>
    "received unexpected message: got " ++ nameOf "ContentType" recordNames kind
      ++ " when expecting " ++ nameOf "ContentType" recordNames expected
  | unexpectedMessage kind expected =>
    "received unexpected handshake message: got " ++ nameOf "HandshakeType" messageNames kind
      ++ " when expecting " ++ nameOf "HandshakeType" messageNames expected
  | alerted d | warned d | oddAlert d =>
    "received fatal alert: " ++ nameOf "AlertDescription" alertNames d
  | incompatible i => "peer is incompatible: " ++ i.text
  | misbehaved m => "peer misbehaved: " ++ m.text
  | unfitKey => "unexpected error: incompatible signing key"
  | sealBroken | proofBroken => "cannot decrypt peer's message"

/-- What a peer is told that has too little in common with the server. -/
def incompatibleAlert : Incompatibility → UInt8
  | .compression | .points => 0x2f
  | .noSchemes | .groups | .suites | .noShares | .schemes => 0x28
  | .oldVersion | .otherVersions => 0x46

/-- What a peer is told that did what it must not. -/
def misbehavedAlert? : Misbehaviour → Option UInt8
  | .interleaving | .manyWarnings | .otherServer | .manyCipherChanges => none
  | .fragmentBehind | .cipherChange => some 0x0a
  | .noExchangeModes => some 0x6d
  | _ => some 0x2f

/-- What the peer is told, **nothing in some cases**. -/
def alert? : Refusal → Option UInt8
  | corrupt .messageTooLong => none
  | corrupt .chainTooLong => some 0x2a
  | corrupt (.repeatedExtension _) | corrupt .lateExtension => some 0x2f
  | corrupt _ => some 0x32
  | unexpectedRecord _ _ | unexpectedMessage _ _ => some 0x0a
  | alerted _ | unfitKey => none
  | warned _ => some 0x32
  | oddAlert _ => some 0x2f
  | incompatible i => some (incompatibleAlert i)
  | misbehaved m => misbehavedAlert? m
  | sealBroken => some 0x14
  | proofBroken => some 0x33

/-- The bytes that the peer is sent. -/
def alert (r : Refusal) : Bytes :=
  match r.alert? with
  | some description => [0x15, 3, 3, 0, 2, 2, description]
  | none => []

end Refusal

end HttpEngine.Handshake
