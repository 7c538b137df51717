import HttpEngine.Error
import HttpEngine.Security.Pem

/-!
# Certificates and keys

What a server shows to its clients: a chain of certificates and the private key for it, both
read from armoured text.

* `Credential.ofPem`: the two, or what is wrong with them; **the certificates are looked at
  first**.
* `Credential.fits`: whether they belong together.
-/

namespace HttpEngine

/-- A chain of certificates with its private key. -/
structure Credential where
  certificates : List Bytes
  key : Pem.Section
  deriving Repr

namespace Credential

/-- The certificates in a text; there has to be one. -/
def certificatesOf (text : Bytes) : Except Error (List Bytes) :=
  match Pem.sections text with
  | .error _ => .error (.certificate "failed to parse certificate chain")
  | .ok found =>
    match (found.filter (·.kind = .certificate)).map (·.contents) with
    | [] => .error (.certificate "no certificate found")
    | c :: more => .ok (c :: more)

/-- The first private key in a text; there has to be one. -/
def keyOf (text : Bytes) : Except Error Pem.Section :=
  match Pem.first? (·.kind.isPrivateKey) text with
  | .error _ => .error (.certificate "failed to parse private key")
  | .ok none => .error (.certificate "no private key found")
  | .ok (some key) => .ok key

/-- Whether one text stands somewhere in another. -/
def standsIn (part : Bytes) : Bytes → Bool
  | [] => part.isEmpty
  | b :: rest => part.isPrefixOf (b :: rest) || standsIn part rest

/-- What stands behind the head of a structure, a mark and a length. **A length above 127** says
in how many bytes it comes. -/
def behindHead (structured : Bytes) : Bytes :=
  match structured.drop 1 with
  | [] => []
  | n :: rest => if n < 0x80 then rest else rest.drop (n.toNat - 0x80)

/-- What a key on a curve begins with, its version, by the label it has. -/
def keyVersion? : Pem.Kind → Option Bytes
  | .privateKey => some [2, 1, 0]
  | .ecPrivateKey => some [2, 1, 1]
  | _ => none

/-- The bytes of a point on the curve, which a key ends with. -/
def pointLength : Nat := 65

/-- Whether the key is **what its label says**, and the first certificate holds the point that it
ends with. -/
def fits (c : Credential) : Bool :=
  let contents := c.key.contents
  (keyVersion? c.key.kind).any (·.isPrefixOf (behindHead contents))
    && pointLength ≤ contents.length
    && c.certificates.head?.any (standsIn (contents.drop (contents.length - pointLength)))

/-- A key that is not the one of the certificate. -/
def mismatch : Error := .certificate "keys may not be consistent: KeyMismatch"

/-- Certificates and key **from armoured text**. -/
def ofPem (certificate key : Bytes) : Except Error Credential := do
  let certificates ← certificatesOf certificate
  let key ← keyOf key
  let c : Credential := { certificates, key }
  if c.fits then return c else .error mismatch

end Credential

end HttpEngine
