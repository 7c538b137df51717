import HttpEngine.Coding.Content
import HttpEngine.Serving.Connection

/-!
# Configurations

What a server is made from: where it listens and how it serves. Every part has a value of its
own when nothing is said about it.

* `Config.listenAt`: the address of the first listener is **replaced**.
-/

namespace HttpEngine

/-- What a listener secures its clients with. -/
structure Safeguard where
  /-- The path of the certificates. -/
  certificate : String
  /-- The path of the private key. -/
  key : String
  /-- Seconds that a handshake may take. -/
  patience : Nat := 10
  deriving DecidableEq, Repr

/-- Where clients are waited for. -/
structure Listening where
  address : String
  safeguard? : Option Safeguard := none
  deriving DecidableEq, Repr

/-- What a server is made from. -/
structure Config where
  listeners : List Listening := [⟨"127.0.0.1:8080", none⟩]
  settings : Settings := {}
  /-- The names of the codings that are offered, best first. -/
  codings : List String := ContentCoding.all.map (·.name)
  level : Nat := ContentCoding.defaultLevel
  /-- Where a request may ask for another method. -/
  override? : Option OverrideField := some .header
  deriving DecidableEq, Repr

/-- The configuration with the **first** listener at an address; if there is none, there is
one then. -/
def Config.listenAt (c : Config) (address : String) : Config :=
  match c.listeners with
  | [] => { c with listeners := [{ address }] }
  | first :: rest => { c with listeners := { first with address } :: rest }

end HttpEngine
