import HttpEngine.Error
import HttpEngine.Serving.Host

/-!
# Addresses to listen at

* `Endpoint.ofText`: host and port of an address.
* `Endpoint.claim`: what comes of listening there, some endpoints being taken.

Every host of 32 bits can be listened at; of the others only the one that stands for all. No
name but that of this machine is known.
-/

namespace HttpEngine

/-- A place to listen at. -/
structure Endpoint where
  host : Host
  /-- Zero for any that is free. -/
  port : Nat
  deriving DecidableEq, Repr

namespace Endpoint

/-- Why a name does not stand for a host. -/
def unknownHost (name : String) : IoError :=
  if name.toList.contains '\x00' then
    .device .invalidInput "file name contained an unexpected NUL byte"
  else
    let reason :=
      if name == "*" then "Name or service not known" else "Temporary failure in name resolution"
    .device .uncategorized ("failed to lookup address information: " ++ reason)

/-- Host and port, the port **behind the last colon**. -/
def ofText (text : String) : Except IoError Endpoint :=
  match Text.cutLast ':' text.toList with
  | none => .error (.device .invalidInput "invalid socket address")
  | some (host, port) =>
    match Text.natUpTo? Text.maxWord16 (String.ofList port) with
    | none => .error (.device .invalidInput "invalid port value")
    | some port =>
      match Host.ofName? (String.ofList host) with
      | some host => .ok { host, port }
      | none => .error (unknownHost (String.ofList host))

/-- The first port that **anyone** may listen at. -/
def firstOpenPort : Nat := 1024

/-- Why nobody can listen at a host, if so. -/
def refusal? : Host → Option IoError
  | .four _ => none
  | .six groups =>
    let first := groups.headD 0
    if 0xff00 ≤ first || (0xfe80 ≤ first && first < 0xfec0) then
      some (.device .invalidInput "Invalid argument (os error 22)")
    else if groups.all (· == 0) then none
    else some (.device .addrNotAvailable "Cannot assign requested address (os error 99)")

/-- Whether two endpoints exclude each other. -/
def clashes (a b : Endpoint) : Bool :=
  a.port != 0 && a.port == b.port && (a.host == b.host || a.host.isEverywhere || b.host.isEverywhere)

/-- Listen at an endpoint while others are **taken**. -/
def claim (taken : List Endpoint) (e : Endpoint) : Except IoError Endpoint :=
  if 0 < e.port ∧ e.port < firstOpenPort then
    .error (.device .permissionDenied "Permission denied (os error 13)")
  else
    match refusal? e.host with
    | some cause => .error cause
    | none =>
      if taken.any (clashes e) then
        .error (.device .addrInUse "Address already in use (os error 98)")
      else .ok e

end Endpoint

end HttpEngine
