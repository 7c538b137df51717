import HttpEngine.Serving.Handshake.Refusal

/-!
# Records

What a peer sends on a secured stream comes in records, and each has a header of five bytes:
its kind, a version, and its length.

* `Record.next`: the record at the front of some bytes.
-/

namespace HttpEngine.Handshake

/-- A piece of what a peer sends. -/
structure Record where
  kind : UInt8
  payload : Bytes
  deriving DecidableEq, Repr

/-- What stands at the front of some bytes. -/
inductive Front
  | record (r : Record) (rest : Bytes)
  /-- Not all of a record yet. -/
  | unfinished
  | corrupt (c : Corruption)
  deriving Repr

namespace Record

/-- A change of ciphers. -/
def cipherChange : UInt8 := 0x14

/-- A warning, or the end of all. -/
def alert : UInt8 := 0x15

/-- Part of a handshake. -/
def handshake : UInt8 := 0x16

/-- Application data, of which there may be none. -/
def applicationData : UInt8 := 0x17

/-- Whether a byte is a known kind. -/
def isKind (b : UInt8) : Bool := 0x14 ≤ b && b ≤ 0x18

/-- Whether two bytes are a version of the protocol, or one of its known relatives. -/
def isVersion (high low : UInt8) : Bool :=
  high == 3 || (high == 0 && low == 2) || (high == 0xfe && (low == 0xff || low == 0xfd || low == 0xfc))

/-- Payloads must be shorter than this. -/
def payloadBound : Nat := 16384 + 2048

/-- **The record at the front.** Each part of the header is looked at as soon as it is there. -/
def next (bytes : Bytes) : Front :=
  match bytes with
  | [] => .unfinished
  | kind :: rest =>
    if !isKind kind then .corrupt .contentType
    else
      match rest with
      | high :: low :: rest =>
        if !isVersion high low then .corrupt .version
        else
          match rest with
          | a :: b :: payload =>
            let length := a.toNat * 256 + b.toNat
            if length = 0 ∧ kind ≠ applicationData then .corrupt .emptyPayload
            else if payloadBound ≤ length then .corrupt .recordTooLong
            else if length ≤ payload.length then
              .record ⟨kind, payload.take length⟩ (payload.drop length)
            else .unfinished
          | _ => .unfinished
      | _ => .unfinished

/-- **A record takes away more bytes** than it carries. -/
theorem length_next {bytes rest : Bytes} {r : Record} (h : next bytes = .record r rest) :
    r.payload.length + rest.length < bytes.length := by
  unfold next at h
  split at h
  · cases h
  · split at h
    · cases h
    · split at h
      · split at h
        · cases h
        · split at h
          · simp only at h
            split at h
            · cases h
            · split at h
              · cases h
              · split at h
                · cases h
                  simp only [List.length_take, List.length_drop, List.length_cons]
                  omega
                · cases h
          · cases h
      · cases h

end Record

end HttpEngine.Handshake
