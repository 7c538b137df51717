import HttpEngine.Coding.Content
import HttpEngine.Proofs.Coding.Deflate

/-!
# Content codings undone

* `Gzip.decode?_encode`: data in the gzip format is read back.
* `ContentCoding.decode?_encode`: **so it is in every coding**, at any level.
-/

namespace HttpEngine

open Coding

/-- Behind a header with no optional parts is **what stands behind it**. -/
theorem Coding.Gzip.pastHeader?_header (level : Nat) (rest : Bytes) :
    pastHeader? (header level ++ rest) = some rest := rfl

/-- Data in the gzip format is **read back**. -/
theorem Coding.Gzip.decode?_encode (level : Nat) (data : Bytes) :
    decode? (encode level data) = some data := by
  have htrailer : (trailer data).take 8 = trailer data := rfl
  rw [decode?, encode, List.append_assoc, pastHeader?_header]
  simp only [Option.bind_eq_bind, Option.bind_some, Deflate.decode?_encode, htrailer, if_true]

/-- Data in a coding is **read back**, at any level. -/
theorem ContentCoding.decode?_encode (coding : ContentCoding) (level : Nat) (data : Bytes) :
    coding.decode? (coding.encode level data) = some data := by
  cases coding with
  | gzip => exact Gzip.decode?_encode level data
  | deflate =>
    have h := Deflate.decode?_encode level data []
    rw [List.append_nil] at h
    rw [decode?, encode, h]
    rfl

end HttpEngine
