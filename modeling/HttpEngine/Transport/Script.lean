import HttpEngine.Error
import HttpEngine.Text.Bytes

/-!
# Scripted sources

A source of bytes that says in advance what each read will meet: some bytes, nothing, or a
failure. After the last piece reads yield nothing, or never complete.

* `Script.read`: one read.
* `Script.contents`: the bytes before the first empty read, and how they end.
-/

namespace HttpEngine

/-- What a read can meet. -/
inductive Piece
  /-- Bytes that arrive together; none at all is an **empty read**. -/
  | data (bytes : Bytes)
  /-- A read that fails. -/
  | failure (cause : IoError)
  deriving Repr

/-- A source of bytes. -/
structure Script where
  pieces : List Piece := []
  /-- After the last piece reads **never complete**. -/
  hangs : Bool := false
  deriving Repr

namespace Script

/-- The bytes still to come. -/
def pending : List Piece → Nat
  | [] => 0
  | .data bytes :: rest => bytes.length + pending rest
  | .failure _ :: rest => pending rest

/-- A bound on the reads that change the source. -/
def weight (s : Script) : Nat := pending s.pieces + s.pieces.length

/-- One read of **at most `room` bytes** of the front piece; what does not fit stays in
front. Nothing comes of a read that never completes. -/
def read (room : Nat) (s : Script) : Option (Except IoError Bytes × Script) :=
  match s.pieces with
  | [] => if s.hangs then none else some (.ok [], s)
  | .failure cause :: rest => some (.error cause, { s with pieces := rest })
  | .data bytes :: rest =>
    if room < bytes.length then
      some (.ok (bytes.take room), { s with pieces := .data (bytes.drop room) :: rest })
    else some (.ok bytes, { s with pieces := rest })

/-- A read with room that brings bytes makes the source lighter. -/
theorem weight_read {room : Nat} {s s' : Script} {b : UInt8} {bytes : Bytes}
    (h : s.read room = some (.ok (b :: bytes), s')) (hroom : 0 < room) :
    s'.weight < s.weight := by
  unfold read at h
  split at h
  · split at h <;> simp at h
  · simp at h
  · rename_i front rest hp
    split at h
    · rename_i hlt
      simp only [Option.some.injEq, Prod.mk.injEq, Except.ok.injEq] at h
      obtain ⟨-, rfl⟩ := h
      simp only [weight, hp, pending, List.length_drop, List.length_cons]
      omega
    · simp only [Option.some.injEq, Prod.mk.injEq, Except.ok.injEq] at h
      obtain ⟨rfl, rfl⟩ := h
      simp only [weight, hp, pending, List.length_cons]
      omega

/-- No read makes the source heavier. -/
theorem weight_read_le {room : Nat} {s s' : Script} {answer : Except IoError Bytes}
    (h : s.read room = some (answer, s')) : s'.weight ≤ s.weight := by
  unfold read at h
  split at h
  · split at h
    · cases h
    · cases h; exact Nat.le_refl _
  · rename_i cause rest hp
    cases h
    simp only [weight, hp, pending, List.length_cons]
    omega
  · rename_i data rest hp
    split at h <;> cases h <;>
      simp only [weight, hp, pending, List.length_drop, List.length_cons] <;> omega

end Script

/-- How the contents of a source end. -/
inductive Ending
  /-- With an empty read. -/
  | ended
  /-- With a failure. -/
  | failed (cause : IoError)
  /-- Not at all: the last read never completes. -/
  | never
  deriving DecidableEq, Repr

/-- The bytes **before the first empty read**, and how they end. -/
def Script.contents (s : Script) : Bytes × Ending := go s.pieces
where
  /-- The contents of the pieces that are left. -/
  go : List Piece → Bytes × Ending
    | [] => ([], if s.hangs then .never else .ended)
    | .failure cause :: _ => ([], .failed cause)
    | .data [] :: _ => ([], .ended)
    | .data (b :: bytes) :: rest => (b :: bytes ++ (go rest).1, (go rest).2)

/-- Collect a source by reading until a read is empty, with **room that doubles** as the
bytes come in. -/
def Script.collect (s : Script) (soFar : Bytes := []) : Bytes × Ending :=
  match _h : s.read (max 32 soFar.length) with
  | none => (soFar, .never)
  | some (.error cause, _) => (soFar, .failed cause)
  | some (.ok [], _) => (soFar, .ended)
  | some (.ok (b :: bytes), rest) => rest.collect (soFar ++ b :: bytes)
termination_by s.weight
decreasing_by exact weight_read ‹_› (by omega)

end HttpEngine
