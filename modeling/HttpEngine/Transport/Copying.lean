import HttpEngine.Transport.Link

/-!
# Copying a source onto a link

The bytes of a source go to a link in blocks. What a block holds is written **as soon as the
source has been read once**; only a full stream gives the block time to take in more.

* `Block.fill`: one more read of the source.
* `Link.copy`: all that a source has, block by block.
* `Link.copyCounted`: the same, with the number of bytes as the answer.
-/

namespace HttpEngine

/-- What is being copied. -/
structure Block where
  source : Script
  /-- Whether the source has ended. -/
  ended : Bool := false
  /-- How many bytes were read into the block. -/
  filled : Nat := 0
  /-- Those of them that are not written. -/
  unwritten : Bytes := []
  deriving Repr

namespace Block

/-- The most that is read into a block. -/
def size : Nat := 8192

/-- A bound on the reads that change the block. -/
def weight (b : Block) : Nat := b.source.weight + if b.ended then 0 else 1

/-- Read the source **once more**, if the block has room and the read completes. A read that
brings nothing ends the source. -/
def fill (b : Block) : Except IoError Block :=
  if b.ended || size ≤ b.filled then .ok b
  else
    match b.source.read (size - b.filled) with
    | none => .ok b
    | some (.error cause, _) => .error cause
    | some (.ok bytes, rest) =>
      .ok
        { source := rest
          ended := bytes.isEmpty
          filled := b.filled + bytes.length
          unwritten := b.unwritten ++ bytes }

/-- The block once all it holds is written. -/
def emptied (b : Block) : Block := { b with filled := 0, unwritten := [] }

/-- A read leaves the block as it is or makes it lighter. -/
theorem eq_or_weight_lt_of_fill {b c : Block} (h : b.fill = .ok c) :
    c = b ∨ c.weight < b.weight := by
  unfold fill at h
  split at h
  · cases h; exact .inl rfl
  · rename_i hroom
    simp only [Bool.or_eq_true, decide_eq_true_eq, not_or] at hroom
    split at h
    · cases h; exact .inl rfl
    · cases h
    · rename_i bytes rest hr
      cases h
      refine .inr ?_
      cases bytes with
      | nil =>
        have := Script.weight_read_le hr
        simp [weight, hroom.1]
        omega
      | cons c bytes =>
        have := Script.weight_read hr (by omega)
        simp [weight, hroom.1]
        omega

end Block

namespace Link

/-- Write what a block holds. Where the stream is full, the block takes in more; then it is
the answer, **once the stream has room again**. -/
def pushBlock (begun : Bool) (b : Block) : Act (Option { c : Block // c.weight < b.weight }) := do
  match ← offerAll begun b.unwritten with
  | [] => return none
  | left =>
    match { b with unwritten := left }.fill with
    | .error cause => throw (.failed cause)
    | .ok c =>
      if h : c.weight < b.weight then
        onWire Wire.awaitRoom
        return some ⟨c, h⟩
      else
        spill
        writeAll left
        return none

/-- Copy on from a block. -/
def copyFrom (begun : Bool) (block : Block) : Act Unit := do
  match _h : block.fill with
  | .error cause => throw (.failed cause)
  | .ok b =>
    match ← pushBlock begun b with
    | some ⟨c, _⟩ => copyFrom true c
    | none =>
      if b.ended then flush
      else if _u : b.unwritten = [] then onWire (Wire.await none)
      else copyFrom false b.emptied
termination_by (block.weight, block.unwritten.length)
decreasing_by
  · rename_i hc
    rcases Block.eq_or_weight_lt_of_fill _h with rfl | hlt
    · exact .left _ _ hc
    · exact .left _ _ (Nat.lt_trans hc hlt)
  · rcases Block.eq_or_weight_lt_of_fill _h with rfl | hlt
    · exact .right _ (by simpa [Block.emptied] using List.length_pos_iff.2 _u)
    · exact .left _ _ hlt

/-- Copy on from a block **and count what was copied**, given how much that was before it. -/
def copyCounted (begun : Bool) (block : Block) (total : Nat) : Act Nat := do
  match _h : block.fill with
  | .error cause => throw (.failed cause)
  | .ok b =>
    match ← pushBlock begun b with
    | some ⟨c, _⟩ => copyCounted true c total
    | none =>
      if b.ended then
        flush
        return total + b.filled
      else if _u : b.unwritten = [] then
        onWire (Wire.await none)
        return total
      else copyCounted false b.emptied (total + b.filled)
termination_by (block.weight, block.unwritten.length)
decreasing_by
  · rename_i hc
    rcases Block.eq_or_weight_lt_of_fill _h with rfl | hlt
    · exact .left _ _ hc
    · exact .left _ _ (Nat.lt_trans hc hlt)
  · rcases Block.eq_or_weight_lt_of_fill _h with rfl | hlt
    · exact .right _ (by simpa [Block.emptied] using List.length_pos_iff.2 _u)
    · exact .left _ _ hlt

/-- Write **all that a source has**, block by block. A source that never ends keeps the copy
waiting for ever. -/
def copy (s : Script) : Act Unit := copyFrom false { source := s }

end Link

end HttpEngine
