import HttpEngine.Text.Bytes

/-!
# Bits of a packed stream

Numbers and bytes are packed **lowest bit first**.

* `bitsOf`, `takeNumber?`: a number of a fixed width, written and read.
* `pack`, `unpack`: bits as bytes, the last byte filled up with zeros, and back.
-/

namespace HttpEngine.Coding

/-- Bits in the order in which they are sent. -/
abbrev Bits := List Bool

/-- The low bits of a number, **lowest first**. -/
def bitsOf : Nat → Nat → Bits
  | 0, _ => []
  | width + 1, n => (n % 2 == 1) :: bitsOf width (n / 2)

/-- The number that bits stand for, lowest first. -/
def numberOf : Bits → Nat
  | [] => 0
  | b :: rest => b.toNat + 2 * numberOf rest

/-- A number of a width off the front, and the bits after it. -/
def takeNumber? (width : Nat) (bits : Bits) : Option (Nat × Bits) :=
  if width ≤ bits.length then some (numberOf (bits.take width), bits.drop width) else none

/-- Bits as bytes, **the last one filled up with zeros**. -/
def pack (bits : Bits) : Bytes :=
  match bits with
  | [] => []
  | b :: rest => UInt8.ofNat (numberOf (b :: rest.take 7)) :: pack (rest.drop 7)
termination_by bits.length
decreasing_by simp only [List.length_drop, List.length_cons]; omega

/-- Bytes as bits. -/
def unpack (bytes : Bytes) : Bits := bytes.flatMap fun b => bitsOf 8 b.toNat

@[simp] theorem length_bitsOf (width n : Nat) : (bitsOf width n).length = width := by
  induction width generalizing n with
  | zero => rfl
  | succ width ih => simp [bitsOf, ih]

theorem numberOf_bitsOf {width n : Nat} (h : n < 1 <<< width) : numberOf (bitsOf width n) = n := by
  induction width generalizing n with
  | zero => simp_all [bitsOf, numberOf]
  | succ width ih =>
    have hb : (n % 2 == 1).toNat = n % 2 := by
      rcases Nat.mod_two_eq_zero_or_one n with h2 | h2 <;> simp [h2]
    rw [bitsOf, numberOf, ih (by rw [Nat.shiftLeft_succ] at h; omega), hb]
    omega

/-- A number that was written is read back, **whatever follows**. -/
theorem takeNumber?_bitsOf {width n : Nat} (h : n < 1 <<< width) (rest : Bits) :
    takeNumber? width (bitsOf width n ++ rest) = some (n, rest) := by
  simp [takeNumber?, numberOf_bitsOf h]

end HttpEngine.Coding
