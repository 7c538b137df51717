import HttpEngine.Coding.Bits
import Mathlib.Tactic.Ring

/-!
# Bits packed into bytes and back

* `unpack_pack`: packed bits are read back **in front of fewer than eight zeros**.
* `pack_unpack`: bytes are read back.
* `takeNumber?_word`: the number in two bytes.
-/

namespace HttpEngine.Coding

/-! ### Numbers -/

theorem numberOf_lt (bits : Bits) : numberOf bits < 2 ^ bits.length := by
  induction bits with
  | nil => exact Nat.one_pos
  | cons b bits ih =>
    have hb : b.toNat ≤ 1 := b.toNat_le
    rw [numberOf, List.length_cons, Nat.pow_succ]
    omega

theorem numberOf_append (bits more : Bits) :
    numberOf (bits ++ more) = numberOf bits + 2 ^ bits.length * numberOf more := by
  induction bits with
  | nil => simp [numberOf]
  | cons b bits ih =>
    rw [List.cons_append, numberOf, numberOf, ih, List.length_cons, Nat.pow_succ]
    ring

theorem bitsOf_zero (width : Nat) : bitsOf width 0 = List.replicate width false := by
  induction width with
  | zero => rfl
  | succ width ih =>
    rw [bitsOf, ih]
    rfl

/-- The bits of the number that bits stand for are **those bits, and zeros** up to the width. -/
theorem bitsOf_numberOf {width : Nat} {bits : Bits} (h : bits.length ≤ width) :
    bitsOf width (numberOf bits) = bits ++ List.replicate (width - bits.length) false := by
  induction bits generalizing width with
  | nil => exact bitsOf_zero width
  | cons b bits ih =>
    cases width with
    | zero => exact absurd h (Nat.not_succ_le_zero _)
    | succ width =>
      have hlow : (numberOf (b :: bits) % 2 == 1) = b := by
        rw [numberOf]
        cases b <;> simp [Nat.add_mul_mod_self_left]
      have hhigh : numberOf (b :: bits) / 2 = numberOf bits := by
        have hb : b.toNat ≤ 1 := b.toNat_le
        rw [numberOf]
        omega
      rw [bitsOf, hlow, hhigh, ih (Nat.le_of_succ_le_succ h), List.length_cons,
        Nat.add_sub_add_right, List.cons_append]

/-! ### Bytes -/

theorem unpack_cons (b : UInt8) (bytes : Bytes) :
    unpack (b :: bytes) = bitsOf 8 b.toNat ++ unpack bytes := List.flatMap_cons

theorem unpack_append (bytes more : Bytes) : unpack (bytes ++ more) = unpack bytes ++ unpack more :=
  List.flatMap_append

theorem length_unpack (bytes : Bytes) : (unpack bytes).length = 8 * bytes.length := by
  induction bytes with
  | nil => rfl
  | cons b bytes ih =>
    rw [unpack_cons, List.length_append, length_bitsOf, ih, List.length_cons]
    omega

/-- Packed bits are read back **in front of fewer than eight zeros**. -/
theorem unpack_pack (bits : Bits) :
    ∃ n < 8, unpack (pack bits) = bits ++ List.replicate n false := by
  fun_induction pack bits with
  | case1 => exact ⟨0, by decide, rfl⟩
  | case2 b rest ih =>
    have hlength : (b :: rest.take 7).length ≤ 8 := by
      rw [List.length_cons, List.length_take]
      omega
    have hlt : numberOf (b :: rest.take 7) < 256 :=
      Nat.lt_of_lt_of_le (numberOf_lt _) (Nat.pow_le_pow_right (by decide) hlength)
    have hbyte : (UInt8.ofNat (numberOf (b :: rest.take 7))).toNat = numberOf (b :: rest.take 7) := by
      rw [UInt8.toNat_ofNat']
      exact Nat.mod_eq_of_lt hlt
    rw [unpack_cons, hbyte, bitsOf_numberOf hlength]
    obtain ⟨n, hn, hrest⟩ := ih
    by_cases hshort : rest.length < 7
    · -- the last byte: nothing is behind it
      have hdrop : rest.drop 7 = [] := List.drop_eq_nil_iff.2 (Nat.le_of_lt hshort)
      have htake : rest.take 7 = rest := List.take_of_length_le (Nat.le_of_lt hshort)
      rw [hdrop] at hrest ⊢
      rw [htake]
      refine ⟨8 - (b :: rest).length, by rw [List.length_cons]; omega, ?_⟩
      rw [pack, unpack, List.flatMap_nil, List.append_nil]
    · refine ⟨n, hn, ?_⟩
      have hfull : (b :: rest.take 7).length = 8 := by
        rw [List.length_cons, List.length_take]
        omega
      rw [hrest, hfull, Nat.sub_self, List.replicate_zero, List.append_nil, ← List.append_assoc,
        List.cons_append, List.take_append_drop]

/-- Bytes are **read back from their bits**. -/
theorem pack_unpack (bytes : Bytes) : pack (unpack bytes) = bytes := by
  induction bytes with
  | nil => rw [unpack, List.flatMap_nil, pack]
  | cons b bytes ih =>
    have hlt : b.toNat < 1 <<< 8 := b.toNat_lt
    have hbits : ∃ first more, bitsOf 8 b.toNat = first :: more ∧ more.length = 7 :=
      ⟨_, _, rfl, length_bitsOf 7 _⟩
    obtain ⟨first, more, he, hmore⟩ := hbits
    have hnumber : numberOf (first :: more) = b.toNat := by
      rw [← he, numberOf_bitsOf hlt]
    rw [unpack_cons, he, List.cons_append, pack, ← hmore, List.take_left, List.drop_left, hnumber,
      ih, UInt8.ofNat_toNat]

/-! ### Numbers in bytes -/

theorem takeNumber?_append {width : Nat} {bits : Bits} (h : bits.length = width) (rest : Bits) :
    takeNumber? width (bits ++ rest) = some (numberOf bits, rest) := by
  subst h
  rw [takeNumber?, if_pos (by rw [List.length_append]; exact Nat.le_add_right _ _), List.take_left,
    List.drop_left]

/-- The number in **two bytes**, lowest byte first. -/
theorem takeNumber?_word (low high : UInt8) (bytes : Bytes) :
    takeNumber? 16 (unpack (low :: high :: bytes))
      = some (low.toNat + 256 * high.toNat, unpack bytes) := by
  have hlow : low.toNat < 1 <<< 8 := low.toNat_lt
  have hhigh : high.toNat < 1 <<< 8 := high.toNat_lt
  rw [unpack_cons, unpack_cons, ← List.append_assoc, takeNumber?_append (by simp),
    numberOf_append, numberOf_bitsOf hlow, numberOf_bitsOf hhigh, length_bitsOf]
  rfl

end HttpEngine.Coding
