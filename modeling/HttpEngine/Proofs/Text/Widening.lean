import HttpEngine.Proofs.Text.Form
import HttpEngine.Proofs.Text.FormCode

/-!
# Text that comes in as bytes and goes out encoded

What comes in is read one character for each byte, and texts go out as UTF-8. A byte below 128 goes
out as it came, and **one from 128 on goes out as two**.

* `widened`: bytes as they go out.
* `utf8_latin1`: that they do.
* `widened_of_low`, `length_widened`: which bytes go out as they came, and how many more there are
  of the others.
* `latin1_utf8`, `exists_lead`: a text that comes in again, and what is not lost of one that does
  not come in as it was.
-/

namespace HttpEngine.Text

/-- A byte **as its character is encoded**. -/
def widen (b : UInt8) : Bytes := if b < 128 then [b] else [192 + b / 64, 128 + b % 64]

/-- Bytes that were read one character each and then encoded. -/
def widened (bytes : Bytes) : Bytes := bytes.flatMap widen

variable {bytes : Bytes} {b : UInt8}

theorem encodeChar_latin1Char (b : UInt8) : String.utf8EncodeChar (latin1Char b) = widen b :=
  forall_byte (P := fun b => String.utf8EncodeChar (latin1Char b) = widen b) (by decide +kernel) b

theorem utf8_latin1 (bytes : Bytes) : utf8 (latin1 bytes) = widened bytes := by
  rw [utf8, latin1, String.toList_ofList, List.flatMap_map, widened]
  simp only [encodeChar_latin1Char]

theorem widen_of_low (hb : b.toNat < 128) : widen b = [b] :=
  if_pos (UInt8.lt_iff_toNat_lt.2 hb)

theorem widened_of_low (h : Low bytes) : widened bytes = bytes := by
  induction bytes with
  | nil => rfl
  | cons b bytes ih =>
    obtain ⟨hb, hbytes⟩ := List.forall_mem_cons.1 h
    rw [widened, List.flatMap_cons, widen_of_low hb]
    exact congrArg (b :: ·) (ih hbytes)

/-- Of each byte from 128 on there is **one byte more**. -/
theorem length_widened (bytes : Bytes) :
    (widened bytes).length = bytes.length + bytes.countP (128 ≤ ·.toNat) := by
  induction bytes with
  | nil => rfl
  | cons b bytes ih =>
    rw [widened, List.flatMap_cons, List.length_append, ← widened, ih, List.length_cons,
      List.countP_cons]
    by_cases hb : b.toNat < 128
    · have hnot : ¬ 128 ≤ b.toNat := by omega
      simp only [widen_of_low hb, List.length_singleton, hnot, decide_false, Bool.false_eq_true,
        if_false]
      omega
    · have hhigh : 128 ≤ b.toNat := by omega
      have hnot : ¬ b < 128 := fun h => hb (UInt8.lt_iff_toNat_lt.1 h)
      simp only [widen, hnot, if_false, hhigh, decide_true, if_true, List.length_cons,
        List.length_nil]
      omega

theorem low_iff_countP : Low bytes ↔ bytes.countP (128 ≤ ·.toNat) = 0 := by
  rw [List.countP_eq_zero]
  simp only [Low, decide_eq_true_eq, Nat.not_le]

/-! ### Texts that come in again -/

/-- A text of characters **below 128**. -/
def LowText (s : String) : Prop := ∀ c ∈ s.toList, c.toNat < 128

theorem lowText_latin1 (h : Low bytes) : LowText (latin1 bytes) := by
  intro c hc
  rw [latin1, String.toList_ofList] at hc
  obtain ⟨b, hb, rfl⟩ := List.mem_map.1 hc
  rw [toNat_latin1Char]
  exact h b hb

/-- A text of characters below 128 that went out **comes in again**. -/
theorem latin1_utf8 {s : String} (h : LowText s) : latin1 (utf8 s) = s := by
  have hchars : (s.toList.flatMap String.utf8EncodeChar).map latin1Char = s.toList := by
    unfold LowText at h
    generalize s.toList = cs at h ⊢
    induction cs with
    | nil => rfl
    | cons c cs ih =>
      obtain ⟨hc, hcs⟩ := List.forall_mem_cons.1 h
      rw [List.flatMap_cons, encodeChar_of_low hc, List.singleton_append, List.map_cons, ih hcs,
        latin1Char_ofNat (by omega)]
  rw [latin1, utf8, hchars, String.ofList_toList]

/-- A text with any other character goes out with **a byte from 192 on** among others. -/
theorem exists_lead {s : String} (h : ¬ LowText s) : ∃ b ∈ utf8 s, 192 ≤ b.toNat := by
  simp only [LowText, not_forall] at h
  obtain ⟨c, hc, hhigh⟩ := h
  obtain ⟨b, rest, he, hb⟩ := Utf8.encodeChar_of_high (Nat.le_of_not_lt hhigh)
  exact ⟨b, List.mem_flatMap.2 ⟨c, hc, by rw [he]; exact List.mem_cons_self⟩, hb⟩

theorem toNat_toLower_lt_iff (c : Char) : c.toLower.toNat < 128 ↔ c.toNat < 128 := by
  unfold Char.toLower
  split
  · rename_i hu
    have hZ : c.toNat ≤ 90 := UInt32.le_iff_toNat_le.1 hu.2
    have hlow : (c.val + ('a'.val - 'A'.val)).toNat = c.toNat + 32 := by
      rw [UInt32.toNat_add, Nat.mod_eq_of_lt]
      · rfl
      · exact Nat.lt_of_le_of_lt (Nat.add_le_add_right hZ _) (by decide)
    show (c.val + ('a'.val - 'A'.val)).toNat < 128 ↔ _
    omega
  · exact Iff.rfl

/-- A name of characters below 128 **differs from every other** in ASCII case only. -/
theorem lowText_of_sameName {s t : String} (h : sameName s t = true) (ht : LowText t) :
    LowText s := by
  intro c hc
  have hmem : c.toLower ∈ folded t := by
    rw [← sameName_iff.1 h]
    exact List.mem_map_of_mem hc
  obtain ⟨d, hd, he⟩ := List.mem_map.1 hmem
  rw [← toNat_toLower_lt_iff, ← he, toNat_toLower_lt_iff]
  exact ht d hd

end HttpEngine.Text
