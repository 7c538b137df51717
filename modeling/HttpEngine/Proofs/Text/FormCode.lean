import HttpEngine.Proofs.Text.Latin1
import HttpEngine.Proofs.Text.Utf8
import HttpEngine.Text.Form

/-!
# Form components written and read back

What a form component is, apart from how it is computed: a relation for how bytes are written in
one, and a relation for the bytes that one stands for.

* `formWritten_formEncode`: a text is written **as the relation for writing says**.
* `formDecode_eq_iff`: a component is decoded to the bytes it stands for, and to no others.
* `FormWritten.formRead`: what is written stands for **the bytes it was written for**.
-/

namespace HttpEngine.Text

/-! ### The two relations -/

/-- A character that stands for itself: an ASCII letter or digit, `*`, `-`, `.` or `_`. -/
def FormPlain (c : Char) : Prop := c.isAlphanum = true ∨ c ∈ ['*', '-', '.', '_']

instance (c : Char) : Decidable (FormPlain c) :=
  inferInstanceAs (Decidable (c.isAlphanum = true ∨ c ∈ ['*', '-', '.', '_']))

/-- The hex digit of a number below sixteen, **a capital** from ten on. -/
def capitalHex (n : Nat) : Char := n.digitChar.toUpper

/-- How bytes are **written in a form**. -/
inductive FormWritten : Bytes → List Char → Prop
  | nil : FormWritten [] []
  /-- A plain character stands for its own byte. -/
  | plain {b : UInt8} {bytes : Bytes} {cs : List Char} (h : FormPlain (latin1Char b))
      (rest : FormWritten bytes cs) : FormWritten (b :: bytes) (latin1Char b :: cs)
  /-- A space is a plus sign. -/
  | space {bytes : Bytes} {cs : List Char} (rest : FormWritten bytes cs) :
      FormWritten (32 :: bytes) ('+' :: cs)
  /-- Every other byte is an escape of two hex digits. -/
  | escape {b : UInt8} {bytes : Bytes} {cs : List Char} (h : ¬ FormPlain (latin1Char b))
      (space : b ≠ 32) (rest : FormWritten bytes cs) :
      FormWritten (b :: bytes)
        ('%' :: capitalHex (b.toNat / 16) :: capitalHex (b.toNat % 16) :: cs)

/-- The bytes that a form component **stands for**. -/
inductive FormRead : Bytes → Bytes → Prop
  | nil : FormRead [] []
  /-- A plus sign stands for a space. -/
  | plus {component bytes : Bytes} (rest : FormRead component bytes) :
      FormRead (43 :: component) (32 :: bytes)
  /-- A percent sign and two hex digits, in either case, stand for one byte. -/
  | escape {high low h l : UInt8} {component bytes : Bytes} (hh : hexValue? high = some h)
      (hl : hexValue? low = some l) (rest : FormRead component bytes) :
      FormRead (37 :: high :: low :: component) ((h * 16 + l) :: bytes)
  /-- A percent sign that two hex digits **do not follow** stands for itself. -/
  | stray {component bytes : Bytes}
      (h : ∀ high low more, component = high :: low :: more →
        hexValue? high = none ∨ hexValue? low = none)
      (rest : FormRead component bytes) : FormRead (37 :: component) (37 :: bytes)
  /-- Every other byte stands for itself. -/
  | other {b : UInt8} {component bytes : Bytes} (plus : b ≠ 43) (percent : b ≠ 37)
      (rest : FormRead component bytes) : FormRead (b :: component) (b :: bytes)

/-! ### Decoding -/

variable {b high low h l : UInt8} {component bytes rest : Bytes} {cs : List Char} {s : String}

theorem percentDecode_of_ne (hb : b ≠ 37) (rest : Bytes) :
    percentDecode (b :: rest) = b :: percentDecode rest := by
  have hnone : ∀ x y, escape? b x y = none := by
    intro x y
    rw [escape?, if_neg (by simpa using hb)]
  match rest with
  | [] => rfl
  | [_] => rfl
  | x :: y :: rest => rw [percentDecode, hnone]

theorem percentDecode_of_stray
    (hstray : ∀ high low more, rest = high :: low :: more →
      hexValue? high = none ∨ hexValue? low = none) :
    percentDecode (37 :: rest) = 37 :: percentDecode rest := by
  match rest with
  | [] => rfl
  | [_] => rfl
  | x :: y :: more =>
    have hnone : escape? 37 x y = none := by
      rcases hstray x y more rfl with hx | hy
      · simp only [escape?, beq_self_eq_true, if_true, hx]
      · simp only [escape?, beq_self_eq_true, if_true, hy]
        cases hexValue? x <;> rfl
    rw [percentDecode, hnone]

theorem percentDecode_escape (hh : hexValue? high = some h) (hl : hexValue? low = some l)
    (rest : Bytes) :
    percentDecode (37 :: high :: low :: rest) = (h * 16 + l) :: percentDecode rest := by
  rw [percentDecode, escape?, hh, hl]
  rfl

/-- A plus sign is **no hex digit**, and neither is a space. -/
theorem hexValue?_unplus (b : UInt8) :
    hexValue? (if b == 43 then 32 else b) = hexValue? b := by
  by_cases hb : b = 43
  · subst hb
    rfl
  · rw [if_neg (by simpa using hb)]

theorem formDecode_plus (rest : Bytes) : formDecode (43 :: rest) = 32 :: formDecode rest :=
  percentDecode_of_ne (by decide) _

theorem formDecode_other (plus : b ≠ 43) (percent : b ≠ 37) (rest : Bytes) :
    formDecode (b :: rest) = b :: formDecode rest := by
  have hb : (b == 43) = false := beq_eq_false_iff_ne.2 plus
  simp only [formDecode, List.map_cons, hb, Bool.false_eq_true, if_false]
  exact percentDecode_of_ne percent _

theorem formDecode_escape (hh : hexValue? high = some h) (hl : hexValue? low = some l)
    (rest : Bytes) : formDecode (37 :: high :: low :: rest) = (h * 16 + l) :: formDecode rest := by
  have hpercent : ((37 : UInt8) == 43) = false := rfl
  simp only [formDecode, List.map_cons, hpercent, Bool.false_eq_true, if_false]
  refine percentDecode_escape ?_ ?_ _
  · rw [hexValue?_unplus, hh]
  · rw [hexValue?_unplus, hl]

theorem formDecode_stray
    (hstray : ∀ high low more, rest = high :: low :: more →
      hexValue? high = none ∨ hexValue? low = none) :
    formDecode (37 :: rest) = 37 :: formDecode rest := by
  refine percentDecode_of_stray fun high low more he => ?_
  match rest with
  | [] => cases he
  | [_] => cases he
  | x :: y :: rest =>
    obtain ⟨hx, he⟩ := List.cons.inj he
    rw [← hx, ← (List.cons.inj he).1, hexValue?_unplus, hexValue?_unplus]
    exact hstray x y rest rfl

theorem FormRead.formDecode_eq (hread : FormRead component bytes) :
    formDecode component = bytes := by
  induction hread with
  | nil => rfl
  | plus _ ih => rw [formDecode_plus, ih]
  | escape hh hl _ ih => rw [formDecode_escape hh hl, ih]
  | stray hstray _ ih => rw [formDecode_stray hstray, ih]
  | other plus percent _ ih => rw [formDecode_other plus percent, ih]

/-- Every component stands for **some bytes**. -/
theorem exists_formRead (component : Bytes) : ∃ bytes, FormRead component bytes := by
  induction hn : component.length using Nat.strong_induction_on generalizing component with
  | h n ih =>
    cases component with
    | nil => exact ⟨[], .nil⟩
    | cons b rest =>
      rw [List.length_cons] at hn
      obtain ⟨bytes, hread⟩ := ih rest.length (by omega) rest rfl
      by_cases hplus : b = 43
      · subst hplus
        exact ⟨_, .plus hread⟩
      · by_cases hpercent : b = 37
        · subst hpercent
          by_cases hescape : ∃ high low more h l, rest = high :: low :: more ∧
              hexValue? high = some h ∧ hexValue? low = some l
          · obtain ⟨high, low, more, h, l, rfl, hh, hl⟩ := hescape
            rw [List.length_cons, List.length_cons] at hn
            obtain ⟨bytes, hread⟩ := ih more.length (by omega) more rfl
            exact ⟨_, .escape hh hl hread⟩
          · refine ⟨_, .stray (fun high low more he => ?_) hread⟩
            cases hh : hexValue? high with
            | none => exact .inl rfl
            | some h =>
              cases hl : hexValue? low with
              | none => exact .inr rfl
              | some l => exact absurd ⟨high, low, more, h, l, he, hh, hl⟩ hescape
        · exact ⟨_, .other hplus hpercent hread⟩

/-- A component is decoded to the bytes that it stands for, **and to no others**. -/
theorem formDecode_eq_iff : formDecode component = bytes ↔ FormRead component bytes := by
  constructor
  · rintro rfl
    obtain ⟨bytes, hread⟩ := exists_formRead component
    rwa [hread.formDecode_eq]
  · exact FormRead.formDecode_eq

/-! ### Encoding -/

/-- What holds of **each number below 256** holds of every byte. -/
theorem forall_byte {P : UInt8 → Prop} (h : ∀ n : Fin 256, P (UInt8.ofFin n)) (b : UInt8) : P b :=
  h b.toFin

theorem isFormPlain_iff : isFormPlain b = true ↔ FormPlain (latin1Char b) :=
  forall_byte (P := fun b => isFormPlain b = true ↔ FormPlain (latin1Char b))
    (by decide +kernel) b

theorem percentEscape_chars (b : UInt8) : (percentEscape b).map latin1Char
    = ['%', capitalHex (b.toNat / 16), capitalHex (b.toNat % 16)] :=
  forall_byte (P := fun b => (percentEscape b).map latin1Char
    = ['%', capitalHex (b.toNat / 16), capitalHex (b.toNat % 16)]) (by decide +kernel) b

/-- The capital digits of a byte are read as **its two halves**. -/
theorem hexValue?_capitalHex (b : UInt8) :
    hexValue? (UInt8.ofNat (capitalHex (b.toNat / 16)).toNat) = some (b / 16) ∧
      hexValue? (UInt8.ofNat (capitalHex (b.toNat % 16)).toNat) = some (b % 16) ∧
        b / 16 * 16 + b % 16 = b :=
  forall_byte (P := fun b =>
    hexValue? (UInt8.ofNat (capitalHex (b.toNat / 16)).toNat) = some (b / 16) ∧
      hexValue? (UInt8.ofNat (capitalHex (b.toNat % 16)).toNat) = some (b % 16) ∧
        b / 16 * 16 + b % 16 = b) (by decide +kernel) b

theorem FormWritten.byte (hrest : FormWritten bytes cs) (b : UInt8) :
    FormWritten (b :: bytes) ((formByte b).map latin1Char ++ cs) := by
  unfold formByte
  by_cases hplain : isFormPlain b = true
  · rw [if_pos hplain]
    exact .plain (isFormPlain_iff.1 hplain) hrest
  · rw [if_neg hplain]
    by_cases hspace : b = 32
    · subst hspace
      exact .space hrest
    · rw [if_neg (by simpa using hspace), percentEscape_chars]
      exact .escape (mt isFormPlain_iff.2 hplain) hspace hrest

/-- A text is written in a form **byte by byte**. -/
theorem formWritten_formEncode (s : String) : FormWritten (utf8 s) (formEncode s).toList := by
  unfold formEncode latin1
  rw [String.toList_ofList]
  induction utf8 s with
  | nil => exact .nil
  | cons b bytes ih =>
    rw [List.flatMap_cons, List.map_append]
    exact ih.byte b

/-! ### Both ways -/

/-- A character below 128 is encoded **as its own byte**. -/
theorem utf8_cons_of_low {c : Char} (hc : c.toNat < 128) (cs : List Char) :
    utf8 (String.ofList (c :: cs)) = UInt8.ofNat c.toNat :: utf8 (String.ofList cs) := by
  rw [utf8_cons, encodeChar_of_low hc, List.singleton_append]

/-- What stands for itself is a character below 128, and **none that means something** in a form. -/
theorem FormPlain.byte (hplain : FormPlain (latin1Char b)) :
    b.toNat < 128 ∧ b ≠ 43 ∧ b ≠ 37 ∧ b ≠ 38 ∧ b ≠ 61 :=
  forall_byte (P := fun b => FormPlain (latin1Char b) →
    b.toNat < 128 ∧ b ≠ 43 ∧ b ≠ 37 ∧ b ≠ 38 ∧ b ≠ 61) (by decide +kernel) b hplain

theorem capitalHex_low {n : Nat} (hn : n < 16) :
    (capitalHex n).toNat < 128 ∧ capitalHex n ≠ '&' ∧ capitalHex n ≠ '=' :=
  (show ∀ n : Fin 16, (capitalHex n).toNat < 128 ∧ capitalHex n ≠ '&' ∧ capitalHex n ≠ '=' by
    decide) ⟨n, hn⟩

/-- What is written stands for **the bytes it was written for**. -/
theorem FormWritten.formRead (hwritten : FormWritten bytes cs) :
    FormRead (utf8 (String.ofList cs)) bytes := by
  induction hwritten with
  | nil => exact .nil
  | @plain b bytes cs hplain _ ih =>
    obtain ⟨hlow, hplus, hpercent, -⟩ := hplain.byte
    rw [utf8_cons_of_low (by rwa [toNat_latin1Char]), toNat_latin1Char, UInt8.ofNat_toNat]
    exact .other hplus hpercent ih
  | space _ ih =>
    rw [utf8_cons_of_low (by decide)]
    exact .plus ih
  | @escape b bytes cs _ _ _ ih =>
    have hb : b.toNat < 256 := b.toNat_lt
    obtain ⟨hh, hl, hbyte⟩ := hexValue?_capitalHex b
    rw [utf8_cons_of_low (by decide), utf8_cons_of_low (capitalHex_low (by omega)).1,
      utf8_cons_of_low (capitalHex_low (by omega)).1]
    have hescape := FormRead.escape hh hl ih
    rwa [hbyte] at hescape

/-- What separates pairs, or a key from its value, **is never written** in a component. -/
theorem FormWritten.unseparated (hwritten : FormWritten bytes cs) : '&' ∉ cs ∧ '=' ∉ cs := by
  induction hwritten with
  | nil => exact ⟨List.not_mem_nil, List.not_mem_nil⟩
  | @plain b bytes cs hplain _ ih =>
    obtain ⟨-, -, -, hamp, heq⟩ := hplain.byte
    simp only [List.mem_cons, not_or]
    exact ⟨⟨fun he => hamp (latin1Char_injective he.symm), ih.1⟩,
      ⟨fun he => heq (latin1Char_injective he.symm), ih.2⟩⟩
  | space _ ih =>
    simp only [List.mem_cons, not_or]
    exact ⟨⟨by decide, ih.1⟩, ⟨by decide, ih.2⟩⟩
  | @escape b bytes cs _ _ _ ih =>
    have hb : b.toNat < 256 := b.toNat_lt
    have hhigh := capitalHex_low (n := b.toNat / 16) (by omega)
    have hlow := capitalHex_low (n := b.toNat % 16) (by omega)
    simp only [List.mem_cons, not_or]
    exact ⟨⟨by decide, hhigh.2.1.symm, hlow.2.1.symm, ih.1⟩,
      ⟨by decide, hhigh.2.2.symm, hlow.2.2.symm, ih.2⟩⟩

/-- A text is read back **from how it is written** in a form. -/
theorem formDecode_formEncode (s : String) : formDecode (utf8 (formEncode s)) = utf8 s := by
  have hread := (formWritten_formEncode s).formRead
  rw [String.ofList_toList] at hread
  exact hread.formDecode_eq

end HttpEngine.Text
