import HttpEngine.Text.Utf8
import Mathlib.Data.List.Infix

/-!
# UTF-8 read back

* `Utf8.decode?_utf8`, `Utf8.lossy_utf8`: a text is read back from its encoding.
* `Utf8.lossy_of_decode?`: the two readings of bytes, where both give a text.
* `crlf_infix_of_utf8`: a line ends in the encoding of a text **only where it ends in the text**.
-/

namespace HttpEngine.Text

namespace Utf8

variable {b : UInt8} {c : Char}

/-! ### First bytes -/

theorem lead_of_one (h : b.toNat < 128) : lead b = .whole (Char.ofNat b.toNat) := by
  have hb : b < 0x80 := UInt8.lt_iff_toNat_lt.2 h
  simp only [lead, hb, if_true]

theorem not_lt_of_high (h : 128 ≤ b.toNat) : ¬ b < 0x80 := by
  rw [UInt8.lt_iff_toNat_lt]
  exact Nat.not_lt.2 h

/-- Whether a byte lies between two others, said of numbers. -/
theorem between_iff (low high b : UInt8) :
    (low ≤ b && b ≤ high) = decide (low.toNat ≤ b.toNat ∧ b.toNat ≤ high.toNat) := by
  simp only [UInt8.le_iff_toNat_le, Bool.decide_and]

theorem lead_of_two (h : 194 ≤ b.toNat) (k : b.toNat ≤ 223) :
    lead b = .opening ⟨0x80, 0xBF, 0, b.toNat - 0xC0⟩ := by
  have htwo : (0xC2 ≤ b && b ≤ 0xDF) = true := by
    rw [between_iff]
    exact decide_eq_true ⟨h, k⟩
  simp only [lead, not_lt_of_high (by omega : 128 ≤ b.toNat), htwo, if_false, if_true]

/-- The second byte of three leaves out **overlong forms and surrogates**. -/
theorem lead_of_three (h : 224 ≤ b.toNat) (k : b.toNat ≤ 239) :
    lead b = .opening ⟨if b = 0xE0 then 0xA0 else 0x80, if b = 0xED then 0x9F else 0xBF, 1,
      b.toNat - 0xE0⟩ := by
  by_cases hfirst : b = 0xE0
  · subst hfirst
    rfl
  · by_cases hsurrogate : b = 0xED
    · subst hsurrogate
      rfl
    · have htwo : (0xC2 ≤ b && b ≤ 0xDF) = false := by
        rw [between_iff]
        exact decide_eq_false fun hb => absurd hb.2 (Nat.not_le.2 (Nat.lt_of_lt_of_le (by decide) h))
      have hthree : (0xE1 ≤ b && b ≤ 0xEF) = true := by
        rw [between_iff]
        refine decide_eq_true ⟨Nat.lt_of_le_of_ne h fun he => hfirst ?_, k⟩
        exact UInt8.toNat_inj.1 he.symm
      simp only [lead, not_lt_of_high (by omega : 128 ≤ b.toNat), htwo, hthree, hfirst, hsurrogate,
        beq_iff_eq, if_false, if_true, Bool.false_eq_true]

/-- The second byte of four leaves out overlong forms and **code points past the last**. -/
theorem lead_of_four (h : 240 ≤ b.toNat) (k : b.toNat ≤ 244) :
    lead b = .opening ⟨if b = 0xF0 then 0x90 else 0x80, if b = 0xF4 then 0x8F else 0xBF, 2,
      b.toNat - 0xF0⟩ := by
  have hcases : b = 0xF0 ∨ b = 0xF1 ∨ b = 0xF2 ∨ b = 0xF3 ∨ b = 0xF4 := by
    simp only [← UInt8.toNat_inj]
    have h0 : (0xF0 : UInt8).toNat = 240 := rfl
    have h1 : (0xF1 : UInt8).toNat = 241 := rfl
    have h2 : (0xF2 : UInt8).toNat = 242 := rfl
    have h3 : (0xF3 : UInt8).toNat = 243 := rfl
    have h4 : (0xF4 : UInt8).toNat = 244 := rfl
    omega
  rcases hcases with rfl | rfl | rfl | rfl | rfl <;> rfl

/-! ### Continuation bytes -/

variable {p : Partial} {low high : UInt8} {n code : Nat} {rest : Bytes}

theorem unitsFrom_opening (h : lead b = .opening p) :
    unitsFrom none (b :: rest) = unitsFrom (some p) rest := by
  simp only [unitsFrom, h]

/-- A byte that may come next **goes on with the character**. -/
theorem unitsFrom_more (h : low.toNat ≤ b.toNat) (k : b.toNat ≤ high.toNat) :
    unitsFrom (some ⟨low, high, n + 1, code⟩) (b :: rest)
      = unitsFrom (some ⟨0x80, 0xBF, n, Partial.extend ⟨low, high, n + 1, code⟩ b⟩) rest := by
  have hb : (low ≤ b && b ≤ high) = true := by
    rw [between_iff]
    exact decide_eq_true ⟨h, k⟩
  simp only [unitsFrom, hb, if_true]

theorem unitsFrom_last (h : low.toNat ≤ b.toNat) (k : b.toNat ≤ high.toNat) :
    unitsFrom (some ⟨low, high, 0, code⟩) (b :: rest)
      = some (Char.ofNat (Partial.extend ⟨low, high, 0, code⟩ b)) :: unitsFrom none rest := by
  have hb : (low ≤ b && b ≤ high) = true := by
    rw [between_iff]
    exact decide_eq_true ⟨h, k⟩
  simp only [unitsFrom, hb, if_true]

/-! ### Characters -/

theorem toNat_ofNat_of_lt {n : Nat} (h : n < 256) : (UInt8.ofNat n).toNat = n := by
  rw [UInt8.toNat_ofNat']
  exact Nat.mod_eq_of_lt h

/-- The byte that six bits go into. -/
theorem toNat_continuation (n : Nat) : (UInt8.ofNat (n % 64 + 128)).toNat = n % 64 + 128 :=
  toNat_ofNat_of_lt (by omega)

theorem continuation_ge (n : Nat) : (0x80 : UInt8).toNat ≤ (UInt8.ofNat (n % 64 + 128)).toNat := by
  have h : (0x80 : UInt8).toNat = 128 := rfl
  rw [toNat_continuation, h]
  omega

theorem continuation_le (n : Nat) : (UInt8.ofNat (n % 64 + 128)).toNat ≤ (0xBF : UInt8).toNat := by
  have h : (0xBF : UInt8).toNat = 191 := rfl
  rw [toNat_continuation, h]
  omega

/-- The bits of a continuation byte are those that went into it. -/
theorem extend_continuation (p : Partial) (n : Nat) :
    p.extend (UInt8.ofNat (n % 64 + 128)) = p.code * 64 + n % 64 := by
  have h : p.extend (UInt8.ofNat (n % 64 + 128))
      = p.code * 64 + ((UInt8.ofNat (n % 64 + 128)).toNat - 128) := rfl
  rw [h, toNat_continuation, Nat.add_sub_cancel]

theorem unitsFrom_two {v : Nat} (h : 127 < v) (k : v ≤ 2047) (rest : Bytes) :
    unitsFrom none (UInt8.ofNat (v / 64 % 32 + 192) :: UInt8.ofNat (v % 64 + 128) :: rest)
      = some (Char.ofNat v) :: unitsFrom none rest := by
  have hb : (UInt8.ofNat (v / 64 % 32 + 192)).toNat = v / 64 % 32 + 192 :=
    toNat_ofNat_of_lt (by omega)
  rw [unitsFrom_opening (lead_of_two (by omega) (by omega)),
    unitsFrom_last (continuation_ge v) (continuation_le v), extend_continuation, hb]
  have hv : (v / 64 % 32 + 192 - 0xC0) * 64 + v % 64 = v := by omega
  rw [hv]

/-- Where a first byte narrows what may come second, **the bits before decide** whether it does. -/
theorem narrowed_ge {b first low : UInt8} {n : Nat}
    (h : b.toNat = first.toNat → low.toNat ≤ n % 64 + 128) :
    (if b = first then low else 0x80 : UInt8).toNat ≤ (UInt8.ofNat (n % 64 + 128)).toNat := by
  split
  · rename_i he
    rw [toNat_continuation]
    exact h (congrArg UInt8.toNat he)
  · exact continuation_ge n

theorem narrowed_le {b first high : UInt8} {n : Nat}
    (h : b.toNat = first.toNat → n % 64 + 128 ≤ high.toNat) :
    (UInt8.ofNat (n % 64 + 128)).toNat ≤ (if b = first then high else 0xBF : UInt8).toNat := by
  split
  · rename_i he
    rw [toNat_continuation]
    exact h (congrArg UInt8.toNat he)
  · exact continuation_le n

theorem unitsFrom_three {v : Nat} (h : 2047 < v) (k : v ≤ 65535)
    (hvalid : v < 55296 ∨ 57343 < v) (rest : Bytes) :
    unitsFrom none (UInt8.ofNat (v / 4096 % 16 + 224) :: UInt8.ofNat (v / 64 % 64 + 128) ::
        UInt8.ofNat (v % 64 + 128) :: rest)
      = some (Char.ofNat v) :: unitsFrom none rest := by
  have hb : (UInt8.ofNat (v / 4096 % 16 + 224)).toNat = v / 4096 % 16 + 224 :=
    toNat_ofNat_of_lt (by omega)
  -- what could be written shorter is left out, and so are the surrogates
  have hlow : (UInt8.ofNat (v / 4096 % 16 + 224)).toNat = (0xE0 : UInt8).toNat →
      (0xA0 : UInt8).toNat ≤ v / 64 % 64 + 128 := by
    rw [hb]
    change v / 4096 % 16 + 224 = 224 → 160 ≤ v / 64 % 64 + 128
    omega
  have hhigh : (UInt8.ofNat (v / 4096 % 16 + 224)).toNat = (0xED : UInt8).toNat →
      v / 64 % 64 + 128 ≤ (0x9F : UInt8).toNat := by
    rw [hb]
    change v / 4096 % 16 + 224 = 237 → v / 64 % 64 + 128 ≤ 159
    omega
  rw [unitsFrom_opening (lead_of_three (by omega) (by omega)),
    unitsFrom_more (narrowed_ge hlow) (narrowed_le hhigh),
    unitsFrom_last (continuation_ge v) (continuation_le v), extend_continuation,
    extend_continuation, hb]
  have hv : ((v / 4096 % 16 + 224 - 0xE0) * 64 + v / 64 % 64) * 64 + v % 64 = v := by omega
  rw [hv]

theorem unitsFrom_four {v : Nat} (h : 65535 < v) (k : v < 1114112) (rest : Bytes) :
    unitsFrom none (UInt8.ofNat (v / 262144 % 8 + 240) :: UInt8.ofNat (v / 4096 % 64 + 128) ::
        UInt8.ofNat (v / 64 % 64 + 128) :: UInt8.ofNat (v % 64 + 128) :: rest)
      = some (Char.ofNat v) :: unitsFrom none rest := by
  have hb : (UInt8.ofNat (v / 262144 % 8 + 240)).toNat = v / 262144 % 8 + 240 :=
    toNat_ofNat_of_lt (by omega)
  -- what could be written shorter is left out, and so is what is no character any more
  have hlow : (UInt8.ofNat (v / 262144 % 8 + 240)).toNat = (0xF0 : UInt8).toNat →
      (0x90 : UInt8).toNat ≤ v / 4096 % 64 + 128 := by
    rw [hb]
    change v / 262144 % 8 + 240 = 240 → 144 ≤ v / 4096 % 64 + 128
    omega
  have hhigh : (UInt8.ofNat (v / 262144 % 8 + 240)).toNat = (0xF4 : UInt8).toNat →
      v / 4096 % 64 + 128 ≤ (0x8F : UInt8).toNat := by
    rw [hb]
    change v / 262144 % 8 + 240 = 244 → v / 4096 % 64 + 128 ≤ 143
    omega
  rw [unitsFrom_opening (lead_of_four (by omega) (by omega)),
    unitsFrom_more (narrowed_ge hlow) (narrowed_le hhigh),
    unitsFrom_more (continuation_ge _) (continuation_le _),
    unitsFrom_last (continuation_ge v) (continuation_le v), extend_continuation,
    extend_continuation, extend_continuation, hb]
  have hv : (((v / 262144 % 8 + 240 - 0xF0) * 64 + v / 4096 % 64) * 64 + v / 64 % 64) * 64 + v % 64
      = v := by omega
  rw [hv]

/-- **A character is read back** from the front of bytes that begin with its encoding. -/
theorem unitsFrom_encodeChar (c : Char) (rest : Bytes) :
    unitsFrom none (String.utf8EncodeChar c ++ rest) = some c :: unitsFrom none rest := by
  have hvalid : c.val.toNat < 55296 ∨ 57343 < c.val.toNat ∧ c.val.toNat < 1114112 := c.valid
  have hc : Char.ofNat c.val.toNat = c := Char.ofNat_toNat c
  unfold String.utf8EncodeChar
  simp only
  -- by the number of bytes
  generalize c.val.toNat = v at hvalid hc
  by_cases hone : v ≤ 127
  · have hb : (UInt8.ofNat v).toNat = v := toNat_ofNat_of_lt (by omega)
    have hlead := lead_of_one (b := UInt8.ofNat v) (by omega)
    rw [if_pos hone, List.singleton_append]
    simp only [unitsFrom, hlead, hb, hc]
  · rw [if_neg hone]
    by_cases htwo : v ≤ 2047
    · rw [if_pos htwo, ← hc]
      exact unitsFrom_two (by omega) htwo rest
    · rw [if_neg htwo]
      by_cases hthree : v ≤ 65535
      · rw [if_pos hthree, ← hc]
        exact unitsFrom_three (by omega) hthree (by omega) rest
      · rw [if_neg hthree, ← hc]
        exact unitsFrom_four (by omega) (by omega) rest

theorem units_utf8 (s : String) : units (utf8 s) = s.toList.map some := by
  unfold units utf8
  induction s.toList with
  | nil => rfl
  | cons c cs ih => rw [List.flatMap_cons, unitsFrom_encodeChar, ih, List.map_cons]

/-- Bytes are read without a replacement exactly where **no stretch is broken**. -/
theorem mapM_id_eq_some {us : List (Option Char)} {cs : List Char} :
    us.mapM id = some cs ↔ us = cs.map some := by
  induction us generalizing cs with
  | nil =>
    rw [List.mapM_nil]
    cases cs <;> simp
  | cons u us ih =>
    cases u with
    | none =>
      have hnone : (none :: us).mapM id = none := by simp
      rw [hnone]
      cases cs <;> simp
    | some c =>
      have hsome : (some c :: us).mapM id = (us.mapM id).map (c :: ·) := by
        rw [List.mapM_cons]
        cases us.mapM id <;> rfl
      rw [hsome, Option.map_eq_some_iff]
      constructor
      · rintro ⟨ds, hds, rfl⟩
        rw [ih.1 hds, List.map_cons]
      · intro h
        cases cs with
        | nil => cases h
        | cons d cs =>
          obtain ⟨hd, hrest⟩ := List.cons.inj h
          exact ⟨cs, ih.2 hrest, congrArg (· :: cs) (Option.some_inj.1 hd)⟩

/-- **A text is read back** from its encoding. -/
theorem decode?_utf8 (s : String) : decode? (utf8 s) = some s := by
  rw [decode?, mapM_id_eq_some.2 (units_utf8 s), Option.map_some, String.ofList_toList]

/-- What can be read as it is **needs no replacement**. -/
theorem lossy_of_decode? {bytes : Bytes} {s : String} (h : decode? bytes = some s) :
    lossy bytes = s := by
  obtain ⟨cs, hunits, rfl⟩ := Option.map_eq_some_iff.1 h
  have hmap : (fun c : Option Char => c.getD replacement) ∘ some = id := rfl
  rw [lossy, lossyChars, mapM_id_eq_some.1 hunits, List.map_map, hmap, List.map_id]

/-- Nothing is replaced **in the encoding of a text**. -/
theorem lossy_utf8 (s : String) : lossy (utf8 s) = s :=
  lossy_of_decode? (decode?_utf8 s)

end Utf8

/-! ### Line ends -/

/-- Only a character below 128 is encoded as a byte below 128, and then **as that byte alone**. -/
theorem encodeChar_cases (c : Char) :
    (c.toNat < 128 ∧ String.utf8EncodeChar c = [UInt8.ofNat c.toNat]) ∨
      ∀ b ∈ String.utf8EncodeChar c, 128 ≤ b.toNat := by
  have hvalid : c.val.toNat < 55296 ∨ 57343 < c.val.toNat ∧ c.val.toNat < 1114112 := c.valid
  unfold String.utf8EncodeChar Char.toNat
  simp only
  generalize c.val.toNat = v at hvalid
  split
  · exact .inl ⟨by omega, rfl⟩
  · refine .inr fun b hb => ?_
    split at hb
    · simp only [List.mem_cons, List.not_mem_nil, or_false] at hb
      rcases hb with rfl | rfl <;> rw [Utf8.toNat_ofNat_of_lt (by omega)] <;> omega
    · split at hb
      · simp only [List.mem_cons, List.not_mem_nil, or_false] at hb
        rcases hb with rfl | rfl | rfl <;> rw [Utf8.toNat_ofNat_of_lt (by omega)] <;> omega
      · simp only [List.mem_cons, List.not_mem_nil, or_false] at hb
        rcases hb with rfl | rfl | rfl | rfl <;> rw [Utf8.toNat_ofNat_of_lt (by omega)] <;> omega

theorem utf8_cons (c : Char) (cs : List Char) :
    utf8 (String.ofList (c :: cs)) = String.utf8EncodeChar c ++ utf8 (String.ofList cs) := by
  simp only [utf8, String.toList_ofList, List.flatMap_cons]

/-- Bytes from 128 on **take no part** in the end of a line. -/
theorem crlf_infix_of_high {high rest : Bytes} (hhigh : ∀ b ∈ high, 128 ≤ b.toNat)
    (h : crlf <:+: high ++ rest) : crlf <:+: rest := by
  induction high with
  | nil => exact h
  | cons b high ih =>
    rcases List.infix_cons_iff.1 h with ⟨t, ht⟩ | h
    · have hb := hhigh b List.mem_cons_self
      rw [← (List.cons.inj ht).1] at hb
      exact absurd hb (by decide)
    · exact ih (fun b hb => hhigh b (List.mem_cons_of_mem _ hb)) h

theorem eq_of_ofNat_toNat {c : Char} (hc : c.toNat < 128) {b : UInt8}
    (h : b = UInt8.ofNat c.toNat) : c = Char.ofNat b.toNat := by
  rw [h, Utf8.toNat_ofNat_of_lt (by omega), Char.ofNat_toNat]

theorem encodeChar_of_low {c : Char} (hc : c.toNat < 128) :
    String.utf8EncodeChar c = [UInt8.ofNat c.toNat] := by
  have hval : c.val.toNat ≤ 127 := Nat.le_of_lt_succ hc
  simp only [String.utf8EncodeChar, hval, if_true]
  rfl

/-- A character below 128 is in a text **where its byte is in the encoding**. -/
theorem mem_utf8_iff {c : Char} (hc : c.toNat < 128) {s : String} :
    UInt8.ofNat c.toNat ∈ utf8 s ↔ c ∈ s.toList := by
  have hb : (UInt8.ofNat c.toNat).toNat = c.toNat := Utf8.toNat_ofNat_of_lt (by omega)
  rw [utf8, List.mem_flatMap]
  constructor
  · rintro ⟨d, hd, hmem⟩
    rcases encodeChar_cases d with ⟨hlow, he⟩ | hhigh
    · rw [he, List.mem_singleton] at hmem
      have hdc := eq_of_ofNat_toNat hlow hmem
      rw [hb, Char.ofNat_toNat] at hdc
      exact hdc ▸ hd
    · exact absurd (hhigh _ hmem) (by omega)
  · intro hmem
    refine ⟨c, hmem, ?_⟩
    rw [encodeChar_of_low hc]
    exact List.mem_singleton_self _

/-- A text whose encoding begins with a line feed **begins with one itself**. -/
theorem head_of_utf8 {cs : List Char} {t : Bytes} (h : utf8 (String.ofList cs) = 10 :: t) :
    ∃ more, cs = '\n' :: more := by
  cases cs with
  | nil => cases h
  | cons c more =>
    rw [utf8_cons] at h
    rcases encodeChar_cases c with ⟨hc, he⟩ | hhigh
    · rw [he, List.singleton_append] at h
      have := eq_of_ofNat_toNat hc (List.cons.inj h).1.symm
      exact ⟨more, by rw [this]; rfl⟩
    · cases hne : String.utf8EncodeChar c with
      | nil => exact absurd hne (String.utf8EncodeChar_ne_nil)
      | cons b bytes =>
        rw [hne, List.cons_append] at h
        have hb := hhigh b (by rw [hne]; exact List.mem_cons_self)
        rw [(List.cons.inj h).1] at hb
        exact absurd hb (by decide)

/-- A line ends in the encoding of a text **only where it ends in the text**. -/
theorem crlf_infix_of_utf8 {s : String} (h : crlf <:+: utf8 s) : ['\r', '\n'] <:+: s.toList := by
  rw [← String.ofList_toList (s := s)] at h
  generalize s.toList = cs at h
  induction cs with
  | nil => exact absurd h (by decide)
  | cons c cs ih =>
    rw [utf8_cons] at h
    rcases encodeChar_cases c with ⟨hc, he⟩ | hhigh
    · rw [he, List.singleton_append] at h
      rcases List.infix_cons_iff.1 h with ⟨t, ht⟩ | h
      · -- the end of the line is in front
        have hr := eq_of_ofNat_toNat hc (List.cons.inj ht).1
        obtain ⟨more, rfl⟩ := head_of_utf8 (List.cons.inj ht).2.symm
        exact ⟨[], more, by rw [hr]; rfl⟩
      · exact List.infix_cons_iff.2 (.inr (ih h))
    · exact List.infix_cons_iff.2 (.inr (ih (crlf_infix_of_high hhigh h)))

end HttpEngine.Text
