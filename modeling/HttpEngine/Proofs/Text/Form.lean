import HttpEngine.Message.Params
import HttpEngine.Proofs.Text.Lossy

/-!
# Form components

A character from 128 on stands for itself in a form component, whatever is in front of it or behind
it. So a component that is read from bytes **one character each** and as UTF-8 comes to the same
text only where no byte is from 128 on: each of those bytes is a character of its own in the one,
and in the other it is broken or shares a character with the next.

* `decodeChars_append`: a component is decoded apart at a character from 128 on.
* `decode_latin1_eq_lossy_iff`: when the two readings of a component agree, **exactly**.
-/

namespace HttpEngine.Text

open Utf8

/-- Bytes **below 128**. -/
def Low (bytes : Bytes) : Prop := ∀ b ∈ bytes, b.toNat < 128

instance (bytes : Bytes) : Decidable (Low bytes) :=
  inferInstanceAs (Decidable (∀ b ∈ bytes, b.toNat < 128))

variable {b : UInt8} {c : Char}

/-- What is decoded apart at each of some elements is decoded apart **at all of them together**. -/
theorem apart_of_each {α : Type} {f : List α → List α} {P : α → Prop} (hnil : f [] = [])
    (hf : ∀ a, P a → ∀ front rest, f (front ++ a :: rest) = f front ++ a :: f rest) {mid : List α}
    (hne : mid ≠ []) (h : ∀ a ∈ mid, P a) (front rest : List α) :
    f (front ++ (mid ++ rest)) = f front ++ (mid ++ f rest) := by
  induction mid generalizing front with
  | nil => exact absurd rfl hne
  | cons a mid ih =>
    obtain ⟨ha, hmid⟩ := List.forall_mem_cons.1 h
    rw [List.cons_append, hf a ha, List.cons_append]
    cases mid with
    | nil => rfl
    | cons x mid =>
      have hrest := ih (List.cons_ne_nil _ _) hmid []
      rw [hnil] at hrest
      exact congrArg (f front ++ a :: ·) hrest

/-! ### Escapes -/

theorem hexValue?_of_high (h : 128 ≤ b.toNat) : hexValue? b = none := by
  have hout : ∀ m n : UInt8, n.toNat < 128 → (m ≤ b && b ≤ n) = false := by
    intro m n hn
    rw [between_iff]
    exact decide_eq_false fun hb => absurd hb.2 (by omega)
  simp only [hexValue?, hout 48 57 (by decide), hout 65 70 (by decide), hout 97 102 (by decide),
    Bool.false_eq_true, if_false]

theorem escape?_of_first (h : 128 ≤ b.toNat) (x y : UInt8) : escape? b x y = none := by
  have hb : (b == 37) = false := by
    refine beq_eq_false_iff_ne.2 fun he => ?_
    rw [he] at h
    exact absurd h (by decide)
  simp only [escape?, hb, Bool.false_eq_true, if_false]

theorem escape?_of_second (h : 128 ≤ b.toNat) (x y : UInt8) : escape? x b y = none := by
  simp only [escape?, hexValue?_of_high h, ite_self]

theorem escape?_of_third (h : 128 ≤ b.toNat) (x y : UInt8) : escape? x y b = none := by
  unfold escape?
  rw [hexValue?_of_high h]
  cases hexValue? y <;> exact ite_self _

/-- A byte from 128 on **takes no part in an escape**. -/
theorem percentDecode_append (h : 128 ≤ b.toNat) (bytes rest : Bytes) :
    percentDecode (bytes ++ b :: rest) = percentDecode bytes ++ b :: percentDecode rest := by
  have hnone : percentDecode (b :: rest) = b :: percentDecode rest := by
    match rest with
    | [] => rfl
    | [_] => rfl
    | x :: y :: rest => rw [percentDecode, escape?_of_first h]
  have hone : ∀ x, percentDecode (x :: b :: rest) = x :: b :: percentDecode rest := by
    intro x
    rw [← hnone]
    match rest with
    | [] => rfl
    | y :: rest => rw [percentDecode, escape?_of_second h]
  fun_induction percentDecode bytes with
  | case1 => exact hnone
  | case2 x => exact hone x
  | case3 x y =>
    show percentDecode (x :: y :: b :: rest) = x :: y :: b :: percentDecode rest
    rw [percentDecode, escape?_of_third h, hone]
  | case4 x y z more byte he ih =>
    show percentDecode (x :: y :: z :: (more ++ b :: rest)) = _
    rw [percentDecode, he]
    exact congrArg (byte :: ·) ih
  | case5 x y z more he ih =>
    show percentDecode (x :: y :: z :: (more ++ b :: rest)) = _
    rw [percentDecode, he]
    exact congrArg (x :: ·) ih

theorem formDecode_append (h : 128 ≤ b.toNat) (bytes rest : Bytes) :
    formDecode (bytes ++ b :: rest) = formDecode bytes ++ b :: formDecode rest := by
  have hb : (b == 43) = false := by
    refine beq_eq_false_iff_ne.2 fun he => ?_
    rw [he] at h
    exact absurd h (by decide)
  simp only [formDecode, List.map_append, List.map_cons, hb, Bool.false_eq_true, if_false,
    percentDecode_append h]

/-! ### Components -/

/-- The characters that **a component stands for**. -/
def decodeChars (component : List Char) : List Char :=
  lossyChars (formDecode (utf8 (String.ofList component)))

theorem utf8_ofList_append (cs ds : List Char) :
    utf8 (String.ofList (cs ++ ds)) = utf8 (String.ofList cs) ++ utf8 (String.ofList ds) := by
  simp only [utf8, String.toList_ofList, List.flatMap_append]

theorem encodeChar_high (h : 128 ≤ c.toNat) : ∀ b ∈ String.utf8EncodeChar c, 128 ≤ b.toNat := by
  rcases encodeChar_cases c with ⟨hlow, -⟩ | hhigh
  · omega
  · exact hhigh

/-- A component is decoded **apart at a character** from 128 on. -/
theorem decodeChars_append (h : 128 ≤ c.toNat) (cs ds : List Char) :
    decodeChars (cs ++ c :: ds) = decodeChars cs ++ c :: decodeChars ds := by
  rw [decodeChars, utf8_ofList_append, utf8_cons,
    apart_of_each rfl (fun _ => formDecode_append) String.utf8EncodeChar_ne_nil (encodeChar_high h),
    lossyChars_append_encodeChar h]
  rfl

/-! ### Two readings of a component -/

theorem high_map_latin1Char {unit : Bytes} (h : Stretch unit c) :
    ∀ c ∈ unit.map latin1Char, 128 ≤ c.toNat := by
  intro c hc
  obtain ⟨b, hb, rfl⟩ := List.mem_map.1 hc
  rw [toNat_latin1Char]
  exact h.high b hb

/-- The bytes of a stretch, **one character each**, are decoded apart from the rest. -/
theorem decodeChars_latin1_stretch {unit : Bytes} (h : Stretch unit c) (front : List Char)
    (rest : Bytes) :
    decodeChars (front ++ (unit ++ rest).map latin1Char)
      = decodeChars front ++ (unit.map latin1Char ++ decodeChars (rest.map latin1Char)) := by
  rw [List.map_append, apart_of_each rfl (fun _ => decodeChars_append) _ (high_map_latin1Char h)]
  exact mt List.map_eq_nil_iff.1 h.filled

/-- One character for each byte gives **no fewer characters** than UTF-8 does. -/
theorem length_decodeChars_le (front : List Char) (bytes : Bytes) :
    (decodeChars (front ++ lossyChars bytes)).length
      ≤ (decodeChars (front ++ bytes.map latin1Char)).length := by
  induction bytes using stretchRec generalizing front with
  | nil => exact Nat.le_refl _
  | low b rest hb ih =>
    rw [lossyChars_cons hb, List.map_cons, List.append_cons front _ (lossyChars rest),
      List.append_cons front _ (rest.map latin1Char)]
    exact ih (front ++ [latin1Char b])
  | stretch unit rest c hunit hread ih =>
    have hrest := ih []
    have hfilled := List.length_pos_of_ne_nil hunit.filled
    rw [hread, decodeChars_append hunit.char, decodeChars_latin1_stretch hunit]
    simp only [List.nil_append, List.length_append, List.length_cons, List.length_map] at hrest ⊢
    omega

/-- The readings differ **from the first byte from 128 on**. -/
theorem low_of_decodeChars_eq {bytes : Bytes} (front : List Char)
    (h : decodeChars (front ++ lossyChars bytes) = decodeChars (front ++ bytes.map latin1Char)) :
    Low bytes := by
  induction bytes using stretchRec generalizing front with
  | nil => exact nofun
  | low b rest hb ih =>
    rw [lossyChars_cons hb, List.map_cons, List.append_cons front _ (lossyChars rest),
      List.append_cons front _ (rest.map latin1Char)] at h
    exact List.forall_mem_cons.2 ⟨hb, ih (front ++ [latin1Char b]) h⟩
  | stretch unit rest c hunit hread ih =>
    exfalso
    rw [hread, decodeChars_append hunit.char, decodeChars_latin1_stretch hunit] at h
    have hsame := List.append_cancel_left h
    rcases hunit.broken_or_long with rfl | hlong
    · -- what stands for a broken stretch is no byte's character
      obtain ⟨b, more, rfl⟩ := List.exists_cons_of_ne_nil hunit.filled
      have hchar := congrArg Char.toNat (List.cons.inj hsame).1
      have hlt : b.toNat < 256 := b.toNat_lt
      rw [toNat_latin1Char] at hchar
      exact absurd hchar (Nat.ne_of_gt (Nat.lt_trans hlt (by decide)))
    · have hlength := congrArg List.length hsame
      have hrest := length_decodeChars_le [] rest
      simp only [List.nil_append, List.length_append, List.length_cons, List.length_map]
        at hlength hrest
      omega

/-- A component is read **alike** one character for each byte and as UTF-8 exactly when all its
bytes are below 128. -/
theorem decode_latin1_eq_lossy_iff (component : Bytes) :
    Params.decode (utf8 (latin1 component)) = Params.decode (utf8 (Utf8.lossy component)) ↔
      Low component := by
  constructor
  · intro h
    exact low_of_decodeChars_eq [] (String.ofList_injective h).symm
  · intro h
    rw [latin1, Utf8.lossy, lossyChars_of_low h]

end HttpEngine.Text
