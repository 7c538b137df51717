import HttpEngine.Proofs.Text.FormCode
import HttpEngine.Text.Blank
import Mathlib.Data.List.DropRight

/-!
# Blanks at the ends

What is left of a list without the blanks at its ends holds **everything that is not blank**, and
has no more of them to lose.

* `trimBy`: a list without what is blank at its ends.
* `trimBy_append_cons`: something that is not blank parts a list, and **each part keeps its own
  blanks** next to it.
* `trimBy_trimBy`, `mem_trimBy`: trimming twice, and what is never lost.
* `trimBy_eq_iff`: what is left and what stood around it.
* `trimBytes`: bytes that are read one character each, without blanks.
-/

namespace HttpEngine.Text

section Lists

variable {α β : Type} (p : α → Bool)

/-- A list without what is blank **at its ends**. -/
def trimBy (l : List α) : List α := (l.dropWhile p).rdropWhile p

theorem trimChars_eq (cs : List Char) : trimChars cs = trimBy isBlank cs := rfl

variable {p} {l : List α} {x : α}

theorem dropWhile_append_cons (hx : ¬ p x) (a b : List α) :
    (a ++ x :: b).dropWhile p = a.dropWhile p ++ x :: b := by
  induction a with
  | nil => exact List.dropWhile_cons_of_neg hx
  | cons y a ih =>
    rw [List.cons_append, List.dropWhile_cons, List.dropWhile_cons, ih]
    split <;> rfl

theorem rdropWhile_append_cons (hx : ¬ p x) (a b : List α) :
    (a ++ x :: b).rdropWhile p = a ++ x :: b.rdropWhile p := by
  simp only [List.rdropWhile, List.reverse_append, List.reverse_cons, List.append_assoc,
    List.singleton_append, dropWhile_append_cons hx, List.reverse_reverse]

/-- What is not blank **parts a list**: nothing is lost next to it. -/
theorem trimBy_append_cons (hx : ¬ p x) (a b : List α) :
    trimBy p (a ++ x :: b) = a.dropWhile p ++ x :: b.rdropWhile p := by
  rw [trimBy, dropWhile_append_cons hx, rdropWhile_append_cons hx]

/-- What is not blank **is not lost**. -/
theorem mem_trimBy (hmem : x ∈ l) (hx : ¬ p x) : x ∈ trimBy p l := by
  obtain ⟨a, b, rfl⟩ := List.append_of_mem hmem
  rw [trimBy_append_cons hx]
  exact List.mem_append_right _ List.mem_cons_self

theorem trimBy_cons (hx : p x) (l : List α) : trimBy p (x :: l) = trimBy p l := by
  rw [trimBy, trimBy, List.dropWhile_cons_of_pos hx]

theorem trimBy_concat (hx : p x) (l : List α) : trimBy p (l ++ [x]) = trimBy p l := by
  induction l with
  | nil => exact trimBy_cons hx []
  | cons y l ih =>
    by_cases hy : p y
    · rw [List.cons_append, trimBy_cons hy, trimBy_cons hy, ih]
    · rw [trimBy, trimBy, List.cons_append, List.dropWhile_cons_of_neg hy,
        List.dropWhile_cons_of_neg hy, ← List.cons_append, List.rdropWhile_concat_pos _ _ _ hx]

theorem trimBy_dropWhile (l : List α) : trimBy p (l.dropWhile p) = trimBy p l := by
  rw [trimBy, trimBy, List.dropWhile_idempotent]

theorem trimBy_rdropWhile (l : List α) : trimBy p (l.rdropWhile p) = trimBy p l := by
  induction l using List.reverseRecOn with
  | nil => rfl
  | append_singleton l x ih =>
    by_cases hx : p x
    · rw [List.rdropWhile_concat_pos _ _ _ hx, ih, trimBy_concat hx]
    · rw [List.rdropWhile_concat_neg _ _ _ hx]

/-- Trimming **twice** is trimming once. -/
theorem trimBy_trimBy (l : List α) : trimBy p (trimBy p l) = trimBy p l := by
  conv_lhs => rw [trimBy.eq_1 p l]
  rw [trimBy_rdropWhile, trimBy_dropWhile]

theorem infix_trimBy (l : List α) : trimBy p l <:+: l :=
  (List.rdropWhile_prefix p _).isInfix.trans (List.dropWhile_suffix p).isInfix

/-- Nothing blank stands **at either end** of a list. -/
def Bare (p : α → Bool) (l : List α) : Prop := (∀ x ∈ l.head?, ¬ p x) ∧ ∀ x ∈ l.getLast?, ¬ p x

theorem trimBy_eq_self_iff : trimBy p l = l ↔ Bare p l := by
  constructor
  · intro h
    refine ⟨fun x hx hp => ?_, fun x hx hp => ?_⟩
    · -- a blank in front would be lost
      obtain ⟨rest, rfl⟩ := List.head?_eq_some_iff.1 hx
      have hle := (infix_trimBy (p := p) rest).length_le
      rw [← trimBy_cons hp, h, List.length_cons] at hle
      omega
    · obtain ⟨front, rfl⟩ := List.getLast?_eq_some_iff.1 hx
      have hle := (infix_trimBy (p := p) front).length_le
      rw [← trimBy_concat hp, h, List.length_append, List.length_singleton] at hle
      omega
  · rintro ⟨hfirst, hlast⟩
    cases l with
    | nil => rfl
    | cons x l =>
      rw [trimBy, List.dropWhile_cons_of_neg (hfirst x rfl), List.rdropWhile_eq_self_iff]
      exact fun hne => hlast _ (List.getLast?_eq_getLast_of_ne_nil hne)

/-- **Blanks around a list** are no part of it. -/
theorem trimBy_padded {left right : List α} (hleft : ∀ x ∈ left, p x) (hright : ∀ x ∈ right, p x) :
    trimBy p (left ++ l ++ right) = trimBy p l := by
  induction right using List.reverseRecOn with
  | nil =>
    rw [List.append_nil]
    induction left with
    | nil => rfl
    | cons x left ih =>
      rw [List.cons_append, trimBy_cons (hleft x List.mem_cons_self)]
      exact ih fun y hy => hleft y (List.mem_cons_of_mem _ hy)
  | append_singleton right x ih =>
    rw [← List.append_assoc, trimBy_concat (hright x (by simp))]
    exact ih fun y hy => hright y (List.mem_append_left _ hy)

/-- A list is **what is left of it and the blanks around that**. -/
theorem trimBy_eq_iff {t : List α} :
    trimBy p l = t ↔ ∃ left right, l = left ++ t ++ right ∧ (∀ x ∈ left, p x) ∧
      (∀ x ∈ right, p x) ∧ Bare p t := by
  constructor
  · rintro rfl
    refine ⟨l.takeWhile p, (l.dropWhile p).rtakeWhile p, ?_, fun x hx => List.mem_takeWhile_imp hx,
      fun x hx => List.mem_rtakeWhile_imp hx, trimBy_eq_self_iff.1 (trimBy_trimBy l)⟩
    rw [List.append_assoc, trimBy, List.rdropWhile_append_rtakeWhile,
      List.takeWhile_append_dropWhile]
  · rintro ⟨left, right, rfl, hleft, hright, hbare⟩
    rw [trimBy_padded hleft hright, trimBy_eq_self_iff.2 hbare]

theorem trimBy_map (f : β → α) (l : List β) : trimBy p (l.map f) = (trimBy (p ∘ f) l).map f := by
  simp only [trimBy, List.rdropWhile, List.dropWhile_map, ← List.map_reverse]

end Lists

/-! ### Bytes -/

/-- A byte that is blank **as a character**: a tab, an end of line, a space, or one of the two blanks
from 128 on. -/
def blankByte (b : UInt8) : Bool := (9 ≤ b && b ≤ 13) || b == 32 || b == 133 || b == 160

theorem blankByte_eq (b : UInt8) : blankByte b = isBlank (latin1Char b) :=
  forall_byte (P := fun b => blankByte b = isBlank (latin1Char b)) (by decide +kernel) b

theorem toNat_le_of_blankByte {b : UInt8} (h : blankByte b = true) : b.toNat ≤ 160 :=
  forall_byte (P := fun b => blankByte b = true → b.toNat ≤ 160) (by decide +kernel) b h

/-- Bytes without **the blanks at their ends**. -/
def trimBytes (bytes : Bytes) : Bytes := trimBy blankByte bytes

theorem trimChars_latin1 (bytes : Bytes) :
    trimChars (bytes.map latin1Char) = (trimBytes bytes).map latin1Char := by
  have hblank : isBlank ∘ latin1Char = blankByte := by
    funext b
    exact (blankByte_eq b).symm
  rw [trimChars_eq, trimBy_map, hblank]
  rfl

end HttpEngine.Text
