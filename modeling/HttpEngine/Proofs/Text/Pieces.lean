import HttpEngine.Proofs.Text.Cut
import Mathlib.Data.List.Infix

/-!
# What stands between separators

* `separatedRec`: a list is **one piece, or a piece, a separator and a list**.
* `pieces_of_not_mem`, `pieces_append`: its pieces, either way.
* `mem_pieces_iff`: where a piece stands.
* `pieces_intercalate_pieces`, `pieces_intercalate`: what is joined by separators is parted again.
* `pieces_map`, `cut_map`: other names for the elements part them alike.
-/

namespace HttpEngine.Text

variable {α : Type} [BEq α] [LawfulBEq α]

/-- Induction on the separators of a list, **the first one first**. -/
@[elab_as_elim]
theorem separatedRec (sep : α) {motive : List α → Prop} (alone : ∀ l, sep ∉ l → motive l)
    (parted : ∀ a b, sep ∉ a → motive b → motive (a ++ sep :: b)) (l : List α) : motive l := by
  induction hn : l.length using Nat.strong_induction_on generalizing l with
  | h n ih =>
    cases hcut : cut sep l with
    | none => exact alone l (cut_eq_none_iff.1 hcut)
    | some parts =>
      obtain ⟨rfl, ha⟩ := cut_eq_some_iff.1 hcut
      refine parted _ _ ha (ih parts.2.length ?_ _ rfl)
      simp only [List.length_append, List.length_cons] at hn
      omega

theorem pieces_of_not_mem {sep : α} {l : List α} (h : sep ∉ l) : pieces sep l = [l] := by
  induction l with
  | nil => rfl
  | cons x l ih =>
    have hx : (x == sep) = false := beq_eq_false_iff_ne.2 fun he => h (he ▸ List.mem_cons_self)
    simp only [pieces, hx, ih fun hm => h (List.mem_cons_of_mem _ hm)]
    rfl

/-- What stands **in front of the first separator** is the first piece. -/
theorem pieces_append {sep : α} {a : List α} (h : sep ∉ a) (b : List α) :
    pieces sep (a ++ sep :: b) = a :: pieces sep b := by
  induction a with
  | nil =>
    simp only [List.nil_append, pieces, beq_self_eq_true]
    rfl
  | cons x a ih =>
    have hx : (x == sep) = false := beq_eq_false_iff_ne.2 fun he => h (he ▸ List.mem_cons_self)
    simp only [List.cons_append, pieces, hx, ih fun hm => h (List.mem_cons_of_mem _ hm)]
    rfl

/-- **At a separator** the pieces in front of it end and those behind it begin. -/
theorem pieces_append_pieces (sep : α) (a b : List α) :
    pieces sep (a ++ sep :: b) = pieces sep a ++ pieces sep b := by
  induction a using separatedRec sep with
  | alone a ha =>
    rw [pieces_append ha, pieces_of_not_mem ha]
    rfl
  | parted front back hfront ih =>
    rw [List.append_assoc, List.cons_append, pieces_append hfront, ih, pieces_append hfront,
      List.cons_append]

/-- Lists joined by a separator have **the pieces of each**, one after another. -/
theorem pieces_intercalate_pieces (sep : α) {parts : List (List α)} (hne : parts ≠ []) :
    pieces sep ([sep].intercalate parts) = parts.flatMap (pieces sep) := by
  induction parts with
  | nil => exact absurd rfl hne
  | cons part parts ih =>
    cases parts with
    | nil => rw [List.intercalate_singleton, List.flatMap_singleton]
    | cons next parts =>
      rw [List.intercalate_cons_cons, List.append_assoc, List.singleton_append,
        pieces_append_pieces, ih (List.cons_ne_nil _ _)]
      rfl

/-- Lists joined by a separator that is in none of them are **the pieces of what they give**. -/
theorem pieces_intercalate {sep : α} {parts : List (List α)} (hne : parts ≠ [])
    (h : ∀ part ∈ parts, sep ∉ part) : pieces sep ([sep].intercalate parts) = parts := by
  have halone : parts.flatMap (pieces sep) = parts.flatMap fun part => [part] := by
    refine List.flatMap_congr ?_
    intro part hpart
    exact pieces_of_not_mem (h part hpart)
  rw [pieces_intercalate_pieces sep hne, halone, List.flatMap_singleton']

theorem infix_of_mem_pieces {sep : α} {l piece : List α} (h : piece ∈ pieces sep l) : piece <:+: l := by
  induction l using separatedRec sep with
  | alone l hl =>
    rw [pieces_of_not_mem hl, List.mem_singleton] at h
    exact h ▸ List.infix_rfl
  | parted a b ha ih =>
    rw [pieces_append ha] at h
    rcases List.mem_cons.1 h with rfl | h
    · exact (List.prefix_append _ _).isInfix
    · exact (ih h).trans ((List.suffix_cons sep b).trans (List.suffix_append a _)).isInfix

theorem not_mem_of_mem_pieces {sep : α} {l piece : List α} (h : piece ∈ pieces sep l) :
    sep ∉ piece := by
  induction l using separatedRec sep with
  | alone l hl =>
    rw [pieces_of_not_mem hl, List.mem_singleton] at h
    exact h ▸ hl
  | parted a b ha ih =>
    rw [pieces_append ha] at h
    rcases List.mem_cons.1 h with rfl | h
    · exact ha
    · exact ih h

/-- A piece stands **between two separators or ends**, and holds none. -/
theorem mem_pieces_iff {sep : α} {l piece : List α} :
    piece ∈ pieces sep l ↔ sep ∉ piece ∧ ∃ front back, l = front ++ piece ++ back ∧
      (front = [] ∨ ∃ a, front = a ++ [sep]) ∧ (back = [] ∨ ∃ b, back = sep :: b) := by
  constructor
  · intro h
    refine ⟨not_mem_of_mem_pieces h, ?_⟩
    induction l using separatedRec sep with
    | alone l hl =>
      rw [pieces_of_not_mem hl, List.mem_singleton] at h
      exact ⟨[], [], by simp [h], .inl rfl, .inl rfl⟩
    | parted a b ha ih =>
      rw [pieces_append ha] at h
      rcases List.mem_cons.1 h with rfl | h
      · exact ⟨[], sep :: b, rfl, .inl rfl, .inr ⟨b, rfl⟩⟩
      · obtain ⟨front, back, rfl, hfront, hback⟩ := ih h
        refine ⟨a ++ sep :: front, back, by simp, .inr ?_, hback⟩
        rcases hfront with rfl | ⟨front, rfl⟩
        · exact ⟨a, rfl⟩
        · exact ⟨a ++ sep :: front, by simp⟩
  · rintro ⟨hpiece, front, back, rfl, hfront, hback⟩
    have hfirst : piece ∈ pieces sep (piece ++ back) := by
      rcases hback with rfl | ⟨b, rfl⟩
      · rw [List.append_nil, pieces_of_not_mem hpiece]
        exact List.mem_singleton_self piece
      · rw [pieces_append hpiece]
        exact List.mem_cons_self
    rcases hfront with rfl | ⟨front, rfl⟩
    · exact hfirst
    · -- on what stands in front; its pieces come first
      induction front using separatedRec sep with
      | alone a ha =>
        rw [List.append_assoc, List.append_assoc, List.singleton_append, pieces_append ha]
        exact List.mem_cons_of_mem _ hfirst
      | parted a b ha ih =>
        rw [List.append_assoc, List.append_assoc, List.append_assoc, List.cons_append,
          pieces_append ha, ← List.append_assoc, ← List.append_assoc]
        exact List.mem_cons_of_mem _ ih

section Renaming

variable {β : Type} [BEq β] [LawfulBEq β] {f : α → β}

theorem pieces_map (hf : Function.Injective f) (sep : α) (l : List α) :
    pieces (f sep) (l.map f) = (pieces sep l).map (List.map f) := by
  induction l using separatedRec sep with
  | alone l hl =>
    rw [pieces_of_not_mem hl, pieces_of_not_mem (mt (List.mem_map_of_injective hf).1 hl)]
    rfl
  | parted a b ha ih =>
    rw [List.map_append, List.map_cons, pieces_append ha,
      pieces_append (mt (List.mem_map_of_injective hf).1 ha), ih, List.map_cons]

theorem cut_map (hf : Function.Injective f) (sep : α) (l : List α) :
    cut (f sep) (l.map f) = (cut sep l).map fun parts => (parts.1.map f, parts.2.map f) := by
  cases hcut : cut sep l with
  | none =>
    exact cut_eq_none_iff.2 (mt (List.mem_map_of_injective hf).1 (cut_eq_none_iff.1 hcut))
  | some parts =>
    obtain ⟨rfl, ha⟩ := cut_eq_some_iff.1 hcut
    refine cut_eq_some_iff.2 ⟨?_, mt (List.mem_map_of_injective hf).1 ha⟩
    rw [List.map_append, List.map_cons]

end Renaming

end HttpEngine.Text
