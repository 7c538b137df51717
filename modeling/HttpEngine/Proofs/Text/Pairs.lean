import HttpEngine.Proofs.Text.Pieces
import HttpEngine.Proofs.Text.Trimming

/-!
# Names and values between separators

Pairs are written with one sign between name and value, and a separator and a blank between one pair
and the next. Where no name holds the first and no pair the separator, **the pairs are read back**,
without the blanks at the ends of their names and values.

* `pairIn?`: the name and the value in one piece.
* `pairIn?_trimBy`: blanks around a piece are blanks around its name or its value.
* `parts_of_pairIn?`, `parts_of_mem_pairs`: what a name and a value that are read have in common.
* `pairsIn_intercalate`: pairs that are joined, read back.
-/

namespace HttpEngine.Text

variable {α : Type} [BEq α]

/-- A name and a value **on both sides of the first `equals`**, without the blanks around them. -/
def pairIn? (p : α → Bool) (equals : α) (piece : List α) : Option (List α × List α) :=
  (cut equals piece).map fun (name, value) => (trimBy p name, trimBy p value)

/-- A name and a value with `equals` between them. -/
def paired (equals : α) (e : List α × List α) : List α := e.1 ++ equals :: e.2

variable [LawfulBEq α] {p : α → Bool} {equals sep blank : α} {e : List α × List α}

/-- Blanks **around a piece** are blanks around its name or its value. -/
theorem pairIn?_trimBy (h : ¬ p equals) (piece : List α) :
    pairIn? p equals (trimBy p piece) = pairIn? p equals piece := by
  unfold pairIn?
  cases hcut : cut equals piece with
  | none =>
    have hnot : equals ∉ trimBy p piece := by
      intro hm
      exact cut_eq_none_iff.1 hcut ((infix_trimBy piece).subset hm)
    rw [cut_eq_none_iff.2 hnot]
  | some parts =>
    obtain ⟨name, value⟩ := parts
    obtain ⟨rfl, hname⟩ := cut_eq_some_iff.1 hcut
    have hnot : equals ∉ name.dropWhile p := by
      intro hm
      exact hname ((List.dropWhile_suffix p).subset hm)
    rw [trimBy_append_cons h, cut_eq_some_iff.2 ⟨rfl, hnot⟩]
    simp only [Option.map_some, trimBy_dropWhile, trimBy_rdropWhile]

/-- A name and a value that are read are **parts of their piece**, with no blanks at their ends. -/
theorem parts_of_pairIn? {piece : List α} (h : pairIn? p equals piece = some e) :
    (e.1 <:+: piece ∧ e.2 <:+: piece) ∧ equals ∉ e.1 ∧ trimBy p e.1 = e.1 ∧ trimBy p e.2 = e.2 := by
  obtain ⟨⟨name, value⟩, hcut, rfl⟩ := Option.map_eq_some_iff.1 h
  obtain ⟨rfl, hname⟩ := cut_eq_some_iff.1 hcut
  have hfirst : trimBy p name <:+: name ++ equals :: value :=
    (infix_trimBy name).trans (List.prefix_append _ _).isInfix
  have hsecond : trimBy p value <:+: name ++ equals :: value :=
    (infix_trimBy value).trans ((List.suffix_cons _ _).trans (List.suffix_append _ _)).isInfix
  refine ⟨⟨hfirst, hsecond⟩, ?_, trimBy_trimBy name, trimBy_trimBy value⟩
  intro hm
  exact hname ((infix_trimBy name).subset hm)

/-- A name and a value that are read from a text are **parts of it**, and hold no separator. -/
theorem parts_of_mem_pairs {text : List α}
    (h : e ∈ (pieces sep text).filterMap (pairIn? p equals)) :
    (e.1 <:+: text ∧ e.2 <:+: text) ∧ (sep ∉ e.1 ∧ equals ∉ e.1 ∧ sep ∉ e.2) ∧
      trimBy p e.1 = e.1 ∧ trimBy p e.2 = e.2 := by
  obtain ⟨piece, hpiece, he⟩ := List.mem_filterMap.1 h
  obtain ⟨⟨hname, hvalue⟩, hequals, hbare⟩ := parts_of_pairIn? he
  have hsep := not_mem_of_mem_pieces hpiece
  have htext := infix_of_mem_pieces hpiece
  refine ⟨⟨hname.trans htext, hvalue.trans htext⟩, ⟨?_, hequals, ?_⟩, hbare⟩
  · intro hm
    exact hsep (hname.subset hm)
  · intro hm
    exact hsep (hvalue.subset hm)

theorem pairIn?_paired (h : equals ∉ e.1) :
    pairIn? p equals (paired equals e) = some (trimBy p e.1, trimBy p e.2) := by
  rw [pairIn?, paired, cut_eq_some_iff.2 ⟨rfl, h⟩, Option.map_some]

theorem pairIn?_blank (hblank : p blank) (h : ¬ p equals) (piece : List α) :
    pairIn? p equals (blank :: piece) = pairIn? p equals piece := by
  rw [← pairIn?_trimBy h (blank :: piece), trimBy_cons hblank, pairIn?_trimBy h]

/-- A separator of two is **a separator of one**, and what is behind it begins with the other. -/
theorem intercalate_pair {β : Type} (a b : β) (l : List β) (ls : List (List β)) :
    [a, b].intercalate (l :: ls) = [a].intercalate (l :: ls.map (b :: ·)) := by
  have hfront : ∀ (l : List β) (ls : List (List β)),
      [a].intercalate ((b :: l) :: ls) = b :: [a].intercalate (l :: ls) := by
    intro l ls
    cases ls with
    | nil => simp only [List.intercalate_singleton]
    | cons m ls => simp only [List.intercalate_cons_cons, List.cons_append]
  induction ls generalizing l with
  | nil => simp only [List.map_nil, List.intercalate_singleton]
  | cons m ls ih =>
    rw [List.map_cons, List.intercalate_cons_cons, List.intercalate_cons_cons, hfront, ih]
    simp only [List.append_assoc, List.cons_append, List.nil_append]

/-- Pairs that are joined are **read back one by one**, without the blanks at the ends of their names
and values. -/
theorem pairsIn_intercalate (hblank : p blank) (hequals : ¬ p equals) (hsep : sep ≠ blank)
    {es : List (List α × List α)} (h : ∀ e ∈ es, equals ∉ e.1 ∧ sep ∉ paired equals e) :
    (pieces sep ([sep, blank].intercalate (es.map (paired equals)))).filterMap (pairIn? p equals)
      = es.map fun e => (trimBy p e.1, trimBy p e.2) := by
  cases es with
  | nil => rfl
  | cons e rest =>
    obtain ⟨he, hrest⟩ := List.forall_mem_cons.1 h
    have hparts : ∀ part ∈ paired equals e :: (rest.map (paired equals)).map (blank :: ·),
        sep ∉ part := by
      refine List.forall_mem_cons.2 ⟨he.2, ?_⟩
      intro part hpart
      obtain ⟨_, hpair, rfl⟩ := List.mem_map.1 hpart
      obtain ⟨f, hf, rfl⟩ := List.mem_map.1 hpair
      exact List.not_mem_cons_of_ne_of_not_mem hsep (hrest f hf).2
    have hread : ∀ f ∈ rest, pairIn? p equals (blank :: paired equals f)
        = some (trimBy p f.1, trimBy p f.2) := by
      intro f hf
      rw [pairIn?_blank hblank hequals, pairIn?_paired (hrest f hf).1]
    rw [List.map_cons, intercalate_pair, pieces_intercalate (List.cons_ne_nil _ _) hparts,
      List.filterMap_cons, pairIn?_paired he.1, List.map_map, List.filterMap_map, List.map_cons]
    refine congrArg (_ :: ·) ?_
    rw [← List.filterMap_eq_map]
    exact List.filterMap_congr hread

end HttpEngine.Text
