import HttpEngine.Text.Cut

/-!
# What a cut finds

* `cut_eq_some_iff`, `cutLast_eq_some_iff`: a list is cut at its **first**, or its **last**,
  separator.
* `cutAt_pair_eq_some_iff`: a list is cut at the first place where two different elements
  stand next to each other.
-/

namespace HttpEngine.Text

variable {α : Type} [BEq α] [LawfulBEq α]

theorem cut_eq_none_iff {sep : α} {l : List α} : cut sep l = none ↔ sep ∉ l := by
  induction l with
  | nil => simp [cut]
  | cons x rest ih =>
    by_cases hx : x = sep
    · simp [cut, hx]
    · have hne : ¬ sep = x := fun h => hx h.symm
      simp [cut, hx, hne, ih]

theorem cutLast_eq_none_iff {sep : α} {l : List α} : cutLast sep l = none ↔ sep ∉ l := by
  induction l with
  | nil => simp [cutLast]
  | cons x rest ih =>
    rw [cutLast]
    cases h : cutLast sep rest with
    | some ab =>
      have : sep ∈ rest := Decidable.byContradiction fun hn => by
        rw [ih.2 hn] at h
        cases h
      simp [this]
    | none =>
      have hrest := ih.1 h
      by_cases hx : x = sep
      · simp [hx]
      · have hne : ¬ sep = x := fun h => hx h.symm
        simp [hx, hne, hrest]

/-- A list is cut **at its first separator**. -/
theorem cut_eq_some_iff {sep : α} {l a b : List α} :
    cut sep l = some (a, b) ↔ l = a ++ sep :: b ∧ sep ∉ a := by
  induction l generalizing a with
  | nil => simp [cut]
  | cons x rest ih =>
    by_cases hx : x = sep
    · subst hx
      constructor
      · intro h
        simp only [cut, beq_self_eq_true, if_true, Option.some.injEq, Prod.mk.injEq] at h
        obtain ⟨rfl, rfl⟩ := h
        simp
      · rintro ⟨h, hn⟩
        cases a with
        | nil => simpa [cut] using h
        | cons c a =>
          simp only [List.cons_append, List.cons.injEq] at h
          exact absurd h.1 (fun hc => hn (by simp [hc]))
    · constructor
      · intro h
        simp only [cut, beq_iff_eq, hx, if_false, Option.map_eq_some_iff] at h
        obtain ⟨⟨a', b'⟩, h', he⟩ := h
        obtain ⟨rfl, rfl⟩ := Prod.mk.inj he
        obtain ⟨rfl, hn⟩ := ih.1 h'
        have hne : ¬ sep = x := fun h => hx h.symm
        simp [hn, hne]
      · rintro ⟨h, hn⟩
        cases a with
        | nil => exact absurd (List.cons.inj h).1 hx
        | cons c a =>
          rw [List.cons_append] at h
          obtain ⟨rfl, hr⟩ := List.cons.inj h
          have := ih.2 ⟨hr, fun hm => hn (List.mem_cons_of_mem _ hm)⟩
          simp [cut, hx, this]

/-- A list is cut **at its last separator**. -/
theorem cutLast_eq_some_iff {sep : α} {l a b : List α} :
    cutLast sep l = some (a, b) ↔ l = a ++ sep :: b ∧ sep ∉ b := by
  induction l generalizing a b with
  | nil => simp [cutLast]
  | cons x rest ih =>
    rw [cutLast]
    cases h : cutLast sep rest with
    | some ab =>
      obtain ⟨a', b'⟩ := ab
      simp only [Option.some.injEq, Prod.mk.injEq]
      constructor
      · rintro ⟨rfl, rfl⟩
        obtain ⟨rfl, hn⟩ := ih.1 h
        exact ⟨rfl, hn⟩
      · rintro ⟨he, hn⟩
        cases a with
        | nil =>
          -- the rest has a separator, so the last one is not in front
          obtain ⟨-, rfl⟩ := List.cons.inj he
          obtain ⟨rfl, -⟩ := ih.1 h
          simp at hn
        | cons c a =>
          rw [List.cons_append] at he
          obtain ⟨rfl, hr⟩ := List.cons.inj he
          have := (ih (a := a)).2 ⟨hr, hn⟩
          rw [h] at this
          simp only [Option.some.injEq, Prod.mk.injEq] at this
          exact ⟨by rw [this.1], this.2⟩
    | none =>
      have hrest := cutLast_eq_none_iff.1 h
      by_cases hx : x = sep
      · subst hx
        simp only [beq_self_eq_true, if_true, Option.some.injEq, Prod.mk.injEq]
        constructor
        · rintro ⟨rfl, rfl⟩
          exact ⟨rfl, hrest⟩
        · rintro ⟨he, -⟩
          cases a with
          | nil => exact ⟨rfl, (List.cons.inj he).2⟩
          | cons c a =>
            obtain ⟨rfl, rfl⟩ := List.cons.inj he
            simp at hrest
      · simp only [beq_iff_eq, hx, if_false, reduceCtorEq, false_iff, not_and]
        intro he
        cases a with
        | nil => exact absurd (List.cons.inj he).1 hx
        | cons c a =>
          obtain ⟨rfl, rfl⟩ := List.cons.inj he
          simp at hrest

/-! ### Two elements next to each other -/

theorem isPrefixOf_eq_false {pattern l : List α} (h : ¬ pattern <+: l) :
    pattern.isPrefixOf l = false := by
  rw [Bool.eq_false_iff]
  exact fun hc => h (List.isPrefixOf_iff_prefix.1 hc)

theorem cutAt_eq_none_iff {pattern l : List α} (hp : pattern ≠ []) :
    cutAt pattern l = none ↔ ¬ pattern <:+: l := by
  induction l with
  | nil => simp [cutAt, hp]
  | cons x rest ih =>
    by_cases h : pattern <+: x :: rest
    · have hb := List.isPrefixOf_iff_prefix.2 h
      simp [cutAt, hb, h.isInfix]
    · have hb := isPrefixOf_eq_false h
      simp [cutAt, hb, ih, List.infix_cons_iff, h]

/-- A list is cut **where the pair stands first**. -/
theorem cutAt_pair_eq_some_iff {x y : α} (hxy : x ≠ y) {l a b : List α} :
    cutAt [x, y] l = some (a, b) ↔ l = a ++ x :: y :: b ∧ ¬ [x, y] <:+: a := by
  induction l generalizing a with
  | nil => simp [cutAt]
  | cons c rest ih =>
    by_cases h : [x, y] <+: c :: rest
    · have hb := List.isPrefixOf_iff_prefix.2 h
      obtain ⟨t, ht⟩ := h
      simp only [List.cons_append, List.nil_append, List.cons.injEq] at ht
      obtain ⟨rfl, rfl⟩ := ht
      simp only [cutAt, hb, if_true, Option.some.injEq, Prod.mk.injEq]
      constructor
      · rintro ⟨rfl, rfl⟩
        simp
      · rintro ⟨he, hn⟩
        match a with
        | [] =>
          simp only [List.nil_append, List.cons.injEq, true_and] at he
          simpa using he
        | [d] =>
          -- the pair would begin with its own second element
          simp only [List.cons_append, List.nil_append, List.cons.injEq] at he
          exact absurd he.2.1.symm hxy
        | d :: e :: a =>
          simp only [List.cons_append, List.cons.injEq] at he
          obtain ⟨rfl, rfl, -⟩ := he
          exact absurd ⟨[], a, rfl⟩ hn
    · have hb := isPrefixOf_eq_false h
      simp only [cutAt, hb, Bool.false_eq_true, if_false, Option.map_eq_some_iff]
      constructor
      · rintro ⟨⟨a', b'⟩, h', he⟩
        obtain ⟨rfl, rfl⟩ := Prod.mk.inj he
        obtain ⟨rfl, hn⟩ := ih.1 h'
        refine ⟨rfl, fun hi => ?_⟩
        -- the pair stands neither in front nor later
        rcases List.infix_cons_iff.1 hi with hp | hp
        · exact h (hp.trans ⟨x :: y :: b', rfl⟩)
        · exact hn hp
      · rintro ⟨he, hn⟩
        cases a with
        | nil => exact absurd ⟨b, by simpa using he.symm⟩ h
        | cons d a =>
          rw [List.cons_append] at he
          obtain ⟨rfl, hr⟩ := List.cons.inj he
          refine ⟨(a, b), ih.2 ⟨hr, fun hi => hn ?_⟩, rfl⟩
          exact List.infix_cons_iff.2 (.inr hi)

end HttpEngine.Text
