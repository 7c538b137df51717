import HttpEngine.Handling.Compression
import HttpEngine.Proofs.Text.Pieces
import HttpEngine.Proofs.Text.Trimming
import Mathlib.Logic.Relation

/-!
# Which compressor a client and a configuration agree on

A client's text is read for **the set of names it lists** and for nothing else: their order, their
number, their case and the blanks around them are lost on the choice, which goes through the
configured compressors in their own order.

* `Compressor.Lists`: a name stands in a text between two commas.
* `Compressor.Rewording`: changes to a text that leave the configured names in it as they are.
* `Compressor.choose?_of_names`: the choice is the first configured compressor that is listed.
-/

namespace HttpEngine

open Text

/-- A character made small is itself, **or 32 places after a capital**. -/
theorem Text.toLower_cases (c : Char) :
    c.toLower = c ∨ 65 ≤ c.toNat ∧ c.toNat ≤ 90 ∧ c.toLower.toNat = c.toNat + 32 := by
  by_cases hc : c.isUpper = true
  · right
    have hval : c.toLower.val = c.val + 32 := congrArg Char.val (dif_pos (of_decide_eq_true hc))
    have hadd : (c.val + 32).toNat = (c.val.toNat + 32) % 2 ^ 32 := UInt32.toNat_add c.val 32
    obtain ⟨hA, hZ⟩ := of_decide_eq_true hc
    have hlow : 65 ≤ c.toNat := UInt32.le_iff_toNat_le.1 hA
    have hhigh : c.toNat ≤ 90 := UInt32.le_iff_toNat_le.1 hZ
    refine ⟨hlow, hhigh, ?_⟩
    show c.toLower.val.toNat = c.val.toNat + 32
    have hsmall : c.val.toNat ≤ 90 := hhigh
    rw [hval, hadd]
    exact Nat.mod_eq_of_lt (by omega)
  · exact .inl (dif_neg fun he => hc (decide_eq_true he))

theorem Text.isBlank_toLower (c : Char) : isBlank c.toLower = isBlank c := by
  rcases toLower_cases c with h | ⟨hlow, hhigh, h⟩
  · rw [h]
  · -- no letter is blank
    simp only [isBlank, blankRanges, h, List.any_cons, List.any_nil]
    grind

namespace Compressor

/-- What stands between two commas names a coding: it is the name **in any ASCII case**, with
nothing but blanks around it. -/
def Names (part : List Char) (name : String) : Prop :=
  ∃ left token right, part = left ++ token ++ right ∧ (∀ c ∈ left, isBlank c) ∧
    (∀ c ∈ right, isBlank c) ∧ Bare isBlank token ∧ sameName (String.ofList token) name

/-- A text lists a name if a part of it does that has **a comma or an end of the text** on both
sides. -/
def Lists (accepted name : String) : Prop :=
  ∃ front part back, accepted.toList = front ++ part ++ back ∧
    (front = [] ∨ ∃ a, front = a ++ [',']) ∧ (back = [] ∨ ∃ b, back = ',' :: b) ∧
    ',' ∉ part ∧ Names part name

variable {part part' : List Char} {parts parts' : List (List Char)} {name accepted : String}
  {offered : List Compressor} {c : Compressor}

theorem names_iff : Names part name ↔ (trimChars part).map Char.toLower = folded name := by
  rw [trimChars_eq]
  constructor
  · rintro ⟨left, token, right, hpart, hleft, hright, hbare, hname⟩
    rw [trimBy_eq_iff.2 ⟨left, right, hpart, hleft, hright, hbare⟩]
    rwa [sameName_iff, folded, String.toList_ofList] at hname
  · intro h
    obtain ⟨left, right, hpart, hleft, hright, hbare⟩ := trimBy_eq_iff.1 (Eq.refl (trimBy isBlank part))
    refine ⟨left, _, right, hpart, hleft, hright, hbare, ?_⟩
    rwa [sameName_iff, folded, String.toList_ofList]

theorem lists_iff : Lists accepted name ↔ ∃ part ∈ pieces ',' accepted.toList, Names part name := by
  constructor
  · rintro ⟨front, part, back, htext, hfront, hback, hpart, hname⟩
    exact ⟨part, mem_pieces_iff.2 ⟨hpart, front, back, htext, hfront, hback⟩, hname⟩
  · rintro ⟨part, hmem, hname⟩
    obtain ⟨hpart, front, back, htext, hfront, hback⟩ := mem_pieces_iff.1 hmem
    exact ⟨front, part, back, htext, hfront, hback, hpart, hname⟩

theorem any_tokens_iff : (tokens accepted).any (sameName · name) = true ↔ Lists accepted name := by
  rw [lists_iff, tokens, List.any_map, List.any_eq_true]
  refine exists_congr fun part => and_congr_right fun _ => ?_
  rw [names_iff, Function.comp_apply, sameName_iff, folded, String.toList_ofList]

instance (accepted name : String) : Decidable (Lists accepted name) :=
  decidable_of_iff _ any_tokens_iff

theorem choose?_eq_find? (offered : List Compressor) (accepted : String) :
    choose? offered accepted = offered.find? fun c => decide (Lists accepted c.name) := by
  unfold choose?
  congr 1
  funext c
  rw [Bool.eq_iff_iff, any_tokens_iff, decide_eq_true_eq]

/-! ### The same names in other words -/

/-- A change to the parts of a text after which they name **the same configured compressors**. -/
inductive Rewording (offered : List Compressor) : List (List Char) → List (List Char) → Prop
  | reordered {parts parts' : List (List Char)} : parts.Perm parts' →
      Rewording offered parts parts'
  | repeated {part : List Char} {parts : List (List Char)} : part ∈ parts →
      Rewording offered parts (part :: parts)
  | recased {part part' : List Char} {front back : List (List Char)} :
      part.map Char.toLower = part'.map Char.toLower →
      Rewording offered (front ++ part :: back) (front ++ part' :: back)
  | padded {left part right : List Char} {front back : List (List Char)} :
      (∀ c ∈ left, isBlank c) → (∀ c ∈ right, isBlank c) →
      Rewording offered (front ++ part :: back) (front ++ (left ++ part ++ right) :: back)
  /-- A part that names no configured compressor. -/
  | added {part : List Char} {parts : List (List Char)} : (∀ c ∈ offered, ¬ Names part c.name) →
      Rewording offered parts (part :: parts)

/-- A text is another one reworded: **any number of such changes, made or undone**, lead from one to
the other. -/
def Reworded (offered : List Compressor) (accepted accepted' : String) : Prop :=
  Relation.EqvGen (Rewording offered) (pieces ',' accepted.toList) (pieces ',' accepted'.toList)

theorem names_of_recased (h : part.map Char.toLower = part'.map Char.toLower) :
    Names part name ↔ Names part' name := by
  have hblank : isBlank ∘ Char.toLower = isBlank := funext isBlank_toLower
  have hlow : ∀ cs : List Char,
      (trimChars cs).map Char.toLower = trimBy isBlank (cs.map Char.toLower) := by
    intro cs
    rw [trimBy_map, hblank, trimChars_eq]
  rw [names_iff, names_iff, hlow, hlow, h]

theorem names_padded {left right : List Char} (hleft : ∀ c ∈ left, isBlank c)
    (hright : ∀ c ∈ right, isBlank c) : Names (left ++ part ++ right) name ↔ Names part name := by
  rw [names_iff, names_iff, trimChars_eq, trimChars_eq, trimBy_padded hleft hright]

/-- **One change** leaves the names of the configured compressors as they are. -/
theorem Rewording.listed (h : Rewording offered parts parts') (hc : c ∈ offered) :
    (∃ part ∈ parts, Names part c.name) ↔ ∃ part ∈ parts', Names part c.name := by
  cases h with
  | reordered hperm => simp only [hperm.mem_iff]
  | repeated hmem =>
    simp only [List.exists_mem_cons_iff]
    exact ⟨.inr, fun h => h.elim (fun hname => ⟨_, hmem, hname⟩) id⟩
  | recased hcase =>
    simp only [List.mem_append, or_and_right, exists_or, List.exists_mem_cons_iff,
      names_of_recased hcase]
  | padded hleft hright =>
    simp only [List.mem_append, or_and_right, exists_or, List.exists_mem_cons_iff,
      names_padded hleft hright]
  | added hnone => simp only [List.exists_mem_cons_iff, hnone c hc, false_or]

/-- **Any changes** do. -/
theorem listed_of_eqvGen (h : Relation.EqvGen (Rewording offered) parts parts') (hc : c ∈ offered) :
    (∃ part ∈ parts, Names part c.name) ↔ ∃ part ∈ parts', Names part c.name := by
  induction h with
  | rel _ _ hstep => exact hstep.listed hc
  | refl => exact Iff.rfl
  | symm _ _ _ ih => exact ih.symm
  | trans _ _ _ _ _ ih ih' => exact ih.trans ih'

theorem choose?_congr {accepted' : String}
    (h : ∀ c ∈ offered, Lists accepted c.name ↔ Lists accepted' c.name) :
    choose? offered accepted' = choose? offered accepted := by
  rw [choose?_eq_find?, choose?_eq_find?]
  induction offered with
  | nil => rfl
  | cons c offered ih =>
    obtain ⟨hc, hmore⟩ := List.forall_mem_cons.1 h
    simp only [List.find?_cons, hc, ih hmore]

/-! ### Parameters -/

/-- A part with a parameter names only what has **a semicolon in its own name**. -/
theorem semicolon_mem_of_names (hsemi : ';' ∈ part) (h : Names part name) : ';' ∈ name.toList := by
  have hmem : ';' ∈ trimChars part := mem_trimBy hsemi (by decide)
  have hlow : ';' ∈ folded name := names_iff.1 h ▸ List.mem_map.2 ⟨';', hmem, rfl⟩
  obtain ⟨d, hd, hsmall⟩ := List.mem_map.1 hlow
  rcases toLower_cases d with hsame | ⟨hA, -, hplus⟩
  · rwa [← hsmall, hsame]
  · -- a capital made small is past the semicolon
    rw [hsmall, show ';'.toNat = 59 from rfl] at hplus
    omega

/-- None of the codings that are configured by name is named **with a parameter**. -/
theorem not_names_of_parameter {encode : Encoder} {codings : Compression}
    (hc : c ∈ codings.compressors encode) (hsemi : ';' ∈ part) : ¬ Names part c.name := by
  intro h
  have hmem := semicolon_mem_of_names hsemi h
  obtain ⟨coding, -, rfl⟩ := List.mem_map.1 hc
  change ';' ∈ coding.name.toList at hmem
  revert hmem
  cases coding <;> decide

/-! ### The choice -/

/-- **Only the names count.** The compressor chosen is the first in the configured order whose name
the client's text lists, and there is none if it lists none of them. So texts that list the same
configured names are answered alike, however they are worded; a part with a parameter is not the
name it begins with; and compressors configured behind the others are chosen only where none of
those is. -/
theorem choose?_of_names (offered : List Compressor) (accepted : String) :
    (∀ c, choose? offered accepted = some c ↔
      ∃ i : Nat, offered[i]? = some c ∧ Lists accepted c.name ∧
        ∀ j < i, ∀ d : Compressor, offered[j]? = some d → ¬ Lists accepted d.name) ∧
    (choose? offered accepted = none ↔ ∀ c ∈ offered, ¬ Lists accepted c.name) ∧
    (∀ accepted', (∀ c ∈ offered, Lists accepted c.name ↔ Lists accepted' c.name) →
      choose? offered accepted' = choose? offered accepted) ∧
    (∀ accepted', Reworded offered accepted accepted' →
      choose? offered accepted' = choose? offered accepted) ∧
    (∀ part, ';' ∈ part → (∀ c ∈ offered, Names part c.name → ';' ∈ c.name.toList) ∧
      ∀ (encode : Encoder) (codings : Compression), ∀ c ∈ codings.compressors encode,
        ¬ Names part c.name) ∧
    ∀ more, choose? (offered ++ more) accepted
      = (choose? offered accepted).or (choose? more accepted) := by
  refine ⟨fun c => ?_, ?_, fun _ => choose?_congr, fun accepted' h => choose?_congr fun c hc => ?_,
    fun part hsemi => ⟨fun c _ => semicolon_mem_of_names hsemi,
      fun encode codings c hc => not_names_of_parameter hc hsemi⟩, fun more => ?_⟩
  · rw [choose?_eq_find?, List.find?_eq_some_iff_getElem]
    constructor
    · rintro ⟨hlists, i, hi, hget, hbefore⟩
      refine ⟨i, by rw [List.getElem?_eq_getElem hi, hget], of_decide_eq_true hlists,
        fun j hj d hd => ?_⟩
      obtain ⟨hlt, rfl⟩ := List.getElem?_eq_some_iff.1 hd
      simpa using hbefore j hj
    · rintro ⟨i, hget, hlists, hbefore⟩
      obtain ⟨hi, hget⟩ := List.getElem?_eq_some_iff.1 hget
      refine ⟨decide_eq_true hlists, i, hi, hget, fun j hj => ?_⟩
      simpa using hbefore j hj _ (List.getElem?_eq_getElem (Nat.lt_trans hj hi))
  · rw [choose?_eq_find?, List.find?_eq_none]
    simp only [decide_eq_true_eq]
  · rw [lists_iff, lists_iff]
    exact listed_of_eqvGen h hc
  · simp only [choose?_eq_find?, List.find?_append]

/-- The client's preference is the other one, in other letters, with a parameter and padded. -/
theorem choose?_of_names_reworded :
    let offered := (⟨[.gzip, .deflate], 6⟩ : Compression).compressors ContentCoding.encode
    (choose? offered "gzip;q=1,\tDEFLATE").map (·.name) = some "deflate" := by
  intro offered
  have hgzip : ∀ c ∈ offered, ¬ Names "gzip;q=1".toList c.name :=
    ((choose?_of_names offered "deflate").2.2.2.2.1 _ (by decide)).2 _ _
  have hrecased : Rewording offered ([] ++ ["deflate".toList]) ([] ++ ["DEFLATE".toList]) :=
    .recased (by decide)
  have hpadded : Rewording offered ([] ++ ["DEFLATE".toList])
      ([] ++ [['\t'] ++ "DEFLATE".toList ++ []]) :=
    .padded (List.forall_mem_singleton.2 rfl) (List.forall_mem_nil _)
  have hreworded : Reworded offered "deflate" "gzip;q=1,\tDEFLATE" :=
    .trans _ _ _ (.rel _ _ hrecased) (.trans _ _ _ (.rel _ _ hpadded) (.rel _ _ (.added hgzip)))
  rw [(choose?_of_names offered "deflate").2.2.2.1 _ hreworded]
  decide +kernel

end Compressor

end HttpEngine
