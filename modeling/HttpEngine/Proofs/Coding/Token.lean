import HttpEngine.Coding.Token
import Mathlib.Data.List.GetD

/-!
# Repetitions that are found are there

* `Token.best_repeats`: the repetition found at a place **is one**.
* `Token.copyBack_take`: copying it gives the data that it stands for.
* `Token.expand_cover`: the tokens for data stand for the data.
* `Token.within_of_mem_cover`: and every copy in them is one that can be written.
-/

namespace HttpEngine.Coding.Token

variable {data : Bytes} {i reach : Nat}

/-! ### Repetitions -/

/-- So many bytes from `i` on **are those so far back**. -/
structure Repeats (data : Bytes) (i reach distance length : Nat) : Prop where
  near : 1 ≤ distance
  within : distance ≤ reach
  inside : distance ≤ i
  short : length ≤ longest
  same : ∀ k < length, ∃ b, data[i + k]? = some b ∧ data[i - distance + k]? = some b

theorem agreement_le (array : Array UInt8) (i j most : Nat) : agreement array i j most ≤ most := by
  induction most generalizing i j with
  | zero => exact Nat.le_refl 0
  | succ most ih =>
    rw [agreement]
    split
    · split
      · exact Nat.succ_le_succ (ih _ _)
      · exact Nat.zero_le _
    · exact Nat.zero_le _

theorem same_of_agreement {j most k : Nat} (h : k < agreement data.toArray i j most) :
    ∃ b, data[i + k]? = some b ∧ data[j + k]? = some b := by
  induction most generalizing i j k with
  | zero => exact absurd h (Nat.not_lt_zero k)
  | succ most ih =>
    rw [agreement] at h
    split at h
    · rename_i b hb
      split at h
      · rename_i hj
        cases k with
        | zero => exact ⟨b, by simpa using hb, by simpa using hj⟩
        | succ k =>
          obtain ⟨x, hx, hy⟩ := ih (Nat.lt_of_succ_lt_succ h)
          exact ⟨x, by rw [← hx]; congr 1; omega, by rw [← hy]; congr 1; omega⟩
      · exact absurd h (Nat.not_lt_zero k)
    · exact absurd h (Nat.not_lt_zero k)

/-- The repetition that is found at a place **is one**. -/
theorem best_repeats (h : 0 < (best data.toArray i reach).2) :
    Repeats data i reach (best data.toArray i reach).1 (best data.toArray i reach).2 := by
  induction reach with
  | zero => exact absurd h (Nat.lt_irrefl 0)
  | succ reach ih =>
    have hfurther : ∀ distance length, Repeats data i reach distance length →
        Repeats data i (reach + 1) distance length :=
      fun _ _ r => ⟨r.near, Nat.le_succ_of_le r.within, r.inside, r.short, r.same⟩
    rw [best] at h ⊢
    dsimp only at h ⊢
    split at h
    · rename_i hinside
      rw [if_pos hinside]
      split at h
      · rename_i hlonger
        rw [if_pos hlonger]
        exact ⟨Nat.succ_pos _, Nat.le_refl _, hinside, agreement_le _ _ _ _,
          fun k hk => same_of_agreement hk⟩
      · rename_i hlonger
        rw [if_neg hlonger]
        exact hfurther _ _ (ih h)
    · rename_i hinside
      rw [if_neg hinside]
      exact hfurther _ _ (ih h)

/-! ### The data that tokens stand for -/

theorem reverse_take_succ {b : UInt8} (h : data[i]? = some b) :
    b :: (data.take i).reverse = (data.take (i + 1)).reverse := by
  rw [List.take_add_one, h, List.reverse_append]
  rfl

/-- Copying a repetition **continues the data**. -/
theorem copyBack_take {distance length : Nat} (hnear : 1 ≤ distance) (hinside : distance ≤ i)
    (h : ∀ k < length, ∃ b, data[i + k]? = some b ∧ data[i - distance + k]? = some b) :
    copyBack distance length (data.take i).reverse = (data.take (i + length)).reverse := by
  induction length generalizing i with
  | zero => rfl
  | succ length ih =>
    obtain ⟨b, hb, hback⟩ := h 0 (Nat.succ_pos _)
    rw [Nat.add_zero] at hb hback
    have hlt : i < data.length := (List.getElem?_eq_some_iff.1 hb).1
    have hbyte : (data.take i).reverse.getD (distance - 1) 0 = b := by
      have hsize : (data.take i).length = i := List.length_take_of_le (Nat.le_of_lt hlt)
      rw [List.getD_eq_getElem?_getD, List.getElem?_reverse (by omega), hsize,
        List.getElem?_take_of_lt (by omega)]
      have hindex : i - 1 - (distance - 1) = i - distance := by omega
      rw [hindex, hback]
      rfl
    have hnext : ∀ k < length, ∃ b, data[i + 1 + k]? = some b ∧
        data[i + 1 - distance + k]? = some b := by
      intro k hk
      obtain ⟨x, hx, hy⟩ := h (k + 1) (Nat.succ_lt_succ hk)
      exact ⟨x, by rw [← hx]; congr 1; omega, by rw [← hy]; congr 1; omega⟩
    have hend : i + 1 + length = i + (length + 1) := by omega
    rw [copyBack, hbyte, reverse_take_succ hb, ih (Nat.le_succ_of_le hinside) hnext, hend]

theorem coverFrom_of_lt (h : i < data.length) :
    coverFrom data.toArray reach i
      = if shortest ≤ (best data.toArray i reach).2 then
          copy (best data.toArray i reach).1 (best data.toArray i reach).2
            :: coverFrom data.toArray reach (i + (best data.toArray i reach).2)
        else literal data[i] :: coverFrom data.toArray reach (i + 1) := by
  rw [coverFrom, dif_pos (by simpa using h)]
  rfl

theorem coverFrom_of_le (h : data.length ≤ i) : coverFrom data.toArray reach i = [] := by
  rw [coverFrom, dif_neg (by simpa using h)]

/-- A copy that can be written: **not too short, too long or too far back**. -/
def Within (reach : Nat) : Token → Prop
  | literal _ => True
  | copy distance length =>
    1 ≤ distance ∧ distance ≤ reach ∧ shortest ≤ length ∧ length ≤ longest

theorem Repeats.fits {distance length : Nat} (h : Repeats data i reach distance length)
    (hlong : shortest ≤ length) : i + length ≤ data.length := by
  have hpos : 0 < length := Nat.lt_of_lt_of_le (by decide) hlong
  obtain ⟨b, hb, -⟩ := h.same (length - 1) (Nat.sub_lt hpos Nat.one_pos)
  have := (List.getElem?_eq_some_iff.1 hb).1
  omega

/-- The tokens from a place on **continue the data** that is in front of it to its end. -/
theorem expand_coverFrom (h : i ≤ data.length) :
    expand (data.take i).reverse (coverFrom data.toArray reach i) = data.reverse ∧
      ∀ t ∈ coverFrom data.toArray reach i, t.Within reach := by
  induction hn : data.length - i using Nat.strongRecOn generalizing i with
  | ind n ih =>
    rcases Nat.lt_or_eq_of_le h with hlt | rfl
    · rw [coverFrom_of_lt hlt]
      split
      · rename_i hlong
        have hpos : 0 < (best data.toArray i reach).2 := Nat.lt_of_lt_of_le (by decide) hlong
        have hrepeats := best_repeats hpos
        obtain ⟨hexpand, hwithin⟩ := ih _ (by omega) (hrepeats.fits hlong) rfl
        refine ⟨?_, List.forall_mem_cons.2
          ⟨⟨hrepeats.near, hrepeats.within, hlong, hrepeats.short⟩, hwithin⟩⟩
        rw [← hexpand, ← copyBack_take hrepeats.near hrepeats.inside hrepeats.same]
        rfl
      · obtain ⟨hexpand, hwithin⟩ := ih _ (by omega) (Nat.succ_le_of_lt hlt) rfl
        refine ⟨?_, List.forall_mem_cons.2 ⟨trivial, hwithin⟩⟩
        rw [← hexpand, ← reverse_take_succ (List.getElem?_eq_getElem hlt)]
        rfl
    · rw [coverFrom_of_le (Nat.le_refl _), List.take_length]
      exact ⟨rfl, fun _ ht => absurd ht List.not_mem_nil⟩

/-- The tokens for data **stand for the data**. -/
theorem expand_cover (reach : Nat) (data : Bytes) : expand [] (cover reach data) = data.reverse :=
  (expand_coverFrom (Nat.zero_le _)).1

theorem within_of_mem_cover {t : Token} (h : t ∈ cover reach data) : t.Within reach :=
  (expand_coverFrom (Nat.zero_le _)).2 t h

end HttpEngine.Coding.Token
