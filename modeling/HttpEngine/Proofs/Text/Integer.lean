import HttpEngine.Text.Blank
import HttpEngine.Text.Integer

/-!
# Numbers read back

* `trim_toString`: a number written out has no blanks around it.
* `intUpTo?_toString`: a number within its bound, **written out and read back**.
* `natUpTo?_of_intUpTo?`: a text that is an integer, **read without a sign**.
-/

namespace HttpEngine.Text

theorem digitsValue_toDigits (n : Nat) : digitsValue (Nat.toDigits 10 n) = n := by
  have := Nat.ofDigitChars_ten_toDigits (n := n)
  rw [Nat.ofDigitChars_eq_foldl] at this
  simpa only [digitsValue, Nat.mul_comm] using this

theorem digits?_toDigits (n : Nat) : digits? (Nat.toDigits 10 n) = some n := by
  have hne : (Nat.toDigits 10 n).isEmpty = false := List.isEmpty_eq_false_iff.2 Nat.toDigits_ne_nil
  have hall : (Nat.toDigits 10 n).all Char.isDigit = true :=
    List.all_eq_true.2 fun _ hc => Nat.isDigit_of_mem_toDigits (by decide) (by decide) hc
  simp only [digits?, hne, hall, digitsValue_toDigits]
  rfl

theorem isBlank_of_isDigit {c : Char} (h : c.isDigit = true) : isBlank c = false := by
  have hr : 48 ≤ c.toNat ∧ c.toNat ≤ 57 := by
    simp only [Char.isDigit, Bool.and_eq_true, decide_eq_true_eq] at h
    exact ⟨UInt32.le_iff_toNat_le.1 h.1, UInt32.le_iff_toNat_le.1 h.2⟩
  rw [Bool.eq_false_iff]
  intro hb
  simp only [isBlank, blankRanges, List.any_cons, List.any_nil, Bool.or_eq_true, Bool.and_eq_true,
    decide_eq_true_eq, Bool.or_false] at hb
  omega

theorem trimChars_of_no_blank {cs : List Char} (h : ∀ c ∈ cs, isBlank c = false) :
    trimChars cs = cs := by
  have keep : ∀ cs : List Char, (∀ c ∈ cs, isBlank c = false) → cs.dropWhile isBlank = cs := by
    intro cs hcs
    cases cs with
    | nil => rfl
    | cons c cs => rw [List.dropWhile_cons_of_neg (by simp [hcs c List.mem_cons_self])]
  unfold trimChars
  rw [keep cs h, keep cs.reverse fun c hc => h c (List.mem_reverse.1 hc), List.reverse_reverse]

theorem trim_toString (n : Nat) : trim (toString n) = toString n := by
  unfold trim
  rw [trimChars_of_no_blank, String.ofList_toList]
  intro c hc
  rw [Nat.toString_eq_ofList_toDigits, String.toList_ofList] at hc
  exact isBlank_of_isDigit (Nat.isDigit_of_mem_toDigits (by decide) (by decide) hc)

theorem intUpTo?_toString {max n : Nat} (h : n ≤ max) :
    intUpTo? max (toString n) = some (n : Int) := by
  have hl : (toString n).toList = Nat.toDigits 10 n := by
    rw [Nat.toString_eq_ofList_toDigits, String.toList_ofList]
  have hd : ∀ c ∈ (toString n).toList, c.isDigit = true := by
    rw [hl]
    exact fun c hc => Nat.isDigit_of_mem_toDigits (by decide) (by decide) hc
  unfold intUpTo?
  -- a number written out begins with a digit, not with a sign
  split
  · rename_i rest he
    exact absurd (hd '-' (by rw [he]; exact List.mem_cons_self)) (by decide)
  · rename_i rest he
    exact absurd (hd '+' (by rw [he]; exact List.mem_cons_self)) (by decide)
  · rw [hl, digits?_toDigits, Option.filter_some, if_pos (by simpa using h)]
    rfl

theorem digits?_of_not_isDigit {c : Char} {cs : List Char} (h : c.isDigit = false) :
    digits? (c :: cs) = none := by
  simp [digits?, h]

/-- Where an integer is read, a natural number of the same value is read **or none, if it is negative
or zero with a sign**. -/
theorem natUpTo?_of_intUpTo? {max more : Nat} (hle : max ≤ more) {s : String} {k : Int}
    (h : intUpTo? max s = some k) : (natUpTo? more s).getD 0 = k.toNat := by
  have hpast : ∀ n : Nat, n ≤ max → n ≤ more := fun n hn => Nat.le_trans hn hle
  unfold intUpTo? at h
  unfold natUpTo?
  split at h
  · rename_i rest he
    -- a minus is no digit, and what it stands before is not counted
    obtain ⟨i, hi, rfl⟩ := Option.map_eq_some_iff.1 h
    obtain ⟨n, -, hn⟩ := Option.bind_eq_some_iff.1 hi
    cases hn
    have hnone : digits? ('-' :: rest) = none := digits?_of_not_isDigit (by decide)
    rw [he]
    show ((digits? ('-' :: rest)).filter _).getD 0 = _
    rw [hnone, Option.filter_none, Option.getD_none]
    omega
  · rename_i rest he
    obtain ⟨n, hn, rfl⟩ := Option.map_eq_some_iff.1 h
    obtain ⟨hn, hbound⟩ := Option.filter_eq_some_iff.1 hn
    have hmore := hpast n (by simpa using hbound)
    simp [he, hn, Option.filter_some, hmore]
  · rename_i hminus hplus
    obtain ⟨n, hn, rfl⟩ := Option.map_eq_some_iff.1 h
    obtain ⟨hn, hbound⟩ := Option.filter_eq_some_iff.1 hn
    have hmore := hpast n (by simpa using hbound)
    split
    · rename_i rest he
      exact absurd he (hplus rest)
    · simp [hn, Option.filter_some, hmore]

end HttpEngine.Text
