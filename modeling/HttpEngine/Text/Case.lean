/-!
# Texts compared without regard to ASCII case

Names of headers, parameters, cookies, methods and codings are compared this way:
the letters `A` to `Z` and `a` to `z` pair up, and every other character only equals
itself.
-/

namespace HttpEngine.Text

/-- The text with its ASCII capitals made small; other characters stay. -/
def folded (s : String) : List Char := s.toList.map Char.toLower

/-- A word with its first letter made great and the others small. -/
def capitalised : List Char → List Char
  | [] => []
  | c :: rest => c.toUpper :: rest.map Char.toLower

/-- **Equal up to ASCII case.** -/
def sameName (a b : String) : Bool := folded a == folded b

theorem sameName_iff {a b : String} : sameName a b = true ↔ folded a = folded b := by
  simp [sameName]

@[simp] theorem sameName_self (a : String) : sameName a a = true := by
  simp [sameName]

theorem sameName_comm (a b : String) : sameName a b = sameName b a := by
  rw [Bool.eq_iff_iff, sameName_iff, sameName_iff]
  exact eq_comm

theorem sameName_trans {a b c : String} (h : sameName a b = true) (k : sameName b c = true) :
    sameName a c = true := by
  rw [sameName_iff] at *
  exact h.trans k

end HttpEngine.Text
