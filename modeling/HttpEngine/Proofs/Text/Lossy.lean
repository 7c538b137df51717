import HttpEngine.Proofs.Text.Latin1
import HttpEngine.Proofs.Text.Pieces
import HttpEngine.Proofs.Text.Utf8

/-!
# UTF-8 read in stretches

Bytes from 128 on are read in stretches, each of them one character from 128 on. A byte below 128
is always a character of its own, so **what it separates is read separately**.

* `Utf8.unitsFrom_append`: bytes are read apart in front of a byte that continues nothing.
* `Utf8.stretchRec`: induction on the stretches of bytes.
* `Utf8.pieces_lossyChars`, `Utf8.cut_lossyChars`: bytes are cut as the text that is read from
  them is.
-/

namespace HttpEngine.Text.Utf8

variable {b : UInt8} {p : Partial}

/-! ### Characters begun -/

/-- A code that is **a character from 128 on** once so many continuation bytes were added. -/
def Completes : Nat → Nat → Prop
  | 0, code => 128 ≤ code ∧ (code < 55296 ∨ 57343 < code ∧ code < 1114112)
  | n + 1, code => ∀ k < 64, Completes n (code * 64 + k)

/-- A character begun as a first byte begins it: only continuation bytes go on with it, and it
comes to an end as a character. -/
structure Partial.Apt (p : Partial) : Prop where
  low : 128 ≤ p.low.toNat
  high : p.high.toNat ≤ 191
  completes : ∀ b : UInt8, p.low.toNat ≤ b.toNat → b.toNat ≤ p.high.toNat →
    Completes p.more (p.extend b)

/-- Whether a byte goes on with a character, said of numbers. -/
theorem goes_on_iff : (p.low ≤ b && b ≤ p.high) = true ↔
    p.low.toNat ≤ b.toNat ∧ b.toNat ≤ p.high.toNat := by
  rw [between_iff, decide_eq_true_eq]

theorem Partial.Apt.next {n : Nat} (h : p.Apt) (hmore : p.more = n + 1)
    (hb : p.low.toNat ≤ b.toNat ∧ b.toNat ≤ p.high.toNat) :
    Partial.Apt ⟨0x80, 0xBF, n, p.extend b⟩ := by
  refine ⟨Nat.le_refl 128, Nat.le_refl 191, fun x hlow hhigh => ?_⟩
  have hcompletes := h.completes b hb.1 hb.2
  rw [hmore] at hcompletes
  have hlow : 128 ≤ x.toNat := hlow
  have hhigh : x.toNat ≤ 191 := hhigh
  exact hcompletes (x.toNat - 128) (by omega)

theorem lead_of_none (h : 128 ≤ b.toNat) (k : b.toNat < 194 ∨ 244 < b.toNat) :
    lead b = .broken := by
  have hne : ∀ n : UInt8, 194 ≤ n.toNat → n.toNat ≤ 244 → (b == n) = false := by
    intro n hlow hhigh
    refine beq_eq_false_iff_ne.2 fun he => ?_
    rw [he] at k
    omega
  have hout : ∀ m n : UInt8, 194 ≤ m.toNat → n.toNat ≤ 244 → (m ≤ b && b ≤ n) = false := by
    intro m n hlow hhigh
    rw [between_iff]
    refine decide_eq_false ?_
    omega
  simp only [lead, not_lt_of_high h, hout 0xC2 0xDF (by decide) (by decide),
    hne 0xE0 (by decide) (by decide), hne 0xED (by decide) (by decide),
    hout 0xE1 0xEF (by decide) (by decide), hne 0xF0 (by decide) (by decide),
    hne 0xF4 (by decide) (by decide), hout 0xF1 0xF3 (by decide) (by decide),
    if_false, Bool.false_eq_true]

theorem apt_two (h : 194 ≤ b.toNat) (k : b.toNat ≤ 223) :
    Partial.Apt ⟨0x80, 0xBF, 0, b.toNat - 0xC0⟩ := by
  refine ⟨Nat.le_refl 128, Nat.le_refl 191, fun x hlow hhigh => ?_⟩
  have hlow : 128 ≤ x.toNat := hlow
  have hhigh : x.toNat ≤ 191 := hhigh
  refine ⟨?_, ?_⟩ <;> unfold Partial.extend <;> dsimp only <;> omega

/-- Bounds that a first byte narrows, said of numbers. -/
theorem narrowed_bounds {x first last low high : UInt8}
    (h : (if b = first then low else 0x80 : UInt8).toNat ≤ x.toNat)
    (k : x.toNat ≤ (if b = last then high else 0xBF : UInt8).toNat) (hlow : 128 ≤ low.toNat)
    (hhigh : high.toNat ≤ 191) :
    128 ≤ x.toNat ∧ x.toNat ≤ 191 ∧ (b.toNat = first.toNat → low.toNat ≤ x.toNat) ∧
      (b.toNat = last.toNat → x.toNat ≤ high.toNat) := by
  refine ⟨?_, ?_, fun he => ?_, fun he => ?_⟩
  · split at h
    · exact Nat.le_trans hlow h
    · exact h
  · split at k
    · exact Nat.le_trans k hhigh
    · exact k
  · rwa [if_pos (UInt8.toNat_inj.1 he)] at h
  · rwa [if_pos (UInt8.toNat_inj.1 he)] at k

theorem apt_three (h : 224 ≤ b.toNat) (k : b.toNat ≤ 239) :
    Partial.Apt ⟨if b = 0xE0 then 0xA0 else 0x80, if b = 0xED then 0x9F else 0xBF, 1,
      b.toNat - 0xE0⟩ := by
  refine ⟨?_, ?_, fun x hlow hhigh i hi => ?_⟩
  · dsimp only
    split <;> decide
  · dsimp only
    split <;> decide
  · obtain ⟨hl, hh, hfirst, hlast⟩ := narrowed_bounds hlow hhigh (by decide) (by decide)
    change b.toNat = 224 → 160 ≤ x.toNat at hfirst
    change b.toNat = 237 → x.toNat ≤ 159 at hlast
    refine ⟨?_, ?_⟩ <;> unfold Partial.extend <;> dsimp only <;> omega

theorem apt_four (h : 240 ≤ b.toNat) (k : b.toNat ≤ 244) :
    Partial.Apt ⟨if b = 0xF0 then 0x90 else 0x80, if b = 0xF4 then 0x8F else 0xBF, 2,
      b.toNat - 0xF0⟩ := by
  refine ⟨?_, ?_, fun x hlow hhigh i hi j hj => ?_⟩
  · dsimp only
    split <;> decide
  · dsimp only
    split <;> decide
  · obtain ⟨hl, hh, hfirst, hlast⟩ := narrowed_bounds hlow hhigh (by decide) (by decide)
    change b.toNat = 240 → 144 ≤ x.toNat at hfirst
    change b.toNat = 244 → x.toNat ≤ 143 at hlast
    refine ⟨?_, ?_⟩ <;> unfold Partial.extend <;> dsimp only <;> omega

/-- A byte from 128 on **begins a character or is broken** itself. -/
theorem lead_of_high (h : 128 ≤ b.toNat) :
    lead b = .broken ∨ ∃ p : Partial, lead b = .opening p ∧ p.Apt := by
  have hlt : b.toNat < 256 := b.toNat_lt
  by_cases htwo : 194 ≤ b.toNat ∧ b.toNat ≤ 223
  · exact .inr ⟨_, lead_of_two htwo.1 htwo.2, apt_two htwo.1 htwo.2⟩
  · by_cases hthree : 224 ≤ b.toNat ∧ b.toNat ≤ 239
    · exact .inr ⟨_, lead_of_three hthree.1 hthree.2, apt_three hthree.1 hthree.2⟩
    · by_cases hfour : 240 ≤ b.toNat ∧ b.toNat ≤ 244
      · exact .inr ⟨_, lead_of_four hfour.1 hfour.2, apt_four hfour.1 hfour.2⟩
      · exact .inl (lead_of_none h (by omega))

theorem apt_of_opening (h : lead b = .opening p) : p.Apt := by
  by_cases hlow : b.toNat < 128
  · rw [lead_of_one hlow] at h
    cases h
  · rcases lead_of_high (Nat.le_of_not_lt hlow) with hbroken | ⟨q, hq, hapt⟩
    · rw [hbroken] at h
      cases h
    · rw [hq] at h
      cases h
      exact hapt

/-! ### Where a character breaks off -/

/-- A byte that does not go on with a character **is read afresh**. -/
theorem unitsFrom_afresh (h : ¬ (p.low ≤ b && b ≤ p.high) = true) (rest : Bytes) :
    unitsFrom (some p) (b :: rest) = none :: unitsFrom none (b :: rest) := by
  simp only [unitsFrom, h]
  cases lead b <;> rfl

/-- A byte that goes on with no character. -/
def Separate (b : UInt8) : Prop := b.toNat < 128 ∨ 192 ≤ b.toNat

theorem Separate.not_goes_on (h : Separate b) (hp : p.Apt) :
    ¬ (p.low ≤ b && b ≤ p.high) = true := by
  rw [goes_on_iff]
  have hlow := hp.low
  have hhigh := hp.high
  rcases h with h | h <;> omega

theorem apt_of_mem_none : ∀ p ∈ (none : Option Partial), p.Apt :=
  fun p hp => absurd hp (Option.not_mem_none p)

/-- Bytes are read **apart in front of a byte** that goes on with no character. -/
theorem unitsFrom_append (hb : Separate b) (start : Option Partial) (hs : ∀ p ∈ start, p.Apt)
    (bytes rest : Bytes) :
    unitsFrom start (bytes ++ b :: rest) = unitsFrom start bytes ++ unitsFrom none (b :: rest) := by
  induction bytes generalizing start with
  | nil =>
    cases start with
    | none => rfl
    | some p => exact unitsFrom_afresh (hb.not_goes_on (hs p rfl)) rest
  | cons x bytes ih =>
    have hfresh : unitsFrom none (x :: (bytes ++ b :: rest))
        = unitsFrom none (x :: bytes) ++ unitsFrom none (b :: rest) := by
      simp only [unitsFrom]
      cases hlead : lead x with
      | whole c => exact congrArg (some c :: ·) (ih none apt_of_mem_none)
      | opening q =>
        exact ih (some q) fun p hp => Option.some_inj.1 hp ▸ apt_of_opening hlead
      | broken => exact congrArg (none :: ·) (ih none apt_of_mem_none)
    cases start with
    | none => exact hfresh
    | some p =>
      by_cases hgoes : (p.low ≤ x && x ≤ p.high) = true
      · have hapt := hs p rfl
        simp only [List.cons_append, unitsFrom, hgoes, if_true]
        cases hmore : p.more with
        | zero => exact congrArg (some (Char.ofNat (p.extend x)) :: ·) (ih none apt_of_mem_none)
        | succ n =>
          refine ih (some ⟨0x80, 0xBF, n, p.extend x⟩) fun q hq => ?_
          exact Option.some_inj.1 hq ▸ hapt.next hmore (goes_on_iff.1 hgoes)
      · rw [List.cons_append, unitsFrom_afresh hgoes, unitsFrom_afresh hgoes, hfresh]
        rfl

/-! ### Stretches -/

/-- Bytes from 128 on that are read as **one character from 128 on**: a single one of them is
broken. -/
structure Stretch (unit : Bytes) (c : Char) : Prop where
  high : ∀ b ∈ unit, 128 ≤ b.toNat
  char : 128 ≤ c.toNat
  filled : unit ≠ []
  broken_or_long : c = replacement ∨ 1 < unit.length

theorem toNat_of_valid {code : Nat} (h : code.isValidChar) : (Char.ofNat code).toNat = code := by
  rw [Char.ofNat, dif_pos h]
  rfl

theorem toNat_of_completes {code : Nat} (h : Completes 0 code) :
    128 ≤ (Char.ofNat code).toNat := by
  rw [toNat_of_valid h.2]
  exact h.1

/-- What goes on with a character **up to its end or to where it breaks off**. -/
theorem exists_unit (hp : p.Apt) (bytes : Bytes) :
    ∃ unit rest u, bytes = unit ++ rest ∧ (∀ b ∈ unit, 128 ≤ b.toNat) ∧
      unitsFrom (some p) bytes = u :: unitsFrom none rest ∧
      (u = none ∨ ∃ c : Char, u = some c ∧ 128 ≤ c.toNat ∧ unit ≠ []) := by
  induction bytes generalizing p with
  | nil => exact ⟨[], [], none, rfl, List.forall_mem_nil _, rfl, .inl rfl⟩
  | cons b bytes ih =>
    by_cases hgoes : (p.low ≤ b && b ≤ p.high) = true
    · have hb := goes_on_iff.1 hgoes
      have hhigh : 128 ≤ b.toNat := Nat.le_trans hp.low hb.1
      have hcompletes := hp.completes b hb.1 hb.2
      simp only [unitsFrom, hgoes, if_true]
      cases hmore : p.more with
      | zero =>
        rw [hmore] at hcompletes
        exact ⟨[b], bytes, _, rfl, fun x hx => List.mem_singleton.1 hx ▸ hhigh, rfl,
          .inr ⟨_, rfl, toNat_of_completes hcompletes, List.cons_ne_nil _ _⟩⟩
      | succ n =>
        obtain ⟨unit, rest, u, rfl, hunit, hread, hu⟩ := ih (hp.next hmore hb)
        refine ⟨b :: unit, rest, u, rfl, List.forall_mem_cons.2 ⟨hhigh, hunit⟩, hread, ?_⟩
        rcases hu with rfl | ⟨c, rfl, hchar, -⟩
        · exact .inl rfl
        · exact .inr ⟨c, rfl, hchar, List.cons_ne_nil _ _⟩
    · exact ⟨[], b :: bytes, none, rfl, List.forall_mem_nil _, unitsFrom_afresh hgoes bytes,
        .inl rfl⟩

theorem lossyChars_cons (h : b.toNat < 128) (rest : Bytes) :
    lossyChars (b :: rest) = latin1Char b :: lossyChars rest := by
  simp only [lossyChars, units, unitsFrom, lead_of_one h]
  rfl

/-- A byte from 128 on is read **as a stretch**. -/
theorem exists_stretch (h : 128 ≤ b.toNat) (bytes : Bytes) :
    ∃ unit rest c, b :: bytes = unit ++ rest ∧ Stretch unit c ∧
      lossyChars (b :: bytes) = c :: lossyChars rest := by
  have hone : ∀ x ∈ [b], 128 ≤ x.toNat := fun x hx => List.mem_singleton.1 hx ▸ h
  have hreplacement : 128 ≤ replacement.toNat := by decide
  rcases lead_of_high h with hlead | ⟨p, hlead, hp⟩
  · refine ⟨[b], bytes, replacement, rfl, ⟨hone, hreplacement, List.cons_ne_nil _ _, .inl rfl⟩, ?_⟩
    simp only [lossyChars, units, unitsFrom, hlead]
    rfl
  · obtain ⟨unit, rest, u, rfl, hunit, hread, hu⟩ := exists_unit hp bytes
    refine ⟨b :: unit, rest, u.getD replacement, rfl, ?_, ?_⟩
    · refine ⟨List.forall_mem_cons.2 ⟨h, hunit⟩, ?_, List.cons_ne_nil _ _, ?_⟩
      · rcases hu with rfl | ⟨c, rfl, hc, -⟩
        · exact hreplacement
        · exact hc
      · rcases hu with rfl | ⟨c, -, -, hne⟩
        · exact .inl rfl
        · exact .inr (Nat.succ_lt_succ (List.length_pos_of_ne_nil hne))
    · simp only [lossyChars, units, unitsFrom_opening hlead, hread, List.map_cons]

/-- Induction on **bytes below 128 and stretches** of the others. -/
@[elab_as_elim]
theorem stretchRec {motive : Bytes → Prop} (nil : motive [])
    (low : ∀ b rest, b.toNat < 128 → motive rest → motive (b :: rest))
    (stretch : ∀ unit rest c, Stretch unit c → lossyChars (unit ++ rest) = c :: lossyChars rest →
      motive rest → motive (unit ++ rest)) (bytes : Bytes) : motive bytes := by
  induction hn : bytes.length using Nat.strong_induction_on generalizing bytes with
  | h n ih =>
    cases bytes with
    | nil => exact nil
    | cons b bytes =>
      by_cases hb : b.toNat < 128
      · exact low b bytes hb (ih _ (by rw [← hn]; exact Nat.lt_succ_self _) bytes rfl)
      · obtain ⟨unit, rest, c, he, hunit, hread⟩ := exists_stretch (Nat.le_of_not_lt hb) bytes
        rw [he] at hread hn ⊢
        refine stretch unit rest c hunit hread (ih _ ?_ rest rfl)
        have hpos := List.length_pos_of_ne_nil hunit.filled
        rw [← hn, List.length_append]
        omega

/-! ### Texts read from bytes -/

/-- A text is read **apart at a byte below 128**. -/
theorem lossyChars_append (hb : b.toNat < 128) (bytes rest : Bytes) :
    lossyChars (bytes ++ b :: rest) = lossyChars bytes ++ latin1Char b :: lossyChars rest := by
  rw [← lossyChars_cons hb, lossyChars, units, unitsFrom_append (.inl hb) none apt_of_mem_none,
    List.map_append]
  rfl

theorem encodeChar_of_high {c : Char} (hc : 128 ≤ c.toNat) :
    ∃ b rest, String.utf8EncodeChar c = b :: rest ∧ 192 ≤ b.toNat := by
  have hvalid : c.val.toNat < 55296 ∨ 57343 < c.val.toNat ∧ c.val.toNat < 1114112 := c.valid
  unfold String.utf8EncodeChar Char.toNat at *
  simp only
  generalize c.val.toNat = v at hvalid hc
  split
  · omega
  · split
    · exact ⟨_, _, rfl, by rw [toNat_ofNat_of_lt (by omega)]; omega⟩
    · split
      · exact ⟨_, _, rfl, by rw [toNat_ofNat_of_lt (by omega)]; omega⟩
      · exact ⟨_, _, rfl, by rw [toNat_ofNat_of_lt (by omega)]; omega⟩

/-- A text is read apart **in front of a character** from 128 on. -/
theorem lossyChars_append_encodeChar {c : Char} (hc : 128 ≤ c.toNat) (bytes rest : Bytes) :
    lossyChars (bytes ++ (String.utf8EncodeChar c ++ rest))
      = lossyChars bytes ++ c :: lossyChars rest := by
  obtain ⟨b, more, he, hb⟩ := encodeChar_of_high hc
  have hread : unitsFrom none (b :: (more ++ rest)) = some c :: unitsFrom none rest := by
    rw [← List.cons_append, ← he, unitsFrom_encodeChar]
  rw [he, List.cons_append, lossyChars, units, unitsFrom_append (.inr hb) none apt_of_mem_none,
    hread, List.map_append]
  rfl

/-- A character below 128 **is read from its byte alone**. -/
theorem mem_lossyChars_iff (hb : b.toNat < 128) {bytes : Bytes} :
    latin1Char b ∈ lossyChars bytes ↔ b ∈ bytes := by
  induction bytes using stretchRec with
  | nil => exact ⟨nofun, nofun⟩
  | low x rest hx ih =>
    rw [lossyChars_cons hx, List.mem_cons, List.mem_cons]
    exact or_congr latin1Char_injective.eq_iff ih
  | stretch unit rest c hunit hread ih =>
    have hchar : latin1Char b ≠ c := by
      rintro rfl
      have := hunit.char
      rw [toNat_latin1Char] at this
      omega
    have hbyte : b ∉ unit := fun hm => Nat.not_le.2 hb (hunit.high b hm)
    rw [hread, List.mem_cons, List.mem_append]
    exact or_congr (iff_of_false hchar hbyte) ih

theorem lossyChars_eq_nil_iff {bytes : Bytes} : lossyChars bytes = [] ↔ bytes = [] := by
  induction bytes using stretchRec with
  | nil => exact ⟨fun _ => rfl, fun _ => rfl⟩
  | low x rest hx ih => rw [lossyChars_cons hx]; exact ⟨nofun, nofun⟩
  | stretch unit rest c hunit hread ih =>
    rw [hread]
    exact ⟨nofun, fun h => absurd (List.append_eq_nil_iff.1 h).1 hunit.filled⟩

/-- Bytes below 128 are read **one character each**. -/
theorem lossyChars_of_low {bytes : Bytes} (h : ∀ b ∈ bytes, b.toNat < 128) :
    lossyChars bytes = bytes.map latin1Char := by
  induction bytes with
  | nil => rfl
  | cons b bytes ih =>
    obtain ⟨hb, hrest⟩ := List.forall_mem_cons.1 h
    rw [lossyChars_cons hb, ih hrest, List.map_cons]

/-- The text between separators is **read from what is between them**. -/
theorem pieces_lossyChars (hb : b.toNat < 128) (bytes : Bytes) :
    pieces (latin1Char b) (lossyChars bytes) = (pieces b bytes).map lossyChars := by
  induction bytes using separatedRec b with
  | alone bytes h =>
    rw [pieces_of_not_mem h, pieces_of_not_mem (mt (mem_lossyChars_iff hb).1 h)]
    rfl
  | parted front rest h ih =>
    rw [lossyChars_append hb, pieces_append h, pieces_append (mt (mem_lossyChars_iff hb).1 h), ih,
      List.map_cons]

/-- A text is cut **where its bytes are**. -/
theorem cut_lossyChars (hb : b.toNat < 128) (bytes : Bytes) :
    cut (latin1Char b) (lossyChars bytes)
      = (cut b bytes).map fun parts => (lossyChars parts.1, lossyChars parts.2) := by
  cases hcut : cut b bytes with
  | none => exact cut_eq_none_iff.2 (mt (mem_lossyChars_iff hb).1 (cut_eq_none_iff.1 hcut))
  | some parts =>
    obtain ⟨rfl, h⟩ := cut_eq_some_iff.1 hcut
    exact cut_eq_some_iff.2 ⟨lossyChars_append hb _ _, mt (mem_lossyChars_iff hb).1 h⟩

end HttpEngine.Text.Utf8
