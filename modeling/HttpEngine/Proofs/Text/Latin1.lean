import HttpEngine.Proofs.Text.Cut
import HttpEngine.Text.Bytes
import HttpEngine.Text.Case

/-!
# Text on the lines of a request

* `latin1Bytes`: the bytes of a text, one for each character; reading them back gives the text.
* `Inline`: a text that **can stand in a line**.
* `Inline.join`: two of them on one line, a separator in between.
* `inline_latin1`: bytes read one character each, on one line.
-/

namespace HttpEngine.Text

/-- The bytes of a text whose characters are all below 256. -/
def latin1Bytes (s : String) : Bytes := s.toList.map fun c => UInt8.ofNat c.toNat

/-- A text that can stand in a line: each character fits in a byte and no line ends in it. -/
structure Inline (s : String) : Prop where
  latin1 : ∀ c ∈ s.toList, c.toNat < 256
  unbroken : ¬ ['\r', '\n'] <:+: s.toList

theorem inline_iff {s : String} :
    Inline s ↔ (s.toList.all fun c => c.toNat < 256) = true ∧
      (cutAt ['\r', '\n'] s.toList).isNone = true := by
  rw [List.all_eq_true, Option.isNone_iff_eq_none, cutAt_eq_none_iff (List.cons_ne_nil _ _)]
  constructor
  · exact fun h => ⟨fun c hc => decide_eq_true (h.latin1 c hc), h.unbroken⟩
  · exact fun h => ⟨fun c hc => of_decide_eq_true (h.1 c hc), h.2⟩

instance (s : String) : Decidable (Inline s) := decidable_of_iff _ inline_iff.symm

theorem latin1Char_ofNat {c : Char} (h : c.toNat < 256) :
    latin1Char (UInt8.ofNat c.toNat) = c := by
  unfold latin1Char
  have hb : (UInt8.ofNat c.toNat).toNat = c.toNat := by
    simp
    omega
  rw [hb, Char.ofNat_toNat]

variable {s t : String}

theorem map_latin1Bytes (h : Inline s) : (latin1Bytes s).map latin1Char = s.toList := by
  unfold latin1Bytes
  rw [List.map_map]
  have hid : ∀ c ∈ s.toList, (latin1Char ∘ fun c => UInt8.ofNat c.toNat) c = id c :=
    fun c hc => latin1Char_ofNat (h.latin1 c hc)
  rw [List.map_congr_left hid, List.map_id]

/-- Reading a text back from its bytes **gives the text**. -/
theorem latin1_latin1Bytes (h : Inline s) : latin1 (latin1Bytes s) = s := by
  unfold latin1
  rw [map_latin1Bytes h, String.ofList_toList]

theorem not_crlf_infix_latin1Bytes (h : Inline s) : ¬ crlf <:+: latin1Bytes s := by
  intro hi
  have hm := hi.map latin1Char
  rw [map_latin1Bytes h] at hm
  exact h.unbroken hm

theorem length_latin1Bytes (s : String) : (latin1Bytes s).length = s.length := by
  unfold latin1Bytes
  rw [List.length_map, String.length_toList]

/-- Two elements next to each other are on the same side of a separator that is neither. -/
theorem pair_infix_of_separated {α : Type} {x y sep : α} (hx : sep ≠ x) (hy : sep ≠ y)
    {a b : List α} (h : [x, y] <:+: a ++ sep :: b) : [x, y] <:+: a ∨ [x, y] <:+: b := by
  induction a with
  | nil =>
    rcases List.infix_cons_iff.1 h with ⟨t, ht⟩ | hb
    · exact absurd (List.cons.inj ht).1.symm hx
    · exact .inr hb
  | cons c a ih =>
    rcases List.infix_cons_iff.1 h with ⟨t, ht⟩ | hr
    · obtain ⟨rfl, hrest⟩ := List.cons.inj ht
      cases a with
      -- the separator would be the second of the two
      | nil => exact absurd (List.cons.inj hrest).1.symm hy
      | cons d a =>
        obtain ⟨rfl, -⟩ := List.cons.inj hrest
        exact .inl ⟨[], a, rfl⟩
    · rcases ih hr with ha | hb
      · exact .inl (List.infix_cons_iff.2 (.inr ha))
      · exact .inr hb

/-- Texts with a character between them that ends no line can stand in a line **together**. -/
theorem Inline.join (hs : Inline s) (ht : Inline t) (sep : Char) (hsep : sep.toNat < 256)
    (hr : sep ≠ '\r') (hn : sep ≠ '\n') : Inline (s ++ sep.toString ++ t) := by
  have he : (s ++ sep.toString ++ t).toList = s.toList ++ sep :: t.toList := by simp
  constructor
  · intro c hc
    rw [he] at hc
    rcases List.mem_append.1 hc with hc | hc
    · exact hs.latin1 c hc
    · rcases List.mem_cons.1 hc with rfl | hc
      · exact hsep
      · exact ht.latin1 c hc
  · intro hi
    rw [he] at hi
    rcases pair_infix_of_separated hr hn hi with hi | hi
    · exact hs.unbroken hi
    · exact ht.unbroken hi

theorem Inline.join_space (hs : Inline s) (ht : Inline t) : Inline (s ++ " " ++ t) :=
  hs.join ht ' ' (by decide) (by decide) (by decide)

theorem Inline.join_colon (hs : Inline s) (ht : Inline t) : Inline (s ++ ": " ++ t) := by
  have hempty : Inline "" := ⟨by simp, by simp⟩
  -- the colon is one separator and the space after it another
  have hc := (hs.join hempty ':' (by decide) (by decide) (by decide)).join_space ht
  have he : s ++ ": " ++ t = s ++ ':'.toString ++ "" ++ " " ++ t := by
    rw [← String.toList_inj]
    simp
  rwa [he]

/-! ### Bytes as text -/

theorem toNat_latin1Char (b : UInt8) : (latin1Char b).toNat = b.toNat := by
  have hlt : b.toNat < 256 := b.toNat_lt
  rw [latin1Char, Char.ofNat, dif_pos (.inl (by omega))]
  rfl

theorem latin1Char_injective : Function.Injective latin1Char := by
  intro a b h
  rw [← UInt8.toNat_inj, ← toNat_latin1Char, h, toNat_latin1Char]

theorem latin1Bytes_append (s t : String) : latin1Bytes (s ++ t) = latin1Bytes s ++ latin1Bytes t := by
  rw [latin1Bytes, String.toList_append, List.map_append]
  rfl

theorem latin1Bytes_latin1 (s : Bytes) : latin1Bytes (latin1 s) = s := by
  rw [latin1Bytes, latin1, String.toList_ofList, List.map_map]
  have hid : (fun c => UInt8.ofNat c.toNat) ∘ latin1Char = id := by
    funext b
    rw [Function.comp_apply, toNat_latin1Char, UInt8.ofNat_toNat]
    rfl
  rw [hid, List.map_id]

/-- Bytes as text can stand in a line **where no line ends in them**. -/
theorem inline_latin1 {s : Bytes} (h : ¬ crlf <:+: s) : Inline (latin1 s) := by
  have hlist : (latin1 s).toList = s.map latin1Char := String.toList_ofList
  constructor
  · intro c hc
    rw [hlist] at hc
    obtain ⟨b, -, rfl⟩ := List.mem_map.1 hc
    rw [toNat_latin1Char]
    exact b.toNat_lt
  · rintro ⟨before, behind, he⟩
    rw [hlist] at he
    obtain ⟨front, rest, rfl, hfront, -⟩ := List.map_eq_append_iff.1 he.symm
    obtain ⟨x, y, rfl, -, hy⟩ := List.map_eq_append_iff.1 hfront
    have hcrlf : y = crlf := (List.map_inj_right fun _ _ h => latin1Char_injective h).1 hy
    exact h (hcrlf ▸ ⟨x, rest, rfl⟩)

theorem inline_toString (n : Nat) : Inline (toString n) := by
  have hdigits : ∀ c ∈ (toString n).toList, c.isDigit = true := by
    intro c hc
    rw [Nat.toString_eq_ofList_toDigits, String.toList_ofList] at hc
    exact Nat.isDigit_of_mem_toDigits (by decide) (by decide) hc
  constructor
  · intro c hc
    have hle : c.val ≤ '9'.val := of_decide_eq_true (Bool.and_eq_true_iff.1 (hdigits c hc)).2
    exact Nat.lt_of_le_of_lt (UInt32.le_iff_toNat_le.1 hle) (by decide)
  · exact fun h => absurd (hdigits '\r' (h.subset List.mem_cons_self)) (by decide)

/-! ### Letters -/

theorem isAlpha_of_isAlpha_toLower {c : Char} (h : c.toLower.isAlpha = true) :
    c.isAlpha = true := by
  by_cases hu : c.isUpper = true
  · exact Bool.or_eq_true_iff.2 (.inl hu)
  · have : c.toLower = c := dif_neg fun hc => hu (decide_eq_true hc)
    rwa [this] at h

theorem isAlpha_le {c : Char} (h : c.isAlpha = true) : c.toNat ≤ 122 := by
  rcases Bool.or_eq_true_iff.1 h with hu | hl
  · have hZ : c.val ≤ 'Z'.val := (of_decide_eq_true hu).2
    exact Nat.le_trans (UInt32.le_iff_toNat_le.1 hZ) (by decide)
  · have hz : c.val ≤ 'z'.val := of_decide_eq_true (Bool.and_eq_true_iff.1 hl).2
    exact UInt32.le_iff_toNat_le.1 hz

end HttpEngine.Text
