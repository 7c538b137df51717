import HttpEngine.Coding.Deflate
import Mathlib.Data.List.GetD

/-!
# Codewords read back

* `Tree.reads_of_insert`, `Tree.Reads.of_insert`: a codeword that was put into a tree is read from
  it, **and so is every one that was in it before**.
* `Tree.reads_of_planted`: every codeword of a code is read back, whatever follows.
* `codeNumber_eq`, `foldl_replicate`: what the codewords before one use up, a run of equal lengths
  at a time.
-/

namespace HttpEngine.Coding

namespace Tree

variable {tree new : Tree} {symbol other : Nat} {word added : Bits}

/-- A tree reads a symbol **off a codeword, whatever follows**. -/
def Reads (tree : Tree) (word : Bits) (symbol : Nat) : Prop :=
  ∀ rest, tree.take? (word ++ rest) = some (symbol, rest)

theorem not_reads_bare : ¬ bare.Reads word symbol := by
  intro h
  have hnone : ∀ bits, bare.take? bits = none := by
    intro bits
    match bits with
    | [] => rfl
    | false :: _ => rfl
    | true :: _ => rfl
  have hsome := h []
  rw [hnone] at hsome
  cases hsome

/-- What stands behind a bit: **nothing where there is no fork**. -/
def branch : Tree → Bool → Tree
  | fork zero _, false => zero
  | fork _ one, true => one
  | _, _ => bare

theorem Reads.branch {bit : Bool} (h : tree.Reads (bit :: word) symbol) :
    (tree.branch bit).Reads word symbol := by
  cases tree with
  | bare => exact absurd h not_reads_bare
  | leaf s =>
    -- a leaf leaves the bit where it is
    have hleft := congrArg Prod.snd (Option.some_inj.1 (h []))
    cases hleft
  | fork zero one => cases bit <;> exact h

/-- A codeword that is put in **goes on behind its first bit**, and the other branch stays. -/
theorem insert_cons {bit : Bool} (h : insert symbol (bit :: word) tree = some new) :
    ∃ behind, insert symbol word (tree.branch bit) = some behind ∧
      (∀ rest s, behind.Reads rest s → new.Reads (bit :: rest) s) ∧
      ∀ rest s, (tree.branch !bit).Reads rest s → new.Reads ((!bit) :: rest) s := by
  cases tree with
  | leaf s => cases bit <;> cases h
  | _ =>
    cases bit with
    | false =>
      obtain ⟨behind, hbehind, rfl⟩ := Option.map_eq_some_iff.1 h
      exact ⟨behind, hbehind, fun _ _ hread => hread, fun _ _ hread => hread⟩
    | true =>
      obtain ⟨behind, hbehind, rfl⟩ := Option.map_eq_some_iff.1 h
      exact ⟨behind, hbehind, fun _ _ hread => hread, fun _ _ hread => hread⟩

/-- The codeword that was put in **is read**. -/
theorem reads_of_insert (h : insert symbol word tree = some new) : new.Reads word symbol := by
  induction word generalizing tree new with
  | nil =>
    cases tree with
    | bare =>
      rw [← Option.some_inj.1 h]
      exact fun rest => rfl
    | _ => cases h
  | cons bit word ih =>
    obtain ⟨behind, hbehind, hread, -⟩ := insert_cons h
    exact hread _ _ (ih hbehind)

/-- The codewords that were in a tree before **are read as they were**. -/
theorem Reads.of_insert (hold : tree.Reads word other) (h : insert symbol added tree = some new) :
    new.Reads word other := by
  induction added generalizing tree new word with
  | nil =>
    cases tree with
    | bare => exact absurd hold not_reads_bare
    | _ => cases h
  | cons bit added ih =>
    obtain ⟨behind, hbehind, hread, hkept⟩ := insert_cons h
    cases word with
    | nil =>
      -- only a leaf reads a symbol off no bits, and nothing is put behind it
      cases tree with
      | leaf s => cases bit <;> cases h
      | _ => exact absurd (hold []) nofun
    | cons first word =>
      by_cases hfirst : first = bit
      · subst hfirst
        exact hread _ _ (ih hold.branch hbehind)
      · rw [Bool.eq_not.2 hfirst] at hold ⊢
        exact hkept _ _ hold.branch

/-- A tree that codewords were put into one by one **reads each of them**. -/
theorem reads_of_foldlM {words : Nat → Bits} {symbols : List Nat}
    (h : symbols.foldlM (fun tree s => tree.insert s (words s)) tree = some new) :
    (∀ s ∈ symbols, new.Reads (words s) s) ∧
      ∀ word s, tree.Reads word s → new.Reads word s := by
  induction symbols generalizing tree with
  | nil =>
    rw [← Option.some_inj.1 h]
    exact ⟨fun _ hs => absurd hs List.not_mem_nil, fun _ _ hs => hs⟩
  | cons first symbols ih =>
    rw [List.foldlM_cons] at h
    obtain ⟨mid, hfirst, hrest⟩ := Option.bind_eq_some_iff.1 h
    obtain ⟨hread, hkept⟩ := ih hrest
    refine ⟨fun s hs => ?_, fun word s hold => hkept word s (hold.of_insert hfirst)⟩
    rcases List.mem_cons.1 hs with rfl | hs
    · exact hkept _ _ (reads_of_insert hfirst)
    · exact hread s hs

/-- **Every codeword of a code** is read back. -/
theorem reads_of_planted {lengths : List Nat} (h : planted? lengths = some tree) {s : Nat}
    (hs : lengths.getD s 0 ≠ 0) : tree.Reads (codeword lengths s) s := by
  refine (reads_of_foldlM h).1 s ?_
  have hlt : s < lengths.length :=
    Nat.lt_of_not_le fun hge => hs (List.getD_eq_default _ _ hge)
  rw [List.getD_eq_getElem _ _ hlt] at hs
  refine List.mem_map.2 ⟨(lengths[s], s), List.mem_filter.2 ⟨?_, decide_eq_true hs⟩, rfl⟩
  exact List.mk_mem_zipIdx_iff_getElem?.2 (List.getElem?_eq_getElem hlt)

end Tree

/-! ### Codes in runs -/

/-- What a run of symbols from `first` on with codewords of one length uses up in front of the
codeword of a symbol, in codewords of its length. -/
def runShare (own symbol first count length : Nat) : Nat :=
  if length = 0 then 0
  else if length < own then count * 1 <<< (own - length)
  else if length = own then min count (symbol - first)
  else 0

/-- What one more symbol uses up. -/
def shareStep (own symbol n : Nat) (e : Nat × Nat) : Nat :=
  if e.1 ≠ 0 ∧ (e.1 < own ∨ e.1 = own ∧ e.2 < symbol) then n + 1 <<< (own - e.1) else n

theorem codeNumber_eq (lengths : List Nat) (symbol : Nat) :
    codeNumber lengths symbol
      = lengths.zipIdx.foldl (shareStep (lengths.getD symbol 0) symbol) 0 := rfl

theorem foldl_replicate (own symbol length count first n : Nat) :
    ((List.replicate count length).zipIdx first).foldl (shareStep own symbol) n
      = n + runShare own symbol first count length := by
  induction count generalizing first n with
  | zero => simp [runShare]
  | succ count ih =>
    rw [List.replicate_succ, List.zipIdx_cons, List.foldl_cons, ih]
    unfold shareStep runShare
    by_cases hnone : length = 0
    · simp only [hnone, ne_eq, not_true_eq_false, false_and, if_false, if_true, Nat.add_zero]
    · by_cases hshort : length < own
      · simp only [hnone, hshort, ne_eq, not_false_eq_true, true_and, true_or, if_true, if_false,
          Nat.succ_mul]
        omega
      · by_cases hown : length = own
        · subst hown
          simp only [hnone, ne_eq, not_false_eq_true, true_and, Nat.lt_irrefl, false_or, if_false,
            if_true, Nat.sub_self, Nat.shiftLeft_zero]
          split <;> omega
        · simp only [hnone, hshort, hown, false_and, or_self, and_false, if_false]

end HttpEngine.Coding
