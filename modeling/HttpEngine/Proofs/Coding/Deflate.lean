import HttpEngine.Proofs.Coding.Bits
import HttpEngine.Proofs.Coding.Codeword
import HttpEngine.Proofs.Coding.Token

/-!
# Deflate read back

* `takeTokens?_tokens`: tokens in the fixed code are read back one by one.
* `takeBlocks?_stored`: stored blocks are read back one by one.
* `decode?_encode`: **data is read back** from its encoding at any level, and what stands behind it
  is left.
-/

namespace HttpEngine.Coding.Deflate

/-! ### The fixed code -/

/-- The codeword of a symbol in the fixed code, from the runs of its lengths. -/
def fixedWord (s : Nat) : Bits :=
  let own := fixedLengths.getD s 0
  (bitsOf own (runShare own s 0 144 8 + runShare own s 144 112 9 + runShare own s 256 24 7
    + runShare own s 280 8 8)).reverse

theorem codeword_fixed : codeword fixedLengths = fixedWord := by
  funext s
  rw [codeword, codeNumber_eq, fixedWord]
  generalize fixedLengths.getD s 0 = own
  rw [fixedLengths]
  simp only [List.zipIdx_append, List.foldl_append, foldl_replicate, List.length_append,
    List.length_replicate, Nat.zero_add]

theorem ofLengths?_fixed : ∃ tree, Tree.ofLengths? fixedLengths = some tree := by
  have hsome : (Tree.ofLengths? fixedLengths).isSome = true := by
    rw [Tree.ofLengths?, Tree.planted?, codeword_fixed]
    decide +kernel
  exact Option.isSome_iff_exists.1 hsome

theorem ofLengths?_distances : ∃ tree, Tree.ofLengths? fixedDistances = some tree :=
  Option.isSome_iff_exists.1 (by decide +kernel)

theorem length_codeword (lengths : List Nat) (s : Nat) :
    (codeword lengths s).length = lengths.getD s 0 := by
  rw [codeword, List.length_reverse, length_bitsOf]

theorem fixedLengths_pos {s : Nat} (h : s < 288) : fixedLengths.getD s 0 ≠ 0 := by
  have hall : ∀ s < 288, fixedLengths.getD s 0 ≠ 0 := by decide +kernel
  exact hall s h

/-- The trees of the fixed codes. -/
structure Fixed (symbols distances : Tree) : Prop where
  symbols_eq : Tree.ofLengths? fixedLengths = some symbols
  distances_eq : Tree.ofLengths? fixedDistances = some distances

variable {symbols distances : Tree} {rest : Bits} {soFar : Bytes} {fuel : Nat}

theorem Fixed.reads (h : Fixed symbols distances) {s : Nat} (hs : s < 288) :
    symbols.Reads (codeword fixedLengths s) s :=
  Tree.reads_of_planted (Option.filter_eq_some_iff.1 h.symbols_eq).1 (fixedLengths_pos hs)

theorem Fixed.reads_distance (h : Fixed symbols distances) {s : Nat} (hs : s < 32) :
    distances.Reads (codeword fixedDistances s) s := by
  refine Tree.reads_of_planted (Option.filter_eq_some_iff.1 h.distances_eq).1 ?_
  have hall : ∀ s < 32, fixedDistances.getD s 0 ≠ 0 := by decide
  exact hall s hs

/-! ### Steps -/

/-- A number that is **on a step** and in its range. -/
def OnStep (steps : List (Nat × Nat)) (n : Nat) : Prop :=
  stepOf steps n < steps.length ∧ (steps.getD (stepOf steps n) (0, 0)).1 ≤ n ∧
    n - (steps.getD (stepOf steps n) (0, 0)).1 < 1 <<< (steps.getD (stepOf steps n) (0, 0)).2

instance (steps : List (Nat × Nat)) (n : Nat) : Decidable (OnStep steps n) :=
  inferInstanceAs (Decidable (_ ∧ _ ∧ _))

/-- Every length that a copy can have is on a step. -/
theorem onStep_length {n : Nat} (h : Token.shortest ≤ n) (k : n ≤ Token.longest) :
    OnStep lengthSteps n := by
  have hall : ∀ n < Token.longest + 1, Token.shortest ≤ n → OnStep lengthSteps n := by
    decide +kernel
  exact hall n (Nat.lt_succ_of_le k) h

theorem reachAt_le (level : Nat) : reachAt level ≤ 320 := by
  unfold reachAt
  omega

/-- Every distance within reach is on a step. -/
theorem onStep_distance {n : Nat} (h : 1 ≤ n) (k : n ≤ 320) : OnStep distanceSteps n := by
  have hall : ∀ n < 321, 1 ≤ n → OnStep distanceSteps n := by
    decide +kernel
  exact hall n (Nat.lt_succ_of_le k) h

/-- The further bits of a number on a step give **the number**. -/
theorem takeStepped?_of_onStep {steps : List (Nat × Nat)} {n : Nat} (h : OnStep steps n)
    (rest : Bits) :
    takeStepped? steps (stepOf steps n)
        (bitsOf (steps.getD (stepOf steps n) (0, 0)).2 (n - (steps.getD (stepOf steps n) (0, 0)).1)
          ++ rest)
      = some (n, rest) := by
  obtain ⟨hlt, hle, hrange⟩ := h
  have hstep : steps[stepOf steps n]? = some (steps.getD (stepOf steps n) (0, 0)) := by
    rw [List.getD_eq_getElem _ _ hlt, List.getElem?_eq_getElem hlt]
  unfold takeStepped?
  rw [hstep]
  simp only [Option.bind_eq_bind, Option.bind_some, takeNumber?_bitsOf hrange, Nat.add_sub_cancel' hle]
  rfl

/-! ### Tokens -/

theorem takeTokens?_literal (h : Fixed symbols distances) (b : UInt8) :
    takeTokens? symbols distances (fuel + 1) (tokenBits (.literal b) ++ rest) soFar
      = takeTokens? symbols distances fuel rest (b :: soFar) := by
  have hlt : b.toNat < 256 := b.toNat_lt
  rw [takeTokens?, tokenBits, h.reads (by omega)]
  simp only [Option.bind_eq_bind, Option.bind_some, endOfBlock, hlt, if_true, UInt8.ofNat_toNat]

theorem stepped_eq (lengths : List Nat) (first : Nat) (steps : List (Nat × Nat)) (n : Nat) :
    stepped lengths first steps n
      = codeword lengths (first + stepOf steps n)
        ++ bitsOf (steps.getD (stepOf steps n) (0, 0)).2
          (n - (steps.getD (stepOf steps n) (0, 0)).1) := rfl

theorem takeTokens?_copy (h : Fixed symbols distances) {distance length : Nat}
    (hlength : OnStep lengthSteps length) (hdistance : OnStep distanceSteps distance) :
    takeTokens? symbols distances (fuel + 1) (tokenBits (.copy distance length) ++ rest) soFar
      = takeTokens? symbols distances fuel rest (Token.copyBack distance length soFar) := by
  have hs : stepOf lengthSteps length < 29 := hlength.1
  have hd : 0 + stepOf distanceSteps distance < 32 := by
    have : stepOf distanceSteps distance < 30 := hdistance.1
    omega
  have hlong : ¬ endOfBlock + 1 + stepOf lengthSteps length < endOfBlock := by omega
  have hmore : ¬ endOfBlock + 1 + stepOf lengthSteps length = endOfBlock := by omega
  have hsymbol : endOfBlock + 1 + stepOf lengthSteps length < 288 := by
    unfold endOfBlock
    omega
  rw [takeTokens?, tokenBits, stepped_eq, stepped_eq]
  simp only [List.append_assoc]
  rw [h.reads hsymbol]
  simp only [Option.bind_eq_bind, Option.bind_some, hlong, hmore, if_false, Nat.add_sub_cancel_left,
    takeStepped?_of_onStep hlength]
  rw [h.reads_distance hd]
  simp only [Option.bind_some, Nat.zero_add, takeStepped?_of_onStep hdistance]

theorem takeTokens?_end (h : Fixed symbols distances) :
    takeTokens? symbols distances (fuel + 1) (codeword fixedLengths endOfBlock ++ rest) soFar
      = some (soFar, rest) := by
  rw [takeTokens?, h.reads (by decide)]
  simp only [Option.bind_eq_bind, Option.bind_some, Nat.lt_irrefl, if_false, if_true]
  rfl

/-- Tokens in the fixed code are **read back one by one**. -/
theorem takeTokens?_tokens (h : Fixed symbols distances) {tokens : List Token} {level : Nat}
    (hwithin : ∀ t ∈ tokens, t.Within (reachAt level)) (hfuel : tokens.length < fuel) :
    takeTokens? symbols distances fuel
        (tokens.flatMap tokenBits ++ (codeword fixedLengths endOfBlock ++ rest)) soFar
      = some (Token.expand soFar tokens, rest) := by
  induction tokens generalizing fuel soFar with
  | nil =>
    obtain ⟨fuel, rfl⟩ := Nat.exists_eq_add_of_lt hfuel
    rw [List.flatMap_nil, List.nil_append, takeTokens?_end h]
    rfl
  | cons t tokens ih =>
    obtain ⟨ht, htokens⟩ := List.forall_mem_cons.1 hwithin
    cases fuel with
    | zero => exact absurd hfuel (Nat.not_lt_zero _)
    | succ fuel =>
      have hnext : ∀ soFar, takeTokens? symbols distances fuel
          (tokens.flatMap tokenBits ++ (codeword fixedLengths endOfBlock ++ rest)) soFar
            = some (Token.expand soFar tokens, rest) :=
        fun _ => ih htokens (Nat.lt_of_succ_lt_succ hfuel)
      rw [List.flatMap_cons, List.append_assoc]
      cases t with
      | literal b => rw [takeTokens?_literal h, hnext]; rfl
      | copy distance length =>
        obtain ⟨hnear, hreach, hlong, hshort⟩ := ht
        have hdistance := onStep_distance hnear (Nat.le_trans hreach (reachAt_le level))
        rw [takeTokens?_copy h (onStep_length hlong hshort) hdistance, hnext]
        rfl

theorem length_tokenBits_pos (t : Token) : 0 < (tokenBits t).length := by
  have hfilled : ∀ s < 288, 0 < (codeword fixedLengths s).length := by
    intro s hs
    rw [length_codeword]
    exact Nat.pos_of_ne_zero (fixedLengths_pos hs)
  cases t with
  | literal b => exact hfilled _ (Nat.lt_trans b.toNat_lt (by decide))
  | copy distance length =>
    have hle : (lengthSteps.filter (·.1 ≤ length)).length ≤ 29 := List.length_filter_le _ _
    have hs : endOfBlock + 1 + stepOf lengthSteps length < 288 := by
      unfold endOfBlock stepOf
      omega
    have := hfilled _ hs
    rw [tokenBits, stepped_eq]
    simp only [List.length_append]
    omega

theorem length_le_flatMap (tokens : List Token) :
    tokens.length ≤ (tokens.flatMap tokenBits).length := by
  induction tokens with
  | nil => exact Nat.le_refl 0
  | cons t tokens ih =>
    have := length_tokenBits_pos t
    rw [List.flatMap_cons, List.length_append, List.length_cons]
    omega

/-! ### Blocks -/

/-- One last block in the fixed code is **read back whole**. -/
theorem takeBlocks?_fixedBlock {tokens : List Token} {level : Nat}
    (hwithin : ∀ t ∈ tokens, t.Within (reachAt level)) :
    takeBlocks? (fuel + 1) (fixedBlock tokens ++ rest) soFar
      = some (Token.expand soFar tokens, rest) := by
  obtain ⟨symbols, hsymbols⟩ := ofLengths?_fixed
  obtain ⟨distances, hdistances⟩ := ofLengths?_distances
  have hhead : fixedBlock tokens ++ rest
      = bitsOf 1 1 ++ (bitsOf 2 1 ++ (tokens.flatMap tokenBits
        ++ (codeword fixedLengths endOfBlock ++ rest))) := by
    rw [fixedBlock]
    simp only [List.append_assoc, List.cons_append]
    rfl
  have htokens : ∀ more : Bits, tokens.length
      < (tokens.flatMap tokenBits ++ more).length + 1 := by
    intro more
    have := length_le_flatMap tokens
    rw [List.length_append]
    omega
  have hread : takeTokens? symbols distances _ _ soFar = some (Token.expand soFar tokens, rest) :=
    takeTokens?_tokens ⟨hsymbols, hdistances⟩ hwithin (htokens (codeword fixedLengths endOfBlock ++ rest))
  rw [hhead, takeBlocks?]
  -- built once and for all: no later step evaluates the two trees
  generalize Tree.ofLengths? fixedLengths = built at hsymbols ⊢
  generalize Tree.ofLengths? fixedDistances = builtDistances at hdistances ⊢
  subst hsymbols hdistances
  rw [takeNumber?_bitsOf (by decide)]
  simp only [Option.bind_eq_bind, Option.bind_some]
  rw [takeNumber?_bitsOf (by decide)]
  simp only [Option.bind_some, hread, if_true]
  rfl

theorem toNat_low (n : Nat) : (UInt8.ofNat n).toNat = n % 256 := UInt8.toNat_ofNat'

theorem toNat_not (b : UInt8) : (~~~b).toNat = 255 - b.toNat := UInt8.toNat_not b

/-- A length in two bytes, and **inverted** in two more, in front of so many bytes. -/
theorem takeStored?_of_length {data more : Bytes} {fill : Bits} (hfill : fill.length < 8)
    (hlength : data.length < 65536) :
    takeStored? (fill ++ unpack (UInt8.ofNat data.length :: UInt8.ofNat (data.length / 256) ::
        ~~~(UInt8.ofNat data.length) :: ~~~(UInt8.ofNat (data.length / 256)) :: (data ++ more))) soFar
      = some (data.reverse ++ soFar, unpack more) := by
  generalize hn : data.length = n at hlength
  have hnumber : (UInt8.ofNat n).toNat + 256 * (UInt8.ofNat (n / 256)).toNat = n := by
    rw [toNat_low, toNat_low]
    omega
  have hinverse : n + ((~~~(UInt8.ofNat n)).toNat + 256 * (~~~(UInt8.ofNat (n / 256))).toNat)
      = lengthsTotal := by
    rw [toNat_not, toNat_not, toNat_low, toNat_low, lengthsTotal]
    omega
  have hlong : ¬ (unpack (data ++ more)).length < 8 * n := by
    rw [length_unpack, List.length_append, hn]
    omega
  have htake : (unpack (data ++ more)).take (8 * n) = unpack data := by
    rw [unpack_append, ← hn, ← length_unpack, List.take_left]
  have hdrop : (unpack (data ++ more)).drop (8 * n) = unpack more := by
    rw [unpack_append, ← hn, ← length_unpack, List.drop_left]
  unfold takeStored?
  -- the bits in front of the first whole byte are left out
  have hwhole : ∀ bytes : Bytes, (fill ++ unpack bytes).drop ((fill ++ unpack bytes).length % 8)
      = unpack bytes := by
    intro bytes
    rw [List.length_append, length_unpack, Nat.add_mul_mod_self_left, Nat.mod_eq_of_lt hfill,
      List.drop_left]
  rw [hwhole]
  simp only [takeNumber?_word, Option.bind_eq_bind, Option.bind_some, hnumber, hinverse, hlong,
    htake, hdrop, pack_unpack, ne_eq, not_true_eq_false, if_false]
  rfl

/-- A stored block is **read back**, and the blocks behind it are read unless it is the last. -/
theorem takeBlocks?_storedBlock {data : Bytes} (last : Bool) (more : Bytes)
    (hlength : data.length < 65536) :
    takeBlocks? (fuel + 1) (unpack (storedBlock last data ++ more)) soFar
      = if last then some (data.reverse ++ soFar, unpack more)
        else takeBlocks? fuel (unpack more) (data.reverse ++ soFar) := by
  have hfirst : bitsOf 8 (if last then 1 else 0 : UInt8).toNat
      = bitsOf 1 last.toNat ++ (bitsOf 2 0 ++ List.replicate 5 false) := by
    cases last <;> rfl
  have hhead : unpack (storedBlock last data ++ more)
      = bitsOf 1 last.toNat ++ (bitsOf 2 0 ++ (List.replicate 5 false
        ++ unpack (UInt8.ofNat data.length :: UInt8.ofNat (data.length / 256) ::
          ~~~(UInt8.ofNat data.length) :: ~~~(UInt8.ofNat (data.length / 256)) ::
          (data ++ more)))) := by
    rw [storedBlock]
    simp only [List.cons_append, List.nil_append]
    rw [unpack_cons, hfirst]
    simp only [List.append_assoc]
  have hlast : last.toNat < 1 <<< 1 := Nat.lt_succ_of_le last.toNat_le
  rw [hhead, takeBlocks?, takeNumber?_bitsOf hlast]
  simp only [Option.bind_eq_bind, Option.bind_some]
  rw [takeNumber?_bitsOf (by decide)]
  simp only [Option.bind_some]
  rw [takeStored?_of_length (by decide) hlength]
  cases last <;> rfl

/-- Stored blocks are **read back one by one**. -/
theorem takeBlocks?_stored {data : Bytes} (more : Bytes) (hfuel : data.length < fuel) :
    takeBlocks? fuel (unpack (stored data ++ more)) soFar
      = some (data.reverse ++ soFar, unpack more) := by
  fun_induction stored data generalizing fuel soFar with
  | case1 data hshort =>
    obtain ⟨fuel, rfl⟩ := Nat.exists_eq_add_of_lt hfuel
    have hlength : data.length < 65536 := Nat.lt_trans hshort (by decide)
    rw [takeBlocks?_storedBlock true more hlength, if_pos rfl]
  | case2 data hlong ih =>
    have hspan : storedSpan = 31745 := rfl
    have htake : (data.take storedSpan).length = storedSpan :=
      List.length_take_of_le (Nat.le_of_not_lt hlong)
    have hdrop : (data.drop storedSpan).length = data.length - storedSpan := List.length_drop
    obtain ⟨fuel, rfl⟩ := Nat.exists_eq_add_of_lt hfuel
    rw [List.append_assoc, takeBlocks?_storedBlock false _ (by omega), if_neg Bool.false_ne_true,
      ih (by omega), ← List.append_assoc, ← List.reverse_append, List.take_append_drop]

theorem length_le_stored (data : Bytes) : data.length ≤ (stored data).length := by
  fun_induction stored data with
  | case1 data hshort => exact (List.suffix_append _ data).length_le
  | case2 data hlong ih =>
    have hblock : (data.take storedSpan).length ≤ (storedBlock false (data.take storedSpan)).length :=
      (List.suffix_append _ _).length_le
    have hparts := congrArg List.length (List.take_append_drop storedSpan data)
    rw [List.length_append] at hparts
    rw [List.length_append]
    omega

/-! ### Data -/

/-- What blocks in front of whole bytes stand for, and **those bytes**. -/
theorem decode?_of_takeBlocks? {stream data more : Bytes} (fill : Bits) (hfill : fill.length < 8)
    (h : takeBlocks? ((unpack (stream ++ more)).length + 1) (unpack (stream ++ more)) []
      = some (data.reverse, fill ++ unpack more)) :
    decode? (stream ++ more) = some (data, more) := by
  have hrest : (fill ++ unpack more).length / 8 = more.length := by
    rw [List.length_append, length_unpack]
    omega
  have hbehind : (stream ++ more).drop ((stream ++ more).length - (fill ++ unpack more).length / 8)
      = more := by
    rw [hrest, List.length_append, Nat.add_sub_cancel, List.drop_left]
  unfold decode?
  simp only [h, Option.bind_eq_bind, Option.bind_some, hbehind, List.reverse_reverse]
  rfl

/-- **Data is read back** from its encoding at any level, and what stands behind it is left. -/
theorem decode?_encode (level : Nat) (data more : Bytes) :
    decode? (encode level data ++ more) = some (data, more) := by
  unfold encode
  split
  · refine decode?_of_takeBlocks? [] (by decide) ?_
    have hfuel : data.length < (unpack (stored data ++ more)).length + 1 := by
      have := length_le_stored data
      rw [length_unpack, List.length_append]
      omega
    rw [takeBlocks?_stored more hfuel, List.append_nil, List.nil_append]
  · obtain ⟨n, hn, hbits⟩ := unpack_pack (fixedBlock (Token.cover (reachAt level) data))
    refine decode?_of_takeBlocks? (List.replicate n false) (by simpa using hn) ?_
    rw [unpack_append, hbits, List.append_assoc,
      takeBlocks?_fixedBlock fun t => Token.within_of_mem_cover, Token.expand_cover]

end HttpEngine.Coding.Deflate
