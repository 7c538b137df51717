import HttpEngine.Proofs.Message.Interruption
import HttpEngine.Proofs.Transport.Hearing

/-!
# What fits into the write buffer

Bytes that fit into the buffer of a link **stay in it**: they are charged and held, or refused, and
the stream sees nothing of them. Bytes that do not fit go to the stream, flush or no flush, as the
buffer never holds more than its capacity.

* `Link.Fits`: so many bytes fit beside those that are held.
* `Link.writeAll_of_fits`, `Link.copyFrom_of_fits`: writing what fits.
* `Link.Snug`: a buffer is not overfilled.
-/

namespace HttpEngine

theorem Act.leaves_bind_of_ok {ε σ α β : Type} {act : EStateM ε σ α} {f : α → EStateM ε σ β}
    {s s' : σ} {a : α} (h : act s = .ok a s') : leaves (act >>= f) s = leaves (f a) s' := by
  simp only [leaves, run_bind, h]

namespace Link

variable {l l₁ l₂ : Link} {bytes : Bytes} {n : Nat}

/-! ### Bytes that fit -/

/-- So many bytes fit **beside those held**, and a write of them is smaller than the buffer. -/
structure Fits (n : Nat) (l : Link) : Prop where
  beside : l.held.length + n ≤ l.capacity
  small : n < l.capacity

/-- Charge bytes to the write budget and hold them, **or refuse them**. -/
def hold (bytes : Bytes) : Act Unit := fun l =>
  match l.writeLeft.spend bytes.length with
  | none => .error (.failed (.overBudget .write)) l
  | some left => .ok () { l with held := l.held ++ bytes, writeLeft := left }

theorem Fits.less {m : Nat} (h : l.Fits n) (hle : m ≤ n) : l.Fits m :=
  ⟨by have := h.beside; omega, by have := h.small; omega⟩

/-- Once the first of some bytes are held, **the others fit as they did together**. -/
theorem fits_of_hold {rest : Bytes} (hbeside : l.held.length + (bytes ++ rest).length ≤ l.capacity)
    (hsmall : rest.length < l.capacity) (hl : hold bytes l = .ok () l₁) :
    l₁.Fits rest.length := by
  unfold hold at hl
  cases hs : l.writeLeft.spend bytes.length with
  | none => simp only [hs, reduceCtorEq] at hl
  | some left =>
    simp only [hs] at hl
    cases hl
    refine ⟨?_, hsmall⟩
    rw [List.length_append] at hbeside
    simp only [List.length_append]
    omega

theorem journal_hold (bytes : Bytes) (l : Link) :
    (Act.leaves (hold bytes) l).wire.journal = l.wire.journal := by
  unfold Act.leaves hold
  cases l.writeLeft.spend bytes.length <;> rfl

theorem hold_nil (l : Link) : hold [] l = .ok () l := by
  unfold hold
  simp only [List.length_nil, Budget.spend_zero, List.append_nil]

theorem write_of_fits (h : l.Fits bytes.length) :
    write bytes l = (hold bytes >>= fun _ => pure bytes.length) l := by
  have hroom : ¬ l.capacity < l.held.length + bytes.length := Nat.not_lt.2 h.beside
  have hbuffer : buffer bytes l = .ok bytes.length { l with held := l.held ++ bytes } := by
    rw [buffer_eq, Act.run_bind, Act.run_get]
    simp only [hroom, if_false, place, Nat.not_le.2 h.small]
    rfl
  cases hs : l.writeLeft.spend bytes.length with
  | none => simp only [write_of_poor hs, Act.run_bind, hold, hs]
  | some left =>
    rw [write_of_solvent hs, hbuffer, Act.run_bind, hold]
    simp only [hs, Budget.less_of_spend hs]
    rfl

/-- Writing what fits is **holding it**. -/
theorem writeAll_of_fits (h : l.Fits bytes.length) : writeAll bytes l = hold bytes l := by
  cases bytes with
  | nil =>
    rw [hold_nil, writeAll]
    rfl
  | cons b rest =>
    rw [writeAll, Act.run_bind, write_of_fits h, Act.run_bind]
    -- one write takes them all
    cases hold (b :: rest) l with
    | error halt l₁ => rfl
    | ok u l₁ =>
      simp only [Act.run_pure, List.length_cons, List.drop_length]
      rw [writeAll]
      rfl

/-- Where there is room in the buffer, **the stream need not be waited for**. -/
theorem offerAll_of_fits (h : l.Fits bytes.length) :
    offerAll false bytes l = (hold bytes >>= fun _ => pure []) l := by
  cases bytes with
  | nil =>
    rw [offerAll, Act.run_bind, hold_nil]
  | cons b rest =>
    have hway : makeWay false (b :: rest).length l = .ok true l := by
      have hroom : ¬ l.capacity < l.held.length + (b :: rest).length := Nat.not_lt.2 h.beside
      unfold makeWay
      rw [Act.run_bind, Act.run_get]
      simp only [hroom, decide_false, Bool.or_self, Bool.false_eq_true, if_false]
      rfl
    have hsmall : ¬ l.capacity ≤ (b :: rest).length := Nat.not_le.2 h.small
    have hoffer : offer false (b :: rest) l
        = (hold (b :: rest) >>= fun _ => pure (some (b :: rest).length)) l := by
      unfold offer
      rw [Act.run_bind, Act.run_get]
      cases hs : l.writeLeft.spend (b :: rest).length with
      | none => simp only [hold, Act.run_bind, hs, Act.run_throw]
      | some left =>
        simp only [Act.run_bind, hway, Act.run_get, hsmall, decide_false, Bool.false_and,
          Bool.not_false, Bool.and_self, if_true, write_of_fits h, hold, hs]
        rfl
    rw [offerAll, Act.run_bind, hoffer, Act.run_bind, Act.run_bind]
    cases hold (b :: rest) l with
    | error halt l₁ => rfl
    | ok u l₁ =>
      simp only [Act.run_pure, List.length_cons, List.drop_length]
      rw [offerAll]
      rfl

theorem pushBlock_of_fits {b : Block} (h : l.Fits b.unwritten.length) :
    pushBlock false b l = (hold b.unwritten >>= fun _ => pure none) l := by
  unfold pushBlock
  rw [Act.run_bind, offerAll_of_fits h, Act.run_bind, Act.run_bind]
  cases hold b.unwritten l <;> rfl

/-- A source whose bytes fit is copied **past the eyes of the stream**. -/
theorem copyFrom_of_fits (begun : Bool) (block : Block) (hbegun : begun = false)
    (h : l.Fits block.rest.length) :
    (Act.leaves (copyFrom begun block) l).wire.journal = l.wire.journal := by
  -- on the blocks; what one leaves to the next still fits
  fun_induction copyFrom begun block generalizing l with
  | case1 begun block cause hfill => rfl
  | case2 begun block b hfill ihMore ihNext =>
    subst hbegun
    have hrest := Block.rest_of_fill hfill
    rw [← hrest, Block.rest_emptied] at h
    have hpush := pushBlock_of_fits (h.less (m := b.unwritten.length) (by simp))
    have hquiet := journal_hold b.unwritten l
    rw [Act.run_bind] at hpush
    cases hh : hold b.unwritten l with
    | error halt l₁ =>
      rw [hh] at hpush
      rw [Act.leaves_of_error hh] at hquiet
      simpa only [Act.leaves, Act.run_bind, hpush] using hquiet
    | ok u l₁ =>
      rw [hh] at hpush
      rw [Act.leaves_of_ok hh] at hquiet
      rw [Act.leaves_bind_of_ok hpush, ← hquiet]
      simp only
      split
      · rfl
      · split
        · have hnever := Wire.journal_await none l₁.wire
          unfold Act.leaves onWire at *
          cases hw : Wire.await none l₁.wire <;> rwa [hw] at hnever
        · rename_i hne
          have hsmall := (h.less (m := b.emptied.rest.length) (by simp)).small
          exact ihNext hne rfl (fits_of_hold h.beside hsmall hh)

/-! ### Bytes that do not fit -/

/-- A buffer that was not overfilled **still is not**. -/
def Snug (l l' : Link) : Prop :=
  l'.capacity = l.capacity ∧ (l.held.length ≤ l.capacity → l'.held.length ≤ l'.capacity)

theorem Snug.refl (l : Link) : Snug l l := ⟨rfl, id⟩

theorem Snug.trans (h : Snug l l₁) (k : Snug l₁ l₂) : Snug l l₂ :=
  ⟨k.1.trans h.1, fun hl => k.2 (h.2 hl)⟩

theorem snug_of_same (hcapacity : l₁.capacity = l.capacity) (hheld : l₁.held = l.held) :
    Snug l l₁ :=
  ⟨hcapacity, fun h => by rwa [hcapacity, hheld]⟩

variable {α β : Type}

theorem pure_snug (a : α) : Act.Keeps Snug (pure a : Act α) := Snug.refl

theorem keeps_snug_bind {act : Act α} {f : α → Act β} (hact : Act.Keeps Snug act)
    (hf : ∀ a, Act.Keeps Snug (f a)) : Act.Keeps Snug (act >>= f) :=
  Act.keeps_bind (fun h k => h.trans k) hact hf

theorem onWire_snug (act : Wire.Act α) : Act.Keeps Snug (onWire act) := by
  intro l
  unfold Act.leaves onWire
  cases act l.wire <;> exact snug_of_same rfl rfl

theorem spillOut_snug (waits : Bool) : Act.Keeps Snug (spillOut waits) := by
  intro l
  obtain ⟨front, -, hsplit⟩ := writeOut_put waits l.held l.wire
  have hle : (writeOut waits l.held l.wire).unsent.length ≤ l.held.length := by
    have := congrArg List.length hsplit
    rw [List.length_append] at this
    omega
  have hl : Act.leaves (spillOut waits) l = { l with
      held := (writeOut waits l.held l.wire).unsent
      wire := (writeOut waits l.held l.wire).wire } := by
    unfold Act.leaves spillOut
    cases h : (writeOut waits l.held l.wire).halt <;> simp only [h]
  rw [hl]
  exact ⟨rfl, fun h => Nat.le_trans hle h⟩

theorem spill_snug : Act.Keeps Snug spill :=
  keeps_snug_bind (spillOut_snug true) fun _ => Snug.refl

/-- What is held fits, **whether or not it makes room for itself first**. -/
theorem buffer_snug (bytes : Bytes) : Act.Keeps Snug (buffer bytes) := by
  intro l
  have hplace : ∀ l₁ : Link, l₁.capacity = l.capacity →
      (bytes.length < l.capacity → l₁.held.length + bytes.length ≤ l.capacity) →
      Snug l₁ (Act.leaves (place l.capacity bytes) l₁) := by
    intro l₁ hcapacity hroom
    unfold place
    by_cases hlarge : l.capacity ≤ bytes.length
    · rw [if_pos hlarge]
      exact onWire_snug _ l₁
    · rw [if_neg hlarge]
      refine ⟨rfl, fun _ => ?_⟩
      show (l₁.held ++ bytes).length ≤ l₁.capacity
      rw [List.length_append, hcapacity]
      exact hroom (Nat.lt_of_not_le hlarge)
  rw [buffer_eq]
  by_cases hover : l.capacity < l.held.length + bytes.length
  · simp only [Act.leaves, Act.run_bind, Act.run_get, hover, if_true]
    have hspill := spill_snug l
    cases hs : spill l with
    | error halt l₁ => rwa [Act.leaves_of_error hs] at hspill
    | ok u l₁ =>
      rw [Act.leaves_of_ok hs] at hspill
      refine hspill.trans (hplace l₁ hspill.1 fun hsmall => ?_)
      rw [held_of_spill hs, List.length_nil, Nat.zero_add]
      exact Nat.le_of_lt hsmall
  · simp only [Act.leaves, Act.run_bind, Act.run_get, hover, if_false]
    exact hplace l rfl fun _ => Nat.le_of_not_lt hover

theorem write_snug (bytes : Bytes) : Act.Keeps Snug (write bytes) := by
  intro l
  cases hs : l.writeLeft.spend bytes.length with
  | none =>
    rw [Act.leaves_of_error (write_of_poor hs)]
    exact .refl l
  | some left =>
    have hbuffer := buffer_snug bytes l
    rw [Act.leaves, write_of_solvent hs]
    unfold Act.leaves at hbuffer
    cases hb : buffer bytes l with
    | error halt l₁ => rwa [hb] at hbuffer
    | ok n l₁ =>
      rw [hb] at hbuffer
      exact hbuffer.trans (snug_of_same rfl rfl)

theorem writeAll_snug (bytes : Bytes) : Act.Keeps Snug (writeAll bytes) := by
  fun_induction writeAll bytes with
  | case1 => exact Snug.refl
  | case2 b rest ih =>
    refine keeps_snug_bind (write_snug (b :: rest)) fun n => ?_
    cases n with
    | zero => exact Snug.refl
    | succ n => exact ih n

theorem offer_snug (begun : Bool) (bytes : Bytes) : Act.Keeps Snug (offer begun bytes) := by
  refine Act.keeps_get_bind fun l => ?_
  cases l.writeLeft.spend bytes.length with
  | none => exact Snug.refl l
  | some _ =>
    have hroom : Act.Keeps Snug (makeWay begun bytes.length) := by
      refine Act.keeps_get_bind fun l => ?_
      split
      · exact spillOut_snug false l
      · exact Snug.refl l
    refine keeps_snug_bind hroom (fun clear => Act.keeps_get_bind fun l => ?_) l
    split
    · exact keeps_snug_bind (write_snug bytes) (fun _ => pure_snug _) l
    · exact Snug.refl l

theorem offerAll_snug (begun : Bool) (bytes : Bytes) : Act.Keeps Snug (offerAll begun bytes) := by
  fun_induction offerAll begun bytes with
  | case1 => exact Snug.refl
  | case2 begun b rest ih =>
    refine keeps_snug_bind (offer_snug begun (b :: rest)) fun n? => ?_
    cases n? with
    | none => exact Snug.refl
    | some n =>
      cases n with
      | zero => exact Snug.refl
      | succ n => exact ih n

theorem pushBlock_snug (begun : Bool) (b : Block) : Act.Keeps Snug (pushBlock begun b) := by
  refine keeps_snug_bind (offerAll_snug begun b.unwritten) fun left => ?_
  cases left with
  | nil => exact Snug.refl
  | cons c more =>
    simp only
    split
    · exact Snug.refl
    · split
      · exact keeps_snug_bind (onWire_snug _) fun _ => pure_snug _
      · exact keeps_snug_bind spill_snug fun _ =>
          keeps_snug_bind (writeAll_snug _) fun _ => pure_snug _

theorem copyFrom_snug (begun : Bool) (block : Block) : Act.Keeps Snug (copyFrom begun block) := by
  fun_induction copyFrom begun block with
  | case1 => exact Snug.refl
  | case2 begun block b _ ihMore ihNext =>
    refine keeps_snug_bind (pushBlock_snug begun b) fun c? => ?_
    cases c? with
    | some c => exact ihMore c.1 c.2
    | none =>
      simp only
      split
      · exact Snug.refl
      · split
        · exact onWire_snug _
        · rename_i hne
          exact ihNext hne

end Link

end HttpEngine
