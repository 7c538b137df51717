import HttpEngine.Proofs.Message.Delivery
import HttpEngine.Proofs.Transport.Allowance

/-!
# Writing within an allowance

A write budget is looked at before bytes are taken and paid from afterwards, and nothing else on a
link depends on it. So bytes that a link **can afford** are written as they are without a limit.

* `Link.Unpriced`: an activity to which the write budget is nothing.
* `Link.Affords`, `Link.Paid`: bytes that can be paid for, and bytes that were.
* `Link.writeAll_paid`, `Link.copyFrom_paid`: the writes of a connection.
* `Response.deliver_paid`: a response.
-/

namespace HttpEngine

open Text

/-- A budget that covers a sum **covers one part after the other**. -/
theorem Budget.spend_split {b c d : Budget} {m n : Nat} (h : b.spend (m + n) = some c)
    (hd : b.spend m = some d) : d.spend n = some c := by
  cases hn : d.spend n with
  | none =>
    rw [spend_eq_none.2 ((exceeded_add hd).1 (spend_eq_none.1 hn))] at h
    cases h
  | some e =>
    rw [spend_add hd hn] at h
    exact h

namespace Link

/-- The same link with another **write budget**. -/
def worth (b : Budget) (l : Link) : Link := { l with writeLeft := b }

theorem worth_none_of_unlimited {l : Link} (h : l.writeLeft = none) (b : Budget) :
    (l.worth b).worth none = l := by
  cases l
  cases h
  rfl

variable {α β : Type} {l l₁ l₂ : Link} {b : UInt8} {bytes more : Bytes} {m n : Nat}

/-! ### What the write budget is nothing to -/

/-- What an activity comes to, left with another write budget. -/
def leftWorth (b : Budget) : EStateM.Result (Halt IoError) Link α →
    EStateM.Result (Halt IoError) Link α
  | .ok a l => .ok a (l.worth b)
  | .error e l => .error e (l.worth b)

/-- An activity that does **the same with any write budget**, and leaves it as it is. -/
def Unpriced (act : Act α) : Prop :=
  ∀ (c : Budget) (l : Link), act (l.worth c) = leftWorth c (act l)

theorem unpriced_pure (a : α) : Unpriced (pure a : Act α) := fun _ _ => rfl

theorem unpriced_modify {g : Link → Link} (h : ∀ c l, g (l.worth c) = (g l).worth c) :
    Unpriced (modify g : Act PUnit) := by
  intro c l
  rw [Act.run_modify, Act.run_modify, h]
  rfl

theorem Unpriced.bind {act : Act α} {f : α → Act β} (hact : Unpriced act)
    (hf : ∀ a, Unpriced (f a)) : Unpriced (act >>= f) := by
  intro c l
  rw [Act.run_bind, Act.run_bind, hact]
  cases act l with
  | error halt l₁ => rfl
  | ok a l₁ => exact hf a c l₁

/-- The state may be looked at, **but not for the write budget**. -/
theorem unpriced_get_bind {f : Link → Act β} (hsame : ∀ c l, f (l.worth c) = f l)
    (hf : ∀ l, Unpriced (f l)) : Unpriced (get >>= f) := by
  intro c l
  show f (l.worth c) (l.worth c) = _
  rw [hsame]
  exact hf l c l

theorem onWire_unpriced (act : Wire.Act α) : Unpriced (onWire act) := by
  intro c l
  unfold onWire
  rw [show (l.worth c).wire = l.wire from rfl]
  cases act l.wire <;> rfl

theorem spillOut_unpriced (waits : Bool) : Unpriced (spillOut waits) := by
  intro c l
  unfold spillOut
  rw [show (l.worth c).wire = l.wire from rfl, show (l.worth c).held = l.held from rfl]
  cases h : (writeOut waits l.held l.wire).halt <;> simp only [h] <;> rfl

theorem spill_unpriced : Unpriced spill := (spillOut_unpriced true).bind fun _ => unpriced_pure _

theorem place_unpriced (capacity : Nat) (bytes : Bytes) : Unpriced (place capacity bytes) := by
  unfold place
  split
  · exact onWire_unpriced _
  · exact (unpriced_modify fun _ _ => rfl).bind fun _ => unpriced_pure _

theorem buffer_unpriced (bytes : Bytes) : Unpriced (buffer bytes) := by
  rw [buffer_eq]
  refine unpriced_get_bind (fun _ _ => rfl) fun l => ?_
  split
  · exact spill_unpriced.bind fun _ => place_unpriced _ _
  · exact place_unpriced _ _

theorem makeWay_unpriced (begun : Bool) (count : Nat) : Unpriced (makeWay begun count) := by
  refine unpriced_get_bind (fun _ _ => rfl) fun l => ?_
  split
  · exact spillOut_unpriced false
  · exact unpriced_pure _

theorem send_unpriced : Unpriced send := spill_unpriced.bind fun _ => onWire_unpriced _

/-! ### What can be paid for -/

/-- A link on which writes succeed **up to so many bytes**. -/
structure Affords (n : Nat) (l : Link) : Prop where
  ready : (l.worth none).Ready
  covered : ∃ c, l.writeLeft.spend n = some c

/-- Bytes were written **as without a limit**, and paid for. -/
structure Paid (bytes : Bytes) (l l' : Link) : Prop where
  wrote : Wrote bytes (l.worth none) (l'.worth none)
  spent : l.writeLeft.spend bytes.length = some l'.writeLeft

theorem Paid.trans (h : Paid bytes l l₁) (k : Paid more l₁ l₂) : Paid (bytes ++ more) l l₂ :=
  ⟨h.wrote.trans k.wrote, by rw [List.length_append]; exact Budget.spend_add h.spent k.spent⟩

theorem Affords.paid_nil (h : l.Affords n) : Paid [] l l :=
  ⟨h.ready.wrote_nil, Budget.spend_zero _⟩

theorem Affords.less (h : l.Affords n) (hle : m ≤ n) : l.Affords m := by
  obtain ⟨c, hc⟩ := h.covered
  exact ⟨h.ready, Budget.spend_of_le hc hle⟩

/-- Once some of the bytes are paid for, **the others still can be**. -/
theorem Affords.rest (h : l.Affords n) (hp : Paid bytes l l₁) (hn : n = bytes.length + m) :
    l₁.Affords m := by
  obtain ⟨c, hc⟩ := h.covered
  rw [hn] at hc
  exact ⟨hp.wrote.ready, c, Budget.spend_split hc hp.spent⟩

/-- What the write budget is nothing to succeeds **where it does without a limit**. -/
theorem Unpriced.ok {act : Act α} {a : α} (h : Unpriced act) (ha : act (l.worth none) = .ok a l₁) :
    act l = .ok a (l₁.worth l.writeLeft) := by
  have hsame := h l.writeLeft (l.worth none)
  rw [ha] at hsame
  exact hsame

theorem Unpriced.paid {act : Act α} {a : α} (h : Unpriced act) (ha : act (l.worth none) = .ok a l₁)
    (hw : Wrote [] (l.worth none) l₁) : ∃ l', act l = .ok a l' ∧ Paid [] l l' ∧
      l'.held = l₁.held := by
  refine ⟨l₁.worth l.writeLeft, h.ok ha, ⟨?_, Budget.spend_zero _⟩, rfl⟩
  rwa [worth_none_of_unlimited hw.ready.unlimited]

/-! ### Writes -/

theorem write_paid (h : l.Affords (b :: bytes).length) :
    ∃ n l', write (b :: bytes) l = .ok (n + 1) l' ∧ Paid (b :: bytes.take n) l l' ∧
      n ≤ bytes.length := by
  obtain ⟨c, hc⟩ := h.covered
  obtain ⟨n, l₁, he, hw, hle⟩ := buffer_wrote h.ready b bytes
  refine ⟨n, l₁.worth (l.writeLeft.less (n + 1)), ?_, ⟨?_, ?_⟩, hle⟩
  · rw [write_of_solvent hc, (buffer_unpriced (b :: bytes)).ok he]
    rfl
  · rwa [worth_none_of_unlimited hw.ready.unlimited]
  · obtain ⟨d, hd⟩ := Budget.spend_of_le hc (Nat.succ_le_succ hle)
    rw [List.length_cons, List.length_take_of_le hle, hd]
    exact congrArg some (Budget.less_of_spend hd).symm

/-- **All bytes** are written. -/
theorem writeAll_paid (bytes : Bytes) (h : l.Affords bytes.length) :
    ∃ l', writeAll bytes l = .ok () l' ∧ Paid bytes l l' := by
  fun_induction writeAll bytes generalizing l with
  | case1 => exact ⟨l, rfl, h.paid_nil⟩
  | case2 b rest ih =>
    obtain ⟨n, l₁, he, hp, hle⟩ := write_paid h
    have hrest : l₁.Affords (rest.drop n).length := by
      refine h.rest hp ?_
      rw [List.length_cons, List.length_cons, List.length_take_of_le hle, List.length_drop]
      omega
    obtain ⟨l', hmore, hp'⟩ := ih n hrest
    refine ⟨l', by rw [Act.run_bind, he]; exact hmore, ?_⟩
    have := hp.trans hp'
    rwa [List.cons_append, List.take_append_drop] at this

theorem offer_paid (begun : Bool) (h : l.Affords (b :: bytes).length) :
    ∃ n l', offer begun (b :: bytes) l = .ok (some (n + 1)) l' ∧
      Paid (b :: bytes.take n) l l' ∧ n ≤ bytes.length := by
  obtain ⟨c, hc⟩ := h.covered
  obtain ⟨l₀, hway, hw₀⟩ := makeWay_wrote begun (b :: bytes).length h.ready
  obtain ⟨l₁, hway, hp₁, -⟩ := (makeWay_unpriced begun _).paid hway hw₀
  have hstill : l₁.Affords (b :: bytes).length := h.rest hp₁ (Nat.zero_add _).symm
  obtain ⟨n, l', he, hp, hle⟩ := write_paid hstill
  refine ⟨n, l', ?_, hp₁.trans hp, hle⟩
  have hroom : l₁.wire.isFull = false := Wire.isFull_of_accepting hstill.ready.accepting
  unfold offer
  rw [Act.run_bind, Act.run_get]
  simp only [hc, Act.run_bind, hway, Act.run_get, hroom, Bool.and_false, Bool.not_false,
    Bool.and_true, if_true, he, Act.run_pure]

theorem offerAll_paid (begun : Bool) (bytes : Bytes) (h : l.Affords bytes.length) :
    ∃ l', offerAll begun bytes l = .ok [] l' ∧ Paid bytes l l' := by
  fun_induction offerAll begun bytes generalizing l with
  | case1 => exact ⟨l, rfl, h.paid_nil⟩
  | case2 begun b rest ih =>
    obtain ⟨n, l₁, he, hp, hle⟩ := offer_paid begun h
    have hrest : l₁.Affords (rest.drop n).length := by
      refine h.rest hp ?_
      rw [List.length_cons, List.length_cons, List.length_take_of_le hle, List.length_drop]
      omega
    obtain ⟨l', hmore, hp'⟩ := ih n hrest
    refine ⟨l', by rw [Act.run_bind, he]; exact hmore, ?_⟩
    have := hp.trans hp'
    rwa [List.cons_append, List.take_append_drop] at this

/-- A source that ends is copied **to its last byte**. -/
theorem copyFrom_paid (begun : Bool) {block : Block} (hb : block.Fresh)
    (h : l.Affords block.source.contents.1.length) :
    ∃ l', copyFrom begun block l = .ok () l' ∧ Paid block.source.contents.1 l l' := by
  -- on the blocks; what one leaves of the source can still be paid for
  fun_induction copyFrom begun block generalizing l with
  | case1 begun block cause hfill =>
    obtain ⟨c, hc, -⟩ := hb.fill
    rw [hfill] at hc
    cases hc
  | case2 begun block b hfill _ ihNext =>
    obtain ⟨c, hc, hcases⟩ := hb.fill
    rw [hfill] at hc
    cases hc
    rcases hcases with ⟨hended, hnil, hall⟩ | ⟨hopen, hne, hfresh, hsplit⟩
    · rw [hall, ← hnil] at h
      obtain ⟨l₁, hpush, hp⟩ := offerAll_paid begun b.unwritten h
      refine ⟨l₁, ?_, by rwa [hall, ← hnil]⟩
      rw [Act.run_bind, pushBlock, Act.run_bind, hpush]
      simp only [Act.run_pure, hended, if_true]
      rfl
    · rw [hsplit] at h ⊢
      rw [List.length_append] at h
      obtain ⟨l₁, hpush, hp⟩ := offerAll_paid begun b.unwritten (h.less (Nat.le_add_right _ _))
      obtain ⟨l', hcopy, hp'⟩ := ihNext hne hfresh (h.rest hp rfl)
      refine ⟨l', ?_, hp.trans hp'⟩
      rw [Act.run_bind, pushBlock, Act.run_bind, hpush]
      simp only [Act.run_pure, hopen, hne, Bool.false_eq_true, if_false]
      exact hcopy

end Link

/-- A response that can be paid for is **sent to its last byte**, and nothing is held afterwards. -/
theorem Response.deliver_paid {l : Link} (r : Response) (cookies : Option CookieStore)
    (hc : r.body.contents.2 = .ended)
    (h : l.Affords (utf8 (r.head cookies) ++ r.body.contents.1).length) :
    ∃ l', r.deliver cookies l = .ok () l' ∧
      l.Paid (utf8 (r.head cookies) ++ r.body.contents.1) l' ∧ l'.held = [] := by
  rw [List.length_append] at h
  obtain ⟨l₁, hhead, hp₁⟩ := Link.writeAll_paid (utf8 (r.head cookies))
    (h.less (Nat.le_add_right _ _))
  have hrest : l₁.Affords r.body.contents.1.length := h.rest hp₁ rfl
  have hbody : ∃ l₂, r.body.writeTo l₁ = .ok () l₂ ∧ Link.Paid r.body.contents.1 l₁ l₂ := by
    cases hb : r.body with
    | empty => exact ⟨l₁, rfl, hrest.paid_nil⟩
    | bytes data =>
      rw [hb] at hrest
      exact Link.writeAll_paid data hrest
    | reader source =>
      rw [hb] at hc hrest
      have hfresh : Block.Fresh { source := source } := ⟨rfl, rfl, rfl, hc⟩
      exact Link.copyFrom_paid false hfresh hrest
  obtain ⟨l₂, hpayload, hp₂⟩ := hbody
  obtain ⟨l₀, hsend, hw, hheld⟩ := Link.send_wrote hp₂.wrote.ready
  obtain ⟨l', hsend, hp₃, hsame⟩ := Link.send_unpriced.paid hsend hw
  refine ⟨l', ?_, ?_, hsame.trans hheld⟩
  · simp only [deliver, Act.run_bind, hhead, hpayload, hsend]
  · have := (hp₁.trans hp₂).trans hp₃
    rwa [List.append_nil] at this

end HttpEngine
