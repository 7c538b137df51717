import HttpEngine.Proofs.Transport.Accounting
import HttpEngine.Proofs.Transport.Drawing

/-!
# Reading within an allowance

What a link may read for one request is its allowance. As long as its reads bring no more than that,
a link does what it would do **without any limit**; a read that brings more is the last.

* `Link.Charged`: what the reads brought was paid for by the allowance.
* `Link.Overrun`: the last read brought more than was left of it.
* `Link.Meets`: an activity that comes to one or the other.
* `Link.readLine_meets`, `Link.readBytes_meets`: lines and bodies.
-/

namespace HttpEngine

open Text

namespace Budget

variable {b c : Budget} {m n : Nat}

theorem not_exceeded_of_spend (h : b.spend n = some c) : ¬ b.Exceeded n := by
  rw [← spend_eq_none, h]
  nofun

theorem spend_of_not_exceeded (h : ¬ b.Exceeded n) : b.spend n = some (b.less n) := by
  cases hs : b.spend n with
  | none => exact absurd (spend_eq_none.1 hs) h
  | some c => rw [less_of_spend hs]

theorem Exceeded.mono (h : b.Exceeded m) (hle : m ≤ n) : b.Exceeded n := by
  obtain ⟨left, rfl, hlt⟩ := h
  exact ⟨left, rfl, Nat.lt_of_lt_of_le hlt hle⟩

/-- What is too much for the rest of a budget is too much for the budget **with what was spent**. -/
theorem exceeded_add (h : b.spend m = some c) : c.Exceeded n ↔ b.Exceeded (m + n) := by
  cases b with
  | none =>
    cases h
    simp [Exceeded]
  | some left =>
    have hm : m ≤ left := le_of_spend h left rfl
    have hc := less_of_spend h
    subst hc
    simp only [Exceeded, less, Option.map_some, Option.some.injEq, exists_eq_left']
    omega

end Budget

namespace Journal

variable {j j' older : Journal}

/-- Reading brings **more and more**, while one request is awaited. -/
theorem Grows.intake_le (h : Grows Event.isInput j j') : j.intake ≤ j'.intake := by
  obtain ⟨added, rfl, hadded⟩ := h
  induction added with
  | nil => exact Nat.le_refl _
  | cons e added ih =>
    refine Nat.le_trans (ih fun e' he => hadded e' (List.mem_cons_of_mem _ he)) ?_
    have he := hadded e List.mem_cons_self
    cases e with
    | transfer t =>
      cases t with
      | read count => exact Nat.le_add_right _ _
      | readFailed cause => exact Nat.le_refl _
      | _ => cases he
    | received => exact Nat.le_refl _
    | _ => cases he

end Journal

namespace Link

/-- The same link with **no limit** on what it may read. -/
def unlimited (l : Link) : Link := { l with readLeft := none }

/-- What reads brought since a request was awaited **was paid for** by the allowance. -/
def Charged (limit : Budget) (l : Link) : Prop :=
  limit.spend l.wire.journal.intake = some l.readLeft

/-- The last read brought **more than was left** of the allowance, and all before it were paid for. -/
def Overrun (limit : Budget) (l : Link) : Prop :=
  ∃ (count : Nat) (older : Journal), l.wire.journal = .transfer (.read count) :: older ∧
    ¬ limit.Exceeded older.intake ∧ limit.Exceeded (older.intake + count)

/-- The number of bytes brought since a request was awaited and of those still to come. -/
def supply (l : Link) : Nat := l.wire.journal.intake + l.wire.inbound.undelivered.length

variable {ε α β : Type}

/-- What an activity comes to, left **without a limit** to what may be read. -/
def freed : EStateM.Result ε Link α → EStateM.Result ε Link α
  | .ok a l => .ok a l.unlimited
  | .error e l => .error e l.unlimited

/-- On a link that keeps within its allowance an activity does **what it does without a limit** and
keeps within it, or else fails with `excess` at a read that brings more. Nothing is lost of what there
is to read. -/
def Meets (excess : Halt ε) (limit : Budget) (act : EStateM (Halt ε) Link α) (l : Link) : Prop :=
  l.Charged limit → (Act.leaves act l).supply = l.supply ∧
    ((Act.leaves act l).Charged limit ∧ act l.unlimited = freed (act l) ∨
      ∃ l', act l = .error excess l' ∧ l'.Overrun limit)

variable {excess : Halt ε} {limit : Budget} {act : EStateM (Halt ε) Link α}
  {f : α → EStateM (Halt ε) Link β} {l l' : Link}

theorem Meets.bind (hact : Meets excess limit act l)
    (hf : ∀ a l', act l = .ok a l' → Meets excess limit (f a) l') :
    Meets excess limit (act >>= f) l := by
  intro hl
  obtain ⟨hsupply, hends⟩ := hact hl
  cases h : act l with
  | error halt l₁ =>
    have he : (act >>= f) l = .error halt l₁ := by rw [Act.run_bind, h]
    rw [Act.leaves_of_error h] at hsupply hends
    rw [Act.leaves_of_error he, he]
    refine ⟨hsupply, ?_⟩
    rcases hends with ⟨hcharged, hsame⟩ | ⟨l₂, hover, hrun⟩
    · refine .inl ⟨hcharged, ?_⟩
      rw [Act.run_bind, hsame, h]
      rfl
    · rw [h] at hover
      cases hover
      exact .inr ⟨l₁, rfl, hrun⟩
  | ok a l₁ =>
    have he : (act >>= f) l = f a l₁ := by rw [Act.run_bind, h]
    rw [Act.leaves_of_ok h] at hsupply hends
    rcases hends with ⟨hcharged, hsame⟩ | ⟨l₂, hover, -⟩
    · obtain ⟨hsupply', hends'⟩ := hf a l₁ h hcharged
      have hleaves : Act.leaves (act >>= f) l = Act.leaves (f a) l₁ := by
        rw [Act.leaves, Act.leaves, he]
      have hfree : (act >>= f) l.unlimited = f a l₁.unlimited := by
        rw [Act.run_bind, hsame, h]
        rfl
      rw [hleaves, he, hfree]
      exact ⟨hsupply'.trans hsupply, hends'⟩
    · rw [h] at hover
      cases hover

/-- The state may be looked at, **but not for what may still be read**. -/
theorem meets_get_bind {f : Link → EStateM (Halt ε) Link β} (hsame : f l.unlimited = f l)
    (hf : Meets excess limit (f l) l) : Meets excess limit (get >>= f) l := by
  intro hl
  obtain ⟨hsupply, hends⟩ := hf hl
  refine ⟨hsupply, hends.imp (fun ⟨hcharged, hfree⟩ => ⟨hcharged, ?_⟩) id⟩
  show f l.unlimited l.unlimited = _
  rw [hsame]
  exact hfree

/-- What changes nothing that matters for reading **keeps within every allowance**. -/
theorem meets_of_same (hsupply : (Act.leaves act l).supply = l.supply)
    (hintake : (Act.leaves act l).wire.journal.intake = l.wire.journal.intake)
    (hleft : (Act.leaves act l).readLeft = l.readLeft) (hfree : act l.unlimited = freed (act l)) :
    Meets excess limit act l := by
  refine fun hl => ⟨hsupply, .inl ⟨?_, hfree⟩⟩
  rw [Charged, hintake, hleft]
  exact hl

theorem meets_pure (a : α) (l : Link) :
    Meets excess limit (pure a : EStateM (Halt ε) Link α) l :=
  meets_of_same rfl rfl rfl rfl

theorem meets_throw (halt : Halt ε) (l : Link) :
    Meets excess limit (throw halt : EStateM (Halt ε) Link α) l :=
  meets_of_same rfl rfl rfl rfl

/-! ### Reads -/

/-- The failure of a read that brings too much. -/
abbrev tooMuch : Halt IoError := .failed (.overBudget .read)

theorem read_meets (room : Nat) (l : Link) : Meets tooMuch limit (read room) l := by
  intro hl
  rcases Wire.read_takes room l.wire with ⟨bytes, w, hw, hjournal, hsplit, -⟩ |
    ⟨halt, w, hw, hintake, hundelivered⟩
  · have he := read_of_ok hw
    have hfree : read room l.unlimited = .ok bytes { l.unlimited with wire := w } :=
      read_of_wire rfl hw
    have hbrought : w.journal.intake = l.wire.journal.intake + bytes.length := by
      rw [hjournal]
      rfl
    have hsupply : w.journal.intake + w.inbound.undelivered.length = l.supply := by
      rw [hbrought, supply, hsplit, List.length_append, Nat.add_assoc]
    cases hs : l.readLeft.spend bytes.length with
    | some left =>
      simp only [hs] at he
      rw [Act.leaves_of_ok he, he, hfree]
      refine ⟨hsupply, .inl ⟨?_, rfl⟩⟩
      rw [Charged, hbrought]
      exact Budget.spend_add hl hs
    | none =>
      simp only [hs] at he
      rw [Act.leaves_of_error he]
      refine ⟨hsupply, .inr ⟨_, he, bytes.length, l.wire.journal, hjournal, ?_, ?_⟩⟩
      · exact Budget.not_exceeded_of_spend hl
      · exact (Budget.exceeded_add hl).1 (Budget.spend_eq_none.1 hs)
  · have he := read_of_error hw
    have hfree : read room l.unlimited = .error halt { l.unlimited with wire := w } :=
      read_of_error hw
    refine meets_of_same ?_ ?_ ?_ ?_ hl
    · rw [Act.leaves_of_error he, supply, supply, hintake, hundelivered]
    · rw [Act.leaves_of_error he, hintake]
    · rw [Act.leaves_of_error he]
    · rw [hfree, he]
      rfl

theorem pause_meets (ms : Nat) (l : Link) : Meets tooMuch limit (onWire (Wire.pause ms)) l := by
  have hjournal : (Act.leaves (Wire.pause ms) l.wire).journal = l.wire.journal :=
    Wire.journal_await _ l.wire
  have hinbound : (Act.leaves (Wire.pause ms) l.wire).inbound = l.wire.inbound :=
    Wire.inbound_leaves_await _ l.wire
  have hl : Act.leaves (onWire (Wire.pause ms)) l
      = { l with wire := Act.leaves (Wire.pause ms) l.wire } := by
    unfold Act.leaves onWire
    cases Wire.pause ms l.wire <;> rfl
  refine meets_of_same ?_ ?_ ?_ ?_
  · rw [hl, supply, supply, hjournal, hinbound]
  · rw [hl, hjournal]
  · rw [hl]
  · unfold onWire
    rw [show l.unlimited.wire = l.wire from rfl]
    cases Wire.pause ms l.wire <;> rfl

/-- What is done **to the read buffer alone**. -/
theorem rebuffer_meets (taken : Nat → Nat) (bytes : Bytes) (l : Link) :
    Meets excess limit (modify fun l => { l with taken := taken l.taken, unread := bytes } :
      EStateM (Halt ε) Link PUnit) l :=
  meets_of_same rfl rfl rfl rfl

/-! ### Lines -/

theorem refill_meets (retries : Nat) (l : Link) : Meets tooMuch limit (refill retries) l := by
  induction retries generalizing l with
  | zero =>
    unfold refill
    refine meets_get_bind rfl ((read_meets _ l).bind fun bytes l₁ _ => ?_)
    cases bytes with
    | nil => exact (rebuffer_meets (fun _ => 0) [] l₁).bind fun _ l₂ _ => meets_pure _ l₂
    | cons b bytes =>
      exact (rebuffer_meets (fun _ => 0) (b :: bytes) l₁).bind fun _ l₂ _ => meets_pure _ l₂
  | succ n ih =>
    unfold refill
    refine meets_get_bind rfl ((read_meets _ l).bind fun bytes l₁ _ => ?_)
    cases bytes with
    | cons b bytes =>
      exact (rebuffer_meets (fun _ => 0) (b :: bytes) l₁).bind fun _ l₂ _ => meets_pure _ l₂
    | nil => exact meets_get_bind rfl ((pause_meets _ l₁).bind fun _ l₂ _ => ih l₂)

theorem nextByte_meets (l : Link) : Meets tooMuch limit nextByte l := by
  have hconsume : ∀ l : Link, Meets tooMuch limit consume l := by
    intro l
    refine meets_get_bind rfl ?_
    cases l.unread with
    | nil => exact meets_pure _ l
    | cons b rest => exact (rebuffer_meets (· + 1) rest l).bind fun _ l₁ _ => meets_pure _ l₁
  rw [nextByte_eq]
  refine meets_get_bind rfl ?_
  cases l.unread.isEmpty with
  | false => exact hconsume l
  | true =>
    refine meets_get_bind rfl ((refill_meets _ l).bind fun more l₁ _ => ?_)
    cases more with
    | false => exact meets_pure _ l₁
    | true => exact hconsume l₁

theorem lineFrom_meets (room : Nat) (soFar : Bytes) (l : Link) :
    Meets tooMuch limit (lineFrom room soFar) l := by
  induction room generalizing soFar l with
  | zero => exact meets_get_bind rfl (meets_throw _ l)
  | succ room ih =>
    unfold lineFrom
    refine (nextByte_meets l).bind fun b? l₁ _ => ?_
    cases b? with
    | none => exact meets_pure _ l₁
    | some b =>
      simp only
      split
      · exact meets_pure _ l₁
      · exact ih _ l₁

theorem readLine_meets (l : Link) : Meets tooMuch limit readLine l :=
  meets_get_bind rfl (lineFrom_meets _ [] l)

/-! ### Bodies -/

theorem bodyFrom_meets (want remaining retries : Nat) (got : Bytes) (l : Link) :
    Meets tooMuch limit (bodyFrom want remaining retries got) l := by
  fun_induction bodyFrom want remaining retries got generalizing l with
  | case1 => exact meets_pure _ l
  | case2 retries got missing ihMore ihAgain =>
    refine meets_get_bind rfl ((read_meets _ l).bind fun bytes l₁ _ => ?_)
    cases bytes with
    | cons b bytes => exact ihMore l b bytes l₁
    | nil =>
      cases retries with
      | zero => exact meets_throw _ l₁
      | succ n => exact (pause_meets _ l₁).bind fun _ l₂ _ => ihAgain l₂

/-- What was read ahead is consumed first, **be it all of it**. -/
theorem readBytes_meets (count : Nat) (l : Link) : Meets tooMuch limit (readBytes count) l := by
  by_cases hc : count ≤ l.unread.length
  · have he := readBytes_of_le hc
    have hfree : readBytes count l.unlimited
        = .ok (l.unread.take count)
          { l.unlimited with taken := l.taken + count, unread := l.unread.drop count } :=
      readBytes_of_le (l := l.unlimited) hc
    refine meets_of_same ?_ ?_ ?_ ?_
    · rw [Act.leaves_of_ok he, supply, supply]
    · rw [Act.leaves_of_ok he]
    · rw [Act.leaves_of_ok he]
    · rw [hfree, he]
      rfl
  · have hlt := Nat.lt_of_not_le hc
    have hfree : readBytes count l.unlimited
        = bodyFrom count (count - l.unread.length) l.options.retries l.unread
          { l.unlimited with taken := 0, unread := [] } :=
      readBytes_of_lt (l := l.unlimited) hlt
    intro hl
    obtain ⟨hsupply, hends⟩ := bodyFrom_meets count (count - l.unread.length) l.options.retries
      l.unread { l with taken := 0, unread := [] } hl
    rw [Act.leaves, readBytes_of_lt hlt, hfree]
    exact ⟨hsupply, hends⟩

end Link

end HttpEngine
