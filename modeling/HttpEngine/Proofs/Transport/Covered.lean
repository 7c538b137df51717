import HttpEngine.Proofs.Transport.Allowance
import HttpEngine.Proofs.Transport.Reads

/-!
# A body is refused at the outset or not at all

A body of which more is missing than the budget allows is refused **before anything is done**. One
that is covered is read as if there were no budget: in whatever pieces it comes, no read asks for
more than was looked at in the beginning.

* `Link.Brought`: so many bytes were brought, each out of the budget.
* `Link.Covered`: an activity that has all it may need.
* `Link.bodyFrom_covered`, `Link.readBytes_covered`: the reads for a body.
* `Link.readBody_exact`: what comes of asking for one.
-/

namespace HttpEngine

open Text

namespace Link

variable {α β : Type} {l l₁ l₂ l' : Link} {m n room ms : Nat} {act : Act α} {f : α → Act β}

/-- Reads brought so many bytes, and **each was paid for**. -/
structure Brought (spent : Nat) (l l' : Link) : Prop where
  intake : l'.wire.journal.intake = l.wire.journal.intake + spent
  readLeft : l.readLeft.spend spent = some l'.readLeft

theorem Brought.refl (l : Link) : Brought 0 l l := ⟨rfl, Budget.spend_zero _⟩

theorem Brought.trans (h : Brought m l l₁) (k : Brought n l₁ l₂) : Brought (m + n) l l₂ :=
  ⟨by rw [k.intake, h.intake, Nat.add_assoc], Budget.spend_add h.readLeft k.readLeft⟩

/-- With `n` bytes to spend an activity does **what it does without a budget**. It spends at most
these, and all of them if it succeeds. -/
def Covered (n : Nat) (act : Act α) (l : Link) : Prop :=
  ¬ l.readLeft.Exceeded n →
    act l.unlimited = freed (act l) ∧
      (∃ spent ≤ n, Brought spent l (Act.leaves act l)) ∧
      ∀ a l', act l = .ok a l' → Brought n l l'

theorem covered_pure (a : α) (l : Link) : Covered 0 (pure a) l :=
  fun _ => ⟨rfl, ⟨0, Nat.le_refl 0, .refl l⟩, fun _ _ h => by cases h; exact .refl l⟩

theorem covered_throw (halt : Halt IoError) (l : Link) : Covered n (throw halt : Act α) l := by
  refine fun _ => ⟨rfl, ⟨0, Nat.zero_le n, .refl l⟩, fun a l' h => ?_⟩
  rw [Act.run_throw] at h
  cases h

/-- The state may be looked at, **but not for what may still be read**. -/
theorem covered_get_bind {f : Link → Act β} (hsame : f l.unlimited = f l)
    (hf : Covered n (f l) l) : Covered n (get >>= f) l := by
  intro hn
  obtain ⟨hfree, hends⟩ := hf hn
  refine ⟨?_, hends⟩
  show f l.unlimited l.unlimited = _
  rw [hsame]
  exact hfree

/-- What was **spent on the way** is no longer needed afterwards. -/
theorem Covered.after {spent : Nat} {a : α} (hact : act l = .ok a l₁)
    (hfree : act l.unlimited = .ok a l₁.unlimited) (hpaid : Brought spent l l₁) (hle : spent ≤ n)
    (hf : Covered (n - spent) (f a) l₁) : Covered n (act >>= f) l := by
  intro hn
  have hsplit : spent + (n - spent) = n := Nat.add_sub_cancel' hle
  have hrest : ¬ l₁.readLeft.Exceeded (n - spent) := by
    rwa [Budget.exceeded_add hpaid.readLeft, hsplit]
  obtain ⟨hsame, ⟨more, hmore, hpaid'⟩, hall⟩ := hf hrest
  have he : (act >>= f) l = f a l₁ := by rw [Act.run_bind, hact]
  refine ⟨?_, ⟨spent + more, by omega, ?_⟩, fun b l' hb => ?_⟩
  · rw [Act.run_bind, hfree, he]
    exact hsame
  · rw [Act.leaves, he]
    exact hpaid.trans hpaid'
  · rw [← hsplit]
    exact hpaid.trans (hall b l' (he.symm.trans hb))

theorem Covered.of_error {halt : Halt IoError} (hact : act l = .error halt l₁)
    (hfree : act l.unlimited = .error halt l₁.unlimited) (hpaid : Brought 0 l l₁) :
    Covered n (act >>= f) l := by
  intro _
  have he : (act >>= f) l = .error halt l₁ := by rw [Act.run_bind, hact]
  refine ⟨?_, ⟨0, Nat.zero_le n, ?_⟩, fun b l' hb => ?_⟩
  · rw [Act.run_bind, hfree, he]
    rfl
  · rw [Act.leaves_of_error he]
    exact hpaid
  · rw [he] at hb
    cases hb

/-- **One read** with no more room than there is left to spend. -/
theorem covered_read_bind {f : Bytes → Act β} (hroom : room ≤ n)
    (hf : ∀ bytes l₁, bytes.length ≤ room → Covered (n - bytes.length) (f bytes) l₁) :
    Covered n (read room >>= f) l := by
  intro hn
  rcases Wire.read_takes room l.wire with ⟨bytes, w, hw, hjournal, -, hle⟩ |
    ⟨halt, w, hw, hintake, -⟩
  · -- what comes fits into the room, and so into the budget
    have hfits : ¬ l.readLeft.Exceeded bytes.length :=
      fun h => hn (h.mono (Nat.le_trans hle hroom))
    have hs := Budget.spend_of_not_exceeded hfits
    have he := read_of_ok hw
    simp only [hs] at he
    have hfree : read room l.unlimited = .ok bytes { l.unlimited with wire := w } :=
      read_of_wire rfl hw
    have hpaid : Brought bytes.length l
        { l with wire := w, readLeft := l.readLeft.less bytes.length } :=
      ⟨by rw [hjournal]; rfl, hs⟩
    exact Covered.after he hfree hpaid (Nat.le_trans hle hroom) (hf bytes _ hle) hn
  · have he := read_of_error hw
    have hfree : read room l.unlimited = .error halt { l.unlimited with wire := w } :=
      read_of_error hw
    exact Covered.of_error he hfree ⟨hintake, Budget.spend_zero _⟩ hn

/-- A pause **costs nothing**. -/
theorem covered_pause_bind {f : Unit → Act β} (hf : ∀ l₁, Covered n (f ()) l₁) :
    Covered n (onWire (Wire.pause ms) >>= f) l := by
  have hjournal : (Act.leaves (Wire.pause ms) l.wire).journal = l.wire.journal :=
    Wire.journal_await _ l.wire
  cases hp : Wire.pause ms l.wire with
  | ok u w =>
    rw [Act.leaves_of_ok hp] at hjournal
    have he : ∀ l' : Link, l'.wire = l.wire →
        onWire (Wire.pause ms) l' = .ok () { l' with wire := w } := by
      intro l' hw
      simp only [onWire, hw, hp]
    have hpaid : Brought 0 l { l with wire := w } := ⟨by rw [hjournal]; rfl, Budget.spend_zero _⟩
    exact Covered.after (he l rfl) (he l.unlimited rfl) hpaid (Nat.zero_le n) (hf _)
  | error halt w =>
    rw [Act.leaves_of_error hp] at hjournal
    have he : ∀ l' : Link, l'.wire = l.wire →
        onWire (Wire.pause ms) l' = .error halt { l' with wire := w } := by
      intro l' hw
      simp only [onWire, hw, hp]
    exact Covered.of_error (he l rfl) (he l.unlimited rfl)
      ⟨by rw [hjournal]; rfl, Budget.spend_zero _⟩

/-- The reads for the rest of a body ask **for no more than is missing**. -/
theorem bodyFrom_covered (want remaining retries : Nat) (got : Bytes) (l : Link) :
    Covered remaining (bodyFrom want remaining retries got) l := by
  fun_induction bodyFrom want remaining retries got generalizing l with
  | case1 => exact covered_pure _ l
  | case2 retries got missing ihMore ihAgain =>
    refine covered_get_bind rfl (covered_read_bind (Nat.min_le_left _ _) fun bytes l₁ _ => ?_)
    cases bytes with
    | cons b bytes =>
      have hleft : missing + 1 - (b :: bytes).length = missing - bytes.length := by
        rw [List.length_cons, Nat.add_sub_add_right]
      rw [hleft]
      exact ihMore l b bytes l₁
    | nil =>
      cases retries with
      | zero => exact covered_throw _ l₁
      | succ k => exact covered_pause_bind fun l₂ => ihAgain l₂

/-- What is read ahead **was paid for when it came**. -/
theorem readBytes_covered (count : Nat) (l : Link) :
    Covered (count - l.unread.length) (readBytes count) l := by
  by_cases hc : count ≤ l.unread.length
  · have he := readBytes_of_le hc
    have hfree : readBytes count l.unlimited
        = .ok (l.unread.take count)
          { l.unlimited with taken := l.taken + count, unread := l.unread.drop count } :=
      readBytes_of_le (l := l.unlimited) hc
    have hpaid : Brought 0 l { l with taken := l.taken + count, unread := l.unread.drop count } :=
      ⟨rfl, Budget.spend_zero _⟩
    rw [Nat.sub_eq_zero_of_le hc]
    refine fun _ => ⟨by rw [hfree, he]; rfl, ⟨0, Nat.le_refl 0, ?_⟩, fun bytes l' h => ?_⟩
    · rw [Act.leaves_of_ok he]
      exact hpaid
    · rw [he] at h
      cases h
      exact hpaid
  · have hlt := Nat.lt_of_not_le hc
    have hfree : readBytes count l.unlimited
        = bodyFrom count (count - l.unread.length) l.options.retries l.unread
          { l.unlimited with taken := 0, unread := [] } :=
      readBytes_of_lt (l := l.unlimited) hlt
    intro hn
    obtain ⟨hsame, ⟨spent, hle, hpaid⟩, hall⟩ := bodyFrom_covered count (count - l.unread.length)
      l.options.retries l.unread { l with taken := 0, unread := [] } hn
    rw [hfree, Act.leaves, readBytes_of_lt hlt]
    refine ⟨hsame, ⟨spent, hle, hpaid.intake, hpaid.readLeft⟩, fun bytes l' h => ?_⟩
    have hexact := hall bytes l' h
    exact ⟨hexact.intake, hexact.readLeft⟩

end Link

/-! ### The stream's own failures -/

/-- None of the failures that a stream has of its own is **the failure of a budget**. -/
def Inbound.Unbudgeted : Inbound → Prop
  | script s => .failure (.overBudget .read) ∉ s.pieces
  | peer _ _ => True

theorem Inbound.Unbudgeted.take {i : Inbound} (h : i.Unbudgeted) (now room : Nat) :
    (i.take now room).1 ≠ .error (.overBudget .read) ∧ (i.take now room).2.Unbudgeted := by
  have hbrings : ∀ bytes : Bytes,
      (Except.ok bytes : Except IoError Bytes) ≠ .error (.overBudget .read) := by
    intro bytes he
    cases he
  cases i with
  | peer runs ends => exact ⟨hbrings _, trivial⟩
  | script s =>
    obtain ⟨pieces, hangs⟩ := s
    cases pieces with
    | nil => cases hangs <;> exact ⟨hbrings _, h⟩
    | cons piece pieces =>
      have hrest : Piece.failure (.overBudget .read) ∉ pieces :=
        fun hm => h (List.mem_cons_of_mem _ hm)
      cases piece with
      | failure cause =>
        refine ⟨fun he => h ?_, hrest⟩
        cases he
        exact List.mem_cons_self
      | data bytes =>
        by_cases hlt : room < bytes.length
        · simp only [Inbound.take, Script.read, hlt, if_true]
          refine ⟨hbrings _, fun hm => ?_⟩
          rcases List.mem_cons.1 hm with he | hm
          · cases he
          · exact hrest hm
        · simp only [Inbound.take, Script.read, hlt, if_false]
          exact ⟨hbrings _, hrest⟩

theorem Wire.read_unbudgeted {w : Wire} (h : w.inbound.Unbudgeted) (room : Nat) :
    (Act.leaves (read room) w).inbound.Unbudgeted ∧
      ∀ halt w', read room w = .error halt w' → halt ≠ .failed (.overBudget .read) := by
  have hinbound := inbound_leaves_await (w.inbound.readyAt w.clock) w
  unfold read
  cases hw : await (w.inbound.readyAt w.clock) w with
  | error halt w₁ =>
    rw [Act.leaves_of_error hw] at hinbound
    have hcut := cut_of_await hw
    simp only [Act.leaves, Act.run_bind, Act.run_get, hw]
    refine ⟨by rwa [hinbound], fun halt' w' he => ?_⟩
    cases he
    rw [hcut]
    exact fun h => by cases h
  | ok u w₁ =>
    rw [Act.leaves_of_ok hw] at hinbound
    rw [← hinbound] at h
    obtain ⟨hown, hrest⟩ := h.take w₁.clock room
    cases ha : w₁.inbound.take w₁.clock room with
    | mk answer inbound =>
      rw [ha] at hown hrest
      simp only [Act.leaves, Act.run_bind, Act.run_get, hw, ha]
      cases answer with
      | ok bytes => exact ⟨hrest, fun halt w' he => by cases he⟩
      | error cause =>
        refine ⟨hrest, fun halt w' he hsame => hown ?_⟩
        cases he
        cases hsame
        rfl

namespace Link

variable {α β : Type}

/-- There is no limit to what may be read, and no failure of the stream **looks like one**. -/
def Boundless (l : Link) : Prop := l.readLeft = none ∧ l.wire.inbound.Unbudgeted

/-- From a link without a limit an activity leads to one, and **does not fail for a limit**. -/
def Unstinted (act : Act α) : Prop :=
  ∀ l : Link, l.Boundless →
    (Act.leaves act l).Boundless ∧ ∀ halt l', act l = .error halt l' → halt ≠ tooMuch

variable {act : Act α} {f : α → Act β}

theorem Unstinted.bind (hact : Unstinted act) (hf : ∀ a, Unstinted (f a)) :
    Unstinted (act >>= f) := by
  intro l hl
  obtain ⟨hleaves, hown⟩ := hact l hl
  cases h : act l with
  | ok a l₁ =>
    rw [Act.leaves_of_ok h] at hleaves
    have he : (act >>= f) l = f a l₁ := by rw [Act.run_bind, h]
    rw [Act.leaves, he]
    exact hf a l₁ hleaves
  | error halt l₁ =>
    rw [Act.leaves_of_error h] at hleaves
    have he : (act >>= f) l = .error halt l₁ := by rw [Act.run_bind, h]
    rw [Act.leaves_of_error he, he]
    refine ⟨hleaves, fun halt' l' h' => ?_⟩
    cases h'
    exact hown halt l₁ h

theorem unstinted_get_bind {f : Link → Act β} (hf : ∀ l, Unstinted (f l)) :
    Unstinted (get >>= f) :=
  fun l hl => hf l l hl

theorem unstinted_pure (a : α) : Unstinted (pure a : Act α) :=
  fun _ hl => ⟨hl, fun _ _ h => by cases h⟩

theorem unstinted_throw {halt : Halt IoError} (h : halt ≠ tooMuch) :
    Unstinted (throw halt : Act α) := by
  refine fun l hl => ⟨hl, fun halt' l' he => ?_⟩
  rw [Act.run_throw] at he
  cases he
  exact h

theorem read_unstinted (room : Nat) : Unstinted (read room) := by
  rintro l ⟨hlimit, hown⟩
  obtain ⟨hinbound, hfail⟩ := Wire.read_unbudgeted hown room
  cases hw : Wire.read room l.wire with
  | ok bytes w =>
    rw [Act.leaves_of_ok hw] at hinbound
    have he : read room l = .ok bytes { l with wire := w } := read_of_wire hlimit hw
    rw [Act.leaves_of_ok he, he]
    exact ⟨⟨hlimit, hinbound⟩, fun _ _ h => by cases h⟩
  | error halt w =>
    rw [Act.leaves_of_error hw] at hinbound
    have he := read_of_error hw
    rw [Act.leaves_of_error he, he]
    refine ⟨⟨hlimit, hinbound⟩, fun halt' l' h => ?_⟩
    cases h
    exact hfail halt w hw

theorem pause_unstinted (ms : Nat) : Unstinted (onWire (Wire.pause ms)) := by
  rintro l ⟨hlimit, hown⟩
  have hinbound : (Act.leaves (Wire.pause ms) l.wire).inbound = l.wire.inbound :=
    Wire.inbound_leaves_await _ l.wire
  unfold Act.leaves onWire
  cases hp : Wire.pause ms l.wire with
  | ok u w =>
    rw [Act.leaves_of_ok hp] at hinbound
    exact ⟨⟨hlimit, by rwa [hinbound]⟩, fun _ _ h => by cases h⟩
  | error halt w =>
    rw [Act.leaves_of_error hp] at hinbound
    have hcut : halt = .cut := Wire.cut_of_await hp
    refine ⟨⟨hlimit, by rwa [hinbound]⟩, fun halt' l' h => ?_⟩
    cases h
    rw [hcut]
    exact fun h => by cases h

theorem bodyFrom_unstinted (want remaining retries : Nat) (got : Bytes) :
    Unstinted (bodyFrom want remaining retries got) := by
  fun_induction bodyFrom want remaining retries got with
  | case1 => exact unstinted_pure _
  | case2 retries got missing ihMore ihAgain =>
    refine unstinted_get_bind fun l => (read_unstinted _).bind fun bytes => ?_
    cases bytes with
    | cons b bytes => exact ihMore l b bytes
    | nil =>
      cases retries with
      | zero => exact unstinted_throw fun h => by cases h
      | succ k => exact (pause_unstinted _).bind fun _ => ihAgain

theorem readBytes_unstinted (count : Nat) : Unstinted (readBytes count) := by
  rintro l ⟨hlimit, hown⟩
  by_cases hc : count ≤ l.unread.length
  · have he := readBytes_of_le hc
    rw [Act.leaves_of_ok he, he]
    exact ⟨⟨hlimit, hown⟩, fun _ _ h => by cases h⟩
  · rw [Act.leaves, readBytes_of_lt (Nat.lt_of_not_le hc)]
    exact bodyFrom_unstinted _ _ _ _ _ ⟨hlimit, hown⟩

/-! ### Asking for a body -/

/-- **The check made before a body is read is exact, and harmless.** What is missing of a body is what
is not read ahead. If the budget does not allow so much the body is refused, and nothing else
happens: the link, its stream and all that was done on it are as they were. Otherwise it is read as
it is without a budget, whatever comes of that; each byte that is brought is paid for, no more are
brought than are missing, and all of these if the body is read. So a body is refused for the budget
**only** by this check, unless the stream below has failures of its own that look the same. -/
theorem readBody_exact (count : Nat) (l : Link) :
    (l.readLeft.Exceeded (count - l.unread.length) →
      readBody count l = .error tooMuch l) ∧
    (¬ l.readLeft.Exceeded (count - l.unread.length) →
      readBytes count l.unlimited = freed (readBody count l) ∧
      (∃ spent ≤ count - l.unread.length, Brought spent l (Act.leaves (readBody count) l)) ∧
      ∀ bytes l', readBody count l = .ok bytes l' →
        bytes.length = count ∧ Brought (count - l.unread.length) l l' ∧
          l'.readLeft = l.readLeft.map (· - (count - l.unread.length))) ∧
    (l.wire.inbound.Unbudgeted →
      ((∃ l', readBody count l = .error tooMuch l') ↔
        l.readLeft.Exceeded (count - l.unread.length))) := by
  have hpoor : l.readLeft.Exceeded (count - l.unread.length) →
      readBody count l = .error tooMuch l :=
    fun h => readBody_of_poor (Budget.spend_eq_none.2 h)
  have hsolvent : ¬ l.readLeft.Exceeded (count - l.unread.length) →
      readBody count l = readBytes count l :=
    fun h => readBody_of_solvent (Budget.spend_of_not_exceeded h)
  refine ⟨hpoor, fun hn => ?_, fun hown => ⟨?_, fun h => ⟨l, hpoor h⟩⟩⟩
  · obtain ⟨hsame, hspent, hall⟩ := readBytes_covered count l hn
    rw [Act.leaves, hsolvent hn]
    refine ⟨hsame, hspent, fun bytes l' h => ?_⟩
    have hpaid := hall bytes l' h
    exact ⟨(readBytes_drew h).2, hpaid, (Budget.less_of_spend hpaid.readLeft).symm⟩
  · rintro ⟨l', h⟩
    refine Classical.byContradiction fun hn => ?_
    obtain ⟨hsame, -⟩ := readBytes_covered count l hn
    have hfree : readBytes count l.unlimited = .error tooMuch l'.unlimited := by
      rw [hsame, ← hsolvent hn, h]
      rfl
    exact (readBytes_unstinted count l.unlimited ⟨rfl, hown⟩).2 _ _ hfree rfl

/-- Two bytes read ahead, and three more that may be read of a stream that brings six. -/
def frugal : Link :=
  { wire :=
      { inbound := .script { pieces := [.data (ascii "c"), .data [], .data (ascii "defgh")] } }
    readLeft := some 3
    unread := ascii "ab" }

/-- A body for which the budget just suffices, and one **a byte longer**. -/
theorem readBody_exact_frugal :
    (∃ l', readBody 5 frugal = .ok (ascii "abcde") l' ∧ l'.readLeft = some 0) ∧
      readBody 6 frugal = .error tooMuch frugal ∧
      ¬ ∃ l', readBody 5 frugal = .error tooMuch l' := by
  have hfits : ¬ frugal.readLeft.Exceeded 3 := by rintro ⟨left, ⟨⟩, hlt⟩; omega
  have hown : frugal.wire.inbound.Unbudgeted := by
    simp [frugal, Inbound.Unbudgeted]
  obtain ⟨-, hread, hiff⟩ := readBody_exact 5 frugal
  refine ⟨?_, (readBody_exact 6 frugal).1 ⟨3, rfl, by decide⟩, fun h => hfits ((hiff hown).1 h)⟩
  have hheld : frugal.unlimited.Holds {} true frugal.unlimited.sending (ascii "abcdefgh") :=
    ⟨ascii "ab", [ascii "c", [], ascii "defgh"], ⟨rfl, rfl, ⟨rfl, rfl⟩, rfl, rfl, rfl⟩,
      by decide, rfl⟩
  obtain ⟨l₁, hfree, -⟩ := readBytes_holds 5 hheld
  obtain ⟨hsame, -, hall⟩ := hread hfits
  have hfreed : freed (readBody 5 frugal) = .ok (ascii "abcde") l₁ := hsame.symm.trans hfree
  cases h : readBody 5 frugal with
  | error halt l' =>
    rw [h] at hfreed
    cases hfreed
  | ok bytes l' =>
    rw [h] at hfreed
    cases hfreed
    exact ⟨l', rfl, (hall _ l' h).2.2⟩

end Link

end HttpEngine
