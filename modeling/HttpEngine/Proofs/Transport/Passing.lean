import HttpEngine.Proofs.Transport.Writing
import HttpEngine.Transport.Transfers

/-!
# What becomes of bytes, whatever fails

A write may be refused, taken in part, or broken off while held bytes are on their way. In each
case the bytes a link has accepted are **on the stream or held**, in the order they were accepted
in, and the write budget has paid for exactly them.

* `Link.Passed`: some bytes were accepted and so much was paid, and nothing was read.
* `Link.spill_passed`: emptying the buffer, **also where it fails midway**.
* `Link.write_passed`: a write accepts what it says it took, and a failed one nothing.
-/

namespace HttpEngine

/-! ### Entries of the journal -/

/-- Whether a transfer is a read, **be it that it failed**. -/
def Transfer.isRead : Transfer → Bool
  | read _ => true
  | readFailed _ => true
  | _ => false

/-- Whether an entry tells of a read, or of what was received. -/
def Event.isInput : Event → Bool
  | .transfer (.read _) => true
  | .transfer (.readFailed _) => true
  | .received => true
  | _ => false

/-- Whether an entry tells of a write, a flush, or of shutting down. -/
def Event.isOutput : Event → Bool
  | .transfer (.wrote _) => true
  | .transfer .writeFailed => true
  | .transfer .flushed => true
  | .transfer .flushFailed => true
  | .transfer .shutDown => true
  | _ => false

/-! ### The stream -/

namespace Wire

variable {w : Wire} {bytes : Bytes}

/-- Some bytes were put on a stream, **and nothing else**; nothing was read. -/
structure Put (bytes : Bytes) (w w' : Wire) : Prop where
  sent : w'.journal.sent = w.journal.sent ++ bytes
  grows : w.journal.Grows Event.isOutput w'.journal

theorem Put.refl (w : Wire) : Put [] w w := ⟨(List.append_nil _).symm, .refl _⟩

theorem Put.trans {more : Bytes} {w₁ w₂ : Wire} (h : Put bytes w w₁) (k : Put more w₁ w₂) :
    Put (bytes ++ more) w w₂ :=
  ⟨by rw [k.sent, h.sent, List.append_assoc], h.grows.trans k.grows⟩

theorem put_of_journal_eq {w' : Wire} (h : w'.journal = w.journal) : Put [] w w' := by
  refine ⟨by rw [h, List.append_nil], ?_⟩
  rw [h]
  exact .refl _

/-- A wait puts nothing on the stream. -/
theorem put_await (time : Option Nat) (w : Wire) : Put [] w (Act.leaves (await time) w) :=
  put_of_journal_eq (journal_await time w)

theorem put_awaitRoom (w : Wire) : Put [] w (Act.leaves awaitRoom w) :=
  put_await (w.outbound.readyAt w.clock) w

end Wire

theorem Sink.share_le {s : Sink} {count n : Nat} (h : s.share count = .ok n) : n ≤ count := by
  unfold share at h
  split at h
  · cases h
  · cases h
    exact Nat.min_le_right _ _
  · split at h
    · cases h
    · cases h
      exact Nat.min_le_right _ _

theorem Outbound.accept_le {now n : Nat} {bytes : Bytes} {o o' : Outbound}
    (h : o.accept now bytes = (.ok n, o')) : n ≤ bytes.length := by
  cases o with
  | script s =>
    simp only [accept] at h
    split at h
    · simp at h
    · rename_i m hs
      simp only [Prod.mk.injEq, Except.ok.injEq] at h
      rw [← h.1]
      exact Sink.share_le hs
  | pipe p =>
    simp only [accept] at h
    split at h
    · simp at h
    · simp only [Prod.mk.injEq, Except.ok.injEq] at h
      rw [← h.1]
      exact Nat.min_le_left _ _

/-- The bytes that a write says it took, and **none if it failed**. -/
def Act.taken {ε σ : Type} (bytes : Bytes) : EStateM.Result ε σ Nat → Bytes
  | .ok n _ => bytes.take n
  | .error _ _ => []

namespace Wire

theorem write_le {n : Nat} {bytes : Bytes} {w w' : Wire} (h : write bytes w = .ok n w') :
    n ≤ bytes.length := by
  unfold write at h
  obtain ⟨-, w₁, -, h⟩ := Act.bind_eq_ok.1 h
  obtain ⟨w₂, w₂', hg, h⟩ := Act.bind_eq_ok.1 h
  cases hg
  cases ha : w₁.outbound.accept w₁.clock bytes with
  | mk answer outbound =>
    simp only [ha] at h
    cases answer with
    | error cause => cases h
    | ok m =>
      have hle := Outbound.accept_le ha
      by_cases hm : 0 < m <;> simp only [hm, if_true, if_false] at h <;> cases h <;> exact hle

/-- A write puts on the stream **what it says it took**. -/
theorem write_put (bytes : Bytes) (w : Wire) :
    Put (Act.taken bytes (write bytes w)) w (Act.leaves (write bytes) w) := by
  have hroom := put_awaitRoom w
  unfold write
  cases hw : awaitRoom w with
  | error halt w₁ =>
    rw [Act.leaves_of_error hw] at hroom
    simpa only [Act.leaves, Act.taken, Act.run_bind, hw] using hroom
  | ok u w₁ =>
    rw [Act.leaves_of_ok hw] at hroom
    cases ha : w₁.outbound.accept w₁.clock bytes with
    | mk answer outbound =>
      cases answer with
      | error cause =>
        simp only [Act.leaves, Act.taken, Act.run_bind, hw, Act.run_get, ha]
        have hfail : Put [] w₁ { w₁ with
            outbound, journal := .transfer .writeFailed :: w₁.journal } :=
          ⟨(List.append_nil _).symm, Journal.grows_cons rfl⟩
        exact hroom.trans hfail
      | ok n =>
        by_cases hn : 0 < n
        · simp only [Act.leaves, Act.taken, Act.run_bind, hw, Act.run_get, ha, hn, if_true]
          have hwrote : Put (bytes.take n) w₁ { w₁ with
              outbound, journal := .transfer (.wrote (bytes.take n)) :: w₁.journal } :=
            ⟨rfl, Journal.grows_cons rfl⟩
          exact hroom.trans hwrote
        · have hzero : n = 0 := Nat.eq_zero_of_not_pos hn
          subst hzero
          simp only [Act.leaves, Act.taken, Act.run_bind, hw, Act.run_get, ha, hn, if_false]
          exact hroom.trans (put_of_journal_eq rfl)

theorem step_put (w : Wire) : Put [] w (Act.leaves step w) := put_of_journal_eq (journal_step w)

theorem flush_put (w : Wire) : Put [] w (Act.leaves flush w) := by
  unfold flush
  refine Act.leaves_bind (R := Put []) (fun h k => h.trans k) (step_put w) fun _ w₁ _ => ?_
  cases hf : w₁.outbound.flush with
  | mk answer outbound =>
    simp only [Act.leaves, Act.run_bind, Act.run_get, hf]
    cases answer with
    | ok u => exact ⟨(List.append_nil _).symm, Journal.grows_cons rfl⟩
    | error cause => exact ⟨(List.append_nil _).symm, Journal.grows_cons rfl⟩

/-- A flush that succeeds **is noted as one**. -/
theorem journal_flush {w w' : Wire} (h : flush w = .ok () w') :
    w'.journal = .transfer .flushed :: w.journal := by
  unfold flush at h
  obtain ⟨u, w₁, hstep, h⟩ := Act.bind_eq_ok.1 h
  have hjournal := journal_step w
  rw [Act.leaves_of_ok hstep] at hjournal
  obtain ⟨w₂, w₂', hg, h⟩ := Act.bind_eq_ok.1 h
  cases hg
  cases hf : w₁.outbound.flush with
  | mk answer outbound =>
    simp only [hf] at h
    cases answer with
    | error cause => cases h
    | ok u =>
      cases h
      exact congrArg (.transfer .flushed :: ·) hjournal

theorem shutDown_put (w : Wire) : Put [] w (Act.leaves shutDown w) := by
  unfold shutDown
  refine Act.leaves_bind (R := Put []) (fun h k => h.trans k) (step_put w) fun _ w₁ _ => ?_
  refine Act.leaves_bind (R := Put []) (fun h k => h.trans k)
    ⟨(List.append_nil _).symm, Journal.grows_cons rfl⟩ fun _ w₂ _ => ?_
  refine Act.leaves_bind (R := Put []) (fun h k => h.trans k) (.refl w₂) fun w₃ w₄ hg => ?_
  cases hg
  cases w₂.outbound.shutdownFailure? <;> exact .refl w₂

end Wire

namespace Link

variable {l l₁ l₂ : Link} {bytes more : Bytes} {α β : Type}

/-- Bytes were accepted and so many paid for: they are **sent or held**, behind those accepted
before, and nothing was read. -/
structure Passed (bytes : Bytes) (paid : Nat) (l l' : Link) : Prop where
  written : l'.written = l.written ++ bytes
  charged : l.writeLeft.spend paid = some l'.writeLeft
  readLeft : l'.readLeft = l.readLeft
  grows : l.wire.journal.Grows Event.isOutput l'.wire.journal

end Link

/-- Spending in two parts is spending the sum. -/
theorem Budget.spend_add {b b₁ b₂ : Budget} {m n : Nat} (h : b.spend m = some b₁)
    (k : b₁.spend n = some b₂) : b.spend (m + n) = some b₂ := by
  cases b with
  | none =>
    cases h
    exact k
  | some left =>
    by_cases hm : m ≤ left
    · simp only [spend, hm, if_true, Option.some.injEq] at h
      subst h
      by_cases hn : n ≤ left - m
      · simp only [spend, hn, if_true, Option.some.injEq] at k
        subst k
        have hmn : m + n ≤ left := by omega
        simp only [spend, hmn, if_true, Nat.sub_sub]
      · simp only [spend, hn, if_false, reduceCtorEq] at k
    · simp only [spend, hm, if_false, reduceCtorEq] at h

theorem Budget.spend_zero (b : Budget) : b.spend 0 = some b := by
  cases b <;> simp [spend]

/-- Who can pay for more **can pay for less**. -/
theorem Budget.spend_of_le {b c : Budget} {m n : Nat} (h : b.spend n = some c) (hle : m ≤ n) :
    ∃ d, b.spend m = some d := by
  cases b with
  | none => exact ⟨none, rfl⟩
  | some left =>
    by_cases hn : n ≤ left
    · exact ⟨some (left - m), by simp only [spend, Nat.le_trans hle hn, if_true]⟩
    · simp only [spend, hn, if_false, reduceCtorEq] at h

/-- What is left of a budget **once so many bytes are gone**; no limit stays none. -/
def Budget.less (b : Budget) (n : Nat) : Budget := b.map (· - n)

theorem Budget.less_of_spend {b c : Budget} {n : Nat} (h : b.spend n = some c) :
    b.less n = c := by
  cases b with
  | none =>
    cases h
    rfl
  | some left =>
    by_cases hn : n ≤ left
    · simp only [spend, hn, if_true, Option.some.injEq] at h
      exact h
    · simp only [spend, hn, if_false, reduceCtorEq] at h

namespace Link

theorem Passed.refl (l : Link) : Passed [] 0 l l :=
  ⟨(List.append_nil _).symm, Budget.spend_zero _, rfl, .refl _⟩

theorem Passed.trans {paid paid' : Nat} (h : Passed bytes paid l l₁)
    (k : Passed more paid' l₁ l₂) : Passed (bytes ++ more) (paid + paid') l l₂ :=
  ⟨by rw [k.written, h.written, List.append_assoc], Budget.spend_add h.charged k.charged,
    k.readLeft.trans h.readLeft, h.grows.trans k.grows⟩

theorem Passed.writeLeft_eq (h : Passed bytes 0 l l₁) : l₁.writeLeft = l.writeLeft := by
  have := h.charged
  rw [Budget.spend_zero, Option.some.injEq] at this
  exact this.symm

/-- What is put on the stream while bytes are held **goes past them** unless there are none. -/
theorem passed_onWire {act : Wire.Act α} (hheld : bytes = [] ∨ l.held = [])
    (h : Wire.Put bytes l.wire (Act.leaves act l.wire)) :
    Passed bytes 0 l (Act.leaves (onWire act) l) := by
  have hl : Act.leaves (onWire act) l = { l with wire := Act.leaves act l.wire } := by
    unfold Act.leaves onWire
    cases act l.wire <;> rfl
  rw [hl]
  refine ⟨?_, Budget.spend_zero _, rfl, h.grows⟩
  simp only [written, h.sent]
  rcases hheld with rfl | hheld
  · simp only [List.append_nil]
  · simp only [hheld, List.append_nil]

/-! ### Held bytes on their way -/

/-- Bytes are put on the stream from the front; **those that are not stay behind**. -/
theorem writeOut_put (waits : Bool) (bytes : Bytes) (w : Wire) :
    ∃ front, Wire.Put front w (writeOut waits bytes w).wire ∧
      front ++ (writeOut waits bytes w).unsent = bytes := by
  fun_induction writeOut waits bytes w with
  | case1 w => exact ⟨[], .refl w, rfl⟩
  | case2 w b rest hfull => exact ⟨[], .refl w, rfl⟩
  | case3 w b rest hroom halt w' hw =>
    have := Wire.write_put (b :: rest) w
    rw [Act.leaves_of_error hw, hw] at this
    exact ⟨[], this, rfl⟩
  | case4 w b rest hroom w' hw =>
    have := Wire.write_put (b :: rest) w
    rw [Act.leaves_of_ok hw, hw] at this
    exact ⟨[], this, rfl⟩
  | case5 w b rest hroom n w' hw ih =>
    have hput := Wire.write_put (b :: rest) w
    rw [Act.leaves_of_ok hw, hw] at hput
    obtain ⟨front, hfront, hsplit⟩ := ih
    refine ⟨b :: rest.take n ++ front, hput.trans hfront, ?_⟩
    rw [List.append_assoc, hsplit, List.cons_append, List.take_append_drop]

theorem spillOut_passed (waits : Bool) (l : Link) :
    Passed [] 0 l (Act.leaves (spillOut waits) l) := by
  obtain ⟨front, hput, hsplit⟩ := writeOut_put waits l.held l.wire
  have hl : Act.leaves (spillOut waits) l = { l with
      held := (writeOut waits l.held l.wire).unsent
      wire := (writeOut waits l.held l.wire).wire } := by
    unfold Act.leaves spillOut
    cases h : (writeOut waits l.held l.wire).halt <;> simp only [h]
  rw [hl]
  refine ⟨?_, Budget.spend_zero _, rfl, hput.grows⟩
  simp only [written, hput.sent, List.append_assoc, hsplit, List.append_nil]

/-- Emptying the buffer accepts nothing and **loses nothing**, also when it fails. -/
theorem spill_passed (l : Link) : Passed [] 0 l (Act.leaves spill l) := by
  unfold spill
  exact Act.leaves_bind (R := Passed [] 0) (fun h k => h.trans k) (spillOut_passed true l)
    fun _ l' _ => .refl l'

/-- One who waits has sent everything held, **or fails**. -/
theorem unsent_writeOut (bytes : Bytes) (w : Wire) (h : (writeOut true bytes w).halt = none) :
    (writeOut true bytes w).unsent = [] := by
  generalize hwaits : true = waits at h ⊢
  fun_induction writeOut waits bytes w with
  | case1 => rfl
  | case2 w b rest hfull =>
    subst hwaits
    simp at hfull
  | case3 => cases h
  | case4 => cases h
  | case5 w b rest hroom n w' hw ih => exact ih h

theorem held_of_spill {l' : Link} (h : spill l = .ok () l') : l'.held = [] := by
  unfold spill at h
  obtain ⟨gone, l₁, hs, h⟩ := Act.bind_eq_ok.1 h
  cases h
  unfold spillOut at hs
  cases hh : (writeOut true l.held l.wire).halt with
  | some halt => simp only [hh, reduceCtorEq] at hs
  | none =>
    simp only [hh] at hs
    cases hs
    exact unsent_writeOut l.held l.wire hh

/-! ### One write -/

/-- What a write into the buffer comes to **once nothing is in the way**: the bytes are held, or go
straight to the stream. -/
def place (capacity : Nat) (bytes : Bytes) : Act Nat :=
  if capacity ≤ bytes.length then onWire (Wire.write bytes)
  else do
    modify fun l => { l with held := l.held ++ bytes }
    return bytes.length

theorem buffer_eq (bytes : Bytes) :
    buffer bytes = (get >>= fun l =>
      if l.capacity < l.held.length + bytes.length then spill >>= fun _ => place l.capacity bytes
      else place l.capacity bytes) := rfl

theorem place_le {capacity n : Nat} {l' : Link} (h : place capacity bytes l = .ok n l') :
    n ≤ bytes.length := by
  unfold place at h
  split at h
  · obtain ⟨w, hw, rfl⟩ := onWire_eq_ok.1 h
    exact Wire.write_le hw
  · cases h
    exact Nat.le_refl _

theorem buffer_le {n : Nat} {l' : Link} (h : buffer bytes l = .ok n l') : n ≤ bytes.length := by
  rw [buffer_eq] at h
  obtain ⟨l₀, l₀', hg, h⟩ := Act.bind_eq_ok.1 h
  cases hg
  split at h
  · obtain ⟨-, l₁, -, h⟩ := Act.bind_eq_ok.1 h
    exact place_le h
  · exact place_le h

/-- What goes straight to the stream **overtakes nothing**. -/
theorem place_passed (capacity : Nat) (bytes : Bytes) (h : capacity ≤ bytes.length → l.held = []) :
    Passed (Act.taken bytes (place capacity bytes l)) 0 l (Act.leaves (place capacity bytes) l) := by
  unfold place
  by_cases hc : capacity ≤ bytes.length
  · rw [if_pos hc]
    have htaken : Act.taken bytes (onWire (Wire.write bytes) l)
        = Act.taken bytes (Wire.write bytes l.wire) := by
      unfold onWire
      cases Wire.write bytes l.wire <;> rfl
    rw [htaken]
    exact passed_onWire (.inr (h hc)) (Wire.write_put bytes l.wire)
  · rw [if_neg hc]
    refine ⟨?_, Budget.spend_zero _, rfl, .refl _⟩
    show l.wire.journal.sent ++ (l.held ++ bytes) = l.written ++ bytes.take bytes.length
    rw [List.take_length, written, List.append_assoc]

/-- The buffer accepts **what it says it took**, though nothing is paid for it yet. -/
theorem buffer_passed (bytes : Bytes) (l : Link) :
    Passed (Act.taken bytes (buffer bytes l)) 0 l (Act.leaves (buffer bytes) l) := by
  rw [buffer_eq]
  by_cases hover : l.capacity < l.held.length + bytes.length
  · -- no room for them all: what is held goes first
    have hspill := spill_passed l
    cases hs : spill l with
    | error halt l₁ =>
      rw [Act.leaves_of_error hs] at hspill
      simpa only [Act.leaves, Act.taken, Act.run_bind, Act.run_get, hover, if_true, hs] using hspill
    | ok u l₁ =>
      rw [Act.leaves_of_ok hs] at hspill
      have hplace := place_passed l.capacity bytes fun _ => held_of_spill hs
      simp only [Act.leaves, Act.run_bind, Act.run_get, hover, if_true, hs] at hplace ⊢
      exact hspill.trans hplace
  · -- bytes as many as the buffer's capacity fit only when nothing is held
    have hplace := place_passed (l := l) l.capacity bytes fun hc =>
      List.eq_nil_of_length_eq_zero (by omega)
    simpa only [Act.leaves, Act.run_bind, Act.run_get, hover, if_false] using hplace

/-- A write of more bytes than may be written **does nothing**. -/
theorem write_of_poor (h : l.writeLeft.spend bytes.length = none) :
    write bytes l = .error (.failed (.overBudget .write)) l := by
  unfold write
  simp only [Act.run_bind, Act.run_get, h]
  rfl

/-- A write of as many bytes as may be written **is one into the buffer**, paid for by what the
buffer took. -/
theorem write_of_solvent {left : Budget} (h : l.writeLeft.spend bytes.length = some left) :
    write bytes l = match buffer bytes l with
      | .ok n l' => .ok n { l' with writeLeft := l'.writeLeft.less n }
      | .error halt l' => .error halt l' := by
  have hbuffer := buffer_passed bytes l
  unfold write
  simp only [Act.run_bind, Act.run_get, h]
  cases hb : buffer bytes l with
  | error halt l' => rfl
  | ok n l' =>
    rw [Act.leaves_of_ok hb] at hbuffer
    have hsame := hbuffer.writeLeft_eq
    obtain ⟨rest, hrest⟩ := Budget.spend_of_le h (buffer_le hb)
    rw [← hsame] at hrest
    simp only [hrest, Budget.less_of_spend hrest]
    rfl

/-- A write accepts what it says it took and **pays for just that**; one that fails accepts
nothing. -/
theorem write_passed (bytes : Bytes) (l : Link) :
    Passed (Act.taken bytes (write bytes l)) (Act.taken bytes (write bytes l)).length l
      (Act.leaves (write bytes) l) := by
  cases h : l.writeLeft.spend bytes.length with
  | none =>
    rw [Act.leaves, write_of_poor h]
    exact .refl l
  | some left =>
    have hbuffer := buffer_passed bytes l
    rw [Act.leaves, write_of_solvent h]
    cases hb : buffer bytes l with
    | error halt l' =>
      rw [Act.leaves_of_error hb, hb] at hbuffer
      exact hbuffer
    | ok n l' =>
      rw [Act.leaves_of_ok hb, hb] at hbuffer
      obtain ⟨rest, hrest⟩ := Budget.spend_of_le h (buffer_le hb)
      have hless := Budget.less_of_spend hrest
      refine ⟨hbuffer.written, ?_, hbuffer.readLeft, hbuffer.grows⟩
      show l.writeLeft.spend (bytes.take n).length = some (l'.writeLeft.less n)
      rw [List.length_take, Nat.min_eq_left (buffer_le hb), hbuffer.writeLeft_eq, hless, hrest]

end Link

end HttpEngine
