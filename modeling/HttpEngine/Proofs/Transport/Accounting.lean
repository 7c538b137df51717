import HttpEngine.Proofs.Transport.Front
import HttpEngine.Proofs.Transport.Hearing

/-!
# The accounts of a link

Operations in any order on a link over any stream, with no regard to which of them fail: what was
accepted is on the stream or held, and each budget is down by **what went through and nothing
else**.

* `Operation.accepted`, `Operation.delivered`: what an operation wrote and read.
* `Operation.accounts`: what one operation does to the accounts.
* `Link.accounts_balance`: what any operations do.
-/

namespace HttpEngine

open Text

/-- So many bytes are **more than are left**. -/
def Budget.Exceeded (b : Budget) (n : Nat) : Prop := ∃ left, b = some left ∧ left < n

theorem Budget.spend_eq_none {b : Budget} {n : Nat} : b.spend n = none ↔ b.Exceeded n := by
  cases b with
  | none => simp [spend, Exceeded]
  | some left =>
    by_cases hn : n ≤ left
    · simp [spend, Exceeded, hn]
    · simp [spend, Exceeded, hn]
      omega

theorem Budget.le_of_spend {b c : Budget} {n : Nat} (h : b.spend n = some c) :
    ∀ left ∈ b, n ≤ left := by
  intro left hleft
  rw [Option.mem_def] at hleft
  subst hleft
  by_cases hn : n ≤ left
  · exact hn
  · simp only [spend, hn, if_false, reduceCtorEq] at h

/-- What can be asked of a link. -/
inductive Operation
  | read (room : Nat)
  | write (bytes : Bytes)
  | writeAll (bytes : Bytes)
  /-- A flush asked for in passing. -/
  | flush
  /-- A flush of everything held. -/
  | send
  | shutDown
  deriving DecidableEq, Repr

namespace Operation

/-- The link an operation leaves behind, **be it that it fails**. -/
def after : Operation → Link → Link
  | read room => Act.leaves (Link.read room)
  | write bytes => Act.leaves (Link.write bytes)
  | writeAll bytes => Act.leaves (Link.writeAll bytes)
  | flush => Act.leaves Link.flush
  | send => Act.leaves Link.send
  | shutDown => Act.leaves Link.shutDown

/-- The bytes of an operation that were taken; of a write of all bytes, **what each of its writes
took**. -/
def accepted : Operation → Link → Bytes
  | write bytes, l => Act.taken bytes (Link.write bytes l)
  | writeAll bytes, l => Link.takenOfAll bytes l
  | _, _ => []

/-- The bytes that a read brought, **if it succeeded**. -/
def delivered : Operation → Link → Bytes
  | read room, l =>
    match Link.read room l with
    | .ok bytes _ => bytes
    | .error _ _ => []
  | _, _ => []

end Operation

namespace Link

/-- The link that operations leave behind; **one that fails does not keep the others from being
done**. -/
def after : List Operation → Link → Link
  | [], l => l
  | op :: ops, l => after ops (op.after l)

/-- The bytes that operations had taken, in their order. -/
def accepted : List Operation → Link → Bytes
  | [], _ => []
  | op :: ops, l => op.accepted l ++ accepted ops (op.after l)

/-- The bytes that operations brought, in their order. -/
def delivered : List Operation → Link → Bytes
  | [], _ => []
  | op :: ops, l => op.delivered l ++ delivered ops (op.after l)

variable {l l₁ l₂ : Link} {bytes more got gotMore : Bytes}

/-- Bytes were accepted and others delivered: **each was paid for** from its own budget. -/
structure Accounts (bytes got : Bytes) (l l' : Link) : Prop where
  written : l'.written = l.written ++ bytes
  writeLeft : l.writeLeft.spend bytes.length = some l'.writeLeft
  readLeft : l.readLeft.spend got.length = some l'.readLeft

theorem Accounts.refl (l : Link) : Accounts [] [] l l :=
  ⟨(List.append_nil _).symm, Budget.spend_zero _, Budget.spend_zero _⟩

theorem Accounts.trans (h : Accounts bytes got l l₁) (k : Accounts more gotMore l₁ l₂) :
    Accounts (bytes ++ more) (got ++ gotMore) l l₂ := by
  refine ⟨by rw [k.written, h.written, List.append_assoc], ?_, ?_⟩
  · rw [List.length_append]
    exact Budget.spend_add h.writeLeft k.writeLeft
  · rw [List.length_append]
    exact Budget.spend_add h.readLeft k.readLeft

theorem Passed.accounts (h : Passed bytes bytes.length l l₁) : Accounts bytes [] l l₁ :=
  ⟨h.written, h.charged, by rw [h.readLeft]; exact Budget.spend_zero _⟩

/-- A read is paid for by **what it delivers**, and one that fails costs nothing. -/
theorem read_accounts (room : Nat) (l : Link) :
    Accounts [] ((Operation.read room).delivered l) l (Act.leaves (read room) l) := by
  have hheard := read_heard room l
  have hwritten := hheard.written
  have hwriteLeft := hheard.writeLeft
  refine ⟨by rw [hwritten, List.append_nil], by rw [hwriteLeft]; exact Budget.spend_zero _, ?_⟩
  cases h : Wire.read room l.wire with
  | error halt w =>
    have he := read_of_error h
    simp only [Operation.delivered, Act.leaves, he]
    exact Budget.spend_zero _
  | ok bytes w =>
    have he := read_of_ok h
    cases hs : l.readLeft.spend bytes.length with
    | none =>
      simp only [hs] at he
      simp only [Operation.delivered, Act.leaves, he]
      exact Budget.spend_zero _
    | some left =>
      simp only [hs] at he
      simp only [Operation.delivered, Act.leaves, he]
      exact hs

end Link

/-- **One operation** on a link, whatever comes of it. -/
theorem Operation.accounts (op : Operation) (l : Link) :
    Link.Accounts (op.accepted l) (op.delivered l) l (op.after l) := by
  cases op with
  | read room => exact Link.read_accounts room l
  | write bytes => exact (Link.write_passed bytes l).accounts
  | writeAll bytes => exact (Link.writeAll_taken bytes l).1.accounts
  | flush => exact .refl l
  | send => exact (Link.send_passed l).accounts
  | shutDown => exact (Link.shutDown_passed l).accounts

namespace Link

variable {room : Nat} {bytes : Bytes} {l l' : Link}

theorem accounts_after (ops : List Operation) (l : Link) :
    Accounts (l.accepted ops) (l.delivered ops) l (l.after ops) := by
  induction ops generalizing l with
  | nil => exact .refl l
  | cons op ops ih => exact (op.accounts l).trans (ih (op.after l))

/-- A read is refused **when the stream below brings more than is left**, and leaves the budget
alone; or the stream itself failed so. -/
theorem read_overBudget_iff :
    read room l = .error (.failed (.overBudget .read)) l' ↔
      ∃ w, l' = { l with wire := w } ∧
        ((∃ bytes, Wire.read room l.wire = .ok bytes w ∧ l.readLeft.Exceeded bytes.length) ∨
          Wire.read room l.wire = .error (.failed (.overBudget .read)) w) := by
  cases h : Wire.read room l.wire with
  | error halt w =>
    rw [read_of_error h]
    constructor
    · intro he
      cases he
      exact ⟨w, rfl, .inr rfl⟩
    · rintro ⟨w', rfl, ⟨bytes, hb, -⟩ | hb⟩
      · cases hb
      · cases hb
        rfl
  | ok bytes w =>
    rw [read_of_ok h]
    constructor
    · intro he
      cases hs : l.readLeft.spend bytes.length with
      | some left => simp only [hs, reduceCtorEq] at he
      | none =>
        simp only [hs] at he
        cases he
        exact ⟨w, rfl, .inl ⟨bytes, rfl, Budget.spend_eq_none.1 hs⟩⟩
    · rintro ⟨w', rfl, ⟨bytes', hb, hover⟩ | hb⟩
      · cases hb
        rw [Budget.spend_eq_none.2 hover]
      · cases hb

/-- A write of more bytes than are left is refused **and changes nothing at all**; any other fails
only with the buffer. -/
theorem write_overBudget_iff :
    write bytes l = .error (.failed (.overBudget .write)) l' ↔
      (l.writeLeft.Exceeded bytes.length ∧ l' = l) ∨
        (¬ l.writeLeft.Exceeded bytes.length ∧
          buffer bytes l = .error (.failed (.overBudget .write)) l') := by
  cases hs : l.writeLeft.spend bytes.length with
  | none =>
    have hover := Budget.spend_eq_none.1 hs
    rw [write_of_poor hs]
    constructor
    · intro he
      cases he
      exact .inl ⟨hover, rfl⟩
    · rintro (⟨-, rfl⟩ | ⟨hunder, -⟩)
      · rfl
      · exact absurd hover hunder
  | some left =>
    have hunder : ¬ l.writeLeft.Exceeded bytes.length := by
      rw [← Budget.spend_eq_none, hs]
      exact nofun
    rw [write_of_solvent hs]
    cases hb : buffer bytes l with
    | ok n l₁ => simp [hunder]
    | error halt l₁ => simp [hunder]

/-- **The accounts of a link balance** after any operations. What was accepted is on the stream or
held, in the order it was accepted in; each budget is down by what went through, and never by more
than there was. From there a read or a write that would exceed its budget is refused and costs
nothing, the write even before it touches the buffer. -/
theorem accounts_balance (l : Link) (ops : List Operation) :
    (l.after ops).written = l.written ++ l.accepted ops ∧
    ((l.after ops).writeLeft = l.writeLeft.map (· - (l.accepted ops).length) ∧
      ∀ left ∈ l.writeLeft, (l.accepted ops).length ≤ left) ∧
    ((l.after ops).readLeft = l.readLeft.map (· - (l.delivered ops).length) ∧
      ∀ left ∈ l.readLeft, (l.delivered ops).length ≤ left) ∧
    (∀ room l', read room (l.after ops) = .error (.failed (.overBudget .read)) l' ↔
      ∃ w, l' = { l.after ops with wire := w } ∧
        ((∃ bytes, Wire.read room (l.after ops).wire = .ok bytes w ∧
            (l.after ops).readLeft.Exceeded bytes.length) ∨
          Wire.read room (l.after ops).wire = .error (.failed (.overBudget .read)) w)) ∧
    (∀ bytes l', write bytes (l.after ops) = .error (.failed (.overBudget .write)) l' ↔
      ((l.after ops).writeLeft.Exceeded bytes.length ∧ l' = l.after ops) ∨
        (¬ (l.after ops).writeLeft.Exceeded bytes.length ∧
          buffer bytes (l.after ops) = .error (.failed (.overBudget .write)) l')) ∧
    ∀ bytes, takenOfAll bytes (l.after ops) <+: bytes ∧
      ∀ l', writeAll bytes (l.after ops) = .ok () l' →
        takenOfAll bytes (l.after ops) = bytes := by
  have h := accounts_after ops l
  refine ⟨h.written, ⟨?_, Budget.le_of_spend h.writeLeft⟩, ⟨?_, Budget.le_of_spend h.readLeft⟩,
    fun room l' => read_overBudget_iff, fun bytes l' => write_overBudget_iff,
    fun bytes => (writeAll_taken bytes _).2⟩
  · exact (Budget.less_of_spend h.writeLeft).symm
  · exact (Budget.less_of_spend h.readLeft).symm

/-- A link with a buffer of four bytes, over a stream of which the second write fails and the first
flush does, **and which goes on after both**. -/
def strained : Link :=
  { wire :=
      { inbound := .script { pieces := [.data (ascii "abc"), .data (ascii "def")] }
        outbound := .script
          { writes := [.ok 2, .error .peerGone, .ok 1], flushes := [.error .peerGone]
            maxWrite := some 5 } }
    capacity := 4
    readLeft := some 5
    writeLeft := some 12 }

/-- A read and a write past their budgets, a write that fails once a part of what was held is sent, and
a flush that fails, with writes that go through **after each of them**. -/
theorem accounts_balance_strained :
    let ops : List Operation := [.write (ascii "xyz"), .read 3, .writeAll (ascii "hello"), .read 3,
      .writeAll (ascii "again"), .write (ascii "too many"), .send, .write (ascii "end"), .send,
      .shutDown]
    (strained.after ops).written = ascii "xyzagainend" ∧ (strained.after ops).writeLeft = some 1 ∧
      (strained.after ops).readLeft = some 2 := by
  intro ops
  obtain ⟨hwritten, ⟨hwriteLeft, -⟩, ⟨hreadLeft, -⟩, -⟩ := accounts_balance strained ops
  rw [hwritten, hwriteLeft, hreadLeft]
  decide +kernel

end Link

end HttpEngine
