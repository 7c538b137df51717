import HttpEngine.Proofs.Transport.Accounting
import HttpEngine.Proofs.Transport.Fitting
import HttpEngine.Proofs.Transport.Landing

/-!
# Flushes that are put off

A flush asked for in passing could be left out of any run of operations, and **no one would see
it**. What is written then stays in the buffer until it is sent, provided that all of it is smaller
than the buffer: the stream below is read from and nothing else. A flush that reaches the buffer, in
whichever layer above it is asked for, is a send.

* `Link.course`: the operations of a run, each with its outcome and the link it leaves.
* `Link.Deferred`: bytes that are held while the stream is only read from.
* `Link.flush_deferred`: both laws, and what a later send puts on the stream.
-/

namespace HttpEngine

open Text

/-- What comes of an activity. -/
def Act.outcome {ε σ α : Type} (act : EStateM ε σ α) (s : σ) : Except ε α :=
  match act s with
  | .ok a _ => .ok a
  | .error e _ => .error e

/-- Bytes that are to be written, **unless the write budget refuses them**. -/
def Link.admitted (bytes : Bytes) (l : Link) : Bytes :=
  if (l.writeLeft.spend bytes.length).isSome then bytes else []

namespace Operation

/-- What an operation answers. -/
inductive Answer
  | bytes (bytes : Bytes)
  | count (n : Nat)
  | done
  deriving DecidableEq, Repr

/-- What an operation answers, **or how it fails**. -/
def outcome : Operation → Link → Except (Halt IoError) Answer
  | read room, l => (Act.outcome (Link.read room) l).map .bytes
  | write bytes, l => (Act.outcome (Link.write bytes) l).map .count
  | writeAll bytes, l => (Act.outcome (Link.writeAll bytes) l).map fun _ => .done
  | flush, l => (Act.outcome Link.flush l).map fun _ => .done
  | send, l => (Act.outcome Link.send l).map fun _ => .done
  | shutDown, l => (Act.outcome Link.shutDown l).map fun _ => .done

/-- The bytes an operation is to write, **those left out that the write budget refuses**. -/
def offered : Operation → Link → Bytes
  | write bytes, l => l.admitted bytes
  | writeAll bytes, l => l.admitted bytes
  | _, _ => []

/-- The reads an operation makes of the stream, each with its room. -/
def reads : Operation → List Nat
  | read room => [room]
  | _ => []

end Operation

namespace Wire

/-- The stream after it was read from, **and from nothing else**. -/
def afterReads (rooms : List Nat) (w : Wire) : Wire :=
  rooms.foldl (fun w room => Act.leaves (read room) w) w

theorem afterReads_append (rooms more : List Nat) (w : Wire) :
    w.afterReads (rooms ++ more) = (w.afterReads rooms).afterReads more :=
  List.foldl_append

theorem afterReads_grows (rooms : List Nat) (w : Wire) :
    w.journal.Grows Event.isInput (w.afterReads rooms).journal := by
  induction rooms generalizing w with
  | nil => exact .refl _
  | cons room rooms ih => exact (read_grows room w).trans (ih _)

end Wire

namespace Link

variable {l l₁ l₂ : Link} {bytes more : Bytes} {rooms again : List Nat}

/-! ### A run with and without its flushes -/

/-- An operation that was done. -/
structure Moment where
  operation : Operation
  outcome : Except (Halt IoError) Operation.Answer
  /-- The link it left behind. -/
  link : Link

/-- The moments of a run, **whichever of them are failures**. -/
def course : List Operation → Link → List Moment
  | [], _ => []
  | op :: ops, l => ⟨op, op.outcome l, op.after l⟩ :: course ops (op.after l)

/-- A run without its flushes is **the same run in every other moment**. -/
theorem course_unflushed (ops : List Operation) (l : Link) :
    l.course (ops.filter (· ≠ .flush)) = (l.course ops).filter (·.operation ≠ .flush) := by
  induction ops generalizing l with
  | nil => rfl
  | cons op ops ih =>
    by_cases hop : op = .flush
    · subst hop
      exact ih l
    · simp only [course, List.filter_cons, hop, ne_eq, not_false_eq_true, decide_true, if_true, ih]

theorem after_unflushed (ops : List Operation) (l : Link) :
    l.after (ops.filter (· ≠ .flush)) = l.after ops := by
  induction ops generalizing l with
  | nil => rfl
  | cons op ops ih =>
    by_cases hop : op = .flush
    · subst hop
      exact ih l
    · simp only [after, List.filter_cons, hop, ne_eq, not_false_eq_true, decide_true, if_true, ih]

/-! ### What is held until it is sent -/

/-- The bytes operations are to write, in their order. -/
def offered : List Operation → Link → Bytes
  | [], _ => []
  | op :: ops, l => op.offered l ++ offered ops (op.after l)

/-- Bytes were put into the buffer, and **the stream was only read from**. -/
structure Deferred (rooms : List Nat) (bytes : Bytes) (l l' : Link) : Prop where
  held : l'.held = l.held ++ bytes
  wire : l'.wire = l.wire.afterReads rooms
  capacity : l'.capacity = l.capacity

theorem Deferred.refl (l : Link) : Deferred [] [] l l :=
  ⟨(List.append_nil _).symm, rfl, rfl⟩

theorem Deferred.trans (h : Deferred rooms bytes l l₁) (k : Deferred again more l₁ l₂) :
    Deferred (rooms ++ again) (bytes ++ more) l l₂ :=
  ⟨by rw [k.held, h.held, List.append_assoc],
    by rw [k.wire, h.wire, Wire.afterReads_append], k.capacity.trans h.capacity⟩

/-- What fits beside two writes fits **beside the second once the first is held**. -/
theorem Deferred.fits (h : Deferred rooms bytes l l₁) (hfits : l.Fits (bytes ++ more).length) :
    l₁.Fits more.length := by
  obtain ⟨hbeside, hsmall⟩ := hfits
  rw [List.length_append] at hbeside hsmall
  refine ⟨?_, by rw [h.capacity]; omega⟩
  rw [h.held, h.capacity, List.length_append]
  omega

theorem read_deferred (room : Nat) (l : Link) :
    Deferred [room] [] l (Act.leaves (read room) l) := by
  have hwire : l.wire.afterReads [room] = Act.leaves (Wire.read room) l.wire := rfl
  cases h : Wire.read room l.wire with
  | error halt w =>
    rw [Act.leaves_of_error h] at hwire
    rw [Act.leaves_of_error (read_of_error h)]
    exact ⟨(List.append_nil _).symm, hwire.symm, rfl⟩
  | ok bytes w =>
    rw [Act.leaves_of_ok h] at hwire
    rw [Act.leaves, read_of_ok h]
    cases l.readLeft.spend bytes.length <;> exact ⟨(List.append_nil _).symm, hwire.symm, rfl⟩

theorem hold_deferred (bytes : Bytes) (l : Link) :
    Deferred [] (l.admitted bytes) l (Act.leaves (hold bytes) l) := by
  unfold Act.leaves hold admitted
  cases l.writeLeft.spend bytes.length with
  | none => exact .refl l
  | some left => exact ⟨rfl, rfl, rfl⟩

/-- Bytes that the budget refuses are not written, and others are held **if they fit**. -/
theorem leaves_write_of_fits (h : l.Fits (l.admitted bytes).length) :
    Act.leaves (write bytes) l = Act.leaves (hold bytes) l := by
  cases hs : l.writeLeft.spend bytes.length with
  | none => simp only [Act.leaves, write_of_poor hs, hold, hs]
  | some left =>
    have hfits : l.Fits bytes.length := by simpa [admitted, hs] using h
    rw [Act.leaves, write_of_fits hfits, ← Act.leaves, Act.leaves_bind_pure]

theorem leaves_writeAll_of_fits (h : l.Fits (l.admitted bytes).length) :
    Act.leaves (writeAll bytes) l = Act.leaves (hold bytes) l := by
  cases hs : l.writeLeft.spend bytes.length with
  | none =>
    cases bytes with
    | nil => simp only [List.length_nil, Budget.spend_zero, reduceCtorEq] at hs
    | cons b rest => simp only [Act.leaves, writeAll, Act.run_bind, write_of_poor hs, hold, hs]
  | some left =>
    have hfits : l.Fits bytes.length := by simpa [admitted, hs] using h
    rw [Act.leaves, writeAll_of_fits hfits, ← Act.leaves]

end Link

/-- An operation that neither sends nor shuts down **leaves what it is to write in the buffer**, if
it fits there. -/
theorem Operation.deferred {op : Operation} {l : Link} (hsend : op ≠ .send)
    (hshut : op ≠ .shutDown) (hfits : l.Fits (op.offered l).length) :
    l.Deferred op.reads (op.offered l) (op.after l) := by
  cases op with
  | read room => exact Link.read_deferred room l
  | write bytes =>
    rw [after, Link.leaves_write_of_fits hfits]
    exact Link.hold_deferred bytes l
  | writeAll bytes =>
    rw [after, Link.leaves_writeAll_of_fits hfits]
    exact Link.hold_deferred bytes l
  | flush => exact .refl l
  | send => exact absurd rfl hsend
  | shutDown => exact absurd rfl hshut

namespace Link

variable {l : Link} {ops : List Operation}

theorem deferred_after (hkept : ∀ op ∈ ops, op ≠ .send ∧ op ≠ .shutDown)
    (hfits : l.Fits (l.offered ops).length) :
    Deferred (ops.flatMap Operation.reads) (l.offered ops) l (l.after ops) := by
  -- on the operations; what one holds leaves room for what the others are to write
  induction ops generalizing l with
  | nil => exact .refl l
  | cons op ops ih =>
    obtain ⟨hsend, hshut⟩ := hkept op List.mem_cons_self
    have hop := Operation.deferred hsend hshut
      (hfits.less (by rw [offered, List.length_append]; omega))
    exact hop.trans (ih (fun op' hop' => hkept op' (List.mem_cons_of_mem _ hop')) (hop.fits hfits))

/-- What is held was accepted, **and nothing more was**. -/
theorem Deferred.accepted_eq (h : Deferred rooms bytes l (l.after ops)) : l.accepted ops = bytes := by
  have hsent : (l.after ops).wire.journal.sent = l.wire.journal.sent := by
    rw [h.wire]
    exact (Wire.afterReads_grows rooms l.wire).of_input.1
  have hwritten := (accounts_after ops l).written
  rw [written, hsent, h.held, written, ← List.append_assoc] at hwritten
  exact (List.append_cancel_left hwritten).symm

/-- A send that succeeds puts on the stream **what is held, in its order, and no more**. -/
theorem sent_of_send {l' : Link} (h : send l = .ok () l') :
    l'.held = [] ∧ l'.wire.journal.sent = l.wire.journal.sent ++ l.held := by
  obtain ⟨hheld, -⟩ := send_eq_ok h
  have hwritten := (send_passed l).written
  rw [Act.leaves_of_ok h, written, written, hheld, List.append_nil, List.append_nil] at hwritten
  exact ⟨hheld, hwritten⟩

/-- **Flushes are put off.** A run of operations without the flushes asked for in passing is the
same run in all else: what each operation answers, and the link it leaves with its budgets, its
buffer and its stream. From an empty buffer on, as long as the operations neither send nor shut
down and are to write less than the buffer's capacity, the stream below is read from and nothing
else, and all they are to write is accepted and held. A send that succeeds then puts exactly these
bytes on the stream, and it does succeed if the stream takes them. -/
theorem flush_deferred (l : Link) (ops : List Operation) :
    (l.course (ops.filter (· ≠ .flush)) = (l.course ops).filter (·.operation ≠ .flush) ∧
      l.after (ops.filter (· ≠ .flush)) = l.after ops) ∧
    (l.held = [] → (∀ op ∈ ops, op ≠ .send ∧ op ≠ .shutDown) →
      (l.offered ops).length < l.capacity →
      (l.after ops).wire = l.wire.afterReads (ops.flatMap Operation.reads) ∧
      l.wire.journal.Grows Event.isInput (l.after ops).wire.journal ∧
      (l.after ops).held = l.accepted ops ∧ l.accepted ops = l.offered ops ∧
      (∀ l', send (l.after ops) = .ok () l' →
        l'.held = [] ∧ l'.wire.journal.sent = l.wire.journal.sent ++ l.accepted ops) ∧
      ((l.after ops).wire.Takes (l.accepted ops).length →
        ∃ l', send (l.after ops) = .ok () l')) := by
  refine ⟨⟨course_unflushed ops l, after_unflushed ops l⟩, fun hempty hkept hless => ?_⟩
  have hfits : l.Fits (l.offered ops).length :=
    ⟨by rw [hempty, List.length_nil, Nat.zero_add]; exact Nat.le_of_lt hless, hless⟩
  have hdeferred := deferred_after hkept hfits
  have haccepted := hdeferred.accepted_eq
  have hgrows : l.wire.journal.Grows Event.isInput (l.after ops).wire.journal := by
    rw [hdeferred.wire]
    exact Wire.afterReads_grows _ l.wire
  have hheld : (l.after ops).held = l.accepted ops := by
    rw [hdeferred.held, hempty, List.nil_append, haccepted]
  refine ⟨hdeferred.wire, hgrows, hheld, haccepted, fun l' hsend => ?_, fun htakes => ?_⟩
  · obtain ⟨hnone, hsent⟩ := sent_of_send hsend
    rw [hgrows.of_input.1, hheld] at hsent
    exact ⟨hnone, hsent⟩
  · refine send_of_takes (n := 0) ?_
    rwa [Takes, hheld, Nat.add_zero]

/-- A link with a buffer of eight bytes, over a stream that takes three at a time. -/
def patient : Link :=
  { wire :=
      { inbound := .script { pieces := [.data (ascii "abc")] }
        outbound := .script { maxWrite := some 3 } }
    capacity := 8
    writeLeft := some 9 }

/-- Two writes and one that the budget refuses, with flushes in between, and then a send. -/
theorem flush_deferred_patient :
    let ops : List Operation := [.write (ascii "abcd"), .flush, .writeAll (ascii "too many"),
      .read 2, .flush, .writeAll (ascii "efg")]
    (patient.after ops).held = ascii "abcdefg" ∧
      (patient.after ops).wire.journal = [.transfer (.read 2)] ∧
      ∃ l', send (patient.after ops) = .ok () l' ∧ l'.wire.journal.sent = ascii "abcdefg" := by
  intro ops
  obtain ⟨hwire, -, hheld, haccepted, hsent, hsend⟩ :=
    (flush_deferred patient ops).2 rfl (by decide) (by decide +kernel)
  have hoffered : patient.offered ops = ascii "abcdefg" := by decide +kernel
  have htakes : (patient.after ops).wire.Takes (patient.accepted ops).length := by
    rw [hwire]
    have haccepting : (patient.wire.afterReads (ops.flatMap Operation.reads)).outbound.Accepting :=
      ⟨by simp, by simp, rfl, by simp⟩
    exact Wire.takes_of_accepting ⟨rfl, rfl⟩ haccepting _
  obtain ⟨l', hl'⟩ := hsend htakes
  refine ⟨by rw [hheld, haccepted, hoffered], by rw [hwire]; decide +kernel, l', hl', ?_⟩
  rw [(hsent l' hl').2, haccepted, hoffered]
  rfl

/-- A write as large as the buffer goes **straight to the stream**, which may take so little of it
that what was accepted is less than the capacity. -/
theorem large_write_not_deferred :
    ¬ ∀ (l : Link) (ops : List Operation), l.held = [] →
      (∀ op ∈ ops, op ≠ .send ∧ op ≠ .shutDown) → (l.accepted ops).length < l.capacity →
      l.wire.journal.Grows Event.isInput (l.after ops).wire.journal := by
  intro h
  have hgrows := h { wire := { outbound := .script { maxWrite := some 1 } }, capacity := 4 }
    [.write (ascii "abcd")] rfl (by decide) (by decide +kernel)
  have hsent := hgrows.of_input.1
  revert hsent
  decide +kernel

end Link

end HttpEngine
