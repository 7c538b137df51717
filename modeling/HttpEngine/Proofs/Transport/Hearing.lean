import HttpEngine.Proofs.Transport.Passing

/-!
# Reading leaves what is written alone

Whatever comes of an activity that only reads, the link has sent what it had sent, holds what it
held, and may write as much as before.

* `Link.Heard`: entries that tell of reads were added to the journal, **and nothing was written**.
* `Link.read_of_ok`: one read, from what the stream below gives.
* `Link.readLine_heard`, `Link.readBody_heard`: lines and bodies.
-/

namespace HttpEngine

/-- An activity that leads from every state, **whatever comes of it**, to one related to it. -/
def Act.Keeps {ε σ α : Type} (R : σ → σ → Prop) (act : EStateM ε σ α) : Prop :=
  ∀ s, R s (Act.leaves act s)

namespace Act

variable {ε σ α β : Type} {R : σ → σ → Prop} {act : EStateM ε σ α} {f : α → EStateM ε σ β}

theorem keeps_bind (trans : ∀ {s₁ s₂ s₃}, R s₁ s₂ → R s₂ s₃ → R s₁ s₃) (hact : Keeps R act)
    (hf : ∀ a, Keeps R (f a)) : Keeps R (act >>= f) :=
  fun s => leaves_bind trans (hact s) fun a s' _ => hf a s'

theorem keeps_get_bind {f : σ → EStateM ε σ β} (hf : ∀ s, R s (leaves (f s) s)) :
    Keeps R (get >>= f) :=
  hf

end Act

/-- What reading adds to a journal sends nothing, and the phase stays. -/
theorem Journal.Grows.of_input {j j' : Journal} (h : Grows Event.isInput j j') :
    j'.sent = j.sent ∧ j'.phase = j.phase := by
  obtain ⟨added, rfl, hadded⟩ := h
  induction added with
  | nil => exact ⟨rfl, rfl⟩
  | cons e added ih =>
    obtain ⟨hsent, hphase⟩ := ih fun e' he => hadded e' (List.mem_cons_of_mem _ he)
    have he := hadded e List.mem_cons_self
    rw [← hsent, ← hphase]
    cases e with
    | transfer t => cases t <;> first | exact ⟨rfl, rfl⟩ | cases he
    | received => exact ⟨rfl, rfl⟩
    | _ => cases he

theorem Wire.read_grows (room : Nat) (w : Wire) :
    w.journal.Grows Event.isInput (Act.leaves (read room) w).journal := by
  have hwait := journal_await (w.inbound.readyAt w.clock) w
  unfold read
  cases hw : await (w.inbound.readyAt w.clock) w with
  | error halt w₁ =>
    rw [Act.leaves_of_error hw] at hwait
    simp only [Act.leaves, Act.run_bind, Act.run_get, hw, hwait]
    exact .refl _
  | ok u w₁ =>
    rw [Act.leaves_of_ok hw] at hwait
    rw [← hwait]
    cases ha : w₁.inbound.take w₁.clock room with
    | mk answer inbound =>
      simp only [Act.leaves, Act.run_bind, Act.run_get, hw, ha]
      cases answer <;> exact Journal.grows_cons rfl

namespace Link

variable {l l₁ l₂ : Link} {room : Nat}

/-- Something was heard at most: **what is written is as it was**. -/
structure Heard (l l' : Link) : Prop where
  held : l'.held = l.held
  writeLeft : l'.writeLeft = l.writeLeft
  grows : l.wire.journal.Grows Event.isInput l'.wire.journal

theorem Heard.refl (l : Link) : Heard l l := ⟨rfl, rfl, .refl _⟩

theorem Heard.trans (h : Heard l l₁) (k : Heard l₁ l₂) : Heard l l₂ :=
  ⟨k.held.trans h.held, k.writeLeft.trans h.writeLeft, h.grows.trans k.grows⟩

theorem Heard.written (h : Heard l l₁) : l₁.written = l.written := by
  rw [Link.written, h.grows.of_input.1, h.held, Link.written]

theorem keeps_heard_bind {α β : Type} {act : Act α} {f : α → Act β}
    (hact : Act.Keeps Heard act) (hf : ∀ a, Act.Keeps Heard (f a)) :
    Act.Keeps Heard (act >>= f) :=
  Act.keeps_bind (fun h k => h.trans k) hact hf

/-- What the stream below gives **is charged to the read budget**, or refused. -/
theorem read_of_ok {bytes : Bytes} {w : Wire} (h : Wire.read room l.wire = .ok bytes w) :
    read room l = match l.readLeft.spend bytes.length with
      | some left => .ok bytes { l with wire := w, readLeft := left }
      | none => .error (.failed (.overBudget .read)) { l with wire := w } := by
  unfold read
  simp only [Act.run_bind, onWire, h, Act.run_get]
  cases l.readLeft.spend bytes.length <;> rfl

theorem read_of_error {halt : Halt IoError} {w : Wire}
    (h : Wire.read room l.wire = .error halt w) :
    read room l = .error halt { l with wire := w } := by
  unfold read
  simp only [Act.run_bind, onWire, h]

theorem read_heard (room : Nat) : Act.Keeps Heard (read room) := by
  intro l
  have hgrows := Wire.read_grows room l.wire
  cases h : Wire.read room l.wire with
  | error halt w =>
    rw [Act.leaves_of_error h] at hgrows
    rw [Act.leaves_of_error (read_of_error h)]
    exact ⟨rfl, rfl, hgrows⟩
  | ok bytes w =>
    rw [Act.leaves_of_ok h] at hgrows
    rw [Act.leaves, read_of_ok h]
    cases l.readLeft.spend bytes.length <;> exact ⟨rfl, rfl, hgrows⟩

theorem pause_heard (ms : Nat) : Act.Keeps Heard (onWire (Wire.pause ms)) := by
  intro l
  have hjournal : (Act.leaves (Wire.pause ms) l.wire).journal = l.wire.journal :=
    Wire.journal_await _ l.wire
  unfold Act.leaves at hjournal ⊢
  unfold onWire
  cases h : Wire.pause ms l.wire <;>
  · rw [h] at hjournal
    exact ⟨rfl, rfl, by rw [show _ = l.wire.journal from hjournal]; exact .refl _⟩

/-! ### Lines and bodies -/

theorem refill_heard (retries : Nat) : Act.Keeps Heard (refill retries) := by
  induction retries with
  | zero =>
    unfold refill
    refine Act.keeps_get_bind fun l => keeps_heard_bind (read_heard _) (fun bytes => ?_) l
    cases bytes <;> exact fun l => ⟨rfl, rfl, .refl _⟩
  | succ n ih =>
    unfold refill
    refine Act.keeps_get_bind fun l => keeps_heard_bind (read_heard _) (fun bytes => ?_) l
    cases bytes with
    | cons b bytes => exact fun l => ⟨rfl, rfl, .refl _⟩
    | nil => exact Act.keeps_get_bind fun l => keeps_heard_bind (pause_heard _) (fun _ => ih) l

/-- Consume the first byte of the buffer, **if there is one**. -/
def consume : Act (Option UInt8) := do
  match (← get).unread with
  | [] => return none
  | b :: rest =>
    modify fun l => { l with taken := l.taken + 1, unread := rest }
    return some b

/-- A byte is consumed **once there is something in the buffer**. -/
theorem nextByte_eq : nextByte = get >>= fun l =>
    if l.unread.isEmpty then
      get >>= fun l => refill l.options.retries >>= fun more =>
        if !more then pure none else consume
    else consume :=
  rfl

theorem nextByte_heard : Act.Keeps Heard nextByte := by
  have hconsume : Act.Keeps Heard consume := by
    refine Act.keeps_get_bind fun l => ?_
    cases l.unread <;> exact ⟨rfl, rfl, .refl _⟩
  rw [nextByte_eq]
  refine Act.keeps_get_bind fun l => ?_
  cases l.unread.isEmpty with
  | false => exact hconsume l
  | true =>
    refine Act.keeps_get_bind (fun l => keeps_heard_bind (refill_heard _) (fun more => ?_) l) l
    cases more with
    | false => exact Heard.refl
    | true => exact hconsume

theorem lineFrom_heard (room : Nat) (soFar : Bytes) : Act.Keeps Heard (lineFrom room soFar) := by
  induction room generalizing soFar with
  | zero => exact Heard.refl
  | succ room ih =>
    unfold lineFrom
    refine keeps_heard_bind nextByte_heard fun b? => ?_
    cases b? with
    | none => exact Heard.refl
    | some b =>
      simp only
      split
      · exact Heard.refl
      · exact ih _

theorem readLine_heard : Act.Keeps Heard readLine :=
  Act.keeps_get_bind fun l => lineFrom_heard _ [] l

theorem bodyFrom_heard (want remaining retries : Nat) (got : Bytes) :
    Act.Keeps Heard (bodyFrom want remaining retries got) := by
  fun_induction bodyFrom want remaining retries got with
  | case1 => exact Heard.refl
  | case2 retries got missing ihMore ihRetry =>
    refine Act.keeps_get_bind fun l => keeps_heard_bind (read_heard _) (fun bytes => ?_) l
    cases bytes with
    | cons b bytes => exact ihMore l b bytes
    | nil =>
      cases retries with
      | zero => exact Heard.refl
      | succ n => exact keeps_heard_bind (pause_heard _) fun _ => ihRetry

theorem readBytes_heard (count : Nat) : Act.Keeps Heard (readBytes count) := by
  unfold readBytes
  refine Act.keeps_get_bind fun l => ?_
  simp only
  split
  · exact ⟨rfl, rfl, .refl _⟩
  · -- what was read ahead is consumed, and the rest comes from the stream
    have hahead : Heard l { l with taken := 0, unread := [] } := ⟨rfl, rfl, .refl _⟩
    exact hahead.trans (bodyFrom_heard count _ _ _ _)

theorem readBody_heard (count : Nat) : Act.Keeps Heard (readBody count) := by
  unfold readBody
  refine Act.keeps_get_bind fun l => ?_
  cases l.readLeft.spend (count - l.unread.length) with
  | none => exact .refl l
  | some left => exact readBytes_heard count l

end Link

end HttpEngine
