import HttpEngine.Proofs.Transport.Drawing
import HttpEngine.Proofs.Transport.Reads

/-!
# Lines that are not refused

What stops an activity that reads is the stream, the read budget or the line itself. A line in
front of all that is not consumed, **as long as the longest one at most**, is never what stops it.

* `Interrupted`: the stream or the read budget stopped it.
* `Link.Interrupts`: nothing but these stops an activity.
* `Link.readLine_fits`: a line that is short enough.
-/

namespace HttpEngine

open Text

/-- What was read did not stop an activity: **a wait was cut, the read budget did not suffice, or
the last read failed**. -/
def Interrupted (before : Journal) (halt : Halt IoError) (after : Journal) : Prop :=
  halt = .cut ∨ halt = .failed (.overBudget .read) ∨
    ∃ cause older, halt = .failed cause ∧ before.Grows Event.isInput older ∧
      after = .transfer (.readFailed cause) :: older

theorem Interrupted.of_grows {j j₁ j₂ : Journal} {halt : Halt IoError}
    (hgrows : j.Grows Event.isInput j₁) (h : Interrupted j₁ halt j₂) : Interrupted j halt j₂ := by
  rcases h with hcut | hpoor | ⟨cause, older, hcause, hmore, hlast⟩
  · exact .inl hcut
  · exact .inr (.inl hpoor)
  · exact .inr (.inr ⟨cause, older, hcause, hgrows.trans hmore, hlast⟩)

theorem Wire.interrupted_of_read {room : Nat} {w w' : Wire} {halt : Halt IoError}
    (h : read room w = .error halt w') : Interrupted w.journal halt w'.journal := by
  have hjournal := journal_await (w.inbound.readyAt w.clock) w
  unfold read at h
  cases hw : await (w.inbound.readyAt w.clock) w with
  | error halt₁ w₁ =>
    rw [Act.bind_of_ok (Act.run_get w), Act.bind_of_error hw] at h
    cases h
    exact .inl (cut_of_await hw)
  | ok u w₁ =>
    rw [Act.leaves_of_ok hw] at hjournal
    cases ha : w₁.inbound.take w₁.clock room with
    | mk answer inbound =>
      simp only [Act.run_bind, Act.run_get, hw, ha] at h
      cases answer with
      | ok bytes => cases h
      | error cause =>
        cases h
        exact .inr (.inr ⟨cause, w₁.journal, rfl, hjournal ▸ .refl _, rfl⟩)

namespace Link

variable {α β : Type} {room : Nat} {l l' : Link}

/-- Nothing but the stream and the read budget **stops an activity**. -/
def Interrupts (act : Act α) : Prop :=
  ∀ l halt l', act l = .error halt l' → Interrupted l.wire.journal halt l'.wire.journal

theorem interrupts_bind {act : Act α} {f : α → Act β} (hact : Interrupts act)
    (hheard : Act.Keeps Heard act) (hf : ∀ a, Interrupts (f a)) : Interrupts (act >>= f) := by
  intro l halt l' h
  have hgrows := (hheard l).grows
  cases hl : act l with
  | error halt₁ l₁ =>
    rw [Act.bind_of_error hl] at h
    cases h
    exact hact l halt l' hl
  | ok a l₁ =>
    rw [Act.bind_of_ok hl] at h
    rw [Act.leaves_of_ok hl] at hgrows
    exact (hf a l₁ halt l' h).of_grows hgrows

theorem interrupts_get_bind {f : Link → Act α} (hf : ∀ l, Interrupts (f l)) :
    Interrupts (get >>= f) :=
  fun l => hf l l

theorem interrupts_of_ok {act : Act α} (h : ∀ l, ∃ a l', act l = .ok a l') : Interrupts act := by
  intro l halt l' he
  obtain ⟨a, l₁, hok⟩ := h l
  rw [hok] at he
  cases he

theorem read_interrupts (room : Nat) : Interrupts (read room) := by
  intro l halt l' h
  cases hw : Wire.read room l.wire with
  | error halt₁ w =>
    rw [read_of_error hw] at h
    cases h
    exact Wire.interrupted_of_read hw
  | ok bytes w =>
    rw [read_of_ok hw] at h
    cases hs : l.readLeft.spend bytes.length with
    | some left => simp only [hs, reduceCtorEq] at h
    | none =>
      simp only [hs] at h
      cases h
      exact .inr (.inl rfl)

theorem pause_interrupts (ms : Nat) : Interrupts (onWire (Wire.pause ms)) := by
  intro l halt l' h
  unfold onWire at h
  cases hw : Wire.pause ms l.wire with
  | ok u w => simp only [hw, reduceCtorEq] at h
  | error halt₁ w =>
    simp only [hw] at h
    cases h
    exact .inl (Wire.cut_of_await hw)

theorem refill_interrupts (retries : Nat) : Interrupts (refill retries) := by
  induction retries with
  | zero =>
    unfold refill
    refine interrupts_get_bind fun l =>
      interrupts_bind (read_interrupts _) (read_heard _) fun bytes => ?_
    cases bytes <;> exact interrupts_of_ok fun l => ⟨_, _, rfl⟩
  | succ n ih =>
    unfold refill
    refine interrupts_get_bind fun l =>
      interrupts_bind (read_interrupts _) (read_heard _) fun bytes => ?_
    cases bytes with
    | cons b bytes => exact interrupts_of_ok fun l => ⟨_, _, rfl⟩
    | nil =>
      exact interrupts_get_bind fun l =>
        interrupts_bind (pause_interrupts _) (pause_heard _) fun _ => ih

theorem nextByte_interrupts : Interrupts nextByte := by
  have hconsume : Interrupts consume := by
    refine interrupts_of_ok fun l => ?_
    unfold consume
    rw [Act.bind_of_ok (Act.run_get l)]
    cases l.unread <;> exact ⟨_, _, rfl⟩
  rw [nextByte_eq]
  refine interrupts_get_bind fun l => ?_
  cases l.unread.isEmpty with
  | false => exact hconsume
  | true =>
    refine interrupts_get_bind fun l =>
      interrupts_bind (refill_interrupts _) (refill_heard _) fun more => ?_
    cases more with
    | false => exact interrupts_of_ok fun l => ⟨_, _, rfl⟩
    | true => exact hconsume

/-! ### Lines that are short enough -/

/-- What a line comes to **if it is not refused**: none comes, or it is the one in front. -/
def Spared (line rest : Bytes) (l : Link) : EStateM.Result (Halt IoError) Link (Option Bytes) → Prop
  | .ok none _ => True
  | .ok (some got) l' => got = line ∧ l'.left = rest
  | .error halt l' => Interrupted l.wire.journal halt l'.wire.journal

theorem Spared.of_grows {line rest : Bytes}
    {result : EStateM.Result (Halt IoError) Link (Option Bytes)} (h : Spared line rest l' result)
    (hgrows : l.wire.journal.Grows Event.isInput l'.wire.journal) : Spared line rest l result := by
  cases result with
  | ok line? l₂ => cases line? <;> exact h
  | error halt l₂ => exact Interrupted.of_grows hgrows h

/-- The first line end parts a byte string **in one way only**. -/
theorem first_line_unique {line front rest more : Bytes} (hline : ¬ crlf <:+: line)
    (hfront : ¬ crlf <:+: front) (h : line ++ crlf ++ rest = front ++ crlf ++ more) :
    line = front ∧ rest = more := by
  have hcut : ∀ {a b : Bytes}, ¬ crlf <:+: a → cutAt crlf (a ++ crlf ++ b) = some (a, b) :=
    fun ha => (cutAt_pair_eq_some_iff (by decide)).2 ⟨List.append_assoc .., ha⟩
  have hsame := hcut (b := rest) hline
  rw [h, hcut hfront] at hsame
  cases hsame
  exact ⟨rfl, rfl⟩

/-- The rest of a line that is in front, **if it still has room**. -/
theorem lineFrom_spared {line rest soFar : Bytes} (hfirst : ¬ crlf <:+: line)
    (hno : ¬ crlf <:+: soFar.reverse) (hleft : soFar.reverse ++ l.left = line ++ crlf ++ rest)
    (hroom : line.length + 2 ≤ soFar.length + room) :
    Spared line rest l (lineFrom room soFar l) := by
  -- on the room, of which every byte takes one; that what was read holds no line end is kept
  induction room generalizing soFar l with
  | zero =>
    have hfront : soFar.reverse <+: line ++ 13 :: 10 :: rest :=
      ⟨l.left, by simpa [crlf] using hleft⟩
    exact absurd (Plain.crlf_infix_of_fits rfl hfront (by simpa using hroom)) hno
  | succ room ih =>
    cases hb : nextByte l with
    | error halt l₁ =>
      rw [lineFrom, Act.bind_of_error hb]
      exact nextByte_interrupts l halt l₁ hb
    | ok b? l₁ =>
      cases b? with
      | none =>
        rw [lineFrom, Act.bind_of_ok hb]
        trivial
      | some b =>
        have hbyte := (nextByte_drew hb).left
        by_cases hend : b = 10 ∧ ∃ front, soFar = 13 :: front
        · -- the byte ends a line, and the only one that ends here is the one in front
          obtain ⟨rfl, front, rfl⟩ := hend
          have hsplit : line ++ crlf ++ rest = front.reverse ++ crlf ++ l₁.left := by
            rw [← hleft, hbyte]
            simp [crlf]
          rw [List.reverse_cons] at hno
          obtain ⟨rfl, rfl⟩ := first_line_unique hfirst
            (fun hi => hno (hi.trans (List.prefix_append _ _).isInfix)) hsplit
          rw [lineFrom, Act.bind_of_ok hb]
          exact ⟨rfl, rfl⟩
        · -- the byte does not, so that what was read still holds no line end
          have hmore : (b :: soFar).reverse ++ l₁.left = line ++ crlf ++ rest := by
            rw [← hleft, hbyte, List.reverse_cons, List.append_assoc, List.singleton_append]
          have hgrows := (nextByte_heard l).grows
          rw [Act.leaves_of_ok hb] at hgrows
          rw [lineFrom_step hb hend]
          refine (ih (Plain.not_crlf_infix_cons hno hend) hmore ?_).of_grows hgrows
          rw [List.length_cons]
          omega

/-- **A line that is as long as the longest one at most is not refused.** -/
theorem readLine_spared {line rest : Bytes} (hmax : l.options.maxLine + 1 ≤ maxWord64)
    (hfirst : ¬ crlf <:+: line) (hleft : l.left = line ++ crlf ++ rest)
    (hle : line.length ≤ l.options.maxLine) : Spared line rest l (readLine l) := by
  have hwindow := ReaderOptions.window_eq hmax
  unfold ReaderOptions.window at hwindow
  unfold readLine
  rw [Act.bind_of_ok (Act.run_get l), hwindow]
  exact lineFrom_spared hfirst (by simp [crlf]) hleft (by rw [List.length_nil]; omega)

end Link

end HttpEngine
