import HttpEngine.Proofs.Transport.Calls
import HttpEngine.Proofs.Transport.Hearing

/-!
# What is read comes off the front

A read of any stream, be it one that fails, takes from the front of the bytes that are not yet
delivered, and notes how many it brought. What a line or a body is made of **was the front of the
bytes not consumed**, in whatever pieces it came.

* `Journal.intake`: the bytes brought since a request was awaited.
* `Wire.read_takes`: one read.
* `Link.Drew`: bytes were consumed.
* `Link.readLine_drew`, `Link.readBytes_drew`: lines and bodies.
-/

namespace HttpEngine

open Text

/-- The bytes that reads brought **since a request was last awaited**. -/
def Journal.intake : Journal → Nat
  | [] => 0
  | .entered .reading :: _ => 0
  | .transfer (.read count) :: older => intake older + count
  | _ :: older => intake older

/-- What is brought for a request is counted **from where it was awaited**. -/
theorem Journal.intake_append_reading (newer older : Journal) :
    intake (newer ++ .entered .reading :: older) = newer.intake := by
  induction newer with
  | nil => rfl
  | cons e newer ih =>
    cases e with
    | transfer t =>
      cases t with
      | read count => exact congrArg (· + count) ih
      | _ => exact ih
    | entered p =>
      cases p with
      | reading => rfl
      | _ => exact ih
    | _ => exact ih

/-! ### One read -/

/-- The bytes of an answer, none if it is a failure. -/
def Script.brought : Except IoError Bytes → Bytes
  | .ok bytes => bytes
  | .error _ => []

theorem Script.undelivered_of_read {s rest : Script} {room : Nat} {answer : Except IoError Bytes}
    (h : s.read room = some (answer, rest)) :
    s.undelivered = brought answer ++ rest.undelivered := by
  obtain ⟨pieces, hangs⟩ := s
  match pieces with
  | [] =>
    cases hangs <;> simp only [read, if_true, Bool.false_eq_true, if_false, reduceCtorEq,
      Option.some.injEq, Prod.mk.injEq] at h
    obtain ⟨rfl, rfl⟩ := h
    rfl
  | .failure cause :: pieces =>
    simp only [read, Option.some.injEq, Prod.mk.injEq] at h
    obtain ⟨rfl, rfl⟩ := h
    rfl
  | .data bytes :: pieces =>
    by_cases hlt : room < bytes.length
    · simp only [read, hlt, if_true, Option.some.injEq, Prod.mk.injEq] at h
      obtain ⟨rfl, rfl⟩ := h
      simp only [undelivered, brought, List.flatMap_cons, ← List.append_assoc,
        List.take_append_drop]
    · simp only [read, hlt, if_false, Option.some.injEq, Prod.mk.injEq] at h
      obtain ⟨rfl, rfl⟩ := h
      rfl

theorem Script.length_brought_le {s rest : Script} {room : Nat} {answer : Except IoError Bytes}
    (h : s.read room = some (answer, rest)) : (brought answer).length ≤ room := by
  obtain ⟨pieces, hangs⟩ := s
  match pieces with
  | [] =>
    cases hangs <;> simp only [read, if_true, Bool.false_eq_true, if_false, reduceCtorEq,
      Option.some.injEq, Prod.mk.injEq] at h
    obtain ⟨rfl, rfl⟩ := h
    exact Nat.zero_le room
  | .failure cause :: pieces =>
    simp only [read, Option.some.injEq, Prod.mk.injEq] at h
    obtain ⟨rfl, rfl⟩ := h
    exact Nat.zero_le room
  | .data bytes :: pieces =>
    by_cases hlt : room < bytes.length
    · simp only [read, hlt, if_true, Option.some.injEq, Prod.mk.injEq] at h
      obtain ⟨rfl, rfl⟩ := h
      exact List.length_take_le _ _
    · simp only [read, hlt, if_false, Option.some.injEq, Prod.mk.injEq] at h
      obtain ⟨rfl, rfl⟩ := h
      exact Nat.le_of_not_lt hlt

theorem Inbound.arrived_split (now room : Nat) (runs : List (Nat × Bytes)) :
    runs.flatMap (·.2) = (arrived now room runs).1 ++ (arrived now room runs).2.flatMap (·.2) ∧
      (arrived now room runs).1.length ≤ room := by
  induction runs generalizing room with
  | nil => exact ⟨rfl, Nat.zero_le _⟩
  | cons r rest ih =>
    obtain ⟨time, bytes⟩ := r
    unfold arrived
    split
    · exact ⟨rfl, Nat.zero_le _⟩
    · split
      · refine ⟨?_, List.length_take_le _ _⟩
        simp only [List.flatMap_cons, ← List.append_assoc, List.take_append_drop]
      · obtain ⟨hsplit, hle⟩ := ih (room - bytes.length)
        constructor
        · simp only [List.flatMap_cons, List.append_assoc, ← hsplit]
        · simp only [List.length_append]
          omega

/-- A read takes from the front of what is not delivered, **and no more than there is room for**. -/
theorem Inbound.take_split (now room : Nat) (i : Inbound) :
    i.undelivered = Script.brought (i.take now room).1 ++ (i.take now room).2.undelivered ∧
      (Script.brought (i.take now room).1).length ≤ room := by
  cases i with
  | peer runs ends => exact arrived_split now room runs
  | script s =>
    simp only [take]
    cases h : s.read room with
    | none => exact ⟨rfl, Nat.zero_le _⟩
    | some step =>
      obtain ⟨answer, rest⟩ := step
      exact ⟨s.undelivered_of_read h, s.length_brought_le h⟩

namespace Wire

theorem inbound_leaves_await (time : Option Nat) (w : Wire) :
    (Act.leaves (await time) w).inbound = w.inbound := by
  have hwait : ∀ w : Wire, (Act.leaves (waitFor time) w).inbound = w.inbound := by
    intro w
    unfold Act.leaves waitFor
    cases time with
    | none => rfl
    | some t =>
      cases w.deadline with
      | none => rfl
      | some d =>
        by_cases hpast : t ≤ w.clock
        · simp only [hpast, if_true]
        · by_cases hlate : d ≤ t <;> simp only [hpast, hlate, if_true, if_false]
  cases hp : w.patience with
  | none =>
    have he : await time w = waitFor time w := by simp only [await, hp]
    rw [Act.leaves, he]
    exact hwait w
  | some n =>
    cases n with
    | zero => rw [Act.leaves_of_error (show await time w = .error .cut w by simp only [await, hp])]
    | succ n =>
      have he : await time w = waitFor time { w with patience := some n } := by
        simp only [await, hp]
      rw [Act.leaves, he]
      exact hwait { w with patience := some n }

/-- What a read of a stream comes to: it **brings bytes and notes how many**, or nothing. -/
theorem read_takes (room : Nat) (w : Wire) :
    (∃ bytes w', read room w = .ok bytes w' ∧
      w'.journal = .transfer (.read bytes.length) :: w.journal ∧
      w.inbound.undelivered = bytes ++ w'.inbound.undelivered ∧ bytes.length ≤ room) ∨
    ∃ halt w', read room w = .error halt w' ∧ w'.journal.intake = w.journal.intake ∧
      w'.inbound.undelivered = w.inbound.undelivered := by
  have hjournal := journal_await (w.inbound.readyAt w.clock) w
  have hinbound := inbound_leaves_await (w.inbound.readyAt w.clock) w
  unfold read
  cases hw : await (w.inbound.readyAt w.clock) w with
  | error halt w₁ =>
    rw [Act.leaves_of_error hw] at hjournal hinbound
    refine .inr ⟨halt, w₁, ?_, by rw [hjournal], by rw [hinbound]⟩
    simp only [Act.run_bind, Act.run_get, hw]
  | ok u w₁ =>
    rw [Act.leaves_of_ok hw] at hjournal hinbound
    obtain ⟨hsplit, hle⟩ := w₁.inbound.take_split w₁.clock room
    rw [← hjournal, ← hinbound]
    cases ha : w₁.inbound.take w₁.clock room with
    | mk answer inbound =>
      rw [ha] at hsplit hle
      simp only [Act.run_bind, Act.run_get, hw, ha]
      cases answer with
      | ok bytes => exact .inl ⟨bytes, _, rfl, rfl, hsplit, hle⟩
      | error cause => exact .inr ⟨.failed cause, _, rfl, rfl, hsplit.symm⟩

end Wire

namespace Link

variable {l l₁ l₂ l' : Link} {heard more bytes : Bytes} {room : Nat}

/-! ### Bytes consumed -/

/-- Some bytes were consumed: they **were the front** of those that had not been. -/
structure Drew (heard : Bytes) (l l' : Link) : Prop where
  left : l.left = heard ++ l'.left
  options : l'.options = l.options

theorem Drew.refl (l : Link) : Drew [] l l := ⟨rfl, rfl⟩

theorem Drew.trans (h : Drew heard l l₁) (k : Drew more l₁ l₂) : Drew (heard ++ more) l l₂ :=
  ⟨by rw [h.left, k.left, List.append_assoc], k.options.trans h.options⟩

/-- A read made while nothing is read ahead **consumes what it brings**. -/
theorem read_drew (hempty : l.unread = []) (h : read room l = .ok bytes l') :
    Drew bytes l l' ∧ l'.unread = [] ∧ bytes.length ≤ room := by
  rcases Wire.read_takes room l.wire with ⟨got, w, hw, -, hsplit, hle⟩ | ⟨halt, w, hw, -⟩
  · rw [read_of_ok hw] at h
    cases hs : l.readLeft.spend got.length with
    | none => simp only [hs, reduceCtorEq] at h
    | some left =>
      simp only [hs] at h
      cases h
      refine ⟨⟨?_, rfl⟩, hempty, hle⟩
      simp only [Link.left, hempty, List.nil_append]
      exact hsplit
  · rw [read_of_error hw] at h
    cases h

theorem pause_drew {ms : Nat} (h : onWire (Wire.pause ms) l = .ok () l') :
    Drew [] l l' ∧ l'.unread = l.unread := by
  obtain ⟨w, hp, rfl⟩ := onWire_eq_ok.1 h
  have hi : w.inbound = l.wire.inbound := Wire.inbound_await hp
  refine ⟨⟨?_, rfl⟩, rfl⟩
  show l.unread ++ _ = l.unread ++ w.inbound.undelivered
  rw [hi]

theorem drew_of_filled {taken : Nat} (h : Drew bytes l l₁) (hempty : l₁.unread = []) :
    Drew [] l { l₁ with taken, unread := bytes } := by
  refine ⟨?_, h.options⟩
  rw [h.left, left, hempty]
  rfl

/-- Filling the empty read buffer **consumes nothing**. -/
theorem refill_drew {retries : Nat} {more : Bool} (hempty : l.unread = [])
    (h : refill retries l = .ok more l') : Drew [] l l' := by
  induction retries generalizing l with
  | zero =>
    unfold refill at h
    obtain ⟨l₀, l₀', hg, h⟩ := Act.bind_eq_ok.1 h
    cases hg
    obtain ⟨bytes, l₁, hr, h⟩ := Act.bind_eq_ok.1 h
    obtain ⟨hread, hempty₁, -⟩ := read_drew hempty hr
    cases bytes <;> cases h <;> exact drew_of_filled hread hempty₁
  | succ n ih =>
    unfold refill at h
    obtain ⟨l₀, l₀', hg, h⟩ := Act.bind_eq_ok.1 h
    cases hg
    obtain ⟨bytes, l₁, hr, h⟩ := Act.bind_eq_ok.1 h
    obtain ⟨hread, hempty₁, -⟩ := read_drew hempty hr
    cases bytes with
    | cons b bytes =>
      cases h
      exact drew_of_filled hread hempty₁
    | nil =>
      obtain ⟨l₂, l₂', hg, h⟩ := Act.bind_eq_ok.1 h
      cases hg
      obtain ⟨u, l₂, hw, h⟩ := Act.bind_eq_ok.1 h
      obtain ⟨hpause, hunread⟩ := pause_drew hw
      exact (hread.trans hpause).trans (ih (hunread.trans hempty₁) h)

theorem nextByte_drew {b : UInt8} (h : nextByte l = .ok (some b) l') : Drew [b] l l' := by
  -- once there is something in the buffer, its first byte is consumed
  have hconsume : ∀ {l₁ : Link}, Drew [] l l₁ → consume l₁ = .ok (some b) l' → Drew [b] l l' := by
    intro l₁ hl h
    unfold consume at h
    obtain ⟨l₂, l₂', hg, h⟩ := Act.bind_eq_ok.1 h
    cases hg
    cases hu : l₁.unread with
    | nil =>
      simp only [hu] at h
      cases h
    | cons c rest =>
      simp only [hu] at h
      cases h
      refine ⟨?_, hl.options⟩
      rw [hl.left, left, hu]
      rfl
  rw [nextByte_eq] at h
  obtain ⟨l₀, l₀', hg, h⟩ := Act.bind_eq_ok.1 h
  cases hg
  cases hu : l.unread with
  | cons c rest =>
    simp only [hu, List.isEmpty_cons, Bool.false_eq_true, if_false] at h
    exact hconsume (.refl l) h
  | nil =>
    simp only [hu, List.isEmpty_nil, if_true] at h
    obtain ⟨l₁, l₁', hg, h⟩ := Act.bind_eq_ok.1 h
    cases hg
    obtain ⟨more, l₁, hr, h⟩ := Act.bind_eq_ok.1 h
    have hfilled := refill_drew hu hr
    cases more with
    | false => cases h
    | true => exact hconsume hfilled h

/-! ### Lines -/

/-- The rest of a line, of which `soFar` has been read, **last byte first**. -/
theorem lineFrom_drew {soFar line : Bytes} (hno : ¬ crlf <:+: soFar.reverse)
    (h : lineFrom room soFar l = .ok (some line) l') :
    ∃ heard, Drew heard l l' ∧ soFar.reverse ++ heard = line ++ crlf ∧ ¬ crlf <:+: line ∧
      heard.length ≤ room := by
  -- on the room, of which every byte takes one; that what was read holds no line end is kept
  induction room generalizing soFar l with
  | zero => cases h
  | succ room ih =>
    have hline := h
    unfold lineFrom at h
    obtain ⟨b?, l₁, hb, h⟩ := Act.bind_eq_ok.1 h
    cases b? with
    | none => cases h
    | some b =>
      have hbyte := nextByte_drew hb
      by_cases hend : b = 10 ∧ ∃ line, soFar = 13 :: line
      · obtain ⟨rfl, front, rfl⟩ := hend
        cases h
        refine ⟨[10], hbyte, by simp [crlf], fun hi => hno (hi.trans ?_), Nat.succ_le_succ (Nat.zero_le _)⟩
        rw [List.reverse_cons]
        exact (List.prefix_append _ _).isInfix
      · rw [lineFrom_step hb hend] at hline
        obtain ⟨heard, hdrew, hsplit, hfirst, hle⟩ := ih (Plain.not_crlf_infix_cons hno hend) hline
        refine ⟨b :: heard, hbyte.trans hdrew, ?_, hfirst, Nat.succ_le_succ hle⟩
        rw [← hsplit, List.reverse_cons, List.append_assoc, List.singleton_append]

/-- A line that is read, **with its end**, was in front of all else, and not too long. -/
theorem readLine_drew {line : Bytes} (h : readLine l = .ok (some line) l') :
    Drew (line ++ crlf) l l' ∧ ¬ crlf <:+: line ∧
      (line ++ crlf).length ≤ l.options.window := by
  obtain ⟨l₀, l₀', hg, h⟩ := Act.bind_eq_ok.1 h
  cases hg
  obtain ⟨heard, hdrew, hsplit, hfirst, hle⟩ := lineFrom_drew (by simp [crlf]) h
  rw [List.reverse_nil, List.nil_append] at hsplit
  rw [← hsplit]
  exact ⟨hdrew, hfirst, hle⟩

/-! ### Bodies -/

theorem bodyFrom_drew {want remaining retries : Nat} {got body : Bytes} (hempty : l.unread = [])
    (h : bodyFrom want remaining retries got l = .ok body l') :
    ∃ heard, Drew heard l l' ∧ body = got ++ heard ∧ heard.length = remaining := by
  fun_induction bodyFrom want remaining retries got generalizing l with
  | case1 =>
    cases h
    exact ⟨[], .refl _, (List.append_nil _).symm, rfl⟩
  | case2 retries got missing ihMore ihAgain =>
    obtain ⟨l₀, l₀', hg, h⟩ := Act.bind_eq_ok.1 h
    cases hg
    obtain ⟨bytes, l₁, hr, h⟩ := Act.bind_eq_ok.1 h
    obtain ⟨hread, hempty₁, hle⟩ := read_drew hempty hr
    cases bytes with
    | cons b bytes =>
      obtain ⟨heard, hdrew, rfl, hlen⟩ := ihMore _ b bytes hempty₁ h
      refine ⟨b :: bytes ++ heard, hread.trans hdrew, List.append_assoc .., ?_⟩
      -- a read brings no more than is missing
      have hfits := Nat.le_trans hle (Nat.min_le_left _ _)
      rw [List.length_append, hlen, List.length_cons]
      rw [List.length_cons] at hfits
      omega
    | nil =>
      cases retries with
      | zero => cases h
      | succ k =>
        obtain ⟨u, l₂, hw, h⟩ := Act.bind_eq_ok.1 h
        obtain ⟨hpause, hunread⟩ := pause_drew hw
        obtain ⟨heard, hdrew, hbody, hlen⟩ := ihAgain (hunread.trans hempty₁) h
        exact ⟨heard, (hread.trans hpause).trans hdrew, hbody, hlen⟩

theorem readBytes_of_le {count : Nat} (h : count ≤ l.unread.length) :
    readBytes count l
      = .ok (l.unread.take count)
        { l with taken := l.taken + count, unread := l.unread.drop count } := by
  unfold readBytes
  simp only [Act.run_bind, Act.run_get, h, if_true, Act.run_set]
  rfl

/-- What was read ahead is consumed first, **all of it if it does not suffice**. -/
theorem readBytes_of_lt {count : Nat} (h : l.unread.length < count) :
    readBytes count l
      = bodyFrom count (count - l.unread.length) l.options.retries l.unread
        { l with taken := 0, unread := [] } := by
  have htake : l.unread.take count = l.unread := List.take_of_length_le (by omega)
  have hc : ¬ count ≤ l.unread.length := by omega
  unfold readBytes
  simp only [Act.run_bind, Act.run_get, hc, if_false, Act.run_set, htake]

/-- **So many bytes** that are read were in front of all else. -/
theorem readBytes_drew {count : Nat} (h : readBytes count l = .ok bytes l') :
    Drew bytes l l' ∧ bytes.length = count := by
  by_cases hle : count ≤ l.unread.length
  · rw [readBytes_of_le hle] at h
    cases h
    refine ⟨⟨?_, rfl⟩, List.length_take_of_le hle⟩
    show l.unread ++ _ = l.unread.take count ++ (l.unread.drop count ++ _)
    rw [← List.append_assoc, List.take_append_drop]
  · rw [readBytes_of_lt (by omega)] at h
    obtain ⟨heard, hdrew, rfl, hlen⟩ := bodyFrom_drew rfl h
    refine ⟨⟨?_, hdrew.options⟩, ?_⟩
    · rw [List.append_assoc, ← hdrew.left]
      rfl
    · rw [List.length_append, hlen]
      omega

theorem readBody_of_poor {count : Nat} (h : l.readLeft.spend (count - l.unread.length) = none) :
    readBody count l = .error (.failed (.overBudget .read)) l := by
  unfold readBody
  simp only [Act.run_bind, Act.run_get, h, Act.run_throw]

theorem readBody_of_solvent {count : Nat} {left : Budget}
    (h : l.readLeft.spend (count - l.unread.length) = some left) :
    readBody count l = readBytes count l := by
  unfold readBody
  simp only [Act.run_bind, Act.run_get, h]

theorem readBody_drew {count : Nat} (h : readBody count l = .ok bytes l') :
    Drew bytes l l' ∧ bytes.length = count := by
  cases hs : l.readLeft.spend (count - l.unread.length) with
  | none =>
    rw [readBody_of_poor hs] at h
    cases h
  | some left =>
    rw [readBody_of_solvent hs] at h
    exact readBytes_drew h

end Link

end HttpEngine
