import HttpEngine.Proofs.Transport.Hearing

/-!
# How many reads lines and bodies take

Nothing says how many bytes a peer sends, or how often it sends none. A read that brings bytes is paid
for by the read budget, at least one of it, and one that brings none uses up a retry; a read that
brings bytes gives all retries back. So with `n` of the budget left and `k` of `r` retries, at most
`n * (r + 1) + k + 1` reads are made: the last of them brings too much, or is one empty read too
many.

* `Journal.readCount`: the reads that completed.
* `Wire.Completes`: a stream on which so many reads complete, **whatever comes after them**.
* `Link.Funded`: the reads a link can still pay for are within the limit.
* `Link.read_counted`: one read.
* `Link.readLine_bounded`, `Link.readBody_bounded`: lines and bodies.
-/

namespace HttpEngine

/-- The reads that completed, **those that failed among them**. -/
def Journal.readCount : Journal → Nat
  | [] => 0
  | .transfer (.read _) :: older => readCount older + 1
  | .transfer (.readFailed _) :: older => readCount older + 1
  | _ :: older => readCount older

namespace Inbound

/-- The next `count` reads **complete**. A script that hangs can still have so many pieces. -/
def Answers (count : Nat) : Inbound → Prop
  | script s => s.hangs = true → count ≤ s.pieces.length
  | peer _ ends => ends.isSome = true

variable {i : Inbound} {now count : Nat}

theorem Answers.readyAt (h : i.Answers (count + 1)) : ∃ time, i.readyAt now = some time := by
  cases i with
  | script s =>
    refine ⟨now, ?_⟩
    have hready : ¬ (s.pieces.isEmpty && s.hangs) = true := by
      intro hs
      rw [Bool.and_eq_true, List.isEmpty_iff] at hs
      have := h hs.2
      simp [hs.1] at this
    simp only [Inbound.readyAt, hready, Bool.false_eq_true, if_false]
  | peer runs ends =>
    obtain ⟨time, hends⟩ := Option.isSome_iff_exists.1 h
    cases runs with
    | nil => exact ⟨max now time, by simp [Inbound.readyAt, hends]⟩
    | cons run rest => exact ⟨max now run.1, rfl⟩

/-- A read takes **one piece at most**. -/
theorem Answers.take (room : Nat) (h : i.Answers (count + 1)) :
    (i.take now room).2.Answers count := by
  cases i with
  | peer runs ends => exact h
  | script s =>
    obtain ⟨pieces, hangs⟩ := s
    have hlong : hangs = true → count + 1 ≤ pieces.length := h
    show Answers count (Inbound.take now room (.script ⟨pieces, hangs⟩)).2
    cases pieces with
    | nil =>
      cases hangs with
      | false => exact fun hs => absurd hs (by decide)
      | true => exact absurd (hlong rfl) (by simp)
    | cons p rest =>
      cases p with
      | failure cause => exact fun hs => Nat.le_of_succ_le_succ (hlong hs)
      | data bytes =>
        by_cases hroom : room < bytes.length
        · simp only [Inbound.take, Script.read, hroom, if_true]
          exact fun hs => Nat.le_of_succ_le (hlong hs)
        · simp only [Inbound.take, Script.read, hroom, if_false]
          exact fun hs => Nat.le_of_succ_le_succ (hlong hs)

end Inbound

namespace Wire

variable {limit : Nat} {w w' : Wire}

/-- A stream on which nothing cuts a wait and **every read completes** until there have been so
many. -/
def Completes (limit : Nat) (w : Wire) : Prop :=
  w.Calm ∧ w.inbound.Answers (limit - w.journal.readCount)

/-- A wait ends well, or is cut. -/
theorem cut_of_await {time : Option Nat} {halt : Halt IoError} (h : await time w = .error halt w') :
    halt = .cut := by
  have hwait : ∀ {w₁ : Wire}, waitFor time w₁ = .error halt w' → halt = .cut := by
    intro w₁ h
    unfold waitFor at h
    split at h
    · split at h
      · cases h
      · split at h <;> cases h
        rfl
    · cases h
    · cases h
      rfl
  unfold await at h
  split at h
  · cases h
    rfl
  · exact hwait h
  · exact hwait h

/-- One read was made, and where reads complete **those after it do**. -/
structure Counted (w w' : Wire) : Prop where
  count : w'.journal.readCount = w.journal.readCount + 1
  completes : ∀ limit, w.journal.readCount < limit → w.Completes limit → w'.Completes limit

/-- A read counts, whatever comes of it, unless it is cut; and it **is not cut** where reads
complete. -/
theorem read_counted (room : Nat) (w : Wire) :
    (∃ bytes w', read room w = .ok bytes w' ∧ Counted w w') ∨
    (∃ cause w', read room w = .error (.failed cause) w' ∧ Counted w w') ∨
    (∃ w', read room w = .error .cut w' ∧ w'.journal = w.journal ∧
      ∀ limit, w.journal.readCount < limit → ¬ w.Completes limit) := by
  have hjournal := journal_await (w.inbound.readyAt w.clock) w
  -- where reads complete, this one is waited for and not cut
  have hready : ∀ limit, w.journal.readCount < limit → w.Completes limit →
      w.inbound.Answers (limit - (w.journal.readCount + 1) + 1) ∧
        ∃ time, await (w.inbound.readyAt w.clock) w = .ok () { w with clock := time } := by
    rintro limit hlt ⟨hcalm, hanswers⟩
    rw [show limit - w.journal.readCount = limit - (w.journal.readCount + 1) + 1 by omega]
      at hanswers
    obtain ⟨time, htime⟩ : ∃ time, w.inbound.readyAt w.clock = some time := hanswers.readyAt
    exact ⟨hanswers, _, by rw [htime, await_of_calm hcalm]⟩
  unfold read
  cases hw : await (w.inbound.readyAt w.clock) w with
  | error halt w₁ =>
    rw [Act.leaves_of_error hw] at hjournal
    obtain rfl := cut_of_await hw
    refine .inr (.inr ⟨w₁, by simp only [Act.run_bind, Act.run_get, hw], hjournal, ?_⟩)
    intro limit hlt hcompletes
    obtain ⟨-, time, hok⟩ := hready limit hlt hcompletes
    rw [hw] at hok
    cases hok
  | ok u w₁ =>
    rw [Act.leaves_of_ok hw] at hjournal
    have hcounted : ∀ journal, Journal.readCount journal = w₁.journal.readCount + 1 →
        Counted w { w₁ with inbound := (w₁.inbound.take w₁.clock room).2, journal } := by
      intro journal hcount
      rw [hjournal] at hcount
      refine ⟨hcount, fun limit hlt hcompletes => ?_⟩
      obtain ⟨hanswers, time, hok⟩ := hready limit hlt hcompletes
      rw [hw] at hok
      cases hok
      exact ⟨hcompletes.1, hcount ▸ hanswers.take room⟩
    simp only [Act.run_bind, Act.run_get, hw]
    cases ha : w₁.inbound.take w₁.clock room with
    | mk answer inbound =>
      rw [ha] at hcounted
      cases answer with
      | ok bytes => exact .inl ⟨bytes, _, rfl, hcounted _ rfl⟩
      | error cause => exact .inr (.inl ⟨cause, _, rfl, hcounted _ rfl⟩)

/-- A pause makes no read, and **is not cut** where reads complete. -/
theorem pause_counted (ms : Nat) (w : Wire) :
    (Act.leaves (pause ms) w).journal = w.journal ∧ ∀ limit, w.Completes limit →
      ∃ w', pause ms w = .ok () w' ∧ w'.Completes limit := by
  refine ⟨journal_await _ w, fun limit h => ⟨_, await_of_calm h.1 _, h⟩⟩

end Wire

namespace Link

/-- What an activity that reads was granted: the stream it began with, the count of reads it must not
pass, and the retries of each read. -/
structure Grant where
  start : Wire
  limit : Nat
  retries : Nat

/-- With so many retries left, the reads that the budget **can still pay for** are within the limit.
-/
structure Funded (g : Grant) (left : Nat) (l : Link) : Prop where
  options : l.options.retries = g.retries
  reads : ∃ n, l.readLeft = some n ∧
    l.wire.journal.readCount + n * (g.retries + 1) + (left + 1) ≤ g.limit
  completes : g.start.Completes g.limit → l.wire.Completes g.limit

/-- Reading stopped within the limit, and **was not cut** if reads complete. -/
structure Stopped {ε : Type} (g : Grant) (halt : Halt ε) (l : Link) : Prop where
  count : l.wire.journal.readCount ≤ g.limit
  completed : g.start.Completes g.limit → halt ≠ .cut

/-- Reading stays within the limit, and after an answer that it `goes` on after, the link can pay for
**as many reads as before the first**. -/
def Bounded {ε α : Type} (g : Grant) (goes : α → Bool) : EStateM.Result (Halt ε) Link α → Prop
  | .ok a l => l.wire.journal.readCount ≤ g.limit ∧ (goes a = true → l.Funded g g.retries)
  | .error halt l => l.Stopped g halt

variable {ε α β : Type} {g : Grant} {left room : Nat} {l l' : Link}

theorem Funded.count_lt (h : l.Funded g left) : l.wire.journal.readCount < g.limit := by
  obtain ⟨n, -, hn⟩ := h.reads
  omega

theorem Funded.bounded (h : l.Funded g g.retries) (goes : α → Bool) (a : α) :
    Bounded g goes (.ok a l : EStateM.Result (Halt ε) Link α) :=
  ⟨Nat.le_of_lt h.count_lt, fun _ => h⟩

theorem stopped_of_failed (h : l.wire.journal.readCount ≤ g.limit) (cause : ε) :
    l.Stopped g (.failed cause) := by
  refine ⟨h, fun _ hcut => ?_⟩
  cases hcut

/-- Reading may stop **after any answer**. -/
theorem bounded_of_stop {goes : α → Bool} {a : α} (h : l.wire.journal.readCount ≤ g.limit)
    (hstops : goes a = false) : Bounded g goes (.ok a l : EStateM.Result (Halt ε) Link α) := by
  refine ⟨h, fun hgoes => ?_⟩
  rw [hstops] at hgoes
  cases hgoes

theorem Bounded.bind {goes : α → Bool} {more : β → Bool} {act : EStateM (Halt ε) Link α}
    {f : α → EStateM (Halt ε) Link β} (h : Bounded g goes (act l))
    (hgoes : ∀ a l', goes a = true → l'.Funded g g.retries → Bounded g more (f a l'))
    (hstops : ∀ a l', goes a = false → l'.wire.journal.readCount ≤ g.limit →
      Bounded g more (f a l')) : Bounded g more ((act >>= f) l) := by
  rw [Act.run_bind]
  cases hact : act l with
  | error halt l' =>
    rw [hact] at h
    exact h
  | ok a l' =>
    rw [hact] at h
    cases ha : goes a with
    | true => exact hgoes a l' ha (h.2 ha)
    | false => exact hstops a l' ha h.1

/-- One read. If it brings something, all retries are there again and **the budget has paid**; if
not, one retry less is left. -/
theorem read_funded (room : Nat) (h : l.Funded g left) :
    match read room l with
    | .ok [] l' => l'.wire.journal.readCount ≤ g.limit ∧ ∀ k, left = k + 1 → l'.Funded g k
    | .ok (_ :: _) l' => l'.Funded g g.retries
    | .error halt l' => l'.Stopped g halt := by
  obtain ⟨n, hleft, hn⟩ := h.reads
  rcases Wire.read_counted room l.wire with
    ⟨bytes, w, hw, hcounted⟩ | ⟨cause, w, hw, hcounted⟩ | ⟨w, hw, hjournal, hcut⟩
  · have hcompletes := fun hc => hcounted.completes _ h.count_lt (h.completes hc)
    have hcount := hcounted.count
    rw [read_of_ok hw, hleft]
    cases bytes with
    | nil =>
      refine ⟨by simp only [hcount]; omega, ?_⟩
      rintro k rfl
      exact ⟨h.options, ⟨n, by simp, by simp only [hcount]; omega⟩, hcompletes⟩
    | cons b bytes =>
      by_cases hpaid : (b :: bytes).length ≤ n
      · simp only [Budget.spend, hpaid, if_true]
        refine ⟨h.options, ⟨_, rfl, ?_⟩, hcompletes⟩
        -- at least one byte of the budget is gone, and with it a read and its retries
        have hless : (n - (b :: bytes).length) * (g.retries + 1) + (g.retries + 1)
            ≤ n * (g.retries + 1) := by
          rw [← Nat.succ_mul]
          refine Nat.mul_le_mul_right _ ?_
          rw [List.length_cons] at hpaid ⊢
          omega
        simp only [hcount]
        omega
      · simp only [Budget.spend, hpaid, if_false]
        exact stopped_of_failed (by simp only [hcount]; omega) _
  · rw [read_of_error hw]
    exact stopped_of_failed (by simp only [hcounted.count]; omega) _
  · rw [read_of_error hw]
    refine ⟨?_, fun hc => absurd (h.completes hc) (hcut _ h.count_lt)⟩
    simp only [hjournal]
    exact Nat.le_of_lt h.count_lt

theorem pause_funded (ms : Nat) (h : l.Funded g left) :
    match onWire (Wire.pause ms) l with
    | .ok _ l' => l'.Funded g left
    | .error halt l' => l'.Stopped g halt := by
  obtain ⟨hjournal, hcompletes⟩ := Wire.pause_counted ms l.wire
  unfold onWire
  cases hp : Wire.pause ms l.wire with
  | ok u w =>
    rw [Act.leaves_of_ok hp] at hjournal
    refine ⟨h.options, by simpa only [hjournal] using h.reads, fun hc => ?_⟩
    obtain ⟨w', hok, hw'⟩ := hcompletes _ (h.completes hc)
    rw [hp] at hok
    cases hok
    exact hw'
  | error halt w =>
    rw [Act.leaves_of_error hp] at hjournal
    refine ⟨by simpa only [hjournal] using Nat.le_of_lt h.count_lt, fun hc => ?_⟩
    obtain ⟨w', hok, -⟩ := hcompletes _ (h.completes hc)
    rw [hp] at hok
    cases hok

/-- An activity that begins with a read, **in both cases of what it brings**. -/
theorem bounded_read_bind {goes : α → Bool} {f : Bytes → Act α} (h : l.Funded g left)
    (hmore : ∀ b bytes l', l'.Funded g g.retries → Bounded g goes (f (b :: bytes) l'))
    (hnone : ∀ l', l'.wire.journal.readCount ≤ g.limit → (∀ k, left = k + 1 → l'.Funded g k) →
      Bounded g goes (f [] l')) : Bounded g goes ((read room >>= f) l) := by
  have hread := read_funded room h
  rw [Act.run_bind]
  cases hr : read room l with
  | error halt l' =>
    rw [hr] at hread
    exact hread
  | ok bytes l' =>
    rw [hr] at hread
    cases bytes with
    | nil => exact hnone l' hread.1 hread.2
    | cons b bytes => exact hmore b bytes l' hread

theorem bounded_pause_bind {goes : α → Bool} {f : Unit → Act α} (ms : Nat) (h : l.Funded g left)
    (hf : ∀ l', l'.Funded g left → Bounded g goes (f () l')) :
    Bounded g goes ((onWire (Wire.pause ms) >>= f) l) := by
  have hpause := pause_funded ms h
  rw [Act.run_bind]
  cases hp : onWire (Wire.pause ms) l with
  | error halt l' =>
    rw [hp] at hpause
    exact hpause
  | ok u l' =>
    rw [hp] at hpause
    exact hf l' hpause

theorem Funded.buffered (h : l.Funded g left) (taken : Nat) (unread : Bytes) :
    Funded g left { l with taken, unread } :=
  ⟨h.options, h.reads, h.completes⟩

/-! ### Lines -/

/-- Filling the read buffer takes **at most the reads that are left of its retries**, and one more. -/
theorem refill_bounded (h : l.Funded g left) : Bounded g id (refill left l) := by
  induction left generalizing l with
  | zero =>
    unfold refill
    refine bounded_read_bind h (fun b bytes l' h' => ?_) fun l' hcount _ => ?_
    · exact (h'.buffered 0 (b :: bytes)).bounded id true
    · exact bounded_of_stop hcount rfl
  | succ k ih =>
    unfold refill
    refine bounded_read_bind h (fun b bytes l' h' => ?_) fun l' _ hagain => ?_
    · exact (h'.buffered 0 (b :: bytes)).bounded id true
    · exact bounded_pause_bind _ (hagain k rfl) fun l₁ h₁ => ih h₁

theorem consume_bounded (h : l.Funded g g.retries) : Bounded g Option.isSome (consume l) := by
  unfold consume
  simp only [Act.run_bind, Act.run_get]
  cases l.unread with
  | nil => exact h.bounded _ none
  | cons b rest => exact (h.buffered (l.taken + 1) rest).bounded _ (some b)

theorem nextByte_bounded (h : l.Funded g g.retries) : Bounded g Option.isSome (nextByte l) := by
  rw [nextByte_eq]
  simp only [Act.run_bind, Act.run_get]
  cases l.unread.isEmpty with
  | false => exact consume_bounded h
  | true =>
    have hrefill : Bounded g id (refill l.options.retries l) := refill_bounded (h.options ▸ h)
    refine hrefill.bind (fun more l' hmore h' => ?_) fun more l' hmore hcount => ?_
    · obtain rfl : more = true := hmore
      exact consume_bounded h'
    · obtain rfl : more = false := hmore
      exact bounded_of_stop hcount rfl

theorem lineFrom_bounded (room : Nat) (soFar : Bytes) (h : l.Funded g g.retries) :
    Bounded g Option.isSome (lineFrom room soFar l) := by
  induction room generalizing soFar l with
  | zero => exact ⟨Nat.le_of_lt h.count_lt, fun _ => lineFault_ne_cut _⟩
  | succ room ih =>
    unfold lineFrom
    refine (nextByte_bounded h).bind (fun b? l' hb h' => ?_) fun b? l' hb hcount => ?_
    · obtain ⟨b, rfl⟩ := Option.isSome_iff_exists.1 hb
      simp only
      split
      · exact h'.bounded _ _
      · exact ih _ h'
    · cases b? with
      | some b => cases hb
      | none => exact bounded_of_stop hcount rfl

/-- After a line that came, **as many reads can be paid for** as before it; after none, reading is
over. -/
theorem readLine_bounded (h : l.Funded g g.retries) : Bounded g Option.isSome (readLine l) :=
  lineFrom_bounded _ [] h

/-! ### Bodies -/

/-- A body is the last that is read, so nothing is to be paid for after it. -/
theorem bodyFrom_bounded (want remaining retries : Nat) (got : Bytes) (h : l.Funded g retries) :
    Bounded g (fun _ => false) (bodyFrom want remaining retries got l) := by
  fun_induction bodyFrom want remaining retries got generalizing l with
  | case1 => exact bounded_of_stop (Nat.le_of_lt h.count_lt) rfl
  | case2 retries got missing ihMore ihAgain =>
    refine bounded_read_bind h (fun b bytes l' h' => ?_) fun l' hcount hagain => ?_
    · exact ihMore l b bytes (h.options ▸ h')
    · cases retries with
      | zero => exact stopped_of_failed hcount _
      | succ k => exact bounded_pause_bind _ (hagain k rfl) fun l₁ h₁ => ihAgain h₁

theorem readBytes_bounded (count : Nat) (h : l.Funded g g.retries) :
    Bounded g (fun _ => false) (readBytes count l) := by
  unfold readBytes
  simp only [Act.run_bind, Act.run_get]
  split
  · exact bounded_of_stop (Nat.le_of_lt h.count_lt) rfl
  · refine bodyFrom_bounded _ _ _ _ ?_
    rw [h.options]
    exact h.buffered 0 []

theorem readBody_bounded (count : Nat) (h : l.Funded g g.retries) :
    Bounded g (fun _ => false) (readBody count l) := by
  unfold readBody
  simp only [Act.run_bind, Act.run_get]
  cases l.readLeft.spend (count - l.unread.length) with
  | none => exact stopped_of_failed (Nat.le_of_lt h.count_lt) _
  | some left => exact readBytes_bounded count h

end Link

end HttpEngine
