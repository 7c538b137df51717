import HttpEngine.Proofs.Transport.Allowance

/-!
# The reads and pauses of one call

After an empty read a call of a reader pauses and reads again, until there were more empty reads in a
row than are tried again; then it gives up. A read that brings something makes the row begin anew. So
the reads of a call come in turns, each of a row of empty reads and one read that brings something,
and **every turn but the last brings at least one byte of what was asked for**.

* `Transfer.Silence`: so many empty reads in a row.
* `Link.Listening`: the reads and pauses of a call that goes on.
* `Link.Ended`: the reads and pauses of a call that is over, whether it gave up and how it failed.
* `Link.read_listening`: one read.
* `Link.readLine_concludes`, `Link.readBytes_concludes`: lines and bodies.
* `Link.onLink_retries`: any call, in any state of the reader.
-/

namespace HttpEngine

open Text

/-! ### Rows of empty reads -/

namespace Transfer

/-- The empty reads in a row that some transfers, newest first, **begin with**. -/
def idle : List Transfer → Nat
  | .read 0 :: older => idle older + 1
  | _ => 0

/-- The number of bytes that reads brought. -/
def brought : List Transfer → Nat
  | [] => 0
  | .read count :: older => brought older + count
  | _ :: older => brought older

/-- So many empty reads **in a row**. -/
def Silence (count : Nat) (log : List Transfer) : Prop := List.replicate count (.read 0) <:+: log

instance (count : Nat) (log : List Transfer) : Decidable (Silence count log) :=
  inferInstanceAs (Decidable (List.replicate count (.read 0) <:+: log))

variable {count : Nat} {log : List Transfer} {t : Transfer}

theorem idle_cons_of_ne (h : t ≠ .read 0) : idle (t :: log) = 0 := by
  unfold idle
  split
  · rename_i he
    exact absurd (List.cons.inj he).1 h
  · rfl

theorem replicate_prefix_iff : List.replicate count (.read 0) <+: log ↔ count ≤ idle log := by
  induction count generalizing log with
  | zero => simp
  | succ count ih =>
    rw [List.replicate_succ]
    cases log with
    | nil => simp [idle]
    | cons t log =>
      rw [List.cons_prefix_cons, ih]
      by_cases ht : t = .read 0
      · subst ht
        simp [idle]
      · simp [idle_cons_of_ne ht, Ne.symm ht]

/-- A row is at the newest end or **among the older ones**. -/
theorem silence_cons_iff :
    Silence count (t :: log) ↔ count ≤ idle (t :: log) ∨ Silence count log := by
  rw [Silence, List.infix_cons_iff, replicate_prefix_iff, Silence]

theorem Silence.mono {fewer : Nat} (h : Silence count log) (hle : fewer ≤ count) :
    Silence fewer log := by
  refine List.IsInfix.trans (List.IsPrefix.isInfix ⟨List.replicate (count - fewer) (.read 0), ?_⟩) h
  rw [List.replicate_append_replicate, Nat.add_sub_cancel' hle]

end Transfer

/-! ### One read and one pause -/

/-- A script whose reads **all complete**. -/
def Inbound.Prompt (i : Inbound) : Prop := ∃ s, i = .script s ∧ s.hangs = false

theorem Inbound.Prompt.readyAt {i : Inbound} (h : i.Prompt) (now : Nat) :
    i.readyAt now = some now := by
  obtain ⟨s, rfl, hs⟩ := h
  simp [Inbound.readyAt, hs]

theorem Inbound.Prompt.take {i : Inbound} (h : i.Prompt) (now room : Nat) :
    (i.take now room).2.Prompt := by
  obtain ⟨⟨pieces, hangs⟩, rfl, rfl : hangs = false⟩ := h
  cases pieces with
  | nil => exact ⟨_, rfl, rfl⟩
  | cons p rest =>
    cases p with
    | failure cause => exact ⟨_, rfl, rfl⟩
    | data bytes =>
      by_cases hlt : room < bytes.length
      · simp only [Inbound.take, Script.read, hlt, if_true]
        exact ⟨_, rfl, rfl⟩
      · simp only [Inbound.take, Script.read, hlt, if_false]
        exact ⟨_, rfl, rfl⟩

/-- The milliseconds that a reader lets pass after an empty read. -/
def ReaderOptions.nap (o : ReaderOptions) : Nat := min o.delay longestWait

namespace Wire

variable {w : Wire}

/-- A read of a script **takes no time**, and is noted, be it that it fails. -/
theorem read_prompt (hw : w.Calm) (hi : w.inbound.Prompt) (room : Nat) :
    ∃ inbound : Inbound, inbound.Prompt ∧
      ((∃ bytes, read room w = .ok bytes
          { w with inbound, journal := .transfer (.read bytes.length) :: w.journal }) ∨
        ∃ cause, read room w = .error (.failed cause)
          { w with inbound, journal := .transfer (.readFailed cause) :: w.journal }) := by
  refine ⟨(w.inbound.take w.clock room).2, hi.take _ _, ?_⟩
  unfold read
  simp only [Act.run_bind, Act.run_get, hi.readyAt, await_of_calm hw, Nat.max_self]
  cases w.inbound.take w.clock room with
  | mk answer inbound =>
    cases answer with
    | ok bytes => exact .inl ⟨bytes, rfl⟩
    | error cause => exact .inr ⟨cause, rfl⟩

theorem pause_prompt (hw : w.Calm) (o : ReaderOptions) :
    pause o.delay w = .ok () { w with clock := w.clock + o.nap } := by
  unfold pause
  simp only [Act.run_bind, Act.run_get, await_of_calm hw]
  rw [show max (w.clock + min o.delay longestWait) w.clock = w.clock + o.nap from
    Nat.max_eq_left (Nat.le_add_right _ _)]

end Wire

namespace Link

open Transfer

/-- The link of a call that has made some reads since `start`, newest first, **none of which
failed**. -/
structure Attending (start : Link) (log : List Transfer) (l : Link) : Prop where
  options : l.options = start.options
  calm : l.wire.Calm
  prompt : l.wire.inbound.Prompt
  noted : l.wire.journal = log.map .transfer ++ start.wire.journal
  answered : ∀ t ∈ log, ∃ count, t = .read count
  paid : start.readLeft.spend (brought log) = some l.readLeft

/-- A call **that goes on**: it had so many turns and has so many retries left, and has paused after
each empty read. -/
structure Listening (start : Link) (turns left : Nat) (log : List Transfer) (l : Link) : Prop extends
    Attending start log l where
  retries : left + idle log = start.options.retries
  patient : ¬ Silence (start.options.retries + 1) log
  turns_le : log.length ≤ turns * (start.options.retries + 1) + idle log
  slept : l.wire.clock = start.wire.clock + start.options.nap * log.count (.read 0)

/-- A call **that reads no more**, after at most so many turns: whether it gave up, and with what
failure of a read it ended, if with one. -/
structure Ended (start : Link) (turns : Nat) (gaveUp : Bool) (failure : Option IoError)
    (log : List Transfer) (l : Link) : Prop where
  noted : l.wire.journal = log.map .transfer ++ start.wire.journal
  reads : ∀ t ∈ log, t.isRead = true
  turns_le : log.length ≤ turns * (start.options.retries + 1)
  patient : ¬ Silence (start.options.retries + 2) log
  silence : Silence (start.options.retries + 1) log ↔ gaveUp = true
  slept : l.wire.clock
    = start.wire.clock + start.options.nap * (log.count (.read 0) - gaveUp.toNat)
  last : ∀ cause newer older, log = newer ++ .readFailed cause :: older →
    newer = [] ∧ failure = some cause
  refused : ∀ cause ∈ failure,
    cause = .overBudget .read ∨ log.head? = some (.readFailed cause)
  overdrawn : start.readLeft.Exceeded (brought log) →
    failure = some (.overBudget .read) ∧ ¬ start.readLeft.Exceeded (brought log.tail)

variable {start l l₁ : Link} {turns left room : Nat} {log : List Transfer}

theorem Attending.isRead (h : Attending start log l) : ∀ t ∈ log, t.isRead = true := by
  intro t ht
  obtain ⟨count, rfl⟩ := h.answered t ht
  rfl

theorem Attending.not_failed (h : Attending start log l) {cause : IoError}
    {newer older : List Transfer} : log ≠ newer ++ .readFailed cause :: older := by
  rintro rfl
  obtain ⟨count, hread⟩ := h.answered (.readFailed cause) (by simp)
  cases hread

theorem Attending.not_exceeded (h : Attending start log l) :
    ¬ start.readLeft.Exceeded (brought log) :=
  Budget.not_exceeded_of_spend h.paid

theorem Listening.idle_le (h : Listening start turns left log l) :
    idle log ≤ start.options.retries := by
  have := h.retries
  omega

/-- Between two turns a call can **end of its own accord**. -/
theorem Listening.ended (h : Listening start turns start.options.retries log l) :
    Ended start turns false none log l where
  noted := h.noted
  reads := h.isRead
  turns_le := by
    have hle := h.turns_le
    have hretries := h.retries
    omega
  patient hs := h.patient (hs.mono (Nat.le_succ _))
  silence := by simp [h.patient]
  slept := h.slept
  last cause newer older he := absurd he h.not_failed
  refused := nofun
  overdrawn hover := absurd hover h.not_exceeded

/-- A read that brings nothing **when all retries are used up** is the last. -/
theorem Listening.gaveUp (h : Listening start turns 0 log l)
    (h₁ : Attending start (.read 0 :: log) l₁) (hclock : l₁.wire.clock = l.wire.clock) :
    Ended start (turns + 1) true none (.read 0 :: log) l₁ where
  noted := h₁.noted
  reads := h₁.isRead
  turns_le := by
    have hle := h.turns_le
    have hretries := h.retries
    rw [List.length_cons, Nat.succ_mul]
    omega
  patient := by
    have hretries := h.retries
    rw [silence_cons_iff, idle]
    rintro (hle | hs)
    · omega
    · exact h.patient (hs.mono (Nat.le_succ _))
  silence := by
    have hretries := h.retries
    rw [silence_cons_iff, idle]
    exact ⟨fun _ => rfl, fun _ => .inl (by omega)⟩
  slept := by
    rw [hclock, h.slept]
    simp
  last cause newer older he := absurd he h₁.not_failed
  refused := nofun
  overdrawn hover := absurd hover h₁.not_exceeded

/-- An empty read that may be tried again costs **a retry and a pause**. -/
theorem Listening.again (h : Listening start turns (left + 1) log l)
    (h₁ : Attending start (.read 0 :: log) l₁) (hclock : l₁.wire.clock = l.wire.clock) :
    ∃ l₂, onWire (Wire.pause l₁.options.delay) l₁ = .ok () l₂ ∧
      Listening start turns left (.read 0 :: log) l₂ := by
  have hretries := h.retries
  have hturns := h.turns_le
  refine ⟨_, onWire_eq_ok.2 ⟨_, Wire.pause_prompt h₁.calm _, rfl⟩, ?_⟩
  refine ⟨⟨h₁.options, h₁.calm, h₁.prompt, h₁.noted, h₁.answered, h₁.paid⟩, ?_, ?_, ?_, ?_⟩
  · rw [idle]
    omega
  · rw [silence_cons_iff, idle]
    rintro (hle | hs)
    · omega
    · exact h.patient hs
  · rw [List.length_cons, idle]
    omega
  · simp only [hclock, h.slept, h₁.options, List.count_cons_self, Nat.mul_succ, Nat.add_assoc]

/-- A read that brings something **ends a turn and gives all retries back**. -/
theorem Listening.more (h : Listening start turns left log l) {count : Nat}
    (h₁ : Attending start (.read (count + 1) :: log) l₁)
    (hclock : l₁.wire.clock = l.wire.clock) :
    Listening start (turns + 1) start.options.retries (.read (count + 1) :: log) l₁ := by
  have hidle := h.idle_le
  have hturns := h.turns_le
  have hempty : idle (.read (count + 1) :: log) = 0 := idle_cons_of_ne (by simp)
  refine ⟨h₁, by rw [hempty]; rfl, ?_, ?_, ?_⟩
  · rw [silence_cons_iff, hempty]
    rintro (hle | hs)
    · omega
    · exact h.patient hs
  · rw [List.length_cons, Nat.succ_mul, hempty]
    omega
  · rw [hclock, h.slept, List.count_cons_of_ne (by simp)]

/-- A read that fails **is the last**. -/
theorem Listening.refused (h : Listening start turns left log l) {t : Transfer} {cause : IoError}
    (ht : t = .readFailed cause ∨ ∃ count, t = .read (count + 1) ∧ cause = .overBudget .read)
    (hnoted : l₁.wire.journal = .transfer t :: l.wire.journal)
    (hclock : l₁.wire.clock = l.wire.clock)
    (hover : start.readLeft.Exceeded (brought (t :: log)) → cause = .overBudget .read) :
    Ended start (turns + 1) false (some cause) (t :: log) l₁ := by
  have hidle := h.idle_le
  have hturns := h.turns_le
  have hne : t ≠ .read 0 := by
    rcases ht with rfl | ⟨count, rfl, -⟩ <;> simp
  have hempty : idle (t :: log) = 0 := idle_cons_of_ne hne
  exact {
    noted := by
      rw [hnoted, h.noted]
      rfl
    reads := by
      refine List.forall_mem_cons.2 ⟨?_, h.isRead⟩
      rcases ht with rfl | ⟨count, rfl, -⟩ <;> rfl
    turns_le := by
      rw [List.length_cons, Nat.succ_mul]
      omega
    patient := by
      rw [silence_cons_iff, hempty]
      rintro (hle | hs)
      · omega
      · exact h.patient (hs.mono (Nat.le_succ _))
    silence := by
      rw [silence_cons_iff, hempty]
      simp [h.patient]
    slept := by
      rw [hclock, h.slept, List.count_cons_of_ne hne]
      rfl
    last := by
      intro cause' newer older he
      cases newer with
      | nil =>
        obtain ⟨rfl, -⟩ := List.cons.inj he
        rcases ht with ht | ⟨count, ht, -⟩ <;> cases ht
        exact ⟨rfl, rfl⟩
      | cons t' newer => exact absurd (List.cons.inj he).2 h.not_failed
    refused := by
      rintro cause' ⟨⟩
      rcases ht with rfl | ⟨count, rfl, hcause⟩
      · exact .inr rfl
      · exact .inl hcause
    overdrawn := fun hexceeded => ⟨congrArg some (hover hexceeded), h.not_exceeded⟩ }

/-- **One read** of a call that goes on. -/
theorem read_listening (h : Listening start turns left log l) (room : Nat) :
    (∃ l₁, read room l = .ok [] l₁ ∧ Attending start (.read 0 :: log) l₁ ∧
      l₁.wire.clock = l.wire.clock) ∨
    (∃ b bytes l₁, read room l = .ok (b :: bytes) l₁ ∧
      Listening start (turns + 1) start.options.retries (.read (bytes.length + 1) :: log) l₁) ∨
    ∃ cause l₁ t, read room l = .error (.failed cause) l₁ ∧
      Ended start (turns + 1) false (some cause) (t :: log) l₁ := by
  obtain ⟨inbound, hprompt, ⟨bytes, hw⟩ | ⟨cause, hw⟩⟩ := Wire.read_prompt h.calm h.prompt room
  · have hread := read_of_ok hw
    have hnoted : ∀ t : Transfer, Event.transfer t :: l.wire.journal
        = (t :: log).map .transfer ++ start.wire.journal := by
      intro t
      rw [h.noted]
      rfl
    cases hs : l.readLeft.spend bytes.length with
    | some budget =>
      rw [hs] at hread
      have hattending : Attending start (.read bytes.length :: log)
          { l with
            wire := { l.wire with
              inbound
              journal := .transfer (.read bytes.length) :: l.wire.journal }
            readLeft := budget } :=
        ⟨h.options, h.calm, hprompt, hnoted _, List.forall_mem_cons.2 ⟨⟨_, rfl⟩, h.answered⟩,
          Budget.spend_add h.paid hs⟩
      cases bytes with
      | nil => exact .inl ⟨_, hread, hattending, rfl⟩
      | cons b bytes => exact .inr (.inl ⟨b, bytes, _, hread, h.more hattending rfl⟩)
    | none =>
      rw [hs] at hread
      -- an empty read is never too much
      have hcount : ∃ count, bytes.length = count + 1 := by
        cases bytes with
        | nil =>
          rw [List.length_nil, Budget.spend_zero] at hs
          cases hs
        | cons b bytes => exact ⟨bytes.length, rfl⟩
      obtain ⟨count, hcount⟩ := hcount
      refine .inr (.inr ⟨_, _, .read (count + 1), hread, h.refused (.inr ⟨count, rfl, rfl⟩) ?_ rfl
        fun _ => rfl⟩)
      rw [hcount]
  · refine .inr (.inr ⟨cause, _, .readFailed cause, read_of_error hw, h.refused (.inl rfl) rfl rfl ?_⟩)
    exact fun hover => absurd hover h.not_exceeded

theorem Listening.buffered (h : Listening start turns left log l) (taken : Nat) (unread : Bytes) :
    Listening start turns left log { l with taken, unread } :=
  ⟨⟨h.options, h.calm, h.prompt, h.noted, h.answered, h.paid⟩, h.retries, h.patient, h.turns_le,
    h.slept⟩

theorem Listening.mono {more : Nat} (h : Listening start turns left log l) (hle : turns ≤ more) :
    Listening start more left log l :=
  ⟨h.toAttending, h.retries, h.patient,
    Nat.le_trans h.turns_le (Nat.add_le_add_right (Nat.mul_le_mul_right _ hle) _), h.slept⟩

/-! ### Lines and bodies -/

variable {α : Type} {quit : Except (Halt IoError) α → Prop}

/-- What comes of an activity that a call ends with: it is **out when reading ends**, with the outcome
of giving up exactly if it gave up, and with the failure of a read if one failed. -/
def Concludes (start : Link) (turns : Nat) (quit : Except (Halt IoError) α → Prop)
    (result : EStateM.Result (Halt IoError) Link α) : Prop :=
  ∃ outcome gaveUp failure log l, result = Act.settle outcome l ∧
    Ended start turns gaveUp failure log l ∧ (gaveUp = true ↔ quit outcome ∧ failure = none) ∧
    (∀ cause ∈ failure, outcome = .error (.failed cause)) ∧ outcome ≠ .error .cut

theorem Listening.concludes (h : Listening start turns start.options.retries log l)
    (outcome : Except (Halt IoError) α) (hquit : ¬ quit outcome) (hcut : outcome ≠ .error .cut) :
    Concludes start turns quit (Act.settle outcome l) :=
  ⟨outcome, false, none, log, l, rfl, h.ended, by simp [hquit], nofun, hcut⟩

theorem concludes_of_gaveUp (h : Ended start turns true none log l)
    (outcome : Except (Halt IoError) α) (hquit : quit outcome) (hcut : outcome ≠ .error .cut) :
    Concludes start turns quit (Act.settle outcome l) :=
  ⟨outcome, true, none, log, l, rfl, h, by simp [hquit], nofun, hcut⟩

theorem concludes_of_refused {cause : IoError} (h : Ended start turns false (some cause) log l) :
    Concludes start turns quit (.error (.failed cause) l) :=
  ⟨.error (.failed cause), false, some cause, log, l, rfl, h, by simp,
    by rintro cause' ⟨⟩; rfl, by simp⟩

theorem refill_of_error (retries : Nat) {halt : Halt IoError}
    (hr : read l.options.room l = .error halt l₁) : refill retries l = .error halt l₁ := by
  unfold refill
  simp only [Act.run_bind, Act.run_get, hr]

/-- Filling the read buffer is **one turn**, which brings something unless it is the last. -/
theorem refill_listening (h : Listening start turns left log l) :
    (∃ l' log', refill left l = .ok true l' ∧
      Listening start (turns + 1) start.options.retries log' l' ∧ l'.unread ≠ []) ∨
    (∃ l' log', refill left l = .ok false l' ∧ Ended start (turns + 1) true none log' l') ∨
    ∃ cause l' log', refill left l = .error (.failed cause) l' ∧
      Ended start (turns + 1) false (some cause) log' l' := by
  -- on the retries left, of which an empty read takes one
  induction left generalizing log l with
  | zero =>
    rcases read_listening h l.options.room with
      ⟨l₁, hr, h₁, hclock⟩ | ⟨b, bytes, l₁, hr, h₁⟩ | ⟨cause, l₁, t, hr, h₁⟩
    · have hgaveUp := h.gaveUp h₁ hclock
      exact .inr (.inl ⟨_, _, refill_gives_up rfl hr, { hgaveUp with }⟩)
    · exact .inl ⟨_, _, refill_of_read rfl hr, h₁.buffered _ _, by simp⟩
    · exact .inr (.inr ⟨cause, l₁, _, refill_of_error _ hr, h₁⟩)
  | succ left ih =>
    rcases read_listening h l.options.room with
      ⟨l₁, hr, h₁, hclock⟩ | ⟨b, bytes, l₁, hr, h₁⟩ | ⟨cause, l₁, t, hr, h₁⟩
    · obtain ⟨l₂, hp, h₂⟩ := h.again h₁ hclock
      have he : refill (left + 1) l = refill left l₂ := by
        rw [refill]
        simp only [Act.run_bind, Act.run_get, hr, hp]
      rw [he]
      exact ih h₂
    · exact .inl ⟨_, _, refill_of_read rfl hr, h₁.buffered _ _, by simp⟩
    · exact .inr (.inr ⟨cause, l₁, _, refill_of_error _ hr, h₁⟩)

/-- Consuming a byte takes **one turn at most**. -/
theorem nextByte_listening (h : Listening start turns start.options.retries log l) :
    (∃ b l' log', nextByte l = .ok (some b) l' ∧
      Listening start (turns + 1) start.options.retries log' l') ∨
    (∃ l' log', nextByte l = .ok none l' ∧ Ended start (turns + 1) true none log' l') ∨
    ∃ cause l' log', nextByte l = .error (.failed cause) l' ∧
      Ended start (turns + 1) false (some cause) log' l' := by
  cases hu : l.unread with
  | cons b rest =>
    exact .inl ⟨b, _, log, nextByte_ahead hu, (h.buffered _ _).mono (Nat.le_succ _)⟩
  | nil =>
    have hrefill := refill_listening h
    rw [← h.options] at hrefill
    rcases hrefill with ⟨l₁, log₁, hr, h₁, hsome⟩ | ⟨l₁, log₁, hr, h₁⟩ | ⟨cause, l₁, log₁, hr, h₁⟩
    · obtain ⟨b, rest, hu₁⟩ := List.exists_cons_of_ne_nil hsome
      rw [h.options] at h₁
      exact .inl ⟨b, _, log₁, nextByte_refilled hu hr hu₁, h₁.buffered _ _⟩
    · refine .inr (.inl ⟨l₁, log₁, ?_, h₁⟩)
      unfold nextByte
      simp only [Act.run_bind, Act.run_get, hu, List.isEmpty_nil, if_true, hr]
      rfl
    · refine .inr (.inr ⟨cause, l₁, log₁, ?_, h₁⟩)
      unfold nextByte
      simp only [Act.run_bind, Act.run_get, hu, List.isEmpty_nil, if_true, hr]

theorem Ended.mono {more : Nat} {gaveUp : Bool} {failure : Option IoError}
    (h : Ended start turns gaveUp failure log l) (hle : turns ≤ more) :
    Ended start more gaveUp failure log l :=
  { h with turns_le := Nat.le_trans h.turns_le (Nat.mul_le_mul_right _ hle) }

theorem Concludes.mono {more : Nat} {result : EStateM.Result (Halt IoError) Link α}
    (h : Concludes start turns quit result) (hle : turns ≤ more) :
    Concludes start more quit result := by
  obtain ⟨outcome, gaveUp, failure, log, l, he, hended, hrest⟩ := h
  exact ⟨outcome, gaveUp, failure, log, l, he, hended.mono hle, hrest⟩

/-- The rest of a line takes at most **a turn for each byte** that may still come. -/
theorem lineFrom_concludes (room : Nat) (soFar : Bytes)
    (h : Listening start turns start.options.retries log l) :
    Concludes start (turns + room) (· = .ok none) (lineFrom room soFar l) := by
  induction room generalizing soFar turns log l with
  | zero =>
    exact h.concludes (.error (lineFault l.options.maxLine)) (by simp)
      (by simpa using lineFault_ne_cut l.options.maxLine)
  | succ room ih =>
    rcases nextByte_listening h with
      ⟨b, l₁, log₁, hn, h₁⟩ | ⟨l₁, log₁, hn, h₁⟩ | ⟨cause, l₁, log₁, hn, h₁⟩
    · by_cases hend : b = 10 ∧ ∃ line, soFar = 13 :: line
      · obtain ⟨rfl, line, rfl⟩ := hend
        have he : lineFrom (room + 1) (13 :: line) l = .ok (some line.reverse) l₁ := by
          rw [lineFrom, Act.run_bind, hn]
          rfl
        rw [he]
        exact (h₁.mono (by omega)).concludes (.ok (some line.reverse)) (by simp) (by simp)
      · rw [lineFrom_step hn hend, show turns + (room + 1) = turns + 1 + room by omega]
        exact ih (b :: soFar) h₁
    · have he : lineFrom (room + 1) soFar l = .ok none l₁ := by
        rw [lineFrom, Act.run_bind, hn]
        rfl
      rw [he]
      exact concludes_of_gaveUp (h₁.mono (by omega)) (.ok none) rfl (by simp)
    · have he : lineFrom (room + 1) soFar l = .error (.failed cause) l₁ := by
        rw [lineFrom, Act.run_bind, hn]
      rw [he]
      exact concludes_of_refused (h₁.mono (by omega))

/-- The rest of a body takes at most **a turn for each byte** that is missing. -/
theorem bodyFrom_concludes (want remaining retries : Nat) (got : Bytes)
    (h : Listening start turns retries log l) (hfresh : remaining = 0 → retries = start.options.retries) :
    Concludes start (turns + remaining)
      (fun outcome => ∃ got, outcome = .error (.failed (.bodyCutShort got want)))
      (bodyFrom want remaining retries got l) := by
  fun_induction bodyFrom want remaining retries got generalizing turns log l with
  | case1 retries got =>
    obtain rfl := hfresh rfl
    exact h.concludes (.ok got) (by simp) (by simp)
  | case2 retries got missing ihMore ihAgain =>
    rcases read_listening h (min (missing + 1) l.options.room) with
      ⟨l₁, hr, h₁, hclock⟩ | ⟨b, bytes, l₁, hr, h₁⟩ | ⟨cause, l₁, t, hr, h₁⟩
    · cases retries with
      | zero =>
        simp only [Act.run_bind, Act.run_get, hr]
        exact concludes_of_gaveUp ((h.gaveUp h₁ hclock).mono (by omega))
          (.error (.failed (.bodyCutShort got.length want))) ⟨_, rfl⟩ (by simp)
      | succ k =>
        obtain ⟨l₂, hp, h₂⟩ := h.again h₁ hclock
        rw [h₁.options, ← h.options] at hp
        simp only [Act.run_bind, Act.run_get, hr, hp]
        exact ihAgain h₂ fun hnone => absurd hnone (Nat.succ_ne_zero missing)
    · have hmore := ihMore l b bytes (h.options ▸ h₁) fun _ => congrArg _ h.options
      simp only [Act.run_bind, Act.run_get, hr]
      refine hmore.mono ?_
      omega
    · simp only [Act.run_bind, Act.run_get, hr]
      exact concludes_of_refused (h₁.mono (by omega))

theorem readLine_concludes (h : Listening start 0 start.options.retries [] start)
    (hm : start.options.maxLine + 1 ≤ maxWord64) :
    Concludes start (start.options.maxLine + 2) (· = .ok none) (readLine start) := by
  have hline : Concludes start (0 + start.options.window) (· = .ok none) (readLine start) :=
    lineFrom_concludes start.options.window [] h
  rwa [Nat.zero_add, ReaderOptions.window_eq hm] at hline

theorem readBytes_concludes (count : Nat) (h : Listening start 0 start.options.retries [] start) :
    Concludes start count
      (fun outcome => ∃ got, outcome = .error (.failed (.bodyCutShort got count)))
      (readBytes count start) := by
  unfold readBytes
  simp only [Act.run_bind, Act.run_get]
  by_cases hahead : count ≤ start.unread.length
  · simp only [hahead, if_true]
    have hall := (h.buffered (start.taken + count) (start.unread.drop count)).mono (Nat.zero_le count)
    exact hall.concludes (.ok (start.unread.take count)) (by simp) (by simp)
  · simp only [hahead, if_false]
    have hbody := bodyFrom_concludes count (count - (start.unread.take count).length)
      start.options.retries (start.unread.take count) (h.buffered 0 []) fun _ => rfl
    refine hbody.mono ?_
    omega

end Link

/-! ### Calls -/

/-- The most turns that a call takes: one for each byte of a line, **its end and one byte more
included**, or of what was asked for. -/
def Call.turns (maxLine : Nat) : Call → Nat
  | line => maxLine + 2
  | bytes count => count

/-- Whether a call came out **as one that gave up** does. -/
def Call.GaveUp : Call → Except (Halt IoError) Answer → Prop
  | line, outcome => outcome = .ok (.line none)
  | bytes count, outcome => ∃ got, outcome = .error (.failed (.bodyCutShort got count))

namespace Link

open Transfer

variable {l : Link}

theorem Concludes.map {α β : Type} {turns : Nat} {quit : Except (Halt IoError) α → Prop}
    {quit' : Except (Halt IoError) β → Prop} {act : Act α} (h : Concludes l turns quit (act l))
    (f : α → β) (hquit : ∀ outcome, quit' (outcome.map f) ↔ quit outcome) :
    Concludes l turns quit' ((do return f (← act) : Act β) l) := by
  obtain ⟨outcome, gaveUp, failure, log, l', he, hended, hgaveUp, hfailure, hcut⟩ := h
  refine ⟨outcome.map f, gaveUp, failure, log, l', Act.settle_map f he, hended, ?_, ?_, ?_⟩
  · rw [hquit, hgaveUp]
  · intro cause hcause
    rw [hfailure cause hcause]
    rfl
  · cases outcome with
    | ok a => nofun
    | error halt => exact fun he => hcut (congrArg _ (Except.error.inj he))

/-- A call **on a script whose reads complete**, in any state of the reader. -/
theorem onLink_concludes (call : Call) (hm : l.options.maxLine + 1 ≤ maxWord64)
    (hcalm : l.wire.Calm) (hprompt : l.wire.inbound.Prompt) :
    Concludes l (call.turns l.options.maxLine) call.GaveUp (call.onLink l) := by
  have hstart : Listening l 0 l.options.retries [] l :=
    ⟨⟨rfl, hcalm, hprompt, rfl, nofun, Budget.spend_zero _⟩, rfl, by simp [Silence],
      Nat.zero_le _, rfl⟩
  cases call with
  | line =>
    refine (readLine_concludes hstart hm).map _ fun outcome => ?_
    cases outcome with
    | error halt => simp [Except.map, Call.GaveUp]
    | ok line? => cases line? <;> simp [Except.map, Call.GaveUp]
  | bytes count =>
    refine (readBytes_concludes count hstart).map _ fun outcome => ?_
    cases outcome <;> simp [Except.map, Call.GaveUp]

/-- A link to a peer that hesitates once in the middle of a line, and then says no more. -/
def hesitant : Link :=
  reading { delayNanos := 10000000, retries := 1, maxLine := 4 } [ascii "ab", [], ascii "c", [], []]

end Link

end HttpEngine
