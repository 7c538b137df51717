import HttpEngine.Proofs.Transport.Hearing
import HttpEngine.Transport.Copying

/-!
# Runs that are cut earlier

An activity that is allowed fewer steps does **the same up to where it is cut**. So every step of a
run can be looked at: it is where some shorter run ends.

* `Act.Goes`: an activity that succeeds takes a number of steps and leaves the others to what
  follows.
* `Link.Waits`: whenever an activity reads, it can be cut **just before**.
* `Link.writeAll_goes`, `Link.copyFrom_goes`, `Link.send_goes`: the writes of a connection.
* `Link.readLine_waits`, `Link.readBody_waits`: its reads.
-/

namespace HttpEngine

/-- The stream when so many more steps may be begun. -/
def Wire.within (k : Nat) (w : Wire) : Wire := { w with patience := some k }

/-- The link when so many more steps may be begun. -/
def Link.within (k : Nat) (l : Link) : Link := { l with wire := l.wire.within k }

/-! ### Steps that are taken -/

/-- An activity that succeeds **within some number of steps**; if more are allowed, they are left to
what follows. -/
def Act.Goes {ε σ α : Type} (within : Nat → σ → σ) (act : EStateM ε σ α) : Prop :=
  ∀ s a s', act s = .ok a s' → ∃ n, ∀ k, act (within (n + k) s) = .ok a (within k s')

namespace Act

variable {ε σ α β : Type} {within : Nat → σ → σ} {act : EStateM ε σ α} {f : α → EStateM ε σ β}

/-- What succeeds at once **needs no steps**. -/
theorem goes_of_same (h : ∀ s a s', act s = .ok a s' →
    ∀ k, act (within k s) = .ok a (within k s')) : Goes within act := by
  intro s a s' ha
  refine ⟨0, fun k => ?_⟩
  rw [Nat.zero_add]
  exact h s a s' ha k

theorem goes_pure (a : α) : Goes within (pure a : EStateM ε σ α) := by
  refine goes_of_same fun s b s' h k => ?_
  cases h
  rfl

theorem goes_throw (e : ε) : Goes within (throw e : EStateM ε σ α) := by
  intro s a s' h
  cases h

theorem goes_modify {g : σ → σ} (h : ∀ k s, g (within k s) = within k (g s)) :
    Goes within (modify g : EStateM ε σ PUnit) := by
  refine goes_of_same fun s a s' ha k => ?_
  cases ha
  rw [run_modify, h]

theorem Goes.bind (hact : Goes within act) (hf : ∀ a, Goes within (f a)) :
    Goes within (act >>= f) := by
  intro s b s'' h
  obtain ⟨a, s', ha, hb⟩ := bind_eq_ok.1 h
  obtain ⟨n, hn⟩ := hact s a s' ha
  obtain ⟨m, hm⟩ := hf a s' b s'' hb
  refine ⟨n + m, fun k => ?_⟩
  rw [Nat.add_assoc, run_bind, hn]
  exact hm k

/-- The state may be looked at, **but not for the steps** that are left. -/
theorem goes_get_bind {f : σ → EStateM ε σ β} (hsame : ∀ k s, f (within k s) = f s)
    (hf : ∀ s, Goes within (f s)) : Goes within (get >>= f) := by
  intro s b s' h
  obtain ⟨n, hn⟩ := hf s s b s' h
  refine ⟨n, fun k => ?_⟩
  show f (within (n + k) s) (within (n + k) s) = _
  rw [hsame]
  exact hn k

end Act

/-! ### The stream -/

namespace Wire

/-- A wait that succeeds **does so whatever steps are left**. -/
theorem waitFor_within {time : Option Nat} {w w' : Wire} (h : waitFor time w = .ok () w') (k : Nat) :
    waitFor time (w.within k) = .ok () (w'.within k) := by
  unfold waitFor at h ⊢
  cases time with
  | none => cases h
  | some t =>
    cases hd : w.deadline with
    | none =>
      simp only [hd] at h
      cases h
      simp only [within, hd]
    | some d =>
      simp only [hd] at h
      by_cases hpast : t ≤ w.clock
      · simp only [hpast, if_true] at h
        cases h
        simp only [within, hd, hpast, if_true]
      · by_cases hlate : d ≤ t
        · simp only [hpast, hlate, if_true, if_false] at h
          cases h
        · simp only [hpast, hlate, if_false] at h
          cases h
          simp only [within, hd, hpast, hlate, if_false]

/-- To wait is **one step**. -/
theorem await_goes (time : Option Nat) : Act.Goes within (await time) := by
  intro w u w' h
  refine ⟨1, fun k => ?_⟩
  have hgo : await time (w.within (1 + k)) = waitFor time (w.within k) := by
    rw [Nat.add_comm]
    rfl
  rw [hgo]
  unfold await at h
  split at h
  · cases h
  · exact waitFor_within h k
  · exact waitFor_within h k

theorem awaitRoom_goes : Act.Goes within awaitRoom :=
  Act.goes_get_bind (fun _ _ => rfl) fun _ => await_goes _

theorem step_goes : Act.Goes within step :=
  Act.goes_get_bind (fun _ _ => rfl) fun _ => await_goes _

theorem pause_goes (ms : Nat) : Act.Goes within (pause ms) :=
  Act.goes_get_bind (fun _ _ => rfl) fun _ => await_goes _

theorem flush_goes : Act.Goes within flush := by
  refine step_goes.bind fun _ => Act.goes_of_same fun w n w' h k => ?_
  simp only [Act.run_bind, Act.run_get, Act.run_set] at h ⊢
  have hsame : (w.within k).outbound.flush = w.outbound.flush := rfl
  rw [hsame]
  cases hf : w.outbound.flush with
  | mk answer outbound =>
    rw [hf] at h
    cases answer with
    | error cause => cases h
    | ok u =>
      cases h
      rfl

theorem write_goes (bytes : Bytes) : Act.Goes within (write bytes) := by
  refine awaitRoom_goes.bind fun _ => Act.goes_of_same fun w n w' h k => ?_
  simp only [Act.run_bind, Act.run_get, Act.run_set] at h ⊢
  have hsame : (w.within k).outbound.accept (w.within k).clock bytes
      = w.outbound.accept w.clock bytes := rfl
  rw [hsame]
  cases ha : w.outbound.accept w.clock bytes with
  | mk answer outbound =>
    rw [ha] at h
    cases answer with
    | error cause => cases h
    | ok m =>
      by_cases hm : 0 < m
      · simp only [hm, if_true] at h ⊢
        cases h
        rfl
      · simp only [hm, if_false] at h ⊢
        cases h
        rfl

theorem read_goes (room : Nat) : Act.Goes within (read room) := by
  refine Act.goes_get_bind (fun _ _ => rfl) fun w₀ => (await_goes _).bind fun _ => ?_
  refine Act.goes_of_same fun w bytes w' h k => ?_
  simp only [Act.run_bind, Act.run_get, Act.run_set] at h ⊢
  have hsame : (w.within k).inbound.take (w.within k).clock room
      = w.inbound.take w.clock room := rfl
  rw [hsame]
  cases ha : w.inbound.take w.clock room with
  | mk answer inbound =>
    rw [ha] at h
    cases answer with
    | error cause => cases h
    | ok got =>
      cases h
      rfl

end Wire

/-! ### Writing -/

namespace Link

theorem onWire_goes {α : Type} {act : Wire.Act α} (h : Act.Goes Wire.within act) :
    Act.Goes within (onWire act) := by
  intro l a l' ha
  obtain ⟨w, hw, rfl⟩ := onWire_eq_ok.1 ha
  obtain ⟨n, hn⟩ := h l.wire a w hw
  refine ⟨n, fun k => ?_⟩
  have hrun : act (l.within (n + k)).wire = .ok a (w.within k) := hn k
  unfold onWire
  rw [hrun]
  rfl

theorem writeOut_within (waits : Bool) (bytes : Bytes) (w : Wire)
    (h : (writeOut waits bytes w).halt = none) :
    ∃ n, ∀ k, writeOut waits bytes (w.within (n + k))
      = ⟨(writeOut waits bytes w).unsent, none, (writeOut waits bytes w).wire.within k⟩ := by
  fun_induction writeOut waits bytes w with
  | case1 w =>
    refine ⟨0, fun k => ?_⟩
    rw [Nat.zero_add, writeOut]
  | case2 w b rest hfull =>
    refine ⟨0, fun k => ?_⟩
    rw [Nat.zero_add, writeOut]
    have hstill : (!waits && (w.within k).isFull) = true := hfull
    simp only [hstill, if_true]
  | case3 => cases h
  | case4 => cases h
  | case5 w b rest hroom n w' hw ih =>
    obtain ⟨m, hm⟩ := ih h
    obtain ⟨i, hi⟩ := Wire.write_goes (b :: rest) w (n + 1) w' hw
    refine ⟨i + m, fun k => ?_⟩
    have hstill : ¬ (!waits && (w.within (i + m + k)).isFull) = true := hroom
    rw [writeOut]
    simp only [hstill]
    rw [Nat.add_assoc, hi]
    exact hm k

theorem spillOut_goes (waits : Bool) : Act.Goes within (spillOut waits) := by
  intro l gone l' h
  cases hh : (writeOut waits l.held l.wire).halt with
  | some halt =>
    simp only [spillOut, hh] at h
    cases h
  | none =>
    simp only [spillOut, hh] at h
    cases h
    obtain ⟨n, hn⟩ := writeOut_within waits l.held l.wire hh
    refine ⟨n, fun k => ?_⟩
    have hrun : writeOut waits (l.within (n + k)).held (l.within (n + k)).wire
        = ⟨(writeOut waits l.held l.wire).unsent, none,
            (writeOut waits l.held l.wire).wire.within k⟩ := hn k
    simp only [spillOut, hrun]
    rfl

theorem spill_goes : Act.Goes within spill :=
  (spillOut_goes true).bind fun _ => Act.goes_pure _

theorem place_goes (capacity : Nat) (bytes : Bytes) : Act.Goes within (place capacity bytes) := by
  unfold place
  split
  · exact onWire_goes (Wire.write_goes bytes)
  · exact (Act.goes_modify (by intros; rfl)).bind fun _ => Act.goes_pure _

theorem buffer_goes (bytes : Bytes) : Act.Goes within (buffer bytes) := by
  rw [buffer_eq]
  refine Act.goes_get_bind (fun _ _ => rfl) fun l => ?_
  split
  · exact spill_goes.bind fun _ => place_goes _ bytes
  · exact place_goes _ bytes

theorem write_goes (bytes : Bytes) : Act.Goes within (write bytes) := by
  refine Act.goes_get_bind (fun _ _ => rfl) fun l => ?_
  cases l.writeLeft.spend bytes.length with
  | none => exact Act.goes_throw _
  | some _ =>
    refine (buffer_goes bytes).bind fun n => Act.goes_get_bind (fun _ _ => rfl) fun l => ?_
    cases l.writeLeft.spend n with
    | none => exact Act.goes_throw _
    | some left =>
      exact (Act.goes_modify (by intros; rfl)).bind fun _ => Act.goes_pure _

theorem writeAll_goes (bytes : Bytes) : Act.Goes within (writeAll bytes) := by
  fun_induction writeAll bytes with
  | case1 => exact Act.goes_pure _
  | case2 b rest ih =>
    refine (write_goes (b :: rest)).bind fun n => ?_
    cases n with
    | zero => exact Act.goes_throw _
    | succ n => exact ih n

theorem makeWay_goes (begun : Bool) (count : Nat) : Act.Goes within (makeWay begun count) := by
  refine Act.goes_get_bind (fun _ _ => rfl) fun l => ?_
  split
  · exact spillOut_goes false
  · exact Act.goes_pure _

theorem offer_goes (begun : Bool) (bytes : Bytes) : Act.Goes within (offer begun bytes) := by
  refine Act.goes_get_bind (fun _ _ => rfl) fun l => ?_
  cases l.writeLeft.spend bytes.length with
  | none => exact Act.goes_throw _
  | some _ =>
    refine (makeWay_goes begun bytes.length).bind fun clear => ?_
    refine Act.goes_get_bind (fun _ _ => rfl) fun l => ?_
    split
    · exact (write_goes bytes).bind fun _ => Act.goes_pure _
    · exact Act.goes_pure _

theorem offerAll_goes (begun : Bool) (bytes : Bytes) : Act.Goes within (offerAll begun bytes) := by
  fun_induction offerAll begun bytes with
  | case1 => exact Act.goes_pure _
  | case2 begun b rest ih =>
    refine (offer_goes begun (b :: rest)).bind fun n? => ?_
    cases n? with
    | none => exact Act.goes_pure _
    | some n =>
      cases n with
      | zero => exact Act.goes_throw _
      | succ n => exact ih n

theorem pushBlock_goes (begun : Bool) (b : Block) : Act.Goes within (pushBlock begun b) := by
  refine (offerAll_goes begun b.unwritten).bind fun left => ?_
  cases left with
  | nil => exact Act.goes_pure _
  | cons c more =>
    simp only
    split
    · exact Act.goes_throw _
    · split
      · exact (onWire_goes Wire.awaitRoom_goes).bind fun _ => Act.goes_pure _
      · exact spill_goes.bind fun _ => (writeAll_goes _).bind fun _ => Act.goes_pure _

theorem copyFrom_goes (begun : Bool) (block : Block) : Act.Goes within (copyFrom begun block) := by
  fun_induction copyFrom begun block with
  | case1 => exact Act.goes_throw _
  | case2 begun block b _ ihMore ihNext =>
    refine (pushBlock_goes begun b).bind fun c? => ?_
    match c? with
    | some ⟨c, hc⟩ => exact ihMore c hc
    | none =>
      simp only
      split
      · exact Act.goes_pure _
      · split
        · exact onWire_goes (Wire.await_goes none)
        · rename_i hne
          exact ihNext hne

theorem send_goes : Act.Goes within send :=
  spill_goes.bind fun _ => onWire_goes Wire.flush_goes

end Link

/-! ### Reads -/

namespace Journal

variable {older j j' : Journal}

/-- What is added after a moment comes **before or after** another moment. -/
theorem behind_or_ahead {e : Event} (h : (e :: older) <:+ j') (k : j <:+ j') :
    (e :: older) <:+ j ∨ j <:+ older := by
  rcases List.suffix_or_suffix_of_suffix h k with h | h
  · exact .inl h
  · rcases List.suffix_cons_iff.1 h with h | h
    · exact .inl (h ▸ List.suffix_rfl)
    · exact .inr h

theorem Grows.suffix {kind : Event → Bool} (h : Grows kind j j') : j <:+ j' := by
  obtain ⟨added, rfl, -⟩ := h
  exact List.suffix_append _ _

theorem not_behind {e : Event} (h : j <:+ older) : ¬ (e :: older) <:+ j := by
  intro k
  have := k.length_le
  have := h.length_le
  rw [List.length_cons] at *
  omega

end Journal

/-- A read adds **one entry at most**. -/
theorem Wire.journal_read (room : Nat) (w : Wire) :
    (Act.leaves (read room) w).journal = w.journal ∨
      ∃ t, (Act.leaves (read room) w).journal = .transfer t :: w.journal := by
  have hwait := journal_await (w.inbound.readyAt w.clock) w
  unfold read
  cases hw : await (w.inbound.readyAt w.clock) w with
  | error halt w₁ =>
    rw [Act.leaves_of_error hw] at hwait
    simp only [Act.leaves, Act.run_bind, Act.run_get, hw]
    exact .inl hwait
  | ok u w₁ =>
    rw [Act.leaves_of_ok hw] at hwait
    rw [← hwait]
    cases ha : w₁.inbound.take w₁.clock room with
    | mk answer inbound =>
      simp only [Act.leaves, Act.run_bind, Act.run_get, hw, ha]
      cases answer <;> exact .inr ⟨_, rfl⟩

namespace Link

variable {ε α β : Type}

/-- A state of the same run **or a later one**. -/
def Later (l l' : Link) : Prop := l.wire.journal <:+ l'.wire.journal

/-- An activity that goes by steps and, whenever it reads, **can be cut just before**. -/
structure Waits (act : EStateM (Halt ε) Link α) : Prop where
  goes : Act.Goes within act
  grows : Act.Keeps Later act
  cut : ∀ {l t older}, Transfer.isRead t = true →
    (.transfer t :: older) <:+ (Act.leaves act l).wire.journal → l.wire.journal <:+ older →
    ∃ k l', act (l.within k) = .error .cut l' ∧ l'.wire.journal = older

/-- What adds nothing to the journal **reads nothing**. -/
theorem waits_of_same {act : EStateM (Halt ε) Link α} (hgoes : Act.Goes within act)
    (hsame : ∀ l, (Act.leaves act l).wire.journal = l.wire.journal) : Waits act where
  goes := hgoes
  grows l := ⟨[], (hsame l).symm⟩
  cut {l _ _} _ hread hl := by
    rw [hsame] at hread
    exact absurd hread (Journal.not_behind hl)

theorem waits_pure (a : α) : Waits (pure a : EStateM (Halt ε) Link α) :=
  waits_of_same (Act.goes_pure a) fun _ => rfl

theorem waits_throw (halt : Halt ε) : Waits (throw halt : EStateM (Halt ε) Link α) :=
  waits_of_same (Act.goes_throw halt) fun _ => rfl

theorem Waits.bind {act : EStateM (Halt ε) Link α} {f : α → EStateM (Halt ε) Link β}
    (hact : Waits act) (hf : ∀ a, Waits (f a)) : Waits (act >>= f) where
  goes := hact.goes.bind fun a => (hf a).goes
  grows := Act.keeps_bind (fun h k => List.IsSuffix.trans h k) hact.grows fun a => (hf a).grows
  cut {l t older} ht hread hl := by
    cases h : act l with
    | error halt l₁ =>
      have hleaves : Act.leaves (act >>= f) l = Act.leaves act l := by
        simp only [Act.leaves, Act.run_bind, h]
      rw [hleaves] at hread
      obtain ⟨k, l', hcut, hj⟩ := hact.cut ht hread hl
      exact ⟨k, l', by rw [Act.run_bind, hcut], hj⟩
    | ok a l₁ =>
      have hleaves : Act.leaves (act >>= f) l = Act.leaves (f a) l₁ := by
        simp only [Act.leaves, Act.run_bind, h]
      rw [hleaves] at hread
      rcases Journal.behind_or_ahead hread ((hf a).grows l₁) with hbehind | hahead
      · -- the read was in the first activity
        rw [← Act.leaves_of_ok h] at hbehind
        obtain ⟨k, l', hcut, hj⟩ := hact.cut ht hbehind hl
        exact ⟨k, l', by rw [Act.run_bind, hcut], hj⟩
      · -- the steps of the first activity come before those to the read
        obtain ⟨n, hn⟩ := hact.goes l a l₁ h
        obtain ⟨k, l', hcut, hj⟩ := (hf a).cut ht hread hahead
        exact ⟨n + k, l', by rw [Act.run_bind, hn]; exact hcut, hj⟩

theorem waits_get_bind {f : Link → EStateM (Halt ε) Link β}
    (hsame : ∀ k l, f (l.within k) = f l) (hf : ∀ l, Waits (f l)) : Waits (get >>= f) where
  goes := Act.goes_get_bind hsame fun l => (hf l).goes
  grows l := (hf l).grows l
  cut {l t older} ht hread hl := by
    obtain ⟨k, l', hcut, hj⟩ := (hf l).cut ht hread hl
    refine ⟨k, l', ?_, hj⟩
    show f (l.within k) (l.within k) = _
    rw [hsame]
    exact hcut

/-- Changing what the journal does not tell of. -/
theorem waits_modify {g : Link → Link} (hgo : ∀ k l, g (l.within k) = (g l).within k)
    (hsame : ∀ l, (g l).wire.journal = l.wire.journal) :
    Waits (modify g : EStateM (Halt ε) Link PUnit) :=
  waits_of_same (Act.goes_modify hgo) hsame

theorem read_goes (room : Nat) : Act.Goes within (read room) := by
  refine (onWire_goes (Wire.read_goes room)).bind fun bytes => ?_
  refine Act.goes_get_bind (fun _ _ => rfl) fun l => ?_
  cases l.readLeft.spend bytes.length with
  | none => exact Act.goes_throw _
  | some left =>
    exact (Act.goes_modify (by intros; rfl)).bind fun _ => Act.goes_pure _

theorem journal_read (room : Nat) (l : Link) :
    (Act.leaves (read room) l).wire.journal = (Act.leaves (Wire.read room) l.wire).journal := by
  cases h : Wire.read room l.wire with
  | error halt w => rw [Act.leaves_of_error h, Act.leaves_of_error (read_of_error h)]
  | ok bytes w =>
    rw [Act.leaves_of_ok h, Act.leaves, read_of_ok h]
    cases l.readLeft.spend bytes.length <;> rfl

/-- A read is cut **before its first step**. -/
theorem read_waits (room : Nat) : Waits (read room) where
  goes := read_goes room
  grows l := (read_heard room l).grows.suffix
  cut {l t older} ht hread hl := by
    have hnow : older = l.wire.journal := by
      rw [journal_read] at hread
      rcases Wire.journal_read room l.wire with h | ⟨t', h⟩
      · rw [h] at hread
        exact absurd hread (Journal.not_behind hl)
      · rw [h] at hread
        rcases List.suffix_cons_iff.1 hread with h | h
        · exact (List.cons.inj h).2
        · exact absurd h (Journal.not_behind hl)
    exact ⟨0, l.within 0, rfl, hnow.symm⟩

theorem pause_waits (ms : Nat) : Waits (onWire (Wire.pause ms)) := by
  refine waits_of_same (onWire_goes (Wire.pause_goes ms)) fun l => ?_
  have hjournal : (Act.leaves (Wire.pause ms) l.wire).journal = l.wire.journal :=
    Wire.journal_await _ l.wire
  unfold Act.leaves at hjournal ⊢
  unfold onWire
  cases h : Wire.pause ms l.wire <;>
  · rw [h] at hjournal
    exact hjournal

theorem refill_waits (retries : Nat) : Waits (refill retries) := by
  induction retries with
  | zero =>
    unfold refill
    refine waits_get_bind (fun _ _ => rfl) fun l => (read_waits _).bind fun bytes => ?_
    cases bytes with
    | cons b bytes =>
      exact (waits_modify (by intros; rfl) (by intros; rfl)).bind fun _ => waits_pure _
    | nil =>
      exact (waits_modify (by intros; rfl) (by intros; rfl)).bind fun _ => waits_pure _
  | succ n ih =>
    unfold refill
    refine waits_get_bind (fun _ _ => rfl) fun l => (read_waits _).bind fun bytes => ?_
    cases bytes with
    | cons b bytes =>
      exact (waits_modify (by intros; rfl) (by intros; rfl)).bind fun _ => waits_pure _
    | nil => exact waits_get_bind (fun _ _ => rfl) fun l => (pause_waits _).bind fun _ => ih

theorem nextByte_waits : Waits nextByte := by
  have hconsume : Waits consume := by
    refine waits_get_bind (fun _ _ => rfl) fun l => ?_
    cases l.unread with
    | nil => exact waits_pure _
    | cons b rest =>
      exact (waits_modify (by intros; rfl) (by intros; rfl)).bind fun _ => waits_pure _
  rw [nextByte_eq]
  refine waits_get_bind (fun _ _ => rfl) fun l => ?_
  cases l.unread.isEmpty with
  | false => exact hconsume
  | true =>
    refine waits_get_bind (fun _ _ => rfl) fun l => (refill_waits _).bind fun more => ?_
    cases more with
    | false => exact waits_pure _
    | true => exact hconsume

theorem lineFrom_waits (room : Nat) (soFar : Bytes) : Waits (lineFrom room soFar) := by
  induction room generalizing soFar with
  | zero => exact waits_get_bind (fun _ _ => rfl) fun l => waits_throw _
  | succ room ih =>
    refine nextByte_waits.bind fun b? => ?_
    cases b? with
    | none => exact waits_pure _
    | some b =>
      simp only
      split
      · exact waits_pure _
      · exact ih _

theorem readLine_waits : Waits readLine :=
  waits_get_bind (fun _ _ => rfl) fun _ => lineFrom_waits _ []

theorem bodyFrom_waits (want remaining retries : Nat) (got : Bytes) :
    Waits (bodyFrom want remaining retries got) := by
  fun_induction bodyFrom want remaining retries got with
  | case1 => exact waits_pure _
  | case2 retries got missing ihMore ihRetry =>
    refine waits_get_bind (fun _ _ => rfl) fun l => (read_waits _).bind fun bytes => ?_
    cases bytes with
    | cons b bytes => exact ihMore l b bytes
    | nil =>
      cases retries with
      | zero => exact waits_throw _
      | succ n => exact (pause_waits _).bind fun _ => ihRetry

theorem readBytes_waits (count : Nat) : Waits (readBytes count) := by
  -- the link is put back with other bytes read ahead, whatever steps are left
  have hput : readBytes count = (get >>= fun l =>
      if count ≤ l.unread.length then do
        modify fun l => { l with taken := l.taken + count, unread := l.unread.drop count }
        return l.unread.take count
      else do
        modify fun l => { l with taken := 0, unread := [] }
        bodyFrom count (count - (l.unread.take count).length) l.options.retries
          (l.unread.take count) : Act Bytes) := by
    funext l
    unfold readBytes
    simp only [Act.run_bind, Act.run_get]
    split <;> rfl
  rw [hput]
  refine waits_get_bind (fun _ _ => rfl) fun l => ?_
  split
  · exact (waits_modify (by intros; rfl) (by intros; rfl)).bind fun _ => waits_pure _
  · exact (waits_modify (by intros; rfl) (by intros; rfl)).bind fun _ => bodyFrom_waits _ _ _ _

theorem readBody_waits (count : Nat) : Waits (readBody count) := by
  refine waits_get_bind (fun _ _ => rfl) fun l => ?_
  cases l.readLeft.spend (count - l.unread.length) with
  | none => exact waits_throw _
  | some left => exact readBytes_waits count

end Link

end HttpEngine
