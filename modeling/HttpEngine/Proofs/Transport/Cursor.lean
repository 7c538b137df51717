import HttpEngine.Proofs.Transport.Drawing
import HttpEngine.Proofs.Transport.Retries
import HttpEngine.Transport.Reader

/-!
# A reader in memory fills its buffer as its link does

As long as the two indices of a reader are in order and inside of its buffer, **no range of the
buffer is outside of it** and no result is too large for a word. A reader then does what the link
does that it is, and its indices stay in order, whatever comes of it.

* `Reader.Sound`: the indices in order, inside of a buffer of the size that was asked for.
* `Reader.Follows`: a reader does what its link does.
* `Reader.fill_reads`: one read into a buffer that is used up.
* `Reader.refill_follows`: reads until one brings something.
-/

namespace HttpEngine

open Text

namespace Reader

variable {α β : Type} {o : Overflow} {r r' : Reader} {m n room start stop : Nat}

/-! ### Results that fit -/

theorem fits_eq {p : Prop} [Decidable p] (h : p ∨ o = .wrapped) : fits o p r = .ok () r := by
  unfold fits
  rw [if_pos h]
  rfl

theorem plus_eq (h : m + n ≤ maxWord64) : plus o m n r = .ok (m + n) r := by
  have hmod : (m + n) % (maxWord64 + 1) = m + n := Nat.mod_eq_of_lt (by omega)
  unfold plus
  rw [Act.bind_of_ok (fits_eq (.inl h)), hmod]
  rfl

theorem minus_eq (hle : n ≤ m) (h : m - n ≤ maxWord64) : minus o m n r = .ok (m - n) r := by
  have hmod : (m + (maxWord64 + 1) - n) % (maxWord64 + 1) = m - n := by
    rw [show m + (maxWord64 + 1) - n = m - n + (maxWord64 + 1) by omega, Nat.add_mod_right]
    exact Nat.mod_eq_of_lt (by omega)
  unfold minus
  rw [Act.bind_of_ok (fits_eq (.inl hle)), hmod]
  rfl

theorem stretch_eq (hle : start ≤ stop) (hstop : stop ≤ r.buffer.length) :
    ∃ h, stretch start stop r = .ok ⟨(r.buffer.take stop).drop start, h⟩ r := by
  have hlen : start + ((r.buffer.take stop).drop start).length = stop := by
    simp only [List.length_drop, List.length_take]
    omega
  refine ⟨hlen, ?_⟩
  unfold stretch
  rw [Act.bind_of_ok (Act.run_get r), dif_pos ⟨hle, hstop⟩]
  rfl

/-! ### Sound readers -/

/-- **The indices of a reader are in order and inside of its buffer**, which has the size that was
asked for. -/
structure Sound (r : Reader) : Prop where
  index_le : r.index ≤ r.count
  count_le : r.count ≤ r.buffer.length
  length_eq : r.buffer.length = r.link.options.room
  words : r.link.options.InWords

theorem Sound.length_le (h : r.Sound) : r.buffer.length ≤ maxWord64 := by
  have hsize := h.words.bufferSize_le
  rw [h.length_eq, ReaderOptions.room]
  unfold maxWord64 at hsize ⊢
  omega

theorem Sound.relinked {l : Link} (h : r.Sound) (ho : l.options = r.link.options) :
    Sound { r with link := l } :=
  ⟨h.index_le, h.count_le, ho ▸ h.length_eq, ho ▸ h.words⟩

theorem new_sound {l : Link} (h : l.options.InWords) : (new l).Sound where
  index_le := Nat.le_refl 0
  count_le := Nat.zero_le _
  length_eq := List.length_replicate
  words := h

/-- A reader does what its link does: it comes to the same, be it a failure, and **stays sound**. No
result was too large for a word, and no index out of range. -/
def Follows (x : Act α) (y : Link.Act α) (r : Reader) : Prop :=
  ∃ answer r', x r = Act.settle (answer.mapError .halted) r' ∧
    y r.seen = Act.settle answer r'.seen ∧ r'.Sound ∧ r'.link.options = r.link.options

section Follows

variable {x : Act α} {y : Link.Act α} {f : α → Act β} {g : α → Link.Act β}

theorem Follows.bind (h : Follows x y r)
    (hf : ∀ a r', y r.seen = .ok a r'.seen → r'.Sound → r'.link.options = r.link.options →
      Follows (f a) (g a) r') : Follows (x >>= f) (y >>= g) r := by
  obtain ⟨answer, r₁, hx, hy, hr, ho⟩ := h
  cases answer with
  | error halt => exact ⟨.error halt, r₁, Act.bind_of_error hx, Act.bind_of_error hy, hr, ho⟩
  | ok a =>
    obtain ⟨answer, r₂, hx₂, hy₂, hr₂, ho₂⟩ := hf a r₁ hy hr ho
    exact ⟨answer, r₂, (Act.bind_of_ok hx).trans hx₂, (Act.bind_of_ok hy).trans hy₂, hr₂,
      ho₂.trans ho⟩

/-- What is followed from a later reader on is followed **if both sides came there**. -/
theorem Follows.of_step {x' : Act α} {y' : Link.Act α} (h : Follows x' y' r')
    (hx : x r = x' r') (hy : y r.seen = y' r'.seen) (ho : r'.link.options = r.link.options) :
    Follows x y r := by
  obtain ⟨answer, r₁, hx', hy', hr, ho'⟩ := h
  exact ⟨answer, r₁, hx.trans hx', hy.trans hy', hr, ho'.trans ho⟩

theorem follows_pure (hr : r.Sound) (a : α) : Follows (pure a) (pure a) r :=
  ⟨.ok a, r, rfl, rfl, hr, rfl⟩

theorem follows_fail (hr : r.Sound) (cause : IoError) :
    Follows (fail cause : Act α) (throw (.failed cause)) r :=
  ⟨.error (.failed cause), r, rfl, rfl, hr, rfl⟩

theorem onWire_follows (hr : r.Sound) (act : Wire.Act α) :
    Follows (onLink (Link.onWire act)) (Link.onWire act) r := by
  unfold Follows onLink Link.onWire
  have hsame : r.seen.wire = r.link.wire := rfl
  rw [hsame]
  cases act r.link.wire with
  | ok a w => exact ⟨.ok a, _, rfl, rfl, hr.relinked rfl, rfl⟩
  | error halt w => exact ⟨.error halt, _, rfl, rfl, hr.relinked rfl, rfl⟩

theorem nap_follows (hr : r.Sound) :
    Follows nap (Link.onWire (Wire.pause r.link.options.delay)) r :=
  onWire_follows hr _

end Follows

/-! ### Filling the buffer -/

theorem unread_of_used (h : r.index = r.count) : r.unread = [] := by
  unfold unread
  rw [h]
  exact List.drop_eq_nil_of_le (List.length_take_le _ _)

theorem Sound.length_unread (hr : r.Sound) : r.unread.length = r.count - r.index := by
  rw [unread, List.length_drop, List.length_take_of_le hr.count_le]

theorem used_of_unread (hr : r.Sound) (h : r.unread = []) : r.index = r.count := by
  have hlen := hr.length_unread
  have hle := hr.index_le
  rw [h, List.length_nil] at hlen
  omega

theorem seen_of_used (h : r.index = r.count) :
    r.seen = { r.link with taken := r.index, unread := [] } := by
  rw [seen, unread_of_used h]

/-- What a link says of the bytes read ahead **makes no difference to a read**. -/
theorem read_ahead (room : Nat) (l : Link) (taken : Nat) (unread : Bytes) :
    Link.read room { l with taken, unread }
      = match Link.read room l with
        | .ok bytes l' => .ok bytes { l' with taken, unread }
        | .error halt l' => .error halt { l' with taken, unread } := by
  cases hw : Wire.read room l.wire with
  | error halt w =>
    have hw' : Wire.read room ({ l with taken, unread } : Link).wire = .error halt w := hw
    rw [Link.read_of_error hw, Link.read_of_error hw']
  | ok bytes w =>
    have hw' : Wire.read room ({ l with taken, unread } : Link).wire = .ok bytes w := hw
    rw [Link.read_of_ok hw, Link.read_of_ok hw']
    cases l.readLeft.spend bytes.length <;> rfl

theorem onWire_of_ok {act : Wire.Act α} {a : α} {w : Wire} (h : act r.link.wire = .ok a w) :
    onLink (Link.onWire act) r = .ok a { r with link := { r.link with wire := w } } := by
  unfold onLink Link.onWire
  rw [h]

theorem onWire_of_error {act : Wire.Act α} {halt : Halt IoError} {w : Wire}
    (h : act r.link.wire = .error halt w) :
    onLink (Link.onWire act) r
      = .error (.halted halt) { r with link := { r.link with wire := w } } := by
  unfold onLink Link.onWire
  rw [h]

theorem length_put {bytes : Bytes} (buffer : Bytes) (h : bytes.length ≤ buffer.length) :
    (bytes ++ buffer.drop bytes.length).length = buffer.length := by
  rw [List.length_append, List.length_drop]
  omega

theorem put_eq {bytes : Bytes} (h : bytes.length ≤ room) :
    put room bytes r = .ok () { r with buffer := bytes ++ r.buffer.drop bytes.length } := by
  unfold put
  rw [if_pos h]
  rfl

theorem charge_eq (amount : Nat) :
    charge amount r = match r.link.readLeft.spend amount with
      | some left => .ok () { r with link := { r.link with readLeft := left } }
      | none => .error (.halted (.failed (.overBudget .read))) r := by
  unfold charge
  rw [Act.bind_of_ok (Act.run_get r)]
  cases r.link.readLeft.spend amount <;> rfl

/-- What a read brings is put into the buffer **before it is charged**. -/
theorem fill_of_ok {bytes : Bytes} {w : Wire} (hroom : room ≤ r.buffer.length)
    (hle : bytes.length ≤ room) (hword : bytes.length ≤ maxWord64)
    (hw : Wire.read room r.link.wire = .ok bytes w) :
    fill o room r = match r.link.readLeft.spend bytes.length with
      | some left => .ok bytes.length
          { r with
            link := { r.link with wire := w, readLeft := left }
            buffer := bytes ++ r.buffer.drop bytes.length }
      | none => .error (.halted (.failed (.overBudget .read)))
          { r with
            link := { r.link with wire := w }
            buffer := bytes ++ r.buffer.drop bytes.length } := by
  obtain ⟨_, hstretch⟩ := stretch_eq (Nat.zero_le room) hroom
  have hbefore : ∀ r' : Reader, minus o (0 + bytes.length) 0 r' = .ok bytes.length r' := by
    intro r'
    rw [Nat.zero_add]
    exact minus_eq (Nat.zero_le _) hword
  unfold fill
  rw [Act.bind_of_ok hstretch, Act.bind_of_ok (onWire_of_ok hw), Act.bind_of_ok (put_eq hle),
    Act.bind_of_ok (hbefore _), Act.run_bind, charge_eq]
  cases r.link.readLeft.spend bytes.length <;> rfl

theorem fill_of_error {halt : Halt IoError} {w : Wire} (hroom : room ≤ r.buffer.length)
    (hw : Wire.read room r.link.wire = .error halt w) :
    fill o room r = .error (.halted halt) { r with link := { r.link with wire := w } } := by
  obtain ⟨_, hstretch⟩ := stretch_eq (Nat.zero_le room) hroom
  unfold fill
  rw [Act.bind_of_ok hstretch, Act.bind_of_error (onWire_of_error hw)]

/-- A read of the link that was made into the buffer of a reader. **What it brought is in front**,
and the indices are as they were. -/
structure Filled (o : Overflow) (room : Nat) (bytes : Bytes) (r r' : Reader) : Prop where
  reads : Link.read room r.seen = .ok bytes r'.seen
  fills : fill o room r = .ok bytes.length r'
  sound : r'.Sound
  options : r'.link.options = r.link.options
  length_le : bytes.length ≤ room
  front : ∃ rest, r'.buffer = bytes ++ rest
  index : r'.index = r.index
  count : r'.count = r.count

/-- **One read into a buffer that is used up** is a read of the link. -/
theorem fill_reads (hr : r.Sound) (hused : r.index = r.count) (hroom : room ≤ r.buffer.length) :
    (∃ bytes r', Filled o room bytes r r') ∨
    ∃ halt r', Link.read room r.seen = .error halt r'.seen ∧
      fill o room r = .error (.halted halt) r' ∧ r'.Sound ∧ r'.link.options = r.link.options := by
  have hlen := hr.length_le
  have hahead := read_ahead room r.link r.index []
  rw [← seen_of_used hused] at hahead
  rcases Wire.read_takes room r.link.wire with ⟨bytes, w, hw, -, -, hle⟩ | ⟨halt, w, hw, -⟩
  · have hput := length_put r.buffer (Nat.le_trans hle hroom)
    have hfill := fill_of_ok (o := o) hroom hle (by omega) hw
    have hread := Link.read_of_ok hw
    cases hs : r.link.readLeft.spend bytes.length with
    | some left =>
      rw [hs] at hread hfill
      rw [hread] at hahead
      refine .inl ⟨bytes, _, ?_, hfill, ?_, rfl, hle, ⟨_, rfl⟩, rfl, rfl⟩
      · rw [hahead, seen_of_used (by exact hused)]
      · exact ⟨hr.index_le, hput ▸ hr.count_le, hput.trans hr.length_eq, hr.words⟩
    | none =>
      rw [hs] at hread hfill
      rw [hread] at hahead
      refine .inr ⟨.failed (.overBudget .read), _, ?_, hfill, ?_, rfl⟩
      · rw [hahead, seen_of_used (by exact hused)]
      · exact ⟨hr.index_le, hput ▸ hr.count_le, hput.trans hr.length_eq, hr.words⟩
  · rw [Link.read_of_error hw] at hahead
    refine .inr ⟨halt, _, ?_, fill_of_error hroom hw, ?_, rfl⟩
    · rw [hahead, seen_of_used (by exact hused)]
    · exact hr.relinked rfl

/-- A buffer that is used up stays so **while time passes**. -/
theorem used_of_nap {ms : Nat} (hused : r.index = r.count) (hr' : r'.Sound)
    (h : Link.onWire (Wire.pause ms) r.seen = .ok () r'.seen) : r'.index = r'.count := by
  have hunread : r'.unread = r.unread := (Link.pause_drew h).2
  exact used_of_unread hr' (hunread.trans (unread_of_used hused))

section Refill

variable {k : Nat} {retries empties : UInt32}

theorem count_none (hretries : retries.toNat = k) : (0 : UInt32).toNat + k = retries.toNat := by
  rw [UInt32.toNat_zero, Nat.zero_add, hretries]

/-- As long as an empty read is tried again, **counting it is no overflow**. -/
theorem count_empty (hk : empties.toNat + (k + 1) = retries.toNat) :
    empties ≠ retries ∧ empties.toNat + 1 ≤ maxWord32 ∧
      (empties + 1).toNat + k = retries.toNat := by
  have hlt := retries.toNat_lt
  refine ⟨?_, ?_, ?_⟩
  · rintro rfl
    omega
  · unfold maxWord32
    omega
  · rw [UInt32.toNat_add, UInt32.toNat_one]
    omega

theorem refill_of_some {brought : Nat} (h : fill o r.buffer.length r = .ok brought r')
    (hpos : 0 < brought) :
    refill o retries empties r = .ok true { r' with index := 0, count := brought } := by
  rw [refill, Act.bind_of_ok (Act.run_get r), Act.bind_of_ok h, if_pos hpos]
  rfl

/-- As many reads were empty **as are tried again**, and this one. -/
theorem refill_of_last (h : fill o r.buffer.length r = .ok 0 r') :
    refill o retries retries r = .ok false { r' with index := 0, count := 0 } := by
  rw [refill, Act.bind_of_ok (Act.run_get r), Act.bind_of_ok h, if_neg (Nat.lt_irrefl 0),
    dif_pos rfl]
  rfl

theorem refill_of_none (h : fill o r.buffer.length r = .ok 0 r') (hmore : empties ≠ retries)
    (hfits : empties.toNat + 1 ≤ maxWord32) :
    refill o retries empties r = (nap >>= fun _ => refill o retries (empties + 1)) r' := by
  rw [refill, Act.bind_of_ok (Act.run_get r), Act.bind_of_ok h, if_neg (Nat.lt_irrefl 0),
    dif_neg hmore, Act.bind_of_ok (fits_eq (.inl hfits))]

theorem refill_of_fill_error {fault : Fault} (h : fill o r.buffer.length r = .error fault r') :
    refill o retries empties r = .error fault r' := by
  rw [refill, Act.bind_of_ok (Act.run_get r), Act.bind_of_error h]

/-- An empty read is tried again **after a pause**, if that is followed. -/
theorem refill_again_follows (hr : r.Sound) (hused : r.index = r.count)
    (h : Filled o r.buffer.length [] r r') (hmore : empties ≠ retries)
    (hfits : empties.toNat + 1 ≤ maxWord32)
    (again : ∀ r₁, r₁.Sound → r₁.index = r₁.count →
      Follows (refill o retries (empties + 1)) (Link.refill k) r₁) :
    Follows (refill o retries empties) (Link.refill (k + 1)) r := by
  have hused' : r'.index = r'.count := by rw [h.index, h.count, hused]
  have hread : Link.read r.seen.options.room r.seen = .ok [] r'.seen := hr.length_eq ▸ h.reads
  have htail : Follows (nap >>= fun _ => refill o retries (empties + 1))
      (Link.onWire (Wire.pause r'.link.options.delay) >>= fun _ => Link.refill k) r' :=
    (nap_follows h.sound).bind fun _ r₁ hpause hr₁ _ =>
      again r₁ hr₁ (used_of_nap hused' hr₁ hpause)
  refine htail.of_step (refill_of_none h.fills hmore hfits) ?_ h.options
  rw [Link.refill, Act.bind_of_ok (Act.run_get r.seen), Act.bind_of_ok hread]
  rfl

/-- What a read brought is **between the indices** after it. -/
theorem seen_of_front {bytes : Bytes} (h : Filled o room bytes r r') :
    seen { r' with index := 0, count := bytes.length }
      = { r'.seen with taken := 0, unread := bytes } := by
  obtain ⟨rest, hfront⟩ := h.front
  rw [seen, unread, hfront, List.drop_zero, List.take_left' rfl]
  rfl

/-- One read, **if what comes of an empty one is followed**. -/
theorem refill_turn (hr : r.Sound) (hused : r.index = r.count)
    (hnone : ∀ r', Filled o r.buffer.length [] r r' →
      Follows (refill o retries empties) (Link.refill k) r) :
    Follows (refill o retries empties) (Link.refill k) r := by
  rcases fill_reads (o := o) hr hused (Nat.le_refl r.buffer.length) with
    ⟨bytes, r', h⟩ | ⟨halt, r', hread, hfill, hr', ho⟩
  · cases bytes with
    | nil => exact hnone r' h
    | cons b bytes =>
      have hlen : r'.buffer.length = r.buffer.length := by
        rw [h.sound.length_eq, h.options, hr.length_eq]
      have hread := h.reads
      rw [hr.length_eq] at hread
      refine ⟨.ok true, _, refill_of_some h.fills (Nat.succ_pos _), ?_, ?_, h.options⟩
      · rw [Link.refill_of_read rfl hread, Act.settle, seen_of_front h]
      · exact ⟨Nat.zero_le _, hlen ▸ h.length_le, h.sound.length_eq, h.sound.words⟩
  · rw [hr.length_eq] at hread
    exact ⟨.error halt, r', refill_of_fill_error hfill, Link.refill_of_error k hread, hr', ho⟩

/-- Filling a buffer that is used up, **with as many empty reads tried again**. -/
theorem refill_follows (hr : r.Sound) (hused : r.index = r.count)
    (hk : empties.toNat + k = retries.toNat) :
    Follows (refill o retries empties) (Link.refill k) r := by
  -- on the empty reads that are still tried again: counting one of them is no overflow
  induction k generalizing empties r with
  | zero =>
    refine refill_turn hr hused fun r' h => ?_
    obtain rfl : empties = retries := UInt32.toNat_inj.1 hk
    have hread := h.reads
    rw [hr.length_eq] at hread
    refine ⟨.ok false, _, refill_of_last h.fills, ?_, ?_, h.options⟩
    · have hseen := seen_of_front h
      rw [List.length_nil] at hseen
      rw [Link.refill_gives_up rfl hread, Act.settle, hseen]
    · exact ⟨Nat.le_refl 0, Nat.zero_le _, h.sound.length_eq, h.sound.words⟩
  | succ k ih =>
    obtain ⟨hmore, hfits, hnext⟩ := count_empty hk
    refine refill_turn hr hused fun r' h => ?_
    exact refill_again_follows hr hused h hmore hfits fun r₁ hr₁ hused₁ => ih hr₁ hused₁ hnext

end Refill

end Reader

end HttpEngine
