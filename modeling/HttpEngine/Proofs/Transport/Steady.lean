import HttpEngine.Transport.Supply

/-!
# Bytes that arrive in pieces

A stream that delivers chunks without failing, and after the last chunk ends or stays open.

* `Steady`: more empty reads in a row than are tried again come **only after the last byte**.
* `Link.Holds`: the bytes a link has not consumed, read ahead or still to come.
* `Link.read_chunk`, `Link.read_end`: what one read meets.
-/

namespace HttpEngine

/-- A script that delivers chunks and fails no read; after the last one it **ends or stays
open**. -/
def Script.ofChunks (chunks : List Bytes) (ends : Bool := true) : Script :=
  { pieces := chunks.map .data, hangs := !ends }

/-- More than `retries` empty reads in a row come **only after the last byte**, and on a stream
that stays open not at all. -/
def Steady (retries : Nat) (ends : Bool) (chunks : List Bytes) : Prop :=
  ∀ before after, chunks = before ++ List.replicate (retries + 1) [] ++ after →
    ends = true ∧ after.flatten = []

/-- At most `retries` empty reads come next, unless no byte comes any more. -/
def Lull (retries : Nat) (ends : Bool) (chunks : List Bytes) : Prop :=
  ∀ after, chunks = List.replicate (retries + 1) [] ++ after → ends = true ∧ after.flatten = []

section Chunks

variable {retries : Nat} {ends : Bool} {c d : Bytes} {chunks : List Bytes}

theorem Steady.lull (h : Steady retries ends chunks) : Lull retries ends chunks :=
  fun after he => h [] after (by simpa using he)

theorem Steady.tail (h : Steady retries ends (c :: chunks)) : Steady retries ends chunks := by
  rintro before after rfl
  exact h (c :: before) after rfl

theorem Steady.cut (h : Steady retries ends (c :: chunks)) (hd : d ≠ []) :
    Steady retries ends (d :: chunks) := by
  intro before after he
  cases before with
  -- `d` is not empty, so no run of empty reads begins with it
  | nil => exact absurd (List.cons.inj he).1 hd
  | cons b before =>
    have hr := (List.cons.inj he).2
    exact h (c :: before) after (by rw [hr]; rfl)

theorem steady_of_ne_nil (h : ∀ c ∈ chunks, c ≠ []) : Steady retries ends chunks := by
  rintro before after rfl
  exact absurd rfl (h [] (by simp))

/-- Empty reads at the end of a stream may be any number. -/
theorem steady_of_flatten_eq_nil (h : chunks.flatten = []) : Steady retries true chunks := by
  rintro before after rfl
  simp only [List.flatten_append, List.append_eq_nil_iff] at h
  exact ⟨rfl, h.2⟩

theorem lull_iff :
    Lull retries ends chunks ↔
      (List.replicate (retries + 1) [] <+: chunks → ends = true ∧ chunks.flatten = []) := by
  constructor
  · rintro h ⟨after, rfl⟩
    obtain ⟨he, ha⟩ := h after rfl
    exact ⟨he, by simp [ha]⟩
  · rintro h after rfl
    obtain ⟨he, ha⟩ := h ⟨after, rfl⟩
    exact ⟨he, by simpa using ha⟩

theorem steady_cons_iff :
    Steady retries ends (c :: chunks) ↔
      Lull retries ends (c :: chunks) ∧ Steady retries ends chunks := by
  refine ⟨fun h => ⟨h.lull, h.tail⟩, ?_⟩
  rintro ⟨hl, ht⟩ before after he
  -- a run of empty reads begins the chunks or lies in the later ones
  cases before with
  | nil => exact hl after (by simpa using he)
  | cons b before => exact ht before after (List.cons.inj he).2

instance (retries : Nat) (ends : Bool) (chunks : List Bytes) :
    Decidable (Lull retries ends chunks) :=
  decidable_of_iff _ lull_iff.symm

instance decidableSteady (retries : Nat) (ends : Bool) :
    (chunks : List Bytes) → Decidable (Steady retries ends chunks)
  | [] => isTrue (steady_of_ne_nil (by simp))
  | _ :: chunks =>
    have := decidableSteady retries ends chunks
    decidable_of_iff _ steady_cons_iff.symm

theorem Lull.next (h : Lull (retries + 1) ends ([] :: chunks)) : Lull retries ends chunks := by
  rintro after rfl
  exact h after rfl

theorem Lull.last (h : Lull 0 ends ([] :: chunks)) : ends = true ∧ chunks.flatten = [] :=
  h chunks rfl

end Chunks

/-- What is left of chunks when a read with `room` has met the first. -/
def leftOf (room : Nat) (c : Bytes) (chunks : List Bytes) : List Bytes :=
  if room < c.length then c.drop room :: chunks else chunks

theorem take_append_leftOf (room : Nat) (c : Bytes) (chunks : List Bytes) :
    c.take room ++ (leftOf room c chunks).flatten = c ++ chunks.flatten := by
  unfold leftOf
  split
  · rw [List.flatten_cons, ← List.append_assoc, List.take_append_drop]
  · rename_i h
    rw [List.take_of_length_le (by omega)]

theorem Steady.leftOf {retries room : Nat} {ends : Bool} {c : Bytes} {chunks : List Bytes}
    (h : Steady retries ends (c :: chunks)) : Steady retries ends (leftOf room c chunks) := by
  unfold HttpEngine.leftOf
  split
  · rename_i hlt
    refine h.cut fun he => ?_
    rw [List.drop_eq_nil_iff] at he
    omega
  · exact h.tail

namespace Wire

/-- A stream on which **nothing cuts a wait**. -/
def Calm (w : Wire) : Prop := w.deadline = none ∧ w.patience = none

theorem await_of_calm {w : Wire} (h : w.Calm) (time : Nat) :
    await (some time) w = .ok () { w with clock := max time w.clock } := by
  obtain ⟨hd, hp⟩ := h
  simp only [await, hp, waitFor, hd]

theorem await_never {w : Wire} (h : w.Calm) : await none w = .error .cut w := by
  cases w
  obtain ⟨hd, hp⟩ := h
  cases hd
  cases hp
  simp only [await, waitFor, Option.getD_none, Nat.zero_max]

variable {w : Wire} {room : Nat} {ends : Bool} {c : Bytes} {chunks : List Bytes}

/-- A read takes as much of the first chunk **as there is room for**. -/
theorem read_chunk (hw : w.Calm) (hi : w.inbound = .script (.ofChunks (c :: chunks) ends)) :
    read room w = .ok (c.take room)
      { w with
        inbound := .script (.ofChunks (leftOf room c chunks) ends)
        journal := .transfer (.read (c.take room).length) :: w.journal } := by
  have hready : w.inbound.readyAt w.clock = some w.clock := by
    rw [hi]
    rfl
  have htake : w.inbound.take w.clock room
      = (.ok (c.take room), .script (.ofChunks (leftOf room c chunks) ends)) := by
    rw [hi]
    by_cases hc : room < c.length
    · simp [Inbound.take, Script.read, Script.ofChunks, leftOf, hc]
    · simp [Inbound.take, Script.read, Script.ofChunks, leftOf, hc,
        List.take_of_length_le (Nat.le_of_not_lt hc)]
  simp only [read, Act.run_bind, Act.run_get, hready, await_of_calm hw, Nat.max_self]
  simp only [htake]
  rfl

theorem read_end (hw : w.Calm) (hi : w.inbound = .script (.ofChunks [] true)) :
    read room w = .ok [] { w with journal := .transfer (.read 0) :: w.journal } := by
  have hready : w.inbound.readyAt w.clock = some w.clock := by
    rw [hi]
    rfl
  have htake : w.inbound.take w.clock room = (.ok [], w.inbound) := by
    rw [hi]
    rfl
  simp only [read, Act.run_bind, Act.run_get, hready, await_of_calm hw, Nat.max_self]
  simp only [htake]
  rfl

theorem read_open (hw : w.Calm) (hi : w.inbound = .script (.ofChunks [] false)) :
    read room w = .error .cut w := by
  have hready : w.inbound.readyAt w.clock = none := by
    rw [hi]
    rfl
  simp only [read, Act.run_bind, Act.run_get, hready, await_never hw]

end Wire

/-- An entry that is no write leaves what was sent alone. -/
theorem Journal.sent_cons {e : Event} (he : sent [e] = []) (j : Journal) :
    sent (e :: j) = sent j := by
  have hsplit : sent (e :: j) = sent j ++ sent [e] := by
    cases e with
    | transfer t => cases t <;> simp [sent]
    | _ => simp [sent]
  rw [hsplit, he, List.append_nil]

namespace Link

/-- What a link has sent and is still to send. -/
structure Sending where
  /-- The bytes on the stream. -/
  sent : Bytes
  held : Bytes
  capacity : Nat
  writeLeft : Budget
  outbound : Outbound

/-- The writing side of a link. -/
def sending (l : Link) : Sending :=
  ⟨l.wire.journal.sent, l.held, l.capacity, l.writeLeft, l.wire.outbound⟩

/-- A link that may read without a limit, with these bytes **read ahead** and these chunks
**still to come**, and its writing side. -/
structure Fed (o : ReaderOptions) (ends : Bool) (s : Sending) (ahead : Bytes)
    (chunks : List Bytes) (l : Link) : Prop where
  options : l.options = o
  unlimited : l.readLeft = none
  calm : l.wire.Calm
  inbound : l.wire.inbound = .script (.ofChunks chunks ends)
  unread : l.unread = ahead
  sending : l.sending = s

/-- A link whose bytes not yet consumed are `left`, however they are cut. -/
def Holds (o : ReaderOptions) (ends : Bool) (s : Sending) (left : Bytes) (l : Link) : Prop :=
  ∃ ahead chunks, l.Fed o ends s ahead chunks ∧ Steady o.retries ends chunks ∧
    ahead ++ chunks.flatten = left

/-- A fresh link to a stream that delivers these chunks. -/
def reading (o : ReaderOptions) (chunks : List Bytes) (ends : Bool := true) : Link :=
  { wire := { inbound := .script (.ofChunks chunks ends) }, options := o }

variable {o : ReaderOptions} {ends : Bool} {s : Sending} {ahead c : Bytes} {chunks : List Bytes}
  {l : Link}

/-- A fresh link holds **all the bytes its stream delivers**. -/
theorem reading_holds (hs : Steady o.retries ends chunks) :
    (reading o chunks ends).Holds o ends (reading o chunks ends).sending chunks.flatten :=
  ⟨[], chunks, ⟨rfl, rfl, ⟨rfl, rfl⟩, rfl, rfl, rfl⟩, hs, rfl⟩

theorem Holds.noted {left : Bytes} {e : Event} (h : l.Holds o ends s left)
    (he : Journal.sent [e] = []) :
    Holds o ends s left { l with wire := { l.wire with journal := e :: l.wire.journal } } := by
  obtain ⟨ahead, chunks, hf, hs, hleft⟩ := h
  refine ⟨ahead, chunks, ⟨hf.options, hf.unlimited, hf.calm, hf.inbound, hf.unread, ?_⟩, hs, hleft⟩
  rw [← hf.sending]
  simp only [sending, Journal.sent_cons he]

theorem room_pos (o : ReaderOptions) : 0 < o.room := by
  unfold ReaderOptions.room
  omega

theorem read_of_wire {room : Nat} {bytes : Bytes} {w : Wire} (hl : l.readLeft = none)
    (h : Wire.read room l.wire = .ok bytes w) : read room l = .ok bytes { l with wire := w } := by
  cases l
  cases hl
  simp only [read, Act.run_bind, onWire, h, Act.run_get, Budget.spend]
  rfl

theorem read_chunk (room : Nat) (h : l.Fed o ends s ahead (c :: chunks)) :
    ∃ l', read room l = .ok (c.take room) l' ∧ l'.Fed o ends s ahead (leftOf room c chunks) :=
  ⟨_, read_of_wire h.unlimited (Wire.read_chunk h.calm h.inbound),
    h.options, h.unlimited, h.calm, rfl, h.unread, h.sending⟩

/-- A read of a chunk that brings something takes **its first byte at least**. -/
theorem read_more {room : Nat} {b : UInt8} (hroom : 0 < room)
    (h : l.Fed o ends s ahead ((b :: c) :: chunks))
    (hs : Steady o.retries ends ((b :: c) :: chunks)) :
    ∃ l' bytes rest, read room l = .ok (b :: bytes) l' ∧ l'.Fed o ends s ahead rest ∧
      Steady o.retries ends rest ∧ b :: bytes ++ rest.flatten = b :: c ++ chunks.flatten ∧
      (b :: bytes).length ≤ room := by
  obtain ⟨l', hr, hf⟩ := read_chunk room h
  obtain ⟨n, rfl⟩ : ∃ n, room = n + 1 := ⟨room - 1, by omega⟩
  have hsplit := take_append_leftOf (n + 1) (b :: c) chunks
  have hlen : ((b :: c).take (n + 1)).length ≤ n + 1 := List.length_take_le ..
  rw [List.take_succ_cons] at hr hsplit hlen
  exact ⟨l', c.take n, leftOf (n + 1) (b :: c) chunks, hr, hf, hs.leftOf, hsplit, hlen⟩

theorem read_empty (room : Nat) (h : l.Fed o ends s ahead ([] :: chunks)) :
    ∃ l', read room l = .ok [] l' ∧ l'.Fed o ends s ahead chunks := by
  obtain ⟨l', hr, hf⟩ := read_chunk room h
  exact ⟨l', by simpa using hr, hf⟩

theorem read_end (room : Nat) (h : l.Fed o true s ahead []) :
    ∃ l', read room l = .ok [] l' ∧ l'.Fed o true s ahead [] :=
  ⟨_, read_of_wire h.unlimited (Wire.read_end h.calm h.inbound),
    h.options, h.unlimited, h.calm, h.inbound, h.unread, h.sending⟩

theorem read_open (room : Nat) (h : l.Fed o false s ahead []) : read room l = .error .cut l := by
  simp only [read, Act.run_bind, onWire, Wire.read_open h.calm h.inbound]

theorem pause_fed (ms : Nat) (h : l.Fed o ends s ahead chunks) :
    ∃ l', onWire (Wire.pause ms) l = .ok () l' ∧ l'.Fed o ends s ahead chunks :=
  ⟨_, onWire_eq_ok.2 ⟨_, Wire.await_of_calm h.calm _, rfl⟩, h.options, h.unlimited, h.calm,
    h.inbound, h.unread, h.sending⟩

theorem Fed.buffered (h : l.Fed o ends s ahead chunks) (taken : Nat) (bytes : Bytes) :
    Fed o ends s bytes chunks { l with taken, unread := bytes } :=
  ⟨h.options, h.unlimited, h.calm, h.inbound, rfl, h.sending⟩

/-! ### Filling the read buffer -/

variable {retries : Nat} {l₁ : Link}

theorem refill_of_read {b : UInt8} {bytes : Bytes} (ho : l.options = o)
    (hr : read o.room l = .ok (b :: bytes) l₁) :
    refill retries l = .ok true { l₁ with taken := 0, unread := b :: bytes } := by
  unfold refill
  simp only [Act.run_bind, Act.run_get, ho, hr]
  rfl

/-- An empty read is tried again **after a pause**. -/
theorem refill_again (retries : Nat) (ho : l.options = o) (hr : read o.room l = .ok [] l₁)
    (h : l₁.Fed o ends s ahead chunks) :
    ∃ l', refill (retries + 1) l = refill retries l' ∧ l'.Fed o ends s ahead chunks := by
  obtain ⟨l', hp, hf⟩ := pause_fed o.delay h
  refine ⟨l', ?_, hf⟩
  rw [refill]
  simp only [Act.run_bind, Act.run_get, ho, hr, h.options, hp]

theorem refill_gives_up (ho : l.options = o) (hr : read o.room l = .ok [] l₁) :
    refill 0 l = .ok false { l₁ with taken := 0, unread := [] } := by
  unfold refill
  simp only [Act.run_bind, Act.run_get, ho, hr]
  rfl

theorem refill_cut (ho : l.options = o) (hr : read o.room l = .error .cut l₁) :
    refill retries l = .error .cut l₁ := by
  unfold refill
  simp only [Act.run_bind, Act.run_get, ho, hr]

/-- Once no byte comes any more, a read where the stream ends brings nothing. -/
theorem read_nothing (room : Nat) (h : l.Fed o true s ahead chunks) (hend : chunks.flatten = []) :
    ∃ l' rest, read room l = .ok [] l' ∧ l'.Fed o true s ahead rest ∧ rest.flatten = [] := by
  match chunks with
  | [] =>
    obtain ⟨l', hr, hf⟩ := read_end room h
    exact ⟨l', [], hr, hf, rfl⟩
  | [] :: chunks =>
    obtain ⟨l', hr, hf⟩ := read_empty room h
    exact ⟨l', chunks, hr, hf, hend⟩
  | (b :: c) :: chunks => simp at hend

theorem refill_chunk {b : UInt8} (h : l.Fed o ends s ahead ((b :: c) :: chunks))
    (hs : Steady o.retries ends ((b :: c) :: chunks)) :
    ∃ l' b' bytes rest, refill retries l = .ok true l' ∧ l'.Fed o ends s (b' :: bytes) rest ∧
      Steady o.retries ends rest ∧ b' :: bytes ++ rest.flatten = ((b :: c) :: chunks).flatten := by
  obtain ⟨l₁, bytes, rest, hr, hf, hs', hsplit, -⟩ := read_more (room_pos o) h hs
  exact ⟨_, b, bytes, rest, refill_of_read h.options hr, hf.buffered _ _, hs', hsplit⟩

/-- Where a byte is still to come, the buffer **gets filled**. -/
theorem refill_more (h : l.Fed o ends s ahead chunks) (hs : Steady o.retries ends chunks)
    (hl : Lull retries ends chunks) (hmore : chunks.flatten ≠ []) :
    ∃ l' b bytes rest, refill retries l = .ok true l' ∧ l'.Fed o ends s (b :: bytes) rest ∧
      Steady o.retries ends rest ∧ b :: bytes ++ rest.flatten = chunks.flatten := by
  -- on the retries left, which an empty read lowers
  induction retries generalizing l chunks with
  | zero =>
    match chunks with
    | [] => exact absurd rfl hmore
    | [] :: chunks => exact absurd hl.last.2 hmore
    | (b :: c) :: chunks => exact refill_chunk h hs
  | succ n ih =>
    match chunks with
    | [] => exact absurd rfl hmore
    | [] :: chunks =>
      obtain ⟨l₁, hr, hf⟩ := read_empty o.room h
      obtain ⟨l', he, hf'⟩ := refill_again n h.options hr hf
      rw [he]
      -- the empty read used up one of the retries and of the lull
      have hrest := ih hf' hs.tail hl.next hmore
      exact hrest
    | (b :: c) :: chunks => exact refill_chunk h hs

/-- Where no byte comes any more and the stream ends, the answer is **no**. -/
theorem refill_end (retries : Nat) (h : l.Fed o true s ahead chunks) (hend : chunks.flatten = []) :
    ∃ l' rest, refill retries l = .ok false l' ∧ l'.Fed o true s [] rest ∧ rest.flatten = [] := by
  induction retries generalizing l chunks with
  | zero =>
    obtain ⟨l₁, rest, hr, hf, hrest⟩ := read_nothing o.room h hend
    exact ⟨_, rest, refill_gives_up h.options hr, hf.buffered _ _, hrest⟩
  | succ n ih =>
    obtain ⟨l₁, rest, hr, hf, hrest⟩ := read_nothing o.room h hend
    obtain ⟨l', he, hf'⟩ := refill_again n h.options hr hf
    rw [he]
    exact ih hf' hrest

/-- Where no byte comes any more and the stream stays open, the wait is **never over**. -/
theorem refill_open (h : l.Fed o false s ahead chunks) (hl : Lull retries false chunks)
    (hend : chunks.flatten = []) :
    ∃ l', refill retries l = .error .cut l' ∧ l'.Fed o false s ahead [] := by
  induction retries generalizing l chunks with
  | zero =>
    match chunks with
    | [] => exact ⟨l, refill_cut h.options (read_open _ h), h⟩
    -- the retries do not run out on a stream that stays open
    | [] :: chunks => exact absurd hl.last.1 (by simp)
    | (b :: c) :: chunks => simp at hend
  | succ n ih =>
    match chunks with
    | [] => exact ⟨l, refill_cut h.options (read_open _ h), h⟩
    | [] :: chunks =>
      obtain ⟨l₁, hr, hf⟩ := read_empty o.room h
      obtain ⟨l', he, hf'⟩ := refill_again n h.options hr hf
      rw [he]
      exact ih hf' hl.next hend
    | (b :: c) :: chunks => simp at hend

end Link

end HttpEngine
