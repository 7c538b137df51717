import HttpEngine.Proofs.Transport.Steady

/-!
# Bytes on their way out

On a stream that takes every write, if only a byte of it, what is written to a link is on the
stream or held for it, **in order and nothing else**.

* `Link.Ready`: a link on which writes succeed.
* `Link.Wrote`: what comes of writing bytes to it; the reading side stays as it is.
* `Link.writeAll_wrote`, `Link.send_wrote`: the writes of a connection.
-/

namespace HttpEngine

/-- A sink that takes **at least one byte** of every write, and no flush of which fails. -/
structure Sink.Accepting (s : Sink) : Prop where
  writes : ∀ most ∈ s.writes, ∃ n, most = .ok (n + 1)
  flushes : ∀ answer ∈ s.flushes, answer = .ok ()
  failAt : s.failAt = none
  maxWrite : s.maxWrite ≠ some 0

/-- A script **that takes every write**, if only a byte of it, and every flush. -/
def Outbound.Accepting : Outbound → Prop
  | script s => s.Accepting
  | pipe _ => False

/-- Something of every write is taken, **and no more than there is**. -/
theorem Sink.Accepting.share {s : Sink} (h : s.Accepting) (count : Nat) :
    ∃ n, s.share (count + 1) = .ok (n + 1) ∧ n ≤ count := by
  unfold Sink.share
  split
  · rename_i cause later hw
    obtain ⟨n, hn⟩ := h.writes (.error cause) (by simp [hw])
    cases hn
  · rename_i most later hw
    obtain ⟨n, hn⟩ := h.writes (.ok most) (by simp [hw])
    cases hn
    exact ⟨min n count, by rw [Nat.succ_min_succ], Nat.min_le_right _ _⟩
  · have hpos : 0 < s.maxWrite.getD (count + 1) := by
      cases hm : s.maxWrite with
      | none => exact Nat.succ_pos _
      | some m => exact Nat.pos_of_ne_zero fun h0 => h.maxWrite (by rw [hm]; exact congrArg some h0)
    simp only [h.failAt, Option.any_none, Bool.false_eq_true, if_false, Option.map_none,
      Option.getD_none]
    exact ⟨min (s.maxWrite.getD (count + 1)) (count + 1) - 1, congrArg Except.ok (by omega),
      by omega⟩

theorem Outbound.accept_accepting {o : Outbound} (h : o.Accepting) (now : Nat) (b : UInt8)
    (bytes : Bytes) :
    ∃ n out, o.accept now (b :: bytes) = (.ok (n + 1), out) ∧ out.Accepting ∧
      n ≤ bytes.length := by
  cases o with
  | pipe p => exact h.elim
  | script s =>
    obtain ⟨n, hshare, hle⟩ := Sink.Accepting.share h bytes.length
    refine ⟨n, .script { s with writes := s.writes.tail, taken := s.taken + (n + 1) }, ?_,
      ⟨fun most hm => h.writes most (List.mem_of_mem_tail hm), h.flushes, h.failAt, h.maxWrite⟩, hle⟩
    simp only [accept, List.length_cons, hshare]

theorem Outbound.flush_accepting {o : Outbound} (h : o.Accepting) :
    ∃ out, o.flush = (.ok (), out) ∧ out.Accepting := by
  cases o with
  | pipe p => exact h.elim
  | script s =>
    refine ⟨.script { s with flushes := s.flushes.tail }, ?_,
      ⟨h.writes, fun answer ha => h.flushes answer (List.mem_of_mem_tail ha), h.failAt,
        h.maxWrite⟩⟩
    have hnext : s.flushes.headD (.ok ()) = .ok () := by
      cases hf : s.flushes with
      | nil => rfl
      | cons answer later => exact h.flushes answer (by simp [hf])
    simp only [flush, hnext]

namespace Wire

variable {w : Wire} {b : UInt8} {bytes : Bytes}

theorem readyAt_of_accepting (ho : w.outbound.Accepting) :
    w.outbound.readyAt w.clock = some w.clock := by
  cases h : w.outbound with
  | script s => rfl
  | pipe p =>
    rw [h] at ho
    exact ho.elim

theorem isFull_of_accepting (ho : w.outbound.Accepting) : w.isFull = false := by
  simp [isFull, readyAt_of_accepting ho]

theorem awaitRoom_of_accepting (hw : w.Calm) (ho : w.outbound.Accepting) :
    awaitRoom w = .ok () w := by
  simp only [awaitRoom, Act.run_bind, Act.run_get, readyAt_of_accepting ho, await_of_calm hw,
    Nat.max_self]

theorem write_accepting (hw : w.Calm) (ho : w.outbound.Accepting) (b : UInt8) (bytes : Bytes) :
    ∃ n out, write (b :: bytes) w = .ok (n + 1)
        { w with
          outbound := out
          journal := .transfer (.wrote (b :: bytes.take n)) :: w.journal } ∧
      out.Accepting ∧ n ≤ bytes.length := by
  obtain ⟨n, out, haccept, hout, hle⟩ := Outbound.accept_accepting ho w.clock b bytes
  refine ⟨n, out, ?_, hout, hle⟩
  simp only [write, Act.run_bind, awaitRoom_of_accepting hw ho, Act.run_get, haccept]
  rfl

theorem flush_accepting (hw : w.Calm) (ho : w.outbound.Accepting) :
    ∃ out, flush w = .ok ()
        { w with outbound := out, journal := .transfer .flushed :: w.journal } ∧
      out.Accepting := by
  obtain ⟨out, hflush, hout⟩ := Outbound.flush_accepting ho
  refine ⟨out, ?_, hout⟩
  simp only [flush, step, Act.run_bind, Act.run_get, await_of_calm hw, Nat.max_self, hflush]
  rfl

end Wire

namespace Link

/-- A link on which **writes succeed**. -/
structure Ready (l : Link) : Prop where
  calm : l.wire.Calm
  accepting : l.wire.outbound.Accepting
  unlimited : l.writeLeft = none

/-- The bytes a link has sent and those it holds, in the order they were written in. -/
def written (l : Link) : Bytes := l.wire.journal.sent ++ l.held

/-- What comes of writing bytes to a link: they are **sent or held**, and what there is to read is
as it was. -/
structure Wrote (bytes : Bytes) (l l' : Link) : Prop where
  ready : l'.Ready
  written : l'.written = l.written ++ bytes
  options : l'.options = l.options
  readLeft : l'.readLeft = l.readLeft
  inbound : l'.wire.inbound = l.wire.inbound
  unread : l'.unread = l.unread

variable {l l₁ l₂ : Link} {b : UInt8} {bytes more : Bytes}

theorem Ready.wrote_nil (h : l.Ready) : Wrote [] l l :=
  ⟨h, (List.append_nil _).symm, rfl, rfl, rfl, rfl⟩

theorem Wrote.trans (h : Wrote bytes l l₁) (k : Wrote more l₁ l₂) : Wrote (bytes ++ more) l l₂ :=
  ⟨k.ready, by rw [k.written, h.written, List.append_assoc], k.options.trans h.options,
    k.readLeft.trans h.readLeft, k.inbound.trans h.inbound, k.unread.trans h.unread⟩

theorem Wrote.holds {o : ReaderOptions} {ends : Bool} {s : Sending} {left : Bytes}
    (h : Wrote bytes l l₁) (hl : l.Holds o ends s left) : l₁.Holds o ends l₁.sending left := by
  obtain ⟨ahead, chunks, hf, hs, hleft⟩ := hl
  exact ⟨ahead, chunks, ⟨h.options.trans hf.options, h.readLeft.trans hf.unlimited, h.ready.calm,
    h.inbound.trans hf.inbound, h.unread.trans hf.unread, rfl⟩, hs, hleft⟩

/-! ### Bytes put on the stream -/

/-- **All bytes** are put on the stream. -/
theorem writeOut_accepting (waits : Bool) (bytes : Bytes) {w : Wire} (hw : w.Calm)
    (ho : w.outbound.Accepting) :
    ∃ w', writeOut waits bytes w = ⟨[], none, w'⟩ ∧ w'.Calm ∧ w'.outbound.Accepting ∧
      w'.journal.sent = w.journal.sent ++ bytes ∧ w'.inbound = w.inbound := by
  -- on the number of bytes, as a write takes some of them but not always all
  induction h : bytes.length using Nat.strongRecOn generalizing bytes w with
  | ind len ih =>
    cases bytes with
    | nil => exact ⟨w, by rw [writeOut], hw, ho, (List.append_nil _).symm, rfl⟩
    | cons b rest =>
      obtain ⟨n, out, hwrite, hout, hle⟩ := Wire.write_accepting hw ho b rest
      obtain ⟨w', he, hw', ho', hsent, hin⟩ :=
        ih (rest.drop n).length (by rw [← h, List.length_drop, List.length_cons]; omega)
          (rest.drop n) (w := { w with
            outbound := out
            journal := .transfer (.wrote (b :: rest.take n)) :: w.journal }) hw hout rfl
      refine ⟨w', ?_, hw', ho', ?_, hin⟩
      · rw [writeOut]
        simp only [Wire.isFull_of_accepting ho, Bool.and_false, Bool.false_eq_true, if_false,
          hwrite]
        exact he
      · rw [hsent, Journal.sent, List.append_assoc, List.cons_append, List.take_append_drop]

theorem spillOut_wrote (waits : Bool) (h : l.Ready) :
    ∃ l', spillOut waits l = .ok true l' ∧ Wrote [] l l' ∧ l'.held = [] := by
  obtain ⟨w', he, hw, ho, hsent, hin⟩ := writeOut_accepting waits l.held h.calm h.accepting
  refine ⟨{ l with held := [], wire := w' }, ?_, ⟨⟨hw, ho, h.unlimited⟩, ?_, rfl, rfl, hin, rfl⟩,
    rfl⟩
  · unfold spillOut
    simp only [he]
    rfl
  · simp only [written, hsent, List.append_nil]

theorem spill_wrote (h : l.Ready) : ∃ l', spill l = .ok () l' ∧ Wrote [] l l' ∧ l'.held = [] := by
  obtain ⟨l', he, hw, hheld⟩ := spillOut_wrote true h
  exact ⟨l', by simp only [spill, Act.run_bind, he, Act.run_pure], hw, hheld⟩

theorem onWire_write_wrote (h : l.Ready) (hheld : l.held = []) (b : UInt8) (bytes : Bytes) :
    ∃ n l', onWire (Wire.write (b :: bytes)) l = .ok (n + 1) l' ∧
      Wrote (b :: bytes.take n) l l' ∧ n ≤ bytes.length := by
  obtain ⟨n, out, he, ho, hle⟩ := Wire.write_accepting h.calm h.accepting b bytes
  refine ⟨n, { l with wire := { l.wire with
      outbound := out
      journal := .transfer (.wrote (b :: bytes.take n)) :: l.wire.journal } },
    by simp only [onWire, he], ⟨⟨h.calm, ho, h.unlimited⟩, ?_, rfl, rfl, rfl, rfl⟩, hle⟩
  simp only [written, Journal.sent, hheld, List.append_nil]

theorem hold_wrote (h : l.Ready) (bytes : Bytes) :
    Wrote bytes l { l with held := l.held ++ bytes } :=
  ⟨⟨h.calm, h.accepting, h.unlimited⟩, (List.append_assoc ..).symm, rfl, rfl, rfl, rfl⟩

theorem buffer_wrote (h : l.Ready) (b : UInt8) (bytes : Bytes) :
    ∃ n l', buffer (b :: bytes) l = .ok (n + 1) l' ∧ Wrote (b :: bytes.take n) l l' ∧
      n ≤ bytes.length := by
  -- what remains to be done once nothing is held that could be overtaken
  have direct : ∀ {l₁ : Link}, Wrote [] l l₁ →
      (l.capacity ≤ (b :: bytes).length → l₁.held = []) →
      ∃ n l', (if l.capacity ≤ (b :: bytes).length then onWire (Wire.write (b :: bytes))
        else do
          modify fun l => { l with held := l.held ++ b :: bytes }
          return (b :: bytes).length : Act Nat) l₁ = .ok (n + 1) l' ∧
        Wrote (b :: bytes.take n) l l' ∧ n ≤ bytes.length := by
    intro l₁ hw hheld
    by_cases hc : l.capacity ≤ (b :: bytes).length
    · obtain ⟨n, l', he, hw', hle⟩ := onWire_write_wrote hw.ready (hheld hc) b bytes
      refine ⟨n, l', ?_, hw.trans hw', hle⟩
      rw [if_pos hc]
      exact he
    · refine ⟨bytes.length, { l₁ with held := l₁.held ++ b :: bytes }, ?_, ?_, Nat.le_refl _⟩
      · rw [if_neg hc]
        rfl
      · rw [List.take_length]
        exact hw.trans (hold_wrote hw.ready (b :: bytes))
  unfold buffer
  rw [Act.run_bind, Act.run_get]
  simp only
  by_cases hover : l.capacity < l.held.length + (b :: bytes).length
  · -- no room for them all: what is held goes first
    obtain ⟨l₁, hs, hw, hheld⟩ := spill_wrote h
    simp only [hover, if_true, Act.run_bind, hs]
    exact direct hw fun _ => hheld
  · -- bytes as many as the buffer's capacity fit only when nothing is held
    simp only [hover, if_false]
    refine direct h.wrote_nil fun hc => List.eq_nil_of_length_eq_zero ?_
    omega

/-- A write takes **some of the bytes**. -/
theorem write_wrote (h : l.Ready) (b : UInt8) (bytes : Bytes) :
    ∃ n l', write (b :: bytes) l = .ok (n + 1) l' ∧ Wrote (b :: bytes.take n) l l' ∧
      n ≤ bytes.length := by
  obtain ⟨n, l', he, hw, hle⟩ := buffer_wrote h b bytes
  refine ⟨n, l', ?_, hw, hle⟩
  unfold write
  rw [Act.run_bind, Act.run_get]
  simp only [h.unlimited, Budget.spend, Act.run_bind, he, Act.run_get, hw.ready.unlimited]
  have hsame : { l' with writeLeft := none } = l' := by rw [← hw.ready.unlimited]
  exact congrArg (EStateM.Result.ok (n + 1)) hsame

/-- **All bytes** are written. -/
theorem writeAll_wrote (bytes : Bytes) (h : l.Ready) :
    ∃ l', writeAll bytes l = .ok () l' ∧ Wrote bytes l l' := by
  fun_induction writeAll bytes generalizing l with
  | case1 => exact ⟨l, rfl, h.wrote_nil⟩
  | case2 b rest ih =>
    obtain ⟨n, l₁, he, hw, -⟩ := write_wrote h b rest
    obtain ⟨l', hrest, hw'⟩ := ih n hw.ready
    refine ⟨l', by rw [Act.run_bind, he]; exact hrest, ?_⟩
    have := hw.trans hw'
    rwa [List.cons_append, List.take_append_drop] at this

/-! ### Writes that do not wait -/

theorem makeWay_wrote (begun : Bool) (count : Nat) (h : l.Ready) :
    ∃ l', makeWay begun count l = .ok true l' ∧ Wrote [] l l' := by
  unfold makeWay
  rw [Act.run_bind, Act.run_get]
  simp only [Act.run_ite]
  split
  · obtain ⟨l', he, hw, -⟩ := spillOut_wrote false h
    exact ⟨l', he, hw⟩
  · exact ⟨l, rfl, h.wrote_nil⟩

/-- As the stream is never full, an offer **is a write**. -/
theorem offer_wrote (begun : Bool) (h : l.Ready) (b : UInt8) (bytes : Bytes) :
    ∃ n l', offer begun (b :: bytes) l = .ok (some (n + 1)) l' ∧
      Wrote (b :: bytes.take n) l l' ∧ n ≤ bytes.length := by
  obtain ⟨l₁, hway, hw₁⟩ := makeWay_wrote begun (b :: bytes).length h
  obtain ⟨n, l', he, hw, hle⟩ := write_wrote hw₁.ready b bytes
  refine ⟨n, l', ?_, hw₁.trans hw, hle⟩
  unfold offer
  rw [Act.run_bind, Act.run_get]
  simp only [h.unlimited, Budget.spend, Act.run_bind, hway, Act.run_get,
    Wire.isFull_of_accepting hw₁.ready.accepting, Bool.and_false, Bool.not_false, Bool.and_true,
    if_true, he, Act.run_pure]

theorem offerAll_wrote (begun : Bool) (bytes : Bytes) (h : l.Ready) :
    ∃ l', offerAll begun bytes l = .ok [] l' ∧ Wrote bytes l l' := by
  fun_induction offerAll begun bytes generalizing l with
  | case1 => exact ⟨l, rfl, h.wrote_nil⟩
  | case2 begun b rest ih =>
    obtain ⟨n, l₁, he, hw, -⟩ := offer_wrote begun h b rest
    obtain ⟨l', hrest, hw'⟩ := ih n hw.ready
    refine ⟨l', by rw [Act.run_bind, he]; exact hrest, ?_⟩
    have := hw.trans hw'
    rwa [List.cons_append, List.take_append_drop] at this

/-- Everything held is put on the stream. -/
theorem send_wrote (h : l.Ready) : ∃ l', send l = .ok () l' ∧ Wrote [] l l' ∧ l'.held = [] := by
  obtain ⟨l₁, he, hw, hheld⟩ := spill_wrote h
  obtain ⟨out, hflush, hout⟩ := Wire.flush_accepting hw.ready.calm hw.ready.accepting
  refine ⟨{ l₁ with wire := { l₁.wire with
    outbound := out, journal := .transfer .flushed :: l₁.wire.journal } }, ?_, ?_, hheld⟩
  · simp only [send, Act.run_bind, he, onWire, hflush]
  · exact ⟨⟨hw.ready.calm, hout, hw.ready.unlimited⟩, hw.written, hw.options,
      hw.readLeft, hw.inbound, hw.unread⟩

end Link

end HttpEngine
