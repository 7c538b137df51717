import HttpEngine.Handling.Compression
import HttpEngine.Proofs.Message.Holding
import HttpEngine.Proofs.Transport.Unbuffered

/-!
# The payload of a body

A body is either written as it is or collected first, to be written in a coding. Copying reads it
into a block of a fixed size and collecting into room that doubles, and **both come to the same
bytes**, up to the first read that brings nothing or fails, whatever the pieces are that the source
gives them in.

* `Link.copyCounted_wrote`: what is copied, and how many bytes that are.
* `Body.payload_agrees`: the two sides together.
-/

namespace HttpEngine

open Text

theorem Script.ending_ne_never {s : Script} (h : s.hangs = false) : s.contents.2 ≠ .never := by
  unfold contents
  fun_induction contents.go s s.pieces with
  | case1 => simp [h]
  | case2 => simp
  | case3 => simp
  | case4 b bytes pieces ih => exact ih

/-- How writing so many bytes of a body answers, **from how its source ends**. -/
def Ending.answer (count : Nat) : Ending → Except (Halt IoError) Nat
  | .ended => .ok count
  | .failed cause => .error (.failed cause)
  | .never => .error .cut

/-! ### Copying with a count -/

namespace Link

variable {l : Link}

theorem copyFrom_of_error {block : Block} {cause : IoError} (h : block.fill = .error cause)
    (begun : Bool) : copyFrom begun block = throw (.failed cause) := by
  rw [copyFrom]
  split <;> rename_i heq <;> rw [h] at heq <;> cases heq
  rfl

theorem copyFrom_of_ok {block b : Block} (h : block.fill = .ok b) (begun : Bool) :
    copyFrom begun block = pushBlock begun b >>= fun c? =>
      match c? with
      | some c => copyFrom true c.1
      | none =>
        if b.ended then flush
        else if b.unwritten = [] then onWire (Wire.await none)
        else copyFrom false b.emptied := by
  rw [copyFrom]
  split <;> rename_i heq <;> rw [h] at heq <;> cases heq
  refine congrArg (pushBlock begun b >>= ·) (funext fun c? => ?_)
  cases c? with
  | some c => rfl
  | none => simp only [dite_eq_ite]

/-- Copying is the same **whether or not it is counted**. -/
theorem copyFrom_eq_counted (begun : Bool) (block : Block) (total : Nat) :
    copyFrom begun block = copyCounted begun block total >>= fun _ => pure () := by
  funext l
  rw [Act.run_bind]
  fun_induction copyCounted begun block total generalizing l with
  | case1 begun block total cause hfill =>
    rw [copyFrom_of_error hfill]
    rfl
  | case2 begun block total b hfill ihMore ihNext =>
    rw [copyFrom_of_ok hfill, Act.run_bind, Act.run_bind]
    cases hpush : pushBlock begun b l with
    | error halt l₁ => rfl
    | ok c? l₁ =>
      cases c? with
      | some c => exact ihMore c.1 c.2 l₁
      | none =>
        by_cases hended : b.ended = true
        · simp only [hended, if_true]
          rfl
        · by_cases hnil : b.unwritten = []
          · simp only [hended, hnil, Bool.false_eq_true, if_false, if_true, dite_true, Act.run_bind]
            cases onWire (Wire.await none) l₁ <;> rfl
          · simp only [hended, hnil, Bool.false_eq_true, if_false, dite_false]
            exact ihNext hnil l₁

/-- A source is copied **to where its contents end**, which is also how the copying ends, and the
number of bytes is the answer. -/
theorem copyCounted_wrote (begun : Bool) {block : Block} (total : Nat) (h : l.Ready)
    (hb : block.Clear) :
    ∃ l', copyCounted begun block total l
        = Act.settle (block.source.contents.2.answer (total + block.source.contents.1.length)) l' ∧
      Wrote block.source.contents.1 l l' := by
  -- on the blocks; before each there is nothing in the block
  fun_induction copyCounted begun block total generalizing l with
  | case1 begun block total cause hfill =>
    have hfilling := hb.filling
    rw [hfill] at hfilling
    cases hfilling with
    | failed hcontents =>
      rw [hcontents]
      exact ⟨l, rfl, h.wrote_nil⟩
  | case2 begun block total b hfill _ ihNext =>
    have hfilling := hb.filling
    rw [hfill] at hfilling
    obtain ⟨l₁, hpush, hw⟩ := pushBlock_wrote begun b h
    rw [Act.run_bind, hpush]
    cases hfilling with
    | never hcontents =>
      rw [hb.unwritten] at hw
      refine ⟨l₁, ?_, by rw [hcontents]; exact hw⟩
      simp only [hcontents, hb.unended, hb.unwritten, Bool.false_eq_true, if_false, dite_true,
        Act.run_bind, onWire, Wire.await_never hw.ready.calm]
      rfl
    | ended hcontents hended hfilled hnil =>
      rw [hnil] at hw
      refine ⟨l₁, ?_, by rw [hcontents]; exact hw⟩
      simp only [hcontents, hended, hfilled, if_true]
      rfl
    | more hcontents hopen hfilled hne =>
      obtain ⟨l', he, hw'⟩ := ihNext hne hw.ready ⟨hopen, rfl, rfl⟩
      rw [hcontents]
      refine ⟨l', ?_, hw.trans hw'⟩
      simp only [hopen, hne, Bool.false_eq_true, if_false, dite_false]
      rw [List.length_append, ← hfilled, ← Nat.add_assoc]
      exact he

end Link

/-! ### Bodies -/

namespace Body

variable {l : Link}

theorem writeTo_eq_counted (b : Body) : b.writeTo = b.writeCounted >>= fun _ => pure () := by
  cases b with
  | empty => rfl
  | bytes data =>
    funext l
    simp only [writeTo, writeCounted, Act.run_bind]
    cases Link.writeAll data l <;> rfl
  | reader source => exact Link.copyFrom_eq_counted false _ 0

/-- A body is written **as it would be collected**. -/
theorem writeCounted_wrote (b : Body) (h : l.Ready) :
    ∃ l', b.writeCounted l = Act.settle (b.contents.2.answer b.contents.1.length) l' ∧
      l.Wrote b.contents.1 l' := by
  cases b with
  | empty => exact ⟨l, rfl, h.wrote_nil⟩
  | bytes data =>
    obtain ⟨l', he, hw⟩ := Link.writeAll_wrote data h
    refine ⟨l', ?_, hw⟩
    rw [writeCounted, Act.run_bind, he]
    rfl
  | reader source =>
    have hclear : Block.Clear { source } := ⟨rfl, rfl, rfl⟩
    obtain ⟨l', he, hw⟩ := Link.copyCounted_wrote false 0 h hclear
    rw [Nat.zero_add] at he
    exact ⟨l', he, hw⟩

/-- Without a buffer **nothing is held**. -/
theorem held_of_unbuffered {b : Body} {l' : Link} {outcome : Except (Halt IoError) Nat}
    (he : b.writeCounted l = Act.settle outcome l') (hcapacity : l.capacity = 0)
    (hheld : l.held = []) : l'.held = [] := by
  have hleaves : Act.leaves b.writeTo l = l' := by
    rw [writeTo_eq_counted, Act.leaves_bind_pure, Act.leaves, he]
    cases outcome <;> rfl
  obtain ⟨hsame, hsnug⟩ := b.writeTo_snug l
  rw [hleaves] at hsame hsnug
  have hle := hsnug (by rw [hheld]; exact Nat.zero_le _)
  rw [hsame, hcapacity] at hle
  exact List.eq_nil_of_length_eq_zero (Nat.le_zero.1 hle)

/-- **Writing a body and collecting it agree.** On a stream that takes what is written, in whatever
parts, the bytes that are put on it are those that would be collected, and their number is the
answer; where the source of the body fails, both fail as it does, after the same bytes. The length
of a body, where it is known, is theirs, and a compressor is given them and no others. -/
theorem payload_agrees (b : Body) (h : l.Ready) :
    ∃ payload ending l', b.collect = (payload, ending) ∧ b.contents = (payload, ending) ∧
      b.writeTo = (b.writeCounted >>= fun _ => pure ()) ∧
      b.writeCounted l = Act.settle (ending.answer payload.length) l' ∧
      l'.written = l.written ++ payload ∧
      (l.capacity = 0 → l.held = [] →
        l'.held = [] ∧ l'.wire.journal.sent = l.wire.journal.sent ++ payload) ∧
      (∀ n, b.length? = some n → payload.length = n ∧ ending = .ended) ∧
      (∀ source, b = .reader source → source.hangs = false → ending ≠ .never) ∧
      ∀ (r : Response) (c : Compressor), r.body = b → r.compressed c = match ending with
        | .ended => .ok (r.recoded c.name (c.encode payload))
        | .failed cause => .error (.failed cause)
        | .never => .error .cut := by
  obtain ⟨l', he, hw⟩ := b.writeCounted_wrote h
  refine ⟨b.contents.1, b.contents.2, l', b.collect_eq_contents, rfl, b.writeTo_eq_counted, he,
    hw.written, fun hcapacity hheld => ?_, fun n hn => ?_, ?_, fun r c hr => ?_⟩
  · have hnone := held_of_unbuffered he hcapacity hheld
    have hwritten := hw.written
    rw [Link.written, Link.written, hnone, hheld, List.append_nil, List.append_nil] at hwritten
    exact ⟨hnone, hwritten⟩
  · cases b with
    | empty => exact ⟨Option.some_inj.1 hn, rfl⟩
    | bytes data => exact ⟨Option.some_inj.1 hn, rfl⟩
    | reader source => cases hn
  · rintro source rfl hhangs
    exact Script.ending_ne_never hhangs
  · rw [Response.compressed, hr, b.collect_eq_contents]
    cases b.contents with
    | mk payload ending => cases ending <;> rfl

/-- A link without a buffer, over a stream that takes two bytes at a time. -/
def thin : Link := { wire := { outbound := .script { maxWrite := some 2 } }, capacity := 0 }

/-- A source in pieces that ends before its last one, and one that fails. -/
theorem payload_agrees_thin :
    (∃ l', (reader { pieces := [.data (ascii "abc"), .data (ascii "de"), .data [],
        .data (ascii "f")] }).writeCounted thin = .ok 5 l' ∧
      l'.wire.journal.sent = ascii "abcde") ∧
    ∃ l', (reader { pieces := [.data (ascii "abc"), .failure .peerGone] }).writeCounted thin
        = .error (.failed .peerGone) l' ∧ l'.wire.journal.sent = ascii "abc" := by
  have hready : thin.Ready := ⟨⟨rfl, rfl⟩, ⟨by simp, by simp, rfl, by simp⟩, rfl⟩
  constructor
  · obtain ⟨payload, ending, l', -, hcontents, -, he, -, hsent, -⟩ :=
      payload_agrees (reader { pieces := [.data (ascii "abc"), .data (ascii "de"), .data [],
        .data (ascii "f")] }) hready
    obtain ⟨rfl, rfl⟩ := Prod.mk.inj hcontents
    exact ⟨l', he, (hsent rfl rfl).2⟩
  · obtain ⟨payload, ending, l', -, hcontents, -, he, -, hsent, -⟩ :=
      payload_agrees (reader { pieces := [.data (ascii "abc"), .failure .peerGone] }) hready
    obtain ⟨rfl, rfl⟩ := Prod.mk.inj hcontents
    exact ⟨l', he, (hsent rfl rfl).2⟩

end Body

end HttpEngine
