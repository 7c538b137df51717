import HttpEngine.Proofs.Message.Delivery
import HttpEngine.Proofs.Transport.Front

/-!
# Responses that are not sent to their end

Whatever stops the sending of a response (a budget, the stream, its own body, or a cut from
outside), **a front of it** was written: head first, then the bytes of the body in their order.

* `Block.rest`: the bytes of a source being copied that are not written.
* `Link.copyFrom_writes`: copying, whatever comes of it.
* `Response.deliver_writes`: head and body, whatever comes of them.
-/

namespace HttpEngine

/-- A read with room takes from the front of a source's contents; **one that brings nothing or fails
finds none**. -/
theorem Script.contents_of_read {s rest : Script} {room : Nat} {answer : Except IoError Bytes}
    (h : s.read room = some (answer, rest)) (hroom : 0 < room) :
    (∃ b bytes, answer = .ok (b :: bytes) ∧ s.contents.1 = b :: bytes ++ rest.contents.1) ∨
      (∀ b bytes, answer ≠ .ok (b :: bytes)) ∧ s.contents.1 = [] := by
  rw [s.contents_of_answer hroom, h]
  cases answer with
  | error cause => exact .inr ⟨by simp, rfl⟩
  | ok bytes =>
    cases bytes with
    | nil => exact .inr ⟨by simp, rfl⟩
    | cons b bytes => exact .inl ⟨b, bytes, rfl, rfl⟩

namespace Block

/-- The bytes **not yet written**: those a block holds, then those of a source that has not ended. -/
def rest (b : Block) : Bytes := b.unwritten ++ if b.ended then [] else b.source.contents.1

/-- A block that can take in more has a source **that has not ended, and room**. -/
theorem room_of_not_full {b : Block} (h : ¬ (b.ended || size ≤ b.filled) = true) :
    b.ended = false ∧ 0 < size - b.filled := by
  rw [Bool.or_eq_true, not_or, Bool.not_eq_true, decide_eq_true_eq, Nat.not_le] at h
  exact ⟨h.1, Nat.sub_pos_of_lt h.2⟩

/-- A block that takes in more of its source **gains and loses nothing**. -/
theorem rest_of_fill {b c : Block} (h : b.fill = .ok c) : c.rest = b.rest := by
  unfold fill at h
  by_cases hfull : b.ended || size ≤ b.filled
  · simp only [hfull, if_true, Except.ok.injEq] at h
    rw [h]
  · obtain ⟨hopen, hroom⟩ := room_of_not_full hfull
    simp only [hfull] at h
    cases hr : b.source.read (size - b.filled) with
    | none =>
      simp only [hr] at h
      cases h
      rfl
    | some step =>
      obtain ⟨answer, source⟩ := step
      simp only [hr] at h
      cases answer with
      | error cause => cases h
      | ok bytes =>
        cases h
        rcases Script.contents_of_read hr hroom with ⟨b', bytes', hb, hsplit⟩ | ⟨hnone, hnil⟩
        · cases hb
          simp only [rest, hopen, hsplit, List.isEmpty_cons, Bool.false_eq_true, if_false,
            List.append_assoc]
        · cases bytes with
          | nil => simp [rest, hopen, hnil]
          | cons b' bytes' => exact absurd rfl (hnone b' bytes')

/-- The block once what it holds is written. -/
theorem rest_emptied (b : Block) : b.rest = b.unwritten ++ b.emptied.rest := by
  rw [rest, rest, emptied, List.nil_append]

end Block

namespace Link

variable {l : Link}

/-- What a block holds is written, **or is left to a block that holds more**. -/
theorem pushBlock_writes (begun : Bool) (b : Block) (l : Link) :
    Writes b.rest (fun c? => (c?.map (·.1)).elim b.emptied.rest Block.rest)
      (pushBlock begun b) l := by
  have hoffer := (offerAll_writes begun b.unwritten l).before b.emptied.rest
  rw [← Block.rest_emptied] at hoffer
  unfold pushBlock
  refine hoffer.bind fun left l₁ _ => ?_
  cases left with
  | nil => exact writes_pure (by rfl) l₁
  | cons c more =>
    simp only
    split
    · exact writes_throw _ l₁
    · rename_i c' hfill
      have hrest : c'.rest = c :: more ++ b.emptied.rest := Block.rest_of_fill hfill
      split
      · -- the stream was full, and the block took in more
        refine (writes_of_passed ?_).bind fun _ l₂ _ => writes_pure (by exact hrest) l₂
        exact passed_onWire (.inl rfl) (Wire.put_awaitRoom l₁.wire)
      · refine (writes_of_passed (spill_passed l₁)).bind fun _ l₂ _ => ?_
        refine ((writeAll_writes (c :: more) l₂).before b.emptied.rest).bind fun _ l₃ _ => ?_
        exact writes_pure (by rfl) l₃

/-- Waiting for ever writes nothing, and never succeeds. -/
theorem writes_never (bytes : Bytes) (l : Link) :
    Writes bytes (fun _ => []) (onWire (Wire.await none)) l := by
  refine ⟨[], passed_onWire (.inl rfl) (Wire.put_await none l.wire), List.nil_prefix, ?_⟩
  intro u l' h
  obtain ⟨w, hw, -⟩ := onWire_eq_ok.1 h
  unfold Wire.await at hw
  split at hw <;> cases hw

/-- A source is copied **up to where the copying stops**, to its end if it succeeds. -/
theorem copyFrom_writes (begun : Bool) (block : Block) (l : Link) :
    Writes block.rest (fun _ => []) (copyFrom begun block) l := by
  -- on the blocks; what one leaves unwritten is what the next has still to write
  fun_induction copyFrom begun block generalizing l with
  | case1 begun block cause hfill => exact writes_throw _ l
  | case2 begun block b hfill ihMore ihNext =>
    rw [← Block.rest_of_fill hfill]
    refine (pushBlock_writes begun b l).bind fun c? l₁ _ => ?_
    cases c? with
    | some c => exact ihMore c.1 c.2 l₁
    | none =>
      simp only
      split
      · -- there is nothing more to come of the source
        rename_i hended
        exact writes_pure (by simp [Block.rest, Block.emptied, hended]) l₁
      · split
        · exact writes_never b.emptied.rest l₁
        · rename_i hne
          exact ihNext hne l₁

theorem copy_writes (s : Script) (l : Link) : Writes s.contents.1 (fun _ => []) (copy s) l :=
  copyFrom_writes false { source := s } l

end Link

theorem Body.writeTo_writes (b : Body) (l : Link) :
    Link.Writes b.contents.1 (fun _ => []) b.writeTo l := by
  cases b with
  | empty => exact Link.writes_pure (by rfl) l
  | bytes data => exact Link.writeAll_writes data l
  | reader source => exact Link.copy_writes source l

/-- **A front of head and body** is written, and both in full if sending succeeds. -/
theorem Response.deliver_writes (r : Response) (cookies : Option CookieStore) (l : Link) :
    Link.Writes (Text.utf8 (r.head cookies) ++ r.body.contents.1) (fun _ => [])
      (r.deliver cookies) l := by
  unfold deliver
  refine ((Link.writeAll_writes _ l).before _).bind fun _ l₁ _ => ?_
  refine (Body.writeTo_writes r.body l₁).bind fun _ l₂ _ => ?_
  exact Link.writes_of_passed (Link.send_passed l₂)

/-- Once a response was sent **nothing is held**, and the stream was flushed last. -/
theorem Response.deliver_eq_ok {r : Response} {cookies : Option CookieStore} {l l' : Link}
    (h : r.deliver cookies l = .ok () l') :
    l'.held = [] ∧ ∃ older, l'.wire.journal = .transfer .flushed :: older ∧
      l.wire.journal.Grows Event.isOutput older := by
  unfold deliver at h
  obtain ⟨_, l₁, hhead, h⟩ := Act.bind_eq_ok.1 h
  obtain ⟨_, l₂, hbody, h⟩ := Act.bind_eq_ok.1 h
  obtain ⟨hheld, older, hjournal, hgrows⟩ := Link.send_eq_ok h
  obtain ⟨_, hwritten, -, -⟩ := Link.writeAll_writes (Text.utf8 (r.head cookies)) l
  obtain ⟨_, hcopied, -, -⟩ := Body.writeTo_writes r.body l₁
  rw [Act.leaves_of_ok hhead] at hwritten
  rw [Act.leaves_of_ok hbody] at hcopied
  exact ⟨hheld, older, hjournal, (hwritten.grows.trans hcopied.grows).trans hgrows⟩

end HttpEngine
