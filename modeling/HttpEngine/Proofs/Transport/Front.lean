import HttpEngine.Proofs.Transport.Passing

/-!
# Activities that write

Whatever comes of an activity that is to write some bytes, **a front of them** was accepted and
paid for, and where it succeeds they all were.

* `Link.Writes`: such an activity, with what its answer says is still to be written.
* `Link.writeAll_writes`, `Link.offerAll_writes`: the writes of a connection.
* `Link.send_passed`: sending what is held, after which nothing is.
-/

namespace HttpEngine

namespace Link

variable {α β : Type} {l : Link} {bytes more : Bytes} {act : Act α} {f : α → Act β}
  {rest : α → Bytes} {last : β → Bytes}

/-- An activity that accepts **a front of some bytes** and pays for it; all but those its answer
leaves, if there is an answer. -/
def Writes (bytes : Bytes) (rest : α → Bytes) (act : Act α) (l : Link) : Prop :=
  ∃ front, Passed front front.length l (Act.leaves act l) ∧ front <+: bytes ∧
    ∀ a l', act l = .ok a l' → front ++ rest a = bytes

theorem Writes.bind (hact : Writes bytes rest act l)
    (hf : ∀ a l', act l = .ok a l' → Writes (rest a) last (f a) l') :
    Writes bytes last (act >>= f) l := by
  obtain ⟨front, hpassed, hfront, hsplit⟩ := hact
  cases h : act l with
  | error halt l' =>
    have he : (act >>= f) l = .error halt l' := by rw [Act.run_bind, h]
    refine ⟨front, ?_, hfront, fun b l'' hb => ?_⟩
    · rw [Act.leaves_of_error h] at hpassed
      rwa [Act.leaves_of_error he]
    · rw [he] at hb
      cases hb
  | ok a l' =>
    have he : (act >>= f) l = f a l' := by rw [Act.run_bind, h]
    rw [Act.leaves_of_ok h] at hpassed
    obtain ⟨behind, hpassed', hbehind, hsplit'⟩ := hf a l' h
    have hall := hsplit a l' h
    refine ⟨front ++ behind, ?_, ?_, fun b l'' hb => ?_⟩
    · rw [List.length_append, Act.leaves, he]
      exact hpassed.trans hpassed'
    · rw [← hall]
      exact (List.prefix_append_right_inj front).2 hbehind
    · rw [he] at hb
      rw [List.append_assoc, hsplit' b l'' hb, hall]

theorem writes_pure {a : α} (h : rest a = bytes) (l : Link) :
    Writes bytes rest (pure a : Act α) l :=
  ⟨[], .refl l, List.nil_prefix, fun _ _ ha => by cases ha; exact h⟩

theorem writes_throw (halt : Halt IoError) (l : Link) :
    Writes bytes rest (throw halt : Act α) l :=
  ⟨[], .refl l, List.nil_prefix, fun _ _ h => nomatch h⟩

/-- An activity that accepts nothing **leaves everything to be written**. -/
theorem writes_of_passed (h : Passed [] 0 l (Act.leaves act l)) :
    Writes bytes (fun _ => bytes) act l :=
  ⟨[], h, List.nil_prefix, fun _ _ _ => rfl⟩

theorem writes_get (l : Link) : Writes bytes (fun _ => bytes) (get : Act Link) l :=
  writes_of_passed (.refl l)

/-- Bytes that come after those to be written **wait until these are all written**. -/
theorem Writes.before (h : Writes bytes rest act l) (more : Bytes) :
    Writes (bytes ++ more) (fun a => rest a ++ more) act l := by
  obtain ⟨front, hpassed, hfront, hsplit⟩ := h
  refine ⟨front, hpassed, hfront.trans (List.prefix_append bytes more), fun a l' ha => ?_⟩
  rw [← List.append_assoc, hsplit a l' ha]

/-- A write that succeeds leaves what it says it did not take. -/
theorem write_writes (bytes : Bytes) (l : Link) :
    Writes bytes (fun n => bytes.drop n) (write bytes) l := by
  refine ⟨_, write_passed bytes l, ?_, fun n l' h => ?_⟩
  · cases write bytes l with
    | error halt l' => exact List.nil_prefix
    | ok n l' => exact List.take_prefix n bytes
  · rw [h]
    exact List.take_append_drop n bytes

/-- What the single writes took when all of some bytes were to be written. -/
def takenOfAll (bytes : Bytes) (l : Link) : Bytes :=
  match bytes with
  | [] => []
  | b :: rest =>
    match write (b :: rest) l with
    | .error _ _ => []
    | .ok 0 _ => []
    | .ok (n + 1) l' => b :: rest.take n ++ takenOfAll (rest.drop n) l'
termination_by bytes.length
decreasing_by simp only [List.length_drop, List.length_cons]; omega

/-- **What the single writes took was accepted**: a front of the bytes, and all of them if no write
failed. -/
theorem writeAll_taken (bytes : Bytes) (l : Link) :
    Passed (takenOfAll bytes l) (takenOfAll bytes l).length l (Act.leaves (writeAll bytes) l) ∧
      takenOfAll bytes l <+: bytes ∧
      ∀ l', writeAll bytes l = .ok () l' → takenOfAll bytes l = bytes := by
  -- on the single writes; each leaves fewer bytes to the others
  fun_induction takenOfAll bytes l with
  | case1 l =>
    rw [writeAll]
    exact ⟨.refl l, List.nil_prefix, fun _ _ => rfl⟩
  | case2 l b rest halt l₁ hw =>
    have hwrite := write_passed (b :: rest) l
    rw [Act.leaves_of_error hw, hw] at hwrite
    have he : writeAll (b :: rest) l = .error halt l₁ := by rw [writeAll, Act.run_bind, hw]
    rw [Act.leaves_of_error he]
    exact ⟨hwrite, List.nil_prefix, fun l' h => by rw [he] at h; cases h⟩
  | case3 l b rest l₁ hw =>
    have hwrite := write_passed (b :: rest) l
    rw [Act.leaves_of_ok hw, hw] at hwrite
    have he : writeAll (b :: rest) l = .error (.failed .nothingWritten) l₁ := by
      rw [writeAll, Act.run_bind, hw]
      rfl
    rw [Act.leaves_of_error he]
    exact ⟨hwrite, List.nil_prefix, fun l' h => by rw [he] at h; cases h⟩
  | case4 l b rest n l₁ hw ih =>
    obtain ⟨hpassed, hprefix, hall⟩ := ih
    have hwrite := write_passed (b :: rest) l
    rw [Act.leaves_of_ok hw, hw] at hwrite
    have he : writeAll (b :: rest) l = writeAll (rest.drop n) l₁ := by
      rw [writeAll, Act.run_bind, hw]
    have hsplit : b :: rest.take n ++ rest.drop n = b :: rest := by
      rw [List.cons_append, List.take_append_drop]
    refine ⟨?_, ?_, fun l' h => ?_⟩
    · rw [Act.leaves, he, List.length_append]
      exact hwrite.trans hpassed
    · rw [← hsplit, List.prefix_append_right_inj]
      exact hprefix
    · rw [hall l' (he.symm.trans h), hsplit]

/-- **All bytes are written**, or a front of them. -/
theorem writeAll_writes (bytes : Bytes) (l : Link) :
    Writes bytes (fun _ => []) (writeAll bytes) l := by
  obtain ⟨hpassed, hprefix, hall⟩ := writeAll_taken bytes l
  refine ⟨_, hpassed, hprefix, fun u l' h => ?_⟩
  rw [List.append_nil, hall l' h]

/-! ### Writes that do not wait -/

theorem makeWay_passed (begun : Bool) (count : Nat) (l : Link) :
    Passed [] 0 l (Act.leaves (makeWay begun count) l) := by
  unfold makeWay
  refine Act.leaves_bind (R := Passed [] 0) (fun h k => h.trans k) (.refl l) fun l₁ l₂ h => ?_
  cases h
  by_cases hway : begun || l.capacity < l.held.length + count
  · simp only [hway, if_true]
    exact spillOut_passed false l
  · simp only [hway]
    exact .refl l

/-- An offer **is a write, or nothing at all**. -/
theorem offer_writes (begun : Bool) (bytes : Bytes) (l : Link) :
    Writes bytes (fun n => bytes.drop (n.getD 0)) (offer begun bytes) l := by
  refine (writes_get l).bind fun l₀ l₁ h => ?_
  cases h
  cases l.writeLeft.spend bytes.length with
  | none => exact writes_throw _ l
  | some left =>
    refine (writes_of_passed (makeWay_passed begun bytes.length l)).bind fun clear l₁ _ => ?_
    refine (writes_get l₁).bind fun l₂ l₃ h => ?_
    cases h
    by_cases hgo : clear && !(l₁.capacity ≤ bytes.length && l₁.wire.isFull)
    · simp only [hgo, if_true]
      exact (write_writes bytes l₁).bind fun n l' _ => writes_pure (by rfl) l'
    · simp only [hgo, Bool.false_eq_true, if_false]
      exact writes_pure (by rfl) l₁

theorem offerAll_writes (begun : Bool) (bytes : Bytes) (l : Link) :
    Writes bytes id (offerAll begun bytes) l := by
  fun_induction offerAll begun bytes generalizing l with
  | case1 begun => exact writes_pure (by rfl) l
  | case2 begun b rest ih =>
    refine (offer_writes begun (b :: rest) l).bind fun n l' _ => ?_
    cases n with
    | none => exact writes_pure (by rfl) l'
    | some n =>
      cases n with
      | zero => exact writes_throw _ l'
      | succ n => exact ih n l'

/-! ### Sending what is held -/

theorem send_passed (l : Link) : Passed [] 0 l (Act.leaves send l) := by
  unfold send
  exact Act.leaves_bind (R := Passed [] 0) (fun h k => h.trans k) (spill_passed l)
    fun _ l' _ => passed_onWire (.inl rfl) (Wire.flush_put l'.wire)

theorem shutDown_passed (l : Link) : Passed [] 0 l (Act.leaves shutDown l) := by
  unfold shutDown
  exact Act.leaves_bind (R := Passed [] 0) (fun h k => h.trans k) (spill_passed l)
    fun _ l' _ => passed_onWire (.inl rfl) (Wire.shutDown_put l'.wire)

/-- Once everything held was sent **nothing is held**, and the stream was flushed last. -/
theorem send_eq_ok {l' : Link} (h : send l = .ok () l') :
    l'.held = [] ∧ ∃ older, l'.wire.journal = .transfer .flushed :: older ∧
      l.wire.journal.Grows Event.isOutput older := by
  unfold send at h
  obtain ⟨u, l₁, hs, h⟩ := Act.bind_eq_ok.1 h
  have hspill := spill_passed l
  rw [Act.leaves_of_ok hs] at hspill
  obtain ⟨w, hw, rfl⟩ := onWire_eq_ok.1 h
  refine ⟨?_, l₁.wire.journal, Wire.journal_flush hw, hspill.grows⟩
  show l₁.held = []
  exact held_of_spill hs

end Link

end HttpEngine
