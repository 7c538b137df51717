import HttpEngine.Proofs.Transport.Allowance
import HttpEngine.Proofs.Transport.Front

/-!
# Bytes on a stream that takes them

A stream may take a write in parts of any sizes, and may have to be waited for. As long as each write
takes at least a byte and no flush fails, **nothing but the write budget** keeps bytes from being
written.

* `Wire.Takes`: a stream that takes so many bytes.
* `Link.Landed`: what comes of writing some of them.
* `Link.writeAll_landed`, `Link.offerAll_landed`: the writes of a connection.
-/

namespace HttpEngine

theorem Budget.not_exceeded_iff {b : Budget} {n : Nat} : ¬ b.Exceeded n ↔ ∀ left ∈ b, n ≤ left := by
  simp [Exceeded]

/-- Once a write was waited for, it **need not be waited for again**. -/
theorem Outbound.readyAt_again {now time : Nat} {o : Outbound} (h : o.readyAt now = some time) :
    o.readyAt (max time now) = some (max time now) := by
  cases o with
  | script s => rfl
  | pipe p =>
    -- it is waited for until bytes are taken from the pipe, or the peer goes
    have hready : (p.waiting < p.capacity || p.drains.any (· ≤ max time now)
        || p.leaves.any (· ≤ max time now)) = true := by
      simp only [readyAt] at h
      split at h
      · cases h
        rwa [Nat.max_self]
      · split at h
        · rename_i drain drains leave hdrains hleaves
          cases h
          rcases Nat.le_total drain leave with hle | hle
          · simp only [hdrains, List.any_cons, Nat.min_eq_left hle, Nat.le_max_left, decide_true,
              Bool.true_or, Bool.or_true]
          · simp only [hleaves, Option.any_some, Nat.min_eq_right hle, Nat.le_max_left, decide_true,
              Bool.or_true]
        · rename_i drain drains hdrains hleaves
          cases h
          simp only [hdrains, List.any_cons, Nat.le_max_left, decide_true, Bool.true_or, Bool.or_true]
        · simp only [h, Option.any_some, Nat.le_max_left, decide_true, Bool.or_true]
    simp only [readyAt, hready, if_true]

namespace Wire

/-- A stream that takes the next `n` bytes: nothing cuts a wait, a flush succeeds, and each write that
is within them takes **at least one**. -/
def Takes (n : Nat) (w : Wire) : Prop :=
  w.Calm ∧ w.outbound.flush.1 = .ok () ∧ ∀ b bytes, bytes.length < n →
    ∃ k w', write (b :: bytes) w = .ok (k + 1) w' ∧ Takes (n - (k + 1)) w'
termination_by n
decreasing_by omega

variable {n : Nat} {w w' : Wire} {b : UInt8} {bytes : Bytes}

theorem takes_iff : w.Takes n ↔ w.Calm ∧ w.outbound.flush.1 = .ok () ∧ ∀ b bytes,
    bytes.length < n → ∃ k w', write (b :: bytes) w = .ok (k + 1) w' ∧ w'.Takes (n - (k + 1)) := by
  rw [Takes]

theorem Takes.calm (h : w.Takes n) : w.Calm := (takes_iff.1 h).1

theorem Takes.flush (h : w.Takes n) : ∃ w', flush w = .ok () w' := by
  obtain ⟨hcalm, hflush, -⟩ := takes_iff.1 h
  exact ⟨_, by simp only [Wire.flush, step, Act.run_bind, Act.run_get, await_of_calm hcalm,
    Nat.max_self, Act.run_set, hflush]; rfl⟩

theorem Takes.write {more : Nat} (h : w.Takes ((b :: bytes).length + more)) :
    ∃ k w', write (b :: bytes) w = .ok (k + 1) w' ∧ k ≤ bytes.length ∧
      w'.Takes ((bytes.drop k).length + more) := by
  rw [List.length_cons] at h
  obtain ⟨k, w', he, hw'⟩ := (takes_iff.1 h).2.2 b bytes (by omega)
  have hle : k ≤ bytes.length := Nat.le_of_succ_le_succ (write_le he)
  refine ⟨k, w', he, hle, ?_⟩
  rwa [List.length_drop, show bytes.length - k + more = bytes.length + 1 + more - (k + 1) by omega]

/-- A stream that takes at least one byte of **every** write, and every flush, takes any number of
them. -/
theorem takes_of_accepting (hw : w.Calm) (ho : w.outbound.Accepting) (n : Nat) : w.Takes n := by
  induction n using Nat.strongRecOn generalizing w with
  | ind n ih =>
    have hflush : w.outbound.flush.1 = .ok () := by
      obtain ⟨out, hflush, -⟩ := Outbound.flush_accepting ho
      rw [hflush]
    refine takes_iff.2 ⟨hw, hflush, fun b bytes hlt => ?_⟩
    obtain ⟨k, out, he, hout, -⟩ := write_accepting hw ho b bytes
    exact ⟨k, _, he, ih _ (by omega) hw hout⟩

theorem awaitRoom_of_ready {time : Nat} (hw : w.Calm)
    (h : w.outbound.readyAt w.clock = some time) :
    awaitRoom w = .ok () { w with clock := max time w.clock } := by
  simp only [awaitRoom, Act.run_bind, Act.run_get, h, await_of_calm hw]

/-- To wait for room is **to do what the next write does first**. -/
theorem Takes.awaitRoom (h : w.Takes n) (hn : 0 < n) :
    ∃ w', awaitRoom w = .ok () w' ∧ w'.Takes n := by
  obtain ⟨hcalm, hflush, hwrite⟩ := takes_iff.1 h
  obtain ⟨time, htime⟩ : ∃ time, w.outbound.readyAt w.clock = some time := by
    obtain ⟨k, w', he, -⟩ := hwrite 0 [] hn
    cases hr : w.outbound.readyAt w.clock with
    | some time => exact ⟨time, rfl⟩
    | none =>
      have hcut : Wire.write [0] w = .error .cut w := by
        simp only [Wire.write, Wire.awaitRoom, Act.run_bind, Act.run_get, hr, await_never hcalm]
      rw [hcut] at he
      cases he
  obtain ⟨w₁, hw₁⟩ : ∃ w₁ : Wire, w₁ = { w with clock := max time w.clock } := ⟨_, rfl⟩
  have hroom : Wire.awaitRoom w = .ok () w₁ := hw₁ ▸ awaitRoom_of_ready hcalm htime
  have hcalm₁ : w₁.Calm := hw₁ ▸ hcalm
  have hflush₁ : w₁.outbound.flush.1 = .ok () := hw₁ ▸ hflush
  have hagain : Wire.awaitRoom w₁ = .ok () w₁ := by
    have hready : w₁.outbound.readyAt w₁.clock = some w₁.clock := by
      rw [hw₁]
      exact Outbound.readyAt_again htime
    rw [awaitRoom_of_ready hcalm₁ hready, Nat.max_self]
  refine ⟨w₁, hroom, takes_iff.2 ⟨hcalm₁, hflush₁, fun b bytes hlt => ?_⟩⟩
  have hsame : Wire.write (b :: bytes) w₁ = Wire.write (b :: bytes) w := by
    simp only [Wire.write, Act.run_bind, hroom, hagain]
  rw [hsame]
  exact hwrite b bytes hlt

end Wire

namespace Link

variable {α β : Type} {l l₁ : Link} {b : UInt8} {bytes extra : Bytes} {n spare : Nat}
  {act : Act α} {f : α → Act β} {rest : α → Bytes} {last : β → Bytes}

/-- The stream of a link takes what is held **and so many bytes more**. -/
def Takes (n : Nat) (l : Link) : Prop := l.wire.Takes (l.held.length + n)

/-! ### The buffer -/

/-- What is put on the stream **lands there**, so that a stop halfway is no failure. -/
theorem writeOut_takes (waits : Bool) (bytes : Bytes) {w : Wire} (h : w.Takes (bytes.length + n)) :
    (writeOut waits bytes w).halt = none ∧
      (writeOut waits bytes w).wire.Takes ((writeOut waits bytes w).unsent.length + n) := by
  fun_induction writeOut waits bytes w with
  | case1 w => exact ⟨rfl, h⟩
  | case2 w b rest hfull => exact ⟨rfl, h⟩
  | case3 w b rest hroom halt w' hw =>
    obtain ⟨k, w₁, he, -⟩ := h.write
    rw [hw] at he
    cases he
  | case4 w b rest hroom w' hw =>
    obtain ⟨k, w₁, he, -⟩ := h.write
    rw [hw] at he
    cases he
  | case5 w b rest hroom k w' hw ih =>
    obtain ⟨k', w₁, he, -, hw₁⟩ := h.write
    rw [hw] at he
    cases he
    exact ih hw₁

theorem spillOut_takes (waits : Bool) (h : l.Takes n) :
    ∃ gone l', spillOut waits l = .ok gone l' ∧ l'.Takes n := by
  obtain ⟨hhalt, hwire⟩ := writeOut_takes waits l.held h
  refine ⟨(writeOut waits l.held l.wire).unsent.isEmpty, { l with
    held := (writeOut waits l.held l.wire).unsent
    wire := (writeOut waits l.held l.wire).wire }, ?_, hwire⟩
  unfold spillOut
  simp only [hhalt]

theorem spill_takes (h : l.Takes n) : ∃ l', spill l = .ok () l' ∧ l'.Takes n := by
  obtain ⟨gone, l', he, hl'⟩ := spillOut_takes true h
  exact ⟨l', by rw [spill, Act.run_bind, he]; rfl, hl'⟩

theorem awaitRoom_takes (h : l.Takes n) (hn : 0 < n) :
    ∃ l', onWire Wire.awaitRoom l = .ok () l' ∧ l'.Takes n := by
  obtain ⟨w, hw, hw'⟩ := Wire.Takes.awaitRoom h (by omega)
  exact ⟨_, onWire_eq_ok.2 ⟨w, hw, rfl⟩, hw'⟩

theorem place_takes {capacity : Nat} (hheld : capacity ≤ (b :: bytes).length → l.held = [])
    (h : l.Takes ((b :: bytes).length + spare)) :
    ∃ k l', place capacity (b :: bytes) l = .ok (k + 1) l' ∧
      l'.Takes ((bytes.drop k).length + spare) := by
  unfold place
  by_cases hc : capacity ≤ (b :: bytes).length
  · rw [if_pos hc]
    unfold Takes at h
    rw [hheld hc, List.length_nil, Nat.zero_add] at h
    obtain ⟨k, w, he, -, hw⟩ := h.write
    refine ⟨k, _, onWire_eq_ok.2 ⟨w, he, rfl⟩, ?_⟩
    simp only [Takes, hheld hc, List.length_nil, Nat.zero_add]
    exact hw
  · rw [if_neg hc]
    refine ⟨bytes.length, { l with held := l.held ++ b :: bytes }, rfl, ?_⟩
    unfold Takes at h ⊢
    rwa [List.drop_length, List.length_nil, Nat.zero_add, List.length_append, Nat.add_assoc]

theorem buffer_takes (h : l.Takes ((b :: bytes).length + spare)) :
    ∃ k l', buffer (b :: bytes) l = .ok (k + 1) l' ∧
      l'.Takes ((bytes.drop k).length + spare) := by
  rw [buffer_eq, Act.run_bind, Act.run_get]
  by_cases hover : l.capacity < l.held.length + (b :: bytes).length
  · -- no room for them all: what is held goes first
    obtain ⟨l₁, hs, h₁⟩ := spill_takes h
    simp only [hover, if_true, Act.run_bind, hs]
    exact place_takes (fun _ => held_of_spill hs) h₁
  · -- bytes as many as the buffer's capacity fit only when nothing is held
    simp only [hover, if_false]
    exact place_takes (fun hc => List.eq_nil_of_length_eq_zero (by omega)) h

/-! ### Writes -/

/-- What comes of writing bytes where the stream takes them and `spare` more: it still takes those
that the answer leaves, or else they are **more than can be paid for**. -/
def Landed (spare : Nat) (bytes : Bytes) (rest : α → Bytes) (l : Link) :
    EStateM.Result (Halt IoError) Link α → Prop
  | .ok a l' => l'.Takes ((rest a).length + spare)
  | .error halt _ => halt = .failed (.overBudget .write) ∧ l.writeLeft.Exceeded bytes.length

theorem landed_ok {a : α} {l' : Link} :
    Landed spare bytes rest l (.ok a l') ↔ l'.Takes ((rest a).length + spare) := Iff.rfl

theorem landed_error {halt : Halt IoError} {l' : Link} :
    Landed spare bytes rest l (.error halt l') ↔
      halt = .failed (.overBudget .write) ∧ l.writeLeft.Exceeded bytes.length := Iff.rfl

/-- What is too much **after some bytes** is too much with them. -/
theorem Landed.bind (hwrites : Writes bytes rest act l) (hact : Landed spare bytes rest l (act l))
    (hf : ∀ a l', act l = .ok a l' → l'.Takes ((rest a).length + spare) →
      Landed spare (rest a) last l' (f a l')) :
    Landed spare bytes last l ((act >>= f) l) := by
  obtain ⟨front, hpassed, -, hall⟩ := hwrites
  rw [Act.run_bind]
  cases h : act l with
  | error halt l' =>
    rw [h] at hact
    exact hact
  | ok a l' =>
    rw [h] at hact
    rw [Act.leaves_of_ok h] at hpassed
    have hmore := hf a l' h hact
    simp only
    cases hfa : f a l' with
    | ok b l'' =>
      rw [hfa] at hmore
      exact hmore
    | error halt l'' =>
      rw [hfa] at hmore
      obtain ⟨hhalt, hover⟩ := hmore
      refine ⟨hhalt, ?_⟩
      rw [← hall a l' h, List.length_append]
      exact (Budget.exceeded_add hpassed.charged).1 hover

/-- An activity that writes nothing and **does not fail**. -/
theorem landed_of_ok {a : α} (h : act l = .ok a l₁) (ht : l₁.Takes ((rest a).length + spare)) :
    Landed spare bytes rest l (act l) := by
  rw [h]
  exact ht

/-- Bytes that are to be written **after these** are among those that the stream takes. -/
theorem Landed.before {result : EStateM.Result (Halt IoError) Link α}
    (h : Landed (extra.length + spare) bytes rest l result) :
    Landed spare (bytes ++ extra) (fun a => rest a ++ extra) l result := by
  cases result with
  | ok a l' =>
    rw [landed_ok] at h ⊢
    rwa [List.length_append, Nat.add_assoc]
  | error halt l' =>
    exact ⟨h.1, h.2.mono (by rw [List.length_append]; exact Nat.le_add_right _ _)⟩

/-- A write takes **at least a byte**, or is refused. -/
theorem write_landed (h : l.Takes ((b :: bytes).length + spare)) :
    Landed spare (b :: bytes) (fun n => (b :: bytes).drop n) l (write (b :: bytes) l) ∧
      ∀ l', write (b :: bytes) l ≠ .ok 0 l' := by
  cases hs : l.writeLeft.spend (b :: bytes).length with
  | none =>
    rw [write_of_poor hs, landed_error]
    refine ⟨⟨rfl, Budget.spend_eq_none.1 hs⟩, fun l' he => ?_⟩
    cases he
  | some left =>
    obtain ⟨k, l₁, he, h₁⟩ := buffer_takes h
    rw [write_of_solvent hs, he, landed_ok]
    refine ⟨h₁, fun l' he => ?_⟩
    cases he

/-- **All bytes** land, or are more than can be paid for. -/
theorem writeAll_landed (bytes : Bytes) (h : l.Takes (bytes.length + spare)) :
    Landed spare bytes (fun _ => []) l (writeAll bytes l) := by
  fun_induction writeAll bytes generalizing l with
  | case1 => exact h
  | case2 b rest ih =>
    obtain ⟨hwrite, hsome⟩ := write_landed h
    refine hwrite.bind (write_writes (b :: rest) l) fun n l' he h' => ?_
    cases n with
    | zero => exact absurd he (hsome l')
    | succ n => exact ih n h'

/-! ### Writes that do not wait -/

theorem makeWay_takes (begun : Bool) (count : Nat) (h : l.Takes n) :
    ∃ clear l', makeWay begun count l = .ok clear l' ∧ l'.Takes n := by
  unfold makeWay
  rw [Act.run_bind, Act.run_get]
  simp only [Act.run_ite]
  split
  · exact spillOut_takes false h
  · exact ⟨true, l, rfl, h⟩

/-- An offer takes at least a byte, **or nothing for want of room**, or is refused. -/
theorem offer_landed (begun : Bool) (h : l.Takes ((b :: bytes).length + spare)) :
    Landed spare (b :: bytes) (fun n => (b :: bytes).drop (n.getD 0)) l
        (offer begun (b :: bytes) l) ∧
      ∀ l', offer begun (b :: bytes) l ≠ .ok (some 0) l' := by
  unfold offer
  simp only [Act.run_bind, Act.run_get]
  cases hs : l.writeLeft.spend (b :: bytes).length with
  | none =>
    simp only [Act.run_throw, landed_error]
    refine ⟨⟨trivial, Budget.spend_eq_none.1 hs⟩, fun l' he => ?_⟩
    cases he
  | some left =>
    obtain ⟨clear, l₁, hway, h₁⟩ := makeWay_takes begun (b :: bytes).length h
    have hsame : l₁.writeLeft = l.writeLeft := by
      have hpassed := makeWay_passed begun (b :: bytes).length l
      rw [Act.leaves_of_ok hway] at hpassed
      exact hpassed.writeLeft_eq
    simp only [Act.run_bind, hway, Act.run_get]
    by_cases hgo : (clear && !(l₁.capacity ≤ (b :: bytes).length && l₁.wire.isFull)) = true
    · obtain ⟨hwrite, hsome⟩ := write_landed h₁
      simp only [hgo, if_true, Act.run_bind]
      cases hw : write (b :: bytes) l₁ with
      | ok n l' =>
        rw [hw, landed_ok] at hwrite
        refine ⟨hwrite, fun l'' he => ?_⟩
        cases he
        exact hsome _ hw
      | error halt l' =>
        rw [hw, landed_error, hsame] at hwrite
        refine ⟨hwrite, fun l'' he => ?_⟩
        cases he
    · simp only [hgo]
      refine ⟨h₁, fun l'' he => ?_⟩
      cases he

theorem offerAll_landed (begun : Bool) (bytes : Bytes) (h : l.Takes (bytes.length + spare)) :
    Landed spare bytes id l (offerAll begun bytes l) := by
  fun_induction offerAll begun bytes generalizing l with
  | case1 begun => exact h
  | case2 begun b rest ih =>
    obtain ⟨hoffer, hsome⟩ := offer_landed begun h
    refine hoffer.bind (offer_writes begun (b :: rest) l) fun n l' he h' => ?_
    cases n with
    | none => exact h'
    | some n =>
      cases n with
      | zero => exact absurd he (hsome l')
      | succ n => exact ih n h'

/-- Everything held is sent **without a failure**. -/
theorem send_of_takes (h : l.Takes n) : ∃ l', send l = .ok () l' := by
  obtain ⟨l₁, hs, h₁⟩ := spill_takes h
  obtain ⟨w', hflush⟩ := Wire.Takes.flush h₁
  refine ⟨{ l₁ with wire := w' }, ?_⟩
  simp only [send, Act.run_bind, hs, onWire, hflush]

end Link

end HttpEngine
