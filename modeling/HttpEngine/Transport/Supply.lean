import HttpEngine.Transport.Act
import HttpEngine.Transport.Intake

/-!
# What is left to read

* `Link.available`: the bytes a link has not consumed, read ahead or still to come.
* `Link.available_readLine`: every line that is read leaves fewer of them.
-/

namespace HttpEngine

theorem Inbound.arrived_le (now room : Nat) (runs : List (Nat × Bytes)) :
    (arrived now room runs).1.length + ((arrived now room runs).2.flatMap (·.2)).length
      ≤ (runs.flatMap (·.2)).length := by
  induction runs generalizing room with
  | nil => simp [arrived]
  | cons r rest ih =>
    obtain ⟨time, bytes⟩ := r
    unfold arrived
    split
    · simp
    · split
      · simp only [List.length_take, List.flatMap_cons, List.length_append, List.length_drop]
        omega
      · have := ih (room - bytes.length)
        simp only [List.length_append, List.flatMap_cons]
        omega

/-- A read takes from what is still to come at least what it brings. -/
theorem Inbound.pending_take {now room : Nat} {i : Inbound} {bytes : Bytes}
    (h : (i.take now room).1 = .ok bytes) :
    bytes.length + (i.take now room).2.pending ≤ i.pending := by
  cases i with
  | peer runs ends =>
    simp only [take, Except.ok.injEq] at h
    subst h
    exact arrived_le now room runs
  | script s =>
    obtain ⟨pieces, hangs⟩ := s
    cases pieces with
    | nil =>
      cases hangs <;> simp_all [take, Script.read, pending, Script.pending]
    | cons p rest =>
      cases p with
      | failure cause => simp [take, Script.read] at h
      | data data =>
        by_cases hlt : room < data.length
        · simp only [take, Script.read, hlt, if_true, Except.ok.injEq] at h ⊢
          subst h
          simp only [pending, Script.pending, List.length_take, List.length_drop]
          omega
        · simp only [take, Script.read, hlt, if_false, Except.ok.injEq] at h ⊢
          subst h
          simp only [pending, Script.pending]
          omega

theorem Wire.inbound_waitFor {time : Option Nat} {w w' : Wire}
    (h : Wire.waitFor time w = .ok () w') : w'.inbound = w.inbound := by
  unfold Wire.waitFor at h
  split at h
  · split at h
    · cases h; rfl
    · split at h
      · cases h
      · cases h; rfl
  · cases h; rfl
  · cases h

theorem Wire.inbound_await {time : Option Nat} {w w' : Wire}
    (h : Wire.await time w = .ok () w') : w'.inbound = w.inbound := by
  unfold Wire.await at h
  split at h
  · cases h
  · have hw := Wire.inbound_waitFor h
    exact hw
  · exact Wire.inbound_waitFor h

theorem Wire.pending_read {room : Nat} {w w' : Wire} {bytes : Bytes}
    (h : Wire.read room w = .ok bytes w') :
    bytes.length + w'.inbound.pending ≤ w.inbound.pending := by
  unfold Wire.read at h
  obtain ⟨w₀, w₀', hg, h⟩ := Act.bind_eq_ok.1 h
  cases hg
  obtain ⟨u, w₁, ha, h⟩ := Act.bind_eq_ok.1 h
  have hi := Wire.inbound_await ha
  obtain ⟨w₂, w₂', hg, h⟩ := Act.bind_eq_ok.1 h
  cases hg
  have hp := @Inbound.pending_take w₁.clock room w₁.inbound
  cases ht : w₁.inbound.take w₁.clock room with
  | mk answer inbound =>
    simp only [ht] at h hp
    cases answer with
    | error cause => cases h
    | ok got =>
      cases h
      rw [← hi]
      exact hp rfl

theorem Wire.inbound_awaitRoom {w w' : Wire} (h : Wire.awaitRoom w = .ok () w') :
    w'.inbound = w.inbound := by
  unfold Wire.awaitRoom at h
  obtain ⟨w₀, w₀', hg, h⟩ := Act.bind_eq_ok.1 h
  cases hg
  exact Wire.inbound_await h

theorem Wire.inbound_write {bytes : Bytes} {n : Nat} {w w' : Wire}
    (h : Wire.write bytes w = .ok n w') : w'.inbound = w.inbound := by
  unfold Wire.write at h
  obtain ⟨u, w₁, ha, h⟩ := Act.bind_eq_ok.1 h
  have hi := Wire.inbound_awaitRoom ha
  obtain ⟨w₂, w₂', hg, h⟩ := Act.bind_eq_ok.1 h
  cases hg
  cases ht : w₁.outbound.accept w₁.clock bytes with
  | mk answer outbound =>
    simp only [ht] at h
    cases answer with
    | error cause => cases h
    | ok m =>
      by_cases hm : 0 < m
      · simp only [hm, if_true] at h
        cases h
        exact hi
      · simp only [hm, if_false] at h
        cases h
        exact hi

theorem Wire.inbound_flush {w w' : Wire} (h : Wire.flush w = .ok () w') :
    w'.inbound = w.inbound := by
  unfold Wire.flush at h
  obtain ⟨u, w₁, hs, h⟩ := Act.bind_eq_ok.1 h
  obtain ⟨w₀, w₀', hg, hs⟩ := Act.bind_eq_ok.1 hs
  cases hg
  have hi := Wire.inbound_await hs
  obtain ⟨w₂, w₂', hg, h⟩ := Act.bind_eq_ok.1 h
  cases hg
  cases hf : w₁.outbound.flush with
  | mk answer outbound =>
    simp only [hf] at h
    cases answer with
    | error cause => cases h
    | ok u =>
      cases h
      exact hi

namespace Link

/-- The bytes **not yet consumed**: those read ahead and those still to come. -/
def available (l : Link) : Nat := l.unread.length + l.wire.inbound.pending

theorem onWire_eq_ok {α : Type} {act : Wire.Act α} {l l' : Link} {a : α} :
    onWire act l = .ok a l' ↔ ∃ w, act l.wire = .ok a w ∧ l' = { l with wire := w } := by
  unfold onWire
  cases act l.wire with
  | ok b w =>
    constructor
    · intro h
      cases h
      exact ⟨w, rfl, rfl⟩
    · rintro ⟨w', h, rfl⟩
      cases h
      rfl
  | error e w => simp

theorem pending_read {room : Nat} {l l' : Link} {bytes : Bytes} (h : read room l = .ok bytes l') :
    bytes.length + l'.wire.inbound.pending ≤ l.wire.inbound.pending ∧ l'.unread = l.unread := by
  unfold read at h
  obtain ⟨got, l₁, hr, h⟩ := Act.bind_eq_ok.1 h
  obtain ⟨w, hw, rfl⟩ := onWire_eq_ok.1 hr
  obtain ⟨l₂, l₃, hg, h⟩ := Act.bind_eq_ok.1 h
  cases hg
  cases hs : l.readLeft.spend got.length with
  | none =>
    simp only [hs] at h
    cases h
  | some left =>
    simp only [hs] at h
    cases h
    exact ⟨Wire.pending_read hw, rfl⟩

theorem available_refill {retries : Nat} {l l' : Link} (hempty : l.unread = [])
    (h : refill retries l = .ok true l') : l'.available ≤ l.available ∧ l'.unread ≠ [] := by
  induction retries generalizing l with
  | zero =>
    unfold refill at h
    obtain ⟨l₀, l₀', hg, h⟩ := Act.bind_eq_ok.1 h
    cases hg
    obtain ⟨bytes, l₁, hr, h⟩ := Act.bind_eq_ok.1 h
    have hp := pending_read hr
    cases bytes with
    | nil => cases h
    | cons b bytes =>
      cases h
      simp only [available, hempty, List.length_nil, List.length_cons] at hp ⊢
      exact ⟨by omega, by simp⟩
  | succ n ih =>
    unfold refill at h
    obtain ⟨l₀, l₀', hg, h⟩ := Act.bind_eq_ok.1 h
    cases hg
    obtain ⟨bytes, l₁, hr, h⟩ := Act.bind_eq_ok.1 h
    have hp := pending_read hr
    cases bytes with
    | cons b bytes =>
      cases h
      simp only [available, hempty, List.length_nil, List.length_cons] at hp ⊢
      exact ⟨by omega, by simp⟩
    | nil =>
      obtain ⟨l₂, l₂', hg, h⟩ := Act.bind_eq_ok.1 h
      cases hg
      obtain ⟨u, l₃, hw, h⟩ := Act.bind_eq_ok.1 h
      obtain ⟨w, hp', rfl⟩ := onWire_eq_ok.1 hw
      have hi : w.inbound = l₁.wire.inbound := Wire.inbound_await hp'
      have := ih (by rw [hp.2, hempty]) h
      refine ⟨Nat.le_trans this.1 ?_, this.2⟩
      simp only [available, hi, hp.2, hempty]
      omega

theorem available_nextByte {l l' : Link} {b : UInt8} (h : nextByte l = .ok (some b) l') :
    l'.available < l.available := by
  unfold nextByte at h
  obtain ⟨l₀, l₀', hg, h⟩ := Act.bind_eq_ok.1 h
  cases hg
  cases hu : l.unread with
  | cons c rest =>
    simp only [hu, List.isEmpty_cons, Bool.false_eq_true, if_false] at h
    obtain ⟨l₁, l₁', hg, h⟩ := Act.bind_eq_ok.1 h
    cases hg
    simp only [hu] at h
    cases h
    simp [available, hu]
  | nil =>
    simp only [hu, List.isEmpty_nil, if_true] at h
    obtain ⟨l₁, l₁', hg, h⟩ := Act.bind_eq_ok.1 h
    cases hg
    obtain ⟨more, l₂, hr, h⟩ := Act.bind_eq_ok.1 h
    cases more with
    | false => cases h
    | true =>
      have ha := available_refill hu hr
      obtain ⟨l₃, l₃', hg, h⟩ := Act.bind_eq_ok.1 h
      cases hg
      cases hu₂ : l₂.unread with
      | nil => exact absurd hu₂ ha.2
      | cons c rest =>
        simp only [hu₂] at h
        cases h
        have := ha.1
        simp only [available, hu₂, List.length_cons] at this ⊢
        omega

theorem available_lineFrom {room : Nat} {soFar line : Bytes} {l l' : Link}
    (h : lineFrom room soFar l = .ok (some line) l') : l'.available < l.available := by
  induction room generalizing soFar l with
  | zero => cases h
  | succ room ih =>
    unfold lineFrom at h
    obtain ⟨b?, l₁, hb, h⟩ := Act.bind_eq_ok.1 h
    cases b? with
    | none => cases h
    | some b =>
      have ha := available_nextByte hb
      simp only at h
      split at h
      · cases h
        exact ha
      · exact Nat.lt_trans (ih h) ha

/-- **A line that is read is gone** from what is left to read. -/
theorem available_readLine {line : Bytes} {l l' : Link} (h : readLine l = .ok (some line) l') :
    l'.available < l.available :=
  available_lineFrom h

end Link

end HttpEngine
