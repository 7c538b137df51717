import HttpEngine.Transport.Act
import HttpEngine.Transport.Wire

/-!
# What reads and writes add to the journal

* `Wire.journal_await`: a wait adds nothing.
* `Wire.read_transfers`, `Wire.write_transfers`: a read or a write adds **what was done to the
  stream**, and nothing else.
-/

namespace HttpEngine.Wire

/-- A wait leaves the journal alone. -/
theorem journal_waitFor (time : Option Nat) (w : Wire) :
    (Act.leaves (waitFor time) w).journal = w.journal := by
  unfold Act.leaves waitFor
  cases time with
  | none => rfl
  | some t =>
    cases w.deadline with
    | none => rfl
    | some d =>
      by_cases hpast : t ≤ w.clock
      · simp only [hpast, if_true]
      · by_cases hlate : d ≤ t <;> simp only [hpast, hlate, if_true, if_false]

theorem journal_await (time : Option Nat) (w : Wire) :
    (Act.leaves (await time) w).journal = w.journal := by
  have hwait : ∀ w' : Wire, w'.journal = w.journal → await time w = waitFor time w' →
      (Act.leaves (await time) w).journal = w.journal := by
    intro w' hj he
    have := journal_waitFor time w'
    unfold Act.leaves at this ⊢
    rw [he, this, hj]
  cases hp : w.patience with
  | none => exact hwait w rfl (by simp only [await, hp])
  | some n =>
    cases n with
    | zero => rw [Act.leaves_of_error (show await time w = .error .cut w by simp only [await, hp])]
    | succ n => exact hwait { w with patience := some n } rfl (by simp only [await, hp])

theorem journal_step (w : Wire) : (Act.leaves step w).journal = w.journal :=
  journal_await (some w.clock) w

/-- What comes of a wait, **with the journal as it was**. -/
theorem await_cases (time : Option Nat) (w : Wire) :
    (∃ w', await time w = .ok () w' ∧ w'.journal = w.journal) ∨
      ∃ halt w', await time w = .error halt w' ∧ w'.journal = w.journal := by
  have hjournal := journal_await time w
  cases h : await time w with
  | ok u w' => exact .inl ⟨w', rfl, by rwa [Act.leaves_of_ok h] at hjournal⟩
  | error halt w' => exact .inr ⟨halt, w', rfl, by rwa [Act.leaves_of_error h] at hjournal⟩

theorem read_transfers (room : Nat) (w : Wire) :
    w.journal.Grows Event.isTransfer (Act.leaves (read room) w).journal := by
  unfold read
  rcases await_cases (w.inbound.readyAt w.clock) w with ⟨w', hw, hj⟩ | ⟨halt, w', hw, hj⟩
  · cases ha : w'.inbound.take w'.clock room with
    | mk answer inbound =>
      simp only [Act.leaves, Act.run_bind, Act.run_get, hw, ha]
      cases answer <;> exact hj ▸ Journal.grows_cons rfl
  · simp only [Act.leaves, Act.run_bind, Act.run_get, hw]
    exact hj ▸ .refl _

theorem write_transfers (bytes : Bytes) (w : Wire) :
    w.journal.Grows Event.isTransfer (Act.leaves (write bytes) w).journal := by
  unfold write awaitRoom
  rcases await_cases (w.outbound.readyAt w.clock) w with ⟨w', hw, hj⟩ | ⟨halt, w', hw, hj⟩
  · cases ha : w'.outbound.accept w'.clock bytes with
    | mk answer outbound =>
      simp only [Act.leaves, Act.run_bind, Act.run_get, hw, ha]
      cases answer with
      | error cause => exact hj ▸ Journal.grows_cons rfl
      | ok n =>
        by_cases hn : 0 < n
        · simp only [hn, if_true]
          exact hj ▸ Journal.grows_cons rfl
        · simp only [hn, if_false]
          exact hj ▸ .refl _
  · simp only [Act.leaves, Act.run_bind, Act.run_get, hw]
    exact hj ▸ .refl _

end HttpEngine.Wire
