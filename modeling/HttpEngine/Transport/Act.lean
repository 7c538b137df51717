/-!
# Equations for stateful activities

An activity is a function from a state to an answer, or to a failure, and the state after it.
These equations run an activity one step, whatever its state and its failures are.

* `Act.leaves`: the state after an activity, whatever comes of it.
-/

namespace HttpEngine.Act

variable {ε σ α β : Type}

theorem run_pure (a : α) (s : σ) : (pure a : EStateM ε σ α) s = .ok a s := rfl

theorem run_bind (x : EStateM ε σ α) (f : α → EStateM ε σ β) (s : σ) :
    (x >>= f) s = match x s with
      | .ok a s => f a s
      | .error e s => .error e s := rfl

theorem run_get (s : σ) : (get : EStateM ε σ σ) s = .ok s s := rfl

theorem run_set (s s' : σ) : (set s' : EStateM ε σ PUnit) s = .ok ⟨⟩ s' := rfl

theorem run_modify (f : σ → σ) (s : σ) : (modify f : EStateM ε σ PUnit) s = .ok ⟨⟩ (f s) := rfl

theorem run_throw (e : ε) (s : σ) : (throw e : EStateM ε σ α) s = .error e s := rfl

theorem run_ite (c : Prop) [Decidable c] (x y : EStateM ε σ α) (s : σ) :
    (if c then x else y) s = if c then x s else y s := by
  split <;> rfl

theorem bind_of_ok {x : EStateM ε σ α} {f : α → EStateM ε σ β} {s s' : σ} {a : α}
    (h : x s = .ok a s') : (x >>= f) s = f a s' := by
  rw [run_bind, h]

theorem bind_of_error {x : EStateM ε σ α} {f : α → EStateM ε σ β} {s s' : σ} {e : ε}
    (h : x s = .error e s') : (x >>= f) s = .error e s' := by
  rw [run_bind, h]

/-- An answer that comes after another activity comes from that activity's answer. -/
theorem bind_eq_ok {x : EStateM ε σ α} {f : α → EStateM ε σ β} {s s'' : σ} {b : β} :
    (x >>= f) s = .ok b s'' ↔ ∃ a s', x s = .ok a s' ∧ f a s' = .ok b s'' := by
  rw [run_bind]
  cases x s with
  | error e s' => simp
  | ok a s' =>
    constructor
    · exact fun h => ⟨a, s', rfl, h⟩
    · rintro ⟨_, _, h, k⟩
      cases h
      exact k

/-- The state an activity leaves behind, **whatever comes of it**. -/
def leaves (act : EStateM ε σ α) (s : σ) : σ :=
  match act s with
  | .ok _ s' => s'
  | .error _ s' => s'

section

variable {act : EStateM ε σ α} {f : α → EStateM ε σ β} {s s' : σ} {a : α} {e : ε}

theorem leaves_of_ok (h : act s = .ok a s') : leaves act s = s' := by
  rw [leaves, h]

theorem leaves_of_error (h : act s = .error e s') : leaves act s = s' := by
  rw [leaves, h]

theorem leaves_bind_pure (act : EStateM ε σ α) (b : β) (s : σ) :
    leaves (act >>= fun _ => pure b) s = leaves act s := by
  simp only [leaves, run_bind]
  cases act s <;> rfl

/-- What happens from one state to another, as it happens **in an activity and then in what follows
its answer**. -/
theorem leaves_bind {R : σ → σ → Prop} (trans : ∀ {s₁ s₂ s₃}, R s₁ s₂ → R s₂ s₃ → R s₁ s₃)
    (hact : R s (leaves act s))
    (hf : ∀ a s', act s = .ok a s' → R s' (leaves (f a) s')) : R s (leaves (act >>= f) s) := by
  unfold leaves at hact ⊢
  rw [run_bind]
  cases h : act s with
  | error e s' => simpa only [h] using hact
  | ok a s' =>
    rw [h] at hact
    exact trans hact (hf a s' h)

end

end HttpEngine.Act
