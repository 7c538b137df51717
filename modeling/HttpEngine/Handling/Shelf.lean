/-!
# Typed slots

A shelf holds **at most one value per slot**, and the slot says what type its value has.

* `insert` hands back the value it displaces, `remove` the one it takes away.
* `update` changes a value that is there and does nothing to an empty slot.
-/

namespace HttpEngine

/-- Values by slot. -/
structure Shelf {κ : Type} (V : κ → Type) where
  entries : List ((k : κ) × V k) := []

namespace Shelf

variable {κ : Type} [DecidableEq κ] {V : κ → Type}

/-- The value in a slot, among these entries. -/
def find? (k : κ) : List ((k : κ) × V k) → Option (V k)
  | [] => none
  | ⟨j, v⟩ :: rest => if h : j = k then some (h ▸ v) else find? k rest

/-- The value in a slot. -/
def get? (s : Shelf V) (k : κ) : Option (V k) := find? k s.entries

/-- The shelf with a slot emptied. -/
def erase (s : Shelf V) (k : κ) : Shelf V := ⟨s.entries.filter fun e => e.1 ≠ k⟩

/-- The shelf with a slot filled. -/
def put (s : Shelf V) (k : κ) (v : V k) : Shelf V := ⟨⟨k, v⟩ :: (s.erase k).entries⟩

/-- Fill a slot and hand back **what was in it**. -/
def insert (s : Shelf V) (k : κ) (v : V k) : Option (V k) × Shelf V := (s.get? k, s.put k v)

/-- Empty a slot and hand back what was in it. -/
def remove (s : Shelf V) (k : κ) : Option (V k) × Shelf V := (s.get? k, s.erase k)

/-- Change the value in a slot, **if there is one**, and hand back the new one. -/
def update (s : Shelf V) (k : κ) (f : V k → V k) : Option (V k) × Shelf V :=
  match s.get? k with
  | some v => (some (f v), s.put k (f v))
  | none => (none, s)

omit [DecidableEq κ] in
/-- The number of slots that are filled. -/
def size (s : Shelf V) : Nat := s.entries.length

theorem find?_filter_self (k : κ) (entries : List ((k : κ) × V k)) :
    find? k (entries.filter fun e => e.1 ≠ k) = none := by
  induction entries with
  | nil => rfl
  | cons e rest ih =>
    by_cases h : e.1 = k
    · simpa [List.filter_cons, h] using ih
    · simp only [List.filter_cons, h, ne_eq, not_false_eq_true, decide_true, if_true]
      simpa [find?, h] using ih

theorem find?_filter_of_ne {j k : κ} (hjk : j ≠ k) (entries : List ((k : κ) × V k)) :
    find? j (entries.filter fun e => e.1 ≠ k) = find? j entries := by
  induction entries with
  | nil => rfl
  | cons e rest ih =>
    obtain ⟨i, v⟩ := e
    by_cases h : i = k
    · subst h
      simpa [List.filter_cons, find?, Ne.symm hjk] using ih
    · simp only [List.filter_cons, h, ne_eq, not_false_eq_true, decide_true, if_true]
      by_cases hij : i = j
      · subst hij
        simp [find?]
      · simpa [find?, hij] using ih

/-- An emptied slot is empty. -/
@[simp] theorem get?_erase_self (s : Shelf V) (k : κ) : (s.erase k).get? k = none :=
  find?_filter_self k s.entries

/-- A filled slot holds what was put there. -/
@[simp] theorem get?_put_self (s : Shelf V) (k : κ) (v : V k) : (s.put k v).get? k = some v := by
  simp [get?, put, find?]

/-- Filling a slot leaves the others alone. -/
theorem get?_put_of_ne {j k : κ} (h : j ≠ k) (s : Shelf V) (v : V k) :
    (s.put k v).get? j = s.get? j := by
  simp only [get?, put, find?, Ne.symm h, dif_neg, not_false_eq_true]
  exact find?_filter_of_ne h s.entries

end Shelf

end HttpEngine
