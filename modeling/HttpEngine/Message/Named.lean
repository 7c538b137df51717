import HttpEngine.Text.Case

/-!
# Lists of named entries

An ordered list of entries whose names are compared ignoring ASCII case.

* `find?`: the first entry under a name.
* `put`: change the first entry under a name in place, keeping its spelling, or add one at
  the end.
* `without`: drop every entry under a name.
-/

namespace HttpEngine.Named

open Text

variable {α : Type}

/-- The value of the **first** entry under `name`. -/
def find? (name : String) : List (String × α) → Option α
  | [] => none
  | (k, v) :: rest => if sameName k name then some v else find? name rest

/-- Give the first entry under `name` a new value **in place**, or add one at the end. -/
def put (name : String) (value : α) : List (String × α) → List (String × α)
  | [] => [(name, value)]
  | (k, v) :: rest =>
    if sameName k name then (k, value) :: rest else (k, v) :: put name value rest

/-- Drop **every** entry under `name`. -/
def without (name : String) (entries : List (String × α)) : List (String × α) :=
  entries.filter fun e => !sameName e.1 name

@[simp] theorem find?_nil (name : String) : find? name ([] : List (String × α)) = none := rfl

theorem find?_cons (name : String) (e : String × α) (rest : List (String × α)) :
    find? name (e :: rest) = if sameName e.1 name then some e.2 else find? name rest := rfl

/-- After `put`, the value under the name is the one put there. -/
theorem find?_put_self (name : String) (value : α) (entries : List (String × α)) :
    find? name (put name value entries) = some value := by
  induction entries with
  | nil => simp [put, find?_cons]
  | cons e rest ih =>
    obtain ⟨k, v⟩ := e
    by_cases h : sameName k name = true
    · simp [put, h, find?_cons]
    · simp [put, h, find?_cons, ih]

/-- `put` leaves the values under all other names alone. -/
theorem find?_put_of_not_same {name other : String} (h : sameName name other = false)
    (value : α) (entries : List (String × α)) :
    find? other (put name value entries) = find? other entries := by
  induction entries with
  | nil => simp [put, find?_cons, h]
  | cons e rest ih =>
    obtain ⟨k, v⟩ := e
    by_cases hk : sameName k name = true
    · have hko : sameName k other = false := by
        cases hs : sameName k other with
        | false => rfl
        | true =>
          rw [sameName_comm] at hk
          exact absurd (sameName_trans hk hs) (by simp [h])
      simp [put, hk, find?_cons, hko]
    · simp [put, hk, find?_cons, ih]

@[simp] theorem find?_without_self (name : String) (entries : List (String × α)) :
    find? name (without name entries) = none := by
  induction entries with
  | nil => rfl
  | cons e rest ih =>
    by_cases h : sameName e.1 name = true
    · simpa [without, h] using ih
    · simp only [without, List.filter_cons, h] at ih ⊢
      simpa [find?_cons, h] using ih

end HttpEngine.Named
