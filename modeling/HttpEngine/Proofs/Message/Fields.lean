import HttpEngine.Message.Headers
import HttpEngine.Message.Reception

/-!
# Names and values of a request

* `Headers.get?_insert_of_same`, `Headers.get?_insert_of_not_same`: a name has the value inserted
  under it, and no other name is touched.
* `Headers.get?_collapsed`: of several values sent under a name **the last one counts**.
* `Headers.entries_collapsed`: names that differ are all kept.
* `Method.ofName?_eq_some_iff`: the names of a method.
* `MethodCache.provide_of_sound`: a cache of method names answers as if there were none.
-/

namespace HttpEngine

open Text

theorem Text.not_sameName_of_sameName {a b c : String} (h : sameName a b = true)
    (k : sameName b c = false) : sameName a c = false := by
  rw [Bool.eq_false_iff]
  intro hc
  rw [sameName_comm] at h
  exact absurd (sameName_trans h hc) (by simp [k])

namespace Named

variable {α : Type}

theorem find?_without_of_not_same {name other : String} (h : sameName name other = false)
    (entries : List (String × α)) : find? other (without name entries) = find? other entries := by
  induction entries with
  | nil => rfl
  | cons e rest ih =>
    by_cases hk : sameName e.1 name = true
    · have hko := not_sameName_of_sameName hk h
      simp only [without, List.filter_cons, hk] at ih ⊢
      simpa [find?_cons, hko] using ih
    · simp only [without, List.filter_cons, hk] at ih ⊢
      simp [find?_cons, ih]

theorem find?_congr {name other : String} (h : sameName name other = true)
    (entries : List (String × α)) : find? name entries = find? other entries := by
  induction entries with
  | nil => rfl
  | cons e rest ih =>
    have he : sameName e.1 name = sameName e.1 other := by
      rw [Bool.eq_iff_iff]
      constructor
      · exact fun hn => sameName_trans hn h
      · rw [sameName_comm] at h
        exact fun ho => sameName_trans ho h
    simp [find?_cons, he, ih]

end Named

namespace Headers

theorem find?_insertEntry_self (name value : String) (entries : List (String × String)) :
    Named.find? name (insertEntry name value entries) = some value := by
  induction entries with
  | nil => simp [insertEntry, Named.find?_cons]
  | cons e rest ih =>
    by_cases hk : sameName e.1 name = true
    · simp [insertEntry, hk, Named.find?_cons]
    · simp [insertEntry, hk, Named.find?_cons, ih]

theorem find?_insertEntry_of_not_same {name other : String} (h : sameName name other = false)
    (value : String) (entries : List (String × String)) :
    Named.find? other (insertEntry name value entries) = Named.find? other entries := by
  induction entries with
  | nil => simp [insertEntry, Named.find?_cons, h]
  | cons e rest ih =>
    by_cases hk : sameName e.1 name = true
    · -- the entry is replaced and its other spellings dropped, none of which is `other`
      have hko := not_sameName_of_sameName hk h
      simp [insertEntry, hk, Named.find?_cons, hko, Named.find?_without_of_not_same h]
    · simp [insertEntry, hk, Named.find?_cons, ih]

/-- The value just inserted is **the value under the name**, however the name is spelled. -/
theorem get?_insert_of_same {name other : String} (hs : sameName name other = true) (h : Headers)
    (value : String) : (h.insert name value).get? other = some value := by
  unfold get?
  rw [← Named.find?_congr hs]
  exact find?_insertEntry_self name value h.entries

theorem get?_insert_of_not_same {name other : String} (hs : sameName name other = false)
    (h : Headers) (value : String) : (h.insert name value).get? other = h.get? other :=
  find?_insertEntry_of_not_same hs value h.entries

/-- The headers that lines with these names and values leave behind. -/
def collapsed (fields : List (String × String)) : Headers :=
  fields.foldl (fun h f => h.insert f.1 f.2) {}

end Headers

/-- The value **sent last** under a name. -/
def lastValue? (name : String) (fields : List (String × String)) : Option String :=
  (fields.reverse.find? fun f => sameName f.1 name).map (·.2)

theorem lastValue?_cons (name : String) (f : String × String) (fields : List (String × String)) :
    lastValue? name (f :: fields)
      = (lastValue? name fields).or (if sameName f.1 name then some f.2 else none) := by
  unfold lastValue?
  rw [List.reverse_cons, List.find?_append, List.find?_singleton]
  cases fields.reverse.find? fun f => sameName f.1 name with
  | some g => rfl
  | none => by_cases h : sameName f.1 name = true <;> simp [h]

namespace Headers

theorem get?_foldl_insert (name : String) (fields : List (String × String)) (h : Headers) :
    (fields.foldl (fun h f => h.insert f.1 f.2) h).get? name
      = (lastValue? name fields).or (h.get? name) := by
  induction fields generalizing h with
  | nil => rfl
  | cons f fields ih =>
    rw [List.foldl_cons, ih, lastValue?_cons]
    cases lastValue? name fields with
    | some v => rfl
    | none =>
      by_cases hs : sameName f.1 name = true
      · simp [hs, get?_insert_of_same hs]
      · simp [hs, get?_insert_of_not_same (Bool.eq_false_iff.2 hs)]

/-- Of several values sent under a name **the last one counts**. -/
theorem get?_collapsed (name : String) (fields : List (String × String)) :
    (collapsed fields).get? name = lastValue? name fields := by
  unfold collapsed
  rw [get?_foldl_insert]
  cases lastValue? name fields <;> rfl

theorem insertEntry_of_fresh {name : String} (value : String) {entries : List (String × String)}
    (h : ∀ e ∈ entries, sameName e.1 name = false) :
    insertEntry name value entries = entries ++ [(name, value)] := by
  induction entries with
  | nil => rfl
  | cons e rest ih =>
    obtain ⟨k, v⟩ := e
    have hk : sameName k name = false := h (k, v) List.mem_cons_self
    simp [insertEntry, hk, ih fun e he => h e (List.mem_cons_of_mem _ he)]

/-- Names that differ ignoring case are all kept, **in their order and spelling**. -/
theorem entries_collapsed {fields : List (String × String)}
    (h : fields.Pairwise fun f g => sameName f.1 g.1 = false) :
    (collapsed fields).entries = fields := by
  -- generalised over the headers already there
  have general : ∀ (fields done : List (String × String)),
      (done ++ fields).Pairwise (fun f g => sameName f.1 g.1 = false) →
      (fields.foldl (fun h f => h.insert f.1 f.2) ⟨done⟩ : Headers).entries = done ++ fields := by
    intro fields
    induction fields with
    | nil => intro done _; simp
    | cons f fields ih =>
      intro done hp
      have hf : ∀ e ∈ done, sameName e.1 f.1 = false := fun e he =>
        (List.pairwise_append.1 hp).2.2 e he f List.mem_cons_self
      have := ih (done ++ [f]) (by simpa using hp)
      simpa [insert, insertEntry_of_fresh f.2 hf] using this
  exact general fields [] (by simpa using h)

end Headers

/-! ### Names of methods -/

theorem Method.eq_of_sameName {m k : Method} (h : sameName m.token k.token = true) : m = k := by
  revert h
  cases m <;> cases k <;> decide

/-- A name stands for the method **whose token it is**, in any case of its letters. -/
theorem Method.ofName?_eq_some_iff {name : String} {m : Method} :
    Method.ofName? name = some m ↔ sameName m.token name = true := by
  constructor
  · intro h
    unfold Method.ofName? at h
    have hm := List.find?_some h
    exact hm
  · intro h
    unfold Method.ofName?
    cases hf : Method.all.find? fun k => sameName k.token name with
    | none =>
      have := List.find?_eq_none.1 hf m (by cases m <;> decide)
      exact absurd h this
    | some k =>
      have hk := List.find?_some hf
      rw [sameName_comm] at hk
      rw [← eq_of_sameName (sameName_trans h hk)]

theorem Method.ofName_eq_ok {name : String} {m : Method} :
    Method.ofName name = .ok m ↔ Method.ofName? name = some m := by
  unfold Method.ofName
  cases Method.ofName? name <;> simp

theorem Method.ofName_of_none {name : String} (h : Method.ofName? name = none) :
    Method.ofName name = .error (.unknownMethod name) := by
  unfold Method.ofName
  rw [h]

namespace MethodCache

/-- A cache in which every name stands for the method it names. -/
def Sound (cache : MethodCache) : Prop :=
  ∀ name m, cache.find? name = some m → Method.ofName? name = some m

theorem sound_empty : empty.Sound := fun name m h => by simp [find?, empty] at h

theorem Sound.concat {cache : MethodCache} (h : cache.Sound) {name : String} {m : Method}
    (hm : Method.ofName? name = some m) : Sound ⟨cache.entries ++ [(name, m)]⟩ := by
  intro other k hk
  simp only [find?, List.lookup_append] at hk
  -- what was kept before is found first
  cases hc : cache.entries.lookup other with
  | some kept =>
    rw [hc] at hk
    cases hk
    exact h other _ hc
  | none =>
    rw [hc] at hk
    by_cases ho : other = name
    · subst ho
      simp only [List.lookup_cons, beq_self_eq_true, Option.none_or, Option.some.injEq] at hk
      rw [hm, hk]
    · have hb : (other == name) = false := by simpa using ho
      simp [List.lookup_cons, hb] at hk

/-- A sound cache **answers as if there were none**, and stays sound. -/
theorem provide_of_sound {cache : MethodCache} (h : cache.Sound) (name : String) :
    (cache.provide name).1 = Method.ofName name ∧ (cache.provide name).2.Sound := by
  unfold provide
  cases hf : cache.find? name with
  | some m =>
    have := h name m hf
    exact ⟨by simp [Method.ofName, this], h⟩
  | none =>
    cases ho : Method.ofName name with
    | error e => exact ⟨rfl, h⟩
    | ok m =>
      simp only [keep, hf]
      exact ⟨trivial, h.concat (Method.ofName_eq_ok.1 ho)⟩

/-- The cache after these names were looked up. -/
def after (names : List String) : MethodCache :=
  names.foldl (fun cache name => (cache.provide name).2) empty

theorem sound_after (names : List String) : (after names).Sound := by
  have general : ∀ (names : List String) (cache : MethodCache), cache.Sound →
      (names.foldl (fun cache name => (cache.provide name).2) cache).Sound := by
    intro names
    induction names with
    | nil => exact fun _ h => h
    | cons name names ih => exact fun cache h => ih _ (provide_of_sound h name).2
  exact general names empty sound_empty

end MethodCache

end HttpEngine
