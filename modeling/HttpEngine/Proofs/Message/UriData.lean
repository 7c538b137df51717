import HttpEngine.Proofs.Message.Views
import HttpEngine.Proofs.Text.FormCode

/-!
# Parameter sets written and read back

A set that was read from a text and then changed has keys that differ pairwise, ASCII case ignored,
so no two of them are taken for one when the set is written and read again. What is read back is
the set itself, its keys without a value **having the empty one**.

* `Params.Distinct`: keys that differ pairwise; kept by `Distinct.changed`.
* `Params.lookup_changed`, `Params.lookup_parse`: a key after changes, and in a text.
* `Params.parse_uriData`: a set with such keys, written and read back.
* `Params.parse_uriData_changed`: the same for every set that can be had.
-/

namespace HttpEngine

open Text

/-! ### Entries under different names -/

namespace Named

variable {α : Type} {name : String} {value : α} {entries : List (String × α)}

/-- Entries whose names **differ pairwise**, ASCII case ignored. -/
def Distinct (entries : List (String × α)) : Prop :=
  entries.Pairwise fun e f => sameName e.1 f.1 = false

/-- No name comes in but the one that something is put under. -/
theorem name_of_mem_put {e : String × α} (h : e ∈ put name value entries) :
    e.1 = name ∨ ∃ f ∈ entries, f.1 = e.1 := by
  induction entries with
  | nil => exact .inl (congrArg Prod.fst (List.mem_singleton.1 h))
  | cons f rest ih =>
    obtain ⟨k, v⟩ := f
    by_cases hk : sameName k name = true
    · rw [put, if_pos hk] at h
      rcases List.mem_cons.1 h with rfl | h
      · exact .inr ⟨(k, v), List.mem_cons_self, rfl⟩
      · exact .inr ⟨e, List.mem_cons_of_mem _ h, rfl⟩
    · rw [put, if_neg hk] at h
      rcases List.mem_cons.1 h with rfl | h
      · exact .inr ⟨(k, v), List.mem_cons_self, rfl⟩
      · rcases ih h with hname | ⟨f, hf, hname⟩
        · exact .inl hname
        · exact .inr ⟨f, List.mem_cons_of_mem _ hf, hname⟩

theorem Distinct.put (h : Distinct entries) (name : String) (value : α) :
    Distinct (put name value entries) := by
  induction entries with
  | nil => exact List.pairwise_singleton _ _
  | cons e rest ih =>
    obtain ⟨k, v⟩ := e
    obtain ⟨hfirst, hrest⟩ := List.pairwise_cons.1 h
    by_cases hk : sameName k name = true
    · rw [Named.put, if_pos hk]
      exact List.pairwise_cons.2 ⟨hfirst, hrest⟩
    · rw [Named.put, if_neg hk]
      refine List.pairwise_cons.2 ⟨fun f hf => ?_, ih hrest⟩
      rcases name_of_mem_put hf with hname | ⟨g, hg, hname⟩
      · exact hname ▸ Bool.eq_false_iff.2 hk
      · exact hname ▸ hfirst g hg

/-- What is put under a **new name** comes last. -/
theorem put_of_fresh (h : ∀ e ∈ entries, sameName e.1 name = false) :
    put name value entries = entries ++ [(name, value)] := by
  induction entries with
  | nil => rfl
  | cons e rest ih =>
    obtain ⟨k, v⟩ := e
    obtain ⟨hk, hrest⟩ := List.forall_mem_cons.1 h
    rw [put, if_neg (Bool.eq_false_iff.1 hk), ih hrest, List.cons_append]

/-- Entries under different names come behind those that are there, **each as it is**. -/
theorem foldl_put_of_distinct {added : List (String × α)} (h : Distinct (entries ++ added)) :
    added.foldl (fun es e => put e.1 e.2 es) entries = entries ++ added := by
  induction added generalizing entries with
  | nil => exact (List.append_nil entries).symm
  | cons e added ih =>
    have hfresh : ∀ f ∈ entries, sameName f.1 e.1 = false := by
      intro f hf
      exact (List.pairwise_append.1 h).2.2 f hf e List.mem_cons_self
    rw [List.append_cons] at h ⊢
    rw [List.foldl_cons, put_of_fresh hfresh, ih h]

end Named

namespace Params

variable {p : Params}

/-- Keys that **differ pairwise**, ASCII case ignored. -/
def Distinct (p : Params) : Prop := Named.Distinct p.entries

/-- A set with these changes made to it, **the first one first**. -/
def changed (p : Params) (changes : List (String × Option String)) : Params :=
  changes.foldl (fun p e => p.set e.1 e.2) p

theorem Distinct.changed (h : p.Distinct) (changes : List (String × Option String)) :
    (p.changed changes).Distinct := by
  induction changes generalizing p with
  | nil => exact h
  | cons e changes ih => exact ih (Named.Distinct.put h e.1 e.2)

theorem entries_changed (p : Params) (changes : List (String × Option String)) :
    (p.changed changes).entries
      = changes.foldl (fun es e => Named.put e.1 e.2 es) p.entries := by
  induction changes generalizing p with
  | nil => rfl
  | cons e changes ih => exact ih (p.set e.1 e.2)

/-- A text gives a set by **changes to the empty one**. -/
theorem parse_eq_changed (text : String) :
    parse text = empty.changed (((pieces '&' text.toList).filter (!·.isEmpty)).map pairOf) := by
  unfold parse changed
  rw [List.foldl_map]

theorem distinct_parse (text : String) : (parse text).Distinct := by
  rw [parse_eq_changed]
  exact Distinct.changed List.Pairwise.nil _

/-- The set in which every key **has a value**, the empty one where it had none. -/
def valued (p : Params) : Params := ⟨p.entries.map fun e => (e.1, some (e.2.getD ""))⟩

theorem Distinct.valued (h : p.Distinct) : p.valued.Distinct := List.pairwise_map.2 h

/-- The empty value is **written as no value is**. -/
theorem uriData_valued (p : Params) : p.valued.uriData = p.uriData := by
  unfold uriData Params.valued
  rw [List.map_map]
  rfl

/-! ### The last pair with a key -/

/-- The keys and values that a text is read as, **repeated keys too**. -/
def pairsIn (text : String) : List (String × Option String) :=
  ((pieces '&' text.toList).filter (!·.isEmpty)).map pairOf

/-- What the **last** of some pairs says of a key: nothing where none has it. -/
def lastOf? (key : String) (pairs : List (String × Option String)) : Option (Option String) :=
  (pairs.reverse.find? (sameName ·.1 key)).map (·.2)

variable {key : String} {front back : List (String × Option String)}

theorem lastOf?_append (key : String) (front back : List (String × Option String)) :
    lastOf? key (front ++ back) = (lastOf? key back).or (lastOf? key front) := by
  rw [lastOf?, List.reverse_append, List.find?_append]
  unfold lastOf?
  cases back.reverse.find? (sameName ·.1 key) <;> rfl

/-- A key has what **the last change** to it gave it, or else what it had. -/
theorem lookup_changed (p : Params) (changes : List (String × Option String)) (key : String) :
    (p.changed changes).lookup key = (lastOf? key changes).or (p.lookup key) := by
  induction changes using List.reverseRecOn with
  | nil => rfl
  | append_singleton changes e ih =>
    have hlast : (p.changed (changes ++ [e])).lookup key
        = ((p.changed changes).set e.1 e.2).lookup key := by
      rw [changed, List.foldl_append]
      rfl
    rw [hlast, lookup_set, ih, lastOf?_append]
    by_cases hkey : sameName e.1 key = true
    · have hone : lastOf? key [e] = some e.2 := by simp [lastOf?, hkey]
      rw [if_pos hkey, hone]
      rfl
    · have hone : lastOf? key [e] = none := by simp [lastOf?, hkey]
      rw [if_neg hkey, hone, Option.none_or]

theorem lookup_parse (text key : String) :
    (parse text).lookup key = lastOf? key (pairsIn text) := by
  have hpairs : parse text = empty.changed (pairsIn text) := parse_eq_changed text
  rw [hpairs, lookup_changed]
  exact Option.or_none

/-! ### Pairs -/

theorem decode_formEncode (s : String) :
    decode (utf8 (String.ofList (formEncode s).toList)) = s := by
  rw [decode, String.ofList_toList, formDecode_formEncode, Utf8.lossy_utf8]

theorem toList_pairData (e : String × Option String) :
    (pairData e).toList = (formEncode e.1).toList ++ '=' :: (formEncode (e.2.getD "")).toList := by
  rw [pairData, String.toList_append, String.toList_append, List.append_assoc]
  rfl

/-- A pair that is written **is read back**. -/
theorem pairOf_pairData (e : String × Option String) :
    pairOf (pairData e).toList = (e.1, some (e.2.getD "")) := by
  have hkey : '=' ∉ (formEncode e.1).toList := (formWritten_formEncode e.1).unseparated.2
  rw [pairOf, cut_utf8, cut_eq_some_iff.2 ⟨toList_pairData e, hkey⟩]
  simp only [Option.map_some, decode_formEncode]

theorem ampersand_not_mem_pairData (e : String × Option String) : '&' ∉ (pairData e).toList := by
  rw [toList_pairData, List.mem_append, List.mem_cons]
  rintro (hkey | hequals | hvalue)
  · exact (formWritten_formEncode _).unseparated.1 hkey
  · exact absurd hequals (by decide)
  · exact (formWritten_formEncode _).unseparated.1 hvalue

/-! ### Sets -/

/-- The pieces of a set that is written **are its pairs**. -/
theorem pieces_uriData (p : Params) :
    (pieces '&' p.uriData.toList).filter (!·.isEmpty)
      = p.entries.map fun e => (pairData e).toList := by
  obtain ⟨entries⟩ := p
  by_cases hne : entries = []
  · subst hne
    rfl
  · have hparts : pieces '&' (uriData ⟨entries⟩).toList
        = entries.map fun e => (pairData e).toList := by
      rw [uriData, String.toList_intercalate, List.map_map]
      refine pieces_intercalate (mt List.map_eq_nil_iff.1 hne) fun part hpart => ?_
      obtain ⟨e, -, rfl⟩ := List.mem_map.1 hpart
      exact ampersand_not_mem_pairData e
    rw [hparts]
    refine List.filter_eq_self.2 fun part hpart => ?_
    obtain ⟨e, -, rfl⟩ := List.mem_map.1 hpart
    have hfilled : (pairData e).toList ≠ [] := by
      rw [toList_pairData]
      exact List.append_ne_nil_of_right_ne_nil _ (List.cons_ne_nil _ _)
    rw [List.isEmpty_eq_false_iff.2 hfilled]
    rfl

/-- A set whose keys differ is read back **with every key, its spelling, its place and its value**. -/
theorem parse_uriData (h : p.Distinct) : parse p.uriData = p.valued := by
  have hpairs : (p.entries.map fun e => (pairData e).toList).map pairOf = p.valued.entries := by
    simp only [List.map_map, Function.comp_def, pairOf_pairData]
    rfl
  have hdistinct : Named.Distinct ([] ++ p.valued.entries) := h.valued
  have hentries : (empty.changed p.valued.entries).entries = p.valued.entries :=
    (entries_changed empty _).trans (Named.foldl_put_of_distinct hdistinct)
  rw [parse_eq_changed, pieces_uriData, hpairs]
  exact congrArg Params.mk hentries

/-- **Every set that can be had**, from a text and any changes to it. Of each key it has what the last
pair with it says, among those in the text and the changes after them, and it has no other. Its keys
differ pairwise, ASCII case ignored. Written and read back it has the same keys in the same spelling and
order with the same values, the empty one where there was none; to write and read it once more changes
nothing. What is written is how the texts are written in a form, and a component that is read is taken
for what it stands for in one. -/
theorem parse_uriData_changed (text : String) (changes : List (String × Option String)) :
    (∀ key, ((parse text).changed changes).lookup key = lastOf? key (pairsIn text ++ changes)) ∧
    (((parse text).changed changes).entries.Pairwise fun e f => sameName e.1 f.1 = false) ∧
    (parse ((parse text).changed changes).uriData).entries
      = ((parse text).changed changes).entries.map (fun e => (e.1, some (e.2.getD ""))) ∧
    (parse ((parse text).changed changes).uriData).uriData
      = ((parse text).changed changes).uriData ∧
    parse (parse ((parse text).changed changes).uriData).uriData
      = parse ((parse text).changed changes).uriData ∧
    (∀ s, FormWritten (utf8 s) (formEncode s).toList) ∧
    ∀ component bytes, formDecode component = bytes ↔ FormRead component bytes := by
  have hlookup : ∀ key, ((parse text).changed changes).lookup key
      = lastOf? key (pairsIn text ++ changes) := by
    intro key
    rw [lookup_changed, lookup_parse, lastOf?_append]
  have hdistinct : ((parse text).changed changes).Distinct := (distinct_parse text).changed changes
  generalize (parse text).changed changes = p at hlookup hdistinct
  have hread : parse p.uriData = p.valued := parse_uriData hdistinct
  have hagain : (parse p.uriData).uriData = p.uriData := by rw [hread, uriData_valued]
  exact ⟨hlookup, hdistinct, congrArg entries hread, hagain, congrArg parse hagain,
    formWritten_formEncode, fun _ _ => formDecode_eq_iff⟩

/-- A set with a key that came twice, one that never had a value, and changes to it. -/
def marked : Params :=
  (parse "a=1&flag&A=2&x=%26").changed [("b c", none), ("X", some "\u00e9=")]

/-- Each key is read back as it was spelt first, **with the value that was given last**. -/
theorem parse_uriData_changed_marked :
    marked.entries = [("a", some "2"), ("flag", none), ("x", some "\u00e9="), ("b c", none)] ∧
    marked.lookup "A" = some (some "2") ∧ marked.uriData = "a=2&flag=&x=%C3%A9%3D&b+c=" ∧
    (parse "a=2&flag=&x=%C3%A9%3D&b+c=").entries
      = [("a", some "2"), ("flag", some ""), ("x", some "\u00e9="), ("b c", some "")] := by
  obtain ⟨hlookup, -, hread, -⟩ := parse_uriData_changed "a=1&flag&A=2&x=%26"
    [("b c", none), ("X", some "\u00e9=")]
  have hentries : marked.entries
      = [("a", some "2"), ("flag", none), ("x", some "\u00e9="), ("b c", none)] := by decide +kernel
  have hwritten : marked.uriData = "a=2&flag=&x=%C3%A9%3D&b+c=" := by decide +kernel
  have hvalue : marked.lookup "A" = some (some "2") := (hlookup "A").trans (by decide +kernel)
  have hagain : (parse marked.uriData).entries
      = marked.entries.map fun e => (e.1, some (e.2.getD "")) := hread
  rw [hentries, hwritten] at hagain
  exact ⟨hentries, hvalue, hwritten, hagain⟩

end Params

end HttpEngine
