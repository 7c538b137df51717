import HttpEngine.Proofs.Message.Overriding
import HttpEngine.Proofs.Message.UriData

/-!
# Header lists under changes

A name that is given one value keeps the place and the spelling of the first entry under it and
loses every other one, and **no other entry moves**. So a list that values are only ever given to in
this way, as the headers of a request are, never has a name twice.

* `Headers.insertEntry_cases`: what is inserted, and where.
* `Headers.insertInPlace`: the first entry changed where it stands, and those behind it passed by
  their positions; `insertEntry_eq_insertInPlace` says that this comes to the same.
* `Headers.filter_insertEntry`, `Headers.without_insertEntry`: what is under the name afterwards, and
  all that is not.
* `Headers.distinct_collapsed`: names that values were given to one by one.
* `Headers.edited_lists`: **any list**, after any changes.
-/

namespace HttpEngine

open Text

/-! ### Entries under a name and all others -/

namespace Named

variable {α : Type} {name : String} {entries : List (String × α)}

theorem filter_of_fresh (h : ∀ e ∈ entries, sameName e.1 name = false) :
    entries.filter (sameName ·.1 name) = [] := by
  refine List.filter_eq_nil_iff.2 ?_
  intro e he
  rw [h e he]
  exact Bool.false_ne_true

theorem without_of_fresh (h : ∀ e ∈ entries, sameName e.1 name = false) :
    without name entries = entries := by
  refine List.filter_eq_self.2 ?_
  intro e he
  rw [h e he]
  rfl

/-- Once they are dropped, **nothing is under the name**. -/
theorem fresh_without (name : String) (entries : List (String × α)) :
    ∀ e ∈ without name entries, sameName e.1 name = false := by
  intro e he
  have hkept := (List.mem_filter.1 he).2
  rwa [Bool.not_eq_true'] at hkept

theorem without_append (name : String) (front back : List (String × α)) :
    without name (front ++ back) = without name front ++ without name back :=
  List.filter_append front back

theorem without_cons_of_same {key : String} (h : sameName key name = true) (value : α)
    (rest : List (String × α)) : without name ((key, value) :: rest) = without name rest := by
  refine List.filter_cons_of_neg ?_
  rw [h]
  exact Bool.false_ne_true

/-- Entries are fewer without a name **by those under it**. -/
theorem length_sub_without (name : String) (entries : List (String × α)) :
    entries.length - (without name entries).length = entries.countP (sameName ·.1 name) := by
  have hall := List.length_eq_countP_add_countP (sameName ·.1 name) (l := entries)
  have hothers : (without name entries).length = entries.countP (fun e => ¬ sameName e.1 name) := by
    rw [List.countP_eq_length_filter, without]
    refine congrArg List.length (List.filter_congr ?_)
    intro e _
    cases sameName e.1 name <;> rfl
  omega

end Named

namespace Headers

variable {name value : String} {entries : List (String × String)}

/-! ### What is inserted -/

/-- A value **takes the place of the first entry under the name**, which keeps its spelling, and what
is under the name behind it goes; or it comes last if there is none. -/
theorem insertEntry_cases (name value : String) (entries : List (String × String)) :
    (∃ front key old back, entries = front ++ (key, old) :: back ∧
        (∀ e ∈ front, sameName e.1 name = false) ∧ sameName key name = true ∧
        insertEntry name value entries = front ++ (key, value) :: Named.without name back) ∨
      (∀ e ∈ entries, sameName e.1 name = false) ∧
        insertEntry name value entries = entries ++ [(name, value)] := by
  induction entries with
  | nil => exact .inr ⟨fun _ he => absurd he List.not_mem_nil, rfl⟩
  | cons e rest ih =>
    obtain ⟨k, v⟩ := e
    by_cases hk : sameName k name = true
    · refine .inl ⟨[], k, v, rest, rfl, fun _ he => absurd he List.not_mem_nil, hk, ?_⟩
      rw [insertEntry, if_pos hk, List.nil_append]
    · have hother := Bool.eq_false_iff.2 hk
      rw [insertEntry, if_neg hk]
      rcases ih with ⟨front, key, old, back, rfl, hfront, hkey, hinsert⟩ | ⟨hfresh, hinsert⟩
      · refine .inl ⟨(k, v) :: front, key, old, back, rfl, ?_, hkey, ?_⟩
        · exact List.forall_mem_cons.2 ⟨hother, hfront⟩
        · rw [hinsert, List.cons_append]
      · refine .inr ⟨List.forall_mem_cons.2 ⟨hother, hfresh⟩, ?_⟩
        rw [hinsert, List.cons_append]

/-- What is left when elements **behind a position** are passed by a test and those up to it stay. -/
def passedBehind {α : Type} (position : Nat) (pass : α → Bool) (start : Nat) (l : List α) : List α :=
  ((l.zipIdx start).filter fun e => e.2 ≤ position || pass e.1).map (·.1)

/-- What is inserted when the first entry under the name is **looked for, changed where it stands**,
and every entry behind it that is under the name is dropped. -/
def insertInPlace (name value : String) (entries : List (String × String)) :
    List (String × String) :=
  match entries.findIdx? (sameName ·.1 name) with
  | some position =>
    passedBehind position (fun e => !sameName e.1 name) 0
      (entries.modify position fun e => (e.1, value))
  | none => entries ++ [(name, value)]

section Positions

variable {α : Type} {position start : Nat} {pass : α → Bool} {l : List α}

theorem passedBehind_append (position start : Nat) (pass : α → Bool) (front back : List α) :
    passedBehind position pass start (front ++ back)
      = passedBehind position pass start front
        ++ passedBehind position pass (start + front.length) back := by
  simp only [passedBehind, List.zipIdx_append, List.filter_append, List.map_append]

theorem passedBehind_upTo (h : start + l.length ≤ position + 1) :
    passedBehind position pass start l = l := by
  have hall : (l.zipIdx start).filter (fun e => e.2 ≤ position || pass e.1) = l.zipIdx start := by
    refine List.filter_eq_self.2 ?_
    intro e he
    have hlt := List.snd_lt_add_of_mem_zipIdx he
    rw [Bool.or_eq_true, decide_eq_true_eq]
    omega
  rw [passedBehind, hall, List.zipIdx_map_fst]

theorem passedBehind_behind (h : position < start) :
    passedBehind position pass start l = l.filter pass := by
  have hpass : (l.zipIdx start).filter (fun e => e.2 ≤ position || pass e.1)
      = (l.zipIdx start).filter (pass ∘ Prod.fst) := by
    refine List.filter_congr ?_
    intro e he
    have hle := List.le_snd_of_mem_zipIdx he
    rw [decide_eq_false (by omega), Bool.false_or, Function.comp_apply]
  rw [passedBehind, hpass, ← List.filter_map, List.zipIdx_map_fst]

end Positions

/-- The two ways to insert **come to the same**. -/
theorem insertEntry_eq_insertInPlace (name value : String) (entries : List (String × String)) :
    insertEntry name value entries = insertInPlace name value entries := by
  rcases insertEntry_cases name value entries with
    ⟨front, key, old, back, rfl, hfront, hkey, hinsert⟩ | ⟨hfresh, hinsert⟩
  · have hposition : (front ++ (key, old) :: back).findIdx? (sameName ·.1 name)
        = some front.length := by
      rw [List.findIdx?_append, List.findIdx?_eq_none_iff.2 hfront, List.findIdx?_cons, if_pos hkey]
      simp
    have hmodify : (front ++ (key, old) :: back).modify front.length (fun e => (e.1, value))
        = (front ++ [(key, value)]) ++ back := by
      simp [List.modify_eq_take_cons_drop]
    -- the entry itself is the last one up to its position
    have hupTo : 0 + (front ++ [(key, value)]).length ≤ front.length + 1 := by simp
    have hbehind : front.length < 0 + (front ++ [(key, value)]).length := by simp
    rw [hinsert, insertInPlace, hposition]
    simp only [hmodify]
    rw [passedBehind_append, passedBehind_upTo hupTo, passedBehind_behind hbehind, List.append_assoc]
    rfl
  · have hnone : entries.findIdx? (sameName ·.1 name) = none :=
      List.findIdx?_eq_none_iff.2 hfresh
    rw [hinsert, insertInPlace, hnone]

/-- **One entry** is under the name afterwards, in the spelling of the first one before. -/
theorem filter_insertEntry (name value : String) (entries : List (String × String)) :
    ∃ key, sameName key name = true ∧
      (insertEntry name value entries).filter (sameName ·.1 name) = [(key, value)] := by
  rcases insertEntry_cases name value entries with
    ⟨front, key, old, back, rfl, hfront, hkey, hinsert⟩ | ⟨hfresh, hinsert⟩
  · refine ⟨key, hkey, ?_⟩
    have hback := Named.filter_of_fresh (Named.fresh_without name back)
    rw [hinsert, List.filter_append, Named.filter_of_fresh hfront, List.filter_cons, if_pos hkey,
      hback]
    rfl
  · refine ⟨name, sameName_self name, ?_⟩
    rw [hinsert, List.filter_append, Named.filter_of_fresh hfresh, List.filter_cons,
      if_pos (sameName_self name)]
    rfl

/-- All that is **not under the name** stays, in its order. -/
theorem without_insertEntry (name value : String) (entries : List (String × String)) :
    Named.without name (insertEntry name value entries) = Named.without name entries := by
  rcases insertEntry_cases name value entries with
    ⟨front, key, old, back, rfl, hfront, hkey, hinsert⟩ | ⟨hfresh, hinsert⟩
  · rw [hinsert, Named.without_append, Named.without_append, Named.without_cons_of_same hkey,
      Named.without_cons_of_same hkey, Named.without_of_fresh (Named.fresh_without name back)]
  · rw [hinsert, Named.without_append, Named.without_cons_of_same (sameName_self name)]
    exact List.append_nil _

theorem get?_insert (h : Headers) (name value other : String) :
    (h.insert name value).get? other = if sameName name other then some value else h.get? other := by
  by_cases hsame : sameName name other = true
  · rw [if_pos hsame, get?_insert_of_same hsame]
  · rw [if_neg hsame, get?_insert_of_not_same (Bool.eq_false_iff.2 hsame)]

/-! ### Names that are never there twice -/

theorem distinct_insertEntry (h : Named.Distinct entries) (name value : String) :
    Named.Distinct (insertEntry name value entries) := by
  rcases insertEntry_cases name value entries with
    ⟨front, key, old, back, rfl, -, -, hinsert⟩ | ⟨hfresh, hinsert⟩
  · -- what stays is a part of what was there, and the names are those of that part
    have hnames : (insertEntry name value (front ++ (key, old) :: back)).map (·.1)
        = (front ++ (key, old) :: Named.without name back).map (·.1) := by
      rw [hinsert, List.map_append, List.map_append, List.map_cons, List.map_cons]
    have hpart : (front ++ (key, old) :: Named.without name back).Sublist
        (front ++ (key, old) :: back) :=
      List.Sublist.append_left (List.Sublist.cons_cons _ List.filter_sublist) front
    have hkept : Named.Distinct (front ++ (key, old) :: Named.without name back) :=
      List.Pairwise.sublist hpart h
    unfold Named.Distinct at hkept ⊢
    rw [← List.pairwise_map (f := Prod.fst) (R := fun a b => sameName a b = false)] at hkept ⊢
    rwa [hnames]
  · rw [hinsert]
    refine List.pairwise_append.2 ⟨h, List.pairwise_singleton _ _, ?_⟩
    intro e he f hf
    rw [List.mem_singleton.1 hf]
    exact hfresh e he

/-- Names that values were given to one by one **are never there twice**. -/
theorem distinct_collapsed (fields : List (String × String)) :
    Named.Distinct (collapsed fields).entries := by
  have hempty : Named.Distinct ({} : Headers).entries := List.Pairwise.nil
  refine List.foldlRecOn fields _ (motive := fun h : Headers => Named.Distinct h.entries) hempty ?_
  intro h hh f _
  exact distinct_insertEntry hh f.1 f.2

/-! ### Lists under changes -/

/-- What is done **to a list of headers**. -/
inductive Edit
  | append (name value : String)
  | insert (name value : String)
  | remove (name : String)

/-- A list with one change made to it. -/
def edit (h : Headers) : Edit → Headers
  | .append name value => h.append name value
  | .insert name value => h.insert name value
  | .remove name => (h.remove name).2

/-- What a list is **once a name was given one value**. -/
structure Given (name value : String) (before after : Headers) : Prop where
  /-- The value stands where the first entry under the name did, in its spelling, and no entry under
  the name behind it; or it comes last, if there was none. -/
  place : (∃ front key old back, before.entries = front ++ (key, old) :: back ∧
      (∀ e ∈ front, sameName e.1 name = false) ∧ sameName key name = true ∧
      after.entries = front ++ (key, value) :: back.filter (fun e => !sameName e.1 name)) ∨
    (∀ e ∈ before.entries, sameName e.1 name = false) ∧
      after.entries = before.entries ++ [(name, value)]
  /-- It is found by position and cleared behind it. -/
  in_place : after.entries = insertInPlace name value before.entries
  found : ∀ other, after.get? other = if sameName name other then some value else before.get? other
  /-- One entry is under the name. -/
  once : ∃ key, sameName key name = true ∧
    after.entries.filter (sameName ·.1 name) = [(key, value)]
  /-- The entries under all other names are those before, in their order. -/
  others : after.entries.filter (fun e => !sameName e.1 name)
    = before.entries.filter (fun e => !sameName e.1 name)

theorem given_insert (h : Headers) (name value : String) : Given name value h (h.insert name value) where
  place := insertEntry_cases name value h.entries
  in_place := insertEntry_eq_insertInPlace name value h.entries
  found := get?_insert h name value
  once := filter_insertEntry name value h.entries
  others := without_insertEntry name value h.entries

/-- **A list of headers after any changes.** Giving a name one value puts it where the first entry
under the name stands, in its spelling, drops every other entry under it and moves none; dropping a
name drops the entries under it and counts them. A list that begins empty and is only given values has
no name twice and under each name the value it was given last, and the headers of every request that
is received are such a list, of the lines that stand between its first line and its body. -/
theorem edited_lists (initial : Headers) (edits : List Edit) (name value : String) :
    Given name value (edits.foldl edit initial) ((edits.foldl edit initial).insert name value) ∧
    (((edits.foldl edit initial).remove name).2.entries
        = (edits.foldl edit initial).entries.filter (fun e => !sameName e.1 name) ∧
      ((edits.foldl edit initial).remove name).1
        = (edits.foldl edit initial).entries.countP (sameName ·.1 name)) ∧
    (∀ fields : List (String × String),
      (collapsed fields).entries.Pairwise (fun e f => sameName e.1 f.1 = false) ∧
      ∀ key, (collapsed fields).get? key
        = (fields.reverse.find? fun f => sameName f.1 key).map (·.2)) ∧
    ∀ (p : Parser) (l : Link) (r : Request), (p.parse l).outcome = .ok (some r) →
      ∃ heard verb fields rest, heard <+: l.left ∧
        Opened l.options.window heard verb r.target r.protocol fields rest ∧
        r.headers = .collapsed fields := by
  generalize edits.foldl edit initial = h
  refine ⟨given_insert h name value, ⟨rfl, ?_⟩, ?_, ?_⟩
  · exact Named.length_sub_without name h.entries
  · intro fields
    exact ⟨distinct_collapsed fields, fun key => get?_collapsed key fields⟩
  · intro p l r hr
    have hp : p.parse l = ⟨.ok (some r), (p.parse l).parser, (p.parse l).link⟩ := by rw [← hr]
    obtain ⟨heard, hdrew, verb, fields, rest, hopened, -, -, hheaders⟩ := Parser.occupies_of_parse hp
    exact ⟨heard, verb, fields, rest, ⟨_, hdrew.left.symm⟩, hopened, hheaders⟩

/-- A list with a name twice. -/
def repeated : List Edit :=
  [.append "Set-Cookie" "a=1", .insert "X-Other" "x", .append "set-cookie" "b=2"]

/-- A link to a peer that sends a name twice. -/
def repeating : Link :=
  Link.reading { delayNanos := 1000000, retries := 1 }
    [ascii "GET / HTTP/1.1\r\nAge: 1\r\nX: y\r\naGE", [], ascii ": 2\r\n\r\n"]

/-- Both are left **with one entry**, under the name that came first. -/
theorem edited_lists_repeated :
    let h := repeated.foldl edit {}
    (h.insert "SET-COOKIE" "c=3").entries.filter (sameName ·.1 "SET-COOKIE") = [("Set-Cookie", "c=3")] ∧
    (h.insert "SET-COOKIE" "c=3").get? "x-other" = some "x" ∧ (h.remove "SET-COOKIE").1 = 2 ∧
    ∃ r heard verb fields rest, (Parser.basic.parse repeating).outcome = .ok (some r) ∧
      heard <+: repeating.left ∧
      Opened repeating.options.window heard verb r.target r.protocol fields rest ∧
      r.headers = .collapsed fields ∧ r.headers.entries = [("Age", "2"), ("X", "y")] := by
  intro h
  obtain ⟨hgiven, ⟨-, hcount⟩, -, hreceived⟩ := edited_lists {} repeated "SET-COOKIE" "c=3"
  have hentries : ((Parser.basic.parse repeating).outcome.toOption.join.map (·.headers.entries))
      = some [("Age", "2"), ("X", "y")] := by decide +kernel
  obtain ⟨r, hr, hheaders⟩ := Parser.exists_of_map_eq_some hentries
  obtain ⟨heard, verb, fields, rest, hheard, hopened, hcollapsed⟩ := hreceived _ _ r hr
  refine ⟨?_, ?_, ?_, r, heard, verb, fields, rest, hr, hheard, hopened, hcollapsed, hheaders⟩
  · decide +kernel
  · exact (hgiven.found "x-other").trans (by decide +kernel)
  · exact hcount.trans (by decide +kernel)

end Headers

end HttpEngine
