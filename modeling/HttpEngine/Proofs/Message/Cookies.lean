import HttpEngine.Handling.Context
import HttpEngine.Proofs.Message.Head
import HttpEngine.Proofs.Message.RoundTrip
import HttpEngine.Proofs.Message.UriData
import HttpEngine.Proofs.Text.Widening

/-!
# Cookies that are left alone

A cookie header comes in one character for each byte, and cookies go out encoded. A cookie whose name
is the only one of its kind in the header, and that no handler speaks of, **goes out under that name
with that value**: the bytes below 128 as they came, the others as two bytes each. So one that has
none of the others can go back and forth any number of times.

* `crumbs`: the names and values in the bytes of a header.
* `Named.filter_put_of_not_same`, `Named.filter_foldl_of_once`: what is under a name and stays.
* `CookieStore.HasOnce`, `hasOnce_after`: a cookie that is left alone.
* `CookieStore.crumbs_sentBack`: cookies that come in again.
* `CookieStore.sentBack_eq_of_unsplit`: what comes in again is what the lines that went out show.
* `CookieStore.hasOnce_trips`, `CookieStore.unsplit_trips`: any number of times.
* `Parser.parseMany_left_alone`: the bytes that come in, and **the line that goes out**.
-/

namespace HttpEngine

open Text

/-! ### What is under a name -/

namespace Named

variable {α : Type} {key name : String} {value : α} {entries : List (String × α)}

/-- What is put under another name leaves what is under a name **as it is**. -/
theorem filter_put_of_not_same (h : sameName key name = false) :
    (put key value entries).filter (sameName ·.1 name)
      = entries.filter (sameName ·.1 name) := by
  induction entries with
  | nil => simp only [put, List.filter_cons, h, Bool.false_eq_true, if_false]
  | cons e rest ih =>
    obtain ⟨k, v⟩ := e
    rw [put]
    split
    · rename_i hk
      have hkn : sameName k name = false := by
        refine Bool.eq_false_iff.2 fun hkn => ?_
        rw [sameName_comm] at hk
        rw [sameName_trans hk hkn] at h
        cases h
      simp only [List.filter_cons, hkn, Bool.false_eq_true, if_false]
    · simp only [List.filter_cons, ih]

/-- What is put where **there is nothing under the name** is all there is. -/
theorem filter_put_of_same (h : sameName key name = true)
    (hnone : entries.filter (sameName ·.1 name) = []) :
    (put key value entries).filter (sameName ·.1 name) = [(key, value)] := by
  have hfresh : ∀ e ∈ entries, sameName e.1 key = false := by
    intro e he
    refine Bool.eq_false_iff.2 fun hek => ?_
    exact List.filter_eq_nil_iff.1 hnone e he (sameName_trans hek h)
  rw [put_of_fresh hfresh, List.filter_append, hnone, List.filter_cons, if_pos h]
  rfl

theorem filter_without_of_not_same (h : sameName key name = false) :
    (without key entries).filter (sameName ·.1 name) = entries.filter (sameName ·.1 name) := by
  rw [without, List.filter_filter]
  refine List.filter_congr fun e _ => ?_
  cases hen : sameName e.1 name with
  | false => rfl
  | true =>
    have hek : sameName e.1 key = false := by
      refine Bool.eq_false_iff.2 fun hek => ?_
      rw [sameName_comm] at hek
      rw [sameName_trans hek hen] at h
      cases h
    rw [hek]
    rfl

/-- Entries put one after another leave under a name what **is under it in front of them**, where
none of them is under it. -/
theorem filter_foldl_of_absent {added : List (String × α)}
    (h : added.filter (sameName ·.1 name) = []) :
    (added.foldl (fun es e => put e.1 e.2 es) entries).filter (sameName ·.1 name)
      = entries.filter (sameName ·.1 name) := by
  induction added generalizing entries with
  | nil => rfl
  | cons e added ih =>
    have hall := List.filter_eq_nil_iff.1 h
    have he := Bool.eq_false_iff.2 (hall e List.mem_cons_self)
    have hrest : added.filter (sameName ·.1 name) = [] :=
      List.filter_eq_nil_iff.2 fun f hf => hall f (List.mem_cons_of_mem _ hf)
    rw [List.foldl_cons, ih hrest, filter_put_of_not_same he]

/-- The only one of them under a name is **all there is** under it. -/
theorem filter_foldl_of_once {added : List (String × α)} {e : String × α}
    (h : added.filter (sameName ·.1 name) = [e]) (hnone : entries.filter (sameName ·.1 name) = []) :
    (added.foldl (fun es e => put e.1 e.2 es) entries).filter (sameName ·.1 name) = [e] := by
  induction added generalizing entries with
  | nil => cases h
  | cons f added ih =>
    rw [List.foldl_cons]
    rw [List.filter_cons] at h
    split at h
    · rename_i hf
      obtain ⟨rfl, hrest⟩ := List.cons.inj h
      rw [filter_foldl_of_absent hrest, filter_put_of_same hf hnone]
    · rename_i hf
      refine ih h ?_
      rw [filter_put_of_not_same (Bool.eq_false_iff.2 hf), hnone]

end Named

/-! ### A header in bytes -/

/-- A name and a value **on both sides of the first `=`**, without the blanks around them. -/
def crumb? (piece : Bytes) : Option (Bytes × Bytes) :=
  (cut 61 piece).map fun (name, value) => (trimBytes name, trimBytes value)

/-- The names and values in a cookie header, **those between semicolons that have a `=`**. -/
def crumbs (header : Bytes) : List (Bytes × Bytes) := (pieces 59 header).filterMap crumb?

/-- A name and a value as the texts they are stored as. -/
def crumbTexts (c : Bytes × Bytes) : String × String := (latin1 c.1, latin1 c.2)

variable {piece header : Bytes} {c : Bytes × Bytes}

theorem pairIn?_latin1 (piece : Bytes) :
    pairIn? isBlank '=' (piece.map latin1Char)
      = (crumb? piece).map fun c => (c.1.map latin1Char, c.2.map latin1Char) := by
  have hequals : '=' = latin1Char 61 := by decide
  rw [pairIn?, hequals, cut_map latin1Char_injective, crumb?]
  cases cut 61 piece with
  | none => rfl
  | some parts => simp only [Option.map_some, ← trimChars_eq, trimChars_latin1]

/-- The cookies in a header are **those in its bytes**, put one after another. -/
theorem entries_parse_latin1 (header : Bytes) :
    (CookieStore.parse (latin1 header)).entries
      = ((crumbs header).map crumbTexts).foldl (fun es e => Named.put e.1 e.2 es) [] := by
  have hsemicolon : ';' = latin1Char 59 := by decide
  have hpairs : (pieces ';' (latin1 header).toList).filterMap CookieStore.pairOf?
      = (crumbs header).map crumbTexts := by
    rw [CookieStore.filterMap_pairOf?, latin1, String.toList_ofList, hsemicolon,
      pieces_map latin1Char_injective, List.filterMap_map, crumbs, List.map_filterMap,
      List.map_filterMap]
    refine List.filterMap_congr fun piece _ => ?_
    rw [Function.comp_apply, pairIn?_latin1, Option.map_map]
    rfl
  rw [CookieStore.parse, hpairs]

/-- A name and a value are **parts of their header**, with no blanks at their ends. -/
theorem parts_of_mem_crumbs (h : c ∈ crumbs header) :
    (c.1 <:+: header ∧ c.2 <:+: header) ∧ (59 ∉ c.1 ∧ 61 ∉ c.1 ∧ 59 ∉ c.2) ∧
      trimBytes c.1 = c.1 ∧ trimBytes c.2 = c.2 :=
  parts_of_mem_pairs h

/-- A header has **one cookie of this name**, ASCII case ignored, and this is its value. -/
def SentOnce (header name value : Bytes) : Prop :=
  (crumbs header).filter (fun c => sameName (latin1 c.1) (latin1 name)) = [(name, value)]

instance (header name value : Bytes) : Decidable (SentOnce header name value) :=
  inferInstanceAs (Decidable (_ = _))

theorem SentOnce.mem {name value : Bytes} (h : SentOnce header name value) :
    (name, value) ∈ crumbs header :=
  List.mem_of_mem_filter (p := fun c => sameName (latin1 c.1) (latin1 name))
    (by rw [show List.filter _ _ = _ from h]; exact List.mem_cons_self)

namespace CookieStore

/-- A store has **one cookie of this name**, and this is its value. -/
def HasOnce (s : CookieStore) (name value : String) : Prop :=
  s.entries.filter (sameName ·.1 name) = [(name, value)]

/-! ### Cookies that no one speaks of -/

/-- The name that an edit **speaks of**. -/
def Edit.name : Edit → String
  | .upsert name _ => name
  | .remove name => name

variable {s : CookieStore} {name value : String} {edits : List Edit}

theorem HasOnce.edit (h : s.HasOnce name value) {e : Edit} (he : sameName e.name name = false) :
    (s.edit e).HasOnce name value := by
  cases e with
  | upsert key v => exact (Named.filter_put_of_not_same he).trans h
  | remove key => exact (Named.filter_without_of_not_same he).trans h

theorem HasOnce.edited (h : s.HasOnce name value)
    (hedits : ∀ e ∈ edits, sameName e.name name = false) :
    (edits.foldl CookieStore.edit s).HasOnce name value :=
  List.foldlRecOn edits CookieStore.edit (motive := fun s => s.HasOnce name value) h
    fun _ hs e he => HasOnce.edit hs (hedits e he)

theorem hasOnce_parse {name value : Bytes} (h : SentOnce header name value) :
    (parse (latin1 header)).HasOnce (latin1 name) (latin1 value) := by
  rw [HasOnce, entries_parse_latin1]
  refine Named.filter_foldl_of_once ?_ rfl
  rw [List.filter_map]
  exact congrArg (List.map crumbTexts) h

/-- A cookie of a header that is **left alone** is in the store as it came. -/
theorem hasOnce_after {name value : Bytes} (h : SentOnce header name value)
    (hedits : ∀ e ∈ edits, sameName e.name (latin1 name) = false) :
    (after (latin1 header) edits).HasOnce (latin1 name) (latin1 value) :=
  (hasOnce_parse h).edited hedits

/-! ### Cookies that come in again -/

/-- A name that **is one** when it comes in again. -/
structure PlainName (name : String) : Prop where
  semicolon : ';' ∉ name.toList
  equals : '=' ∉ name.toList
  trimmed : trim name = name

instance (name : String) : Decidable (PlainName name) :=
  decidable_of_iff (';' ∉ name.toList ∧ '=' ∉ name.toList ∧ trim name = name)
    ⟨fun h => ⟨h.1, h.2.1, h.2.2⟩, fun h => ⟨h.1, h.2, h.3⟩⟩

/-- A cookie that comes in again **as one piece**. -/
def Whole (e : String × String) : Prop := PlainName e.1 ∧ ';' ∉ e.2.toList

/-- An edit stores nothing that comes in again in pieces. -/
def Edit.Whole : Edit → Prop
  | .upsert name value => CookieStore.Whole (name, value)
  | .remove _ => True

instance : (e : Edit) → Decidable e.Whole
  | .upsert name value => inferInstanceAs (Decidable (PlainName name ∧ ';' ∉ value.toList))
  | .remove _ => inferInstanceAs (Decidable True)

/-- The cookies of a header and of edits that store whole ones **are whole**. -/
theorem whole_after (header : String) (h : ∀ e ∈ edits, e.Whole) :
    ∀ e ∈ (after header edits).entries, Whole e := by
  refine forall_after (Q := fun v => ';' ∉ v.toList) ?_ fun name value hmem => h _ hmem
  intro e he
  obtain ⟨-, ⟨hname, hequals, hvalue⟩, htrimmed, -⟩ := parts_of_mem_pairOf? he
  exact ⟨⟨hname, hequals, htrimmed⟩, hvalue⟩

/-- What a client sends that **sends back what was written for it**, the cookies in their order. -/
def sentBack (s : CookieStore) : Bytes :=
  [59, 32].intercalate (s.entries.map fun e => utf8 (e.1 ++ "=" ++ e.2))

variable {e : String × String}

theorem not_mem_utf8 {c : Char} (hc : c.toNat < 128) {text : String} (h : c ∉ text.toList) :
    UInt8.ofNat c.toNat ∉ utf8 text :=
  mt (mem_utf8_iff hc).1 h

theorem utf8_pair (e : String × String) : utf8 (e.1 ++ "=" ++ e.2) = utf8 e.1 ++ 61 :: utf8 e.2 := by
  rw [utf8_append, utf8_append, List.append_assoc]
  rfl

theorem semicolon_not_mem_pair (h : Whole e) : ';' ∉ (e.1 ++ "=" ++ e.2).toList := by
  intro hm
  rw [String.toList_append, String.toList_append] at hm
  rcases List.mem_append.1 hm with hm | hm
  · rcases List.mem_append.1 hm with hm | hm
    · exact h.1.semicolon hm
    · exact absurd hm (by decide)
  · exact h.2 hm

/-- Whole cookies come in again **one by one**, without the blanks that their bytes end with. -/
theorem crumbs_sentBack (h : ∀ e ∈ s.entries, Whole e) :
    crumbs s.sentBack
      = s.entries.map fun e => (trimBytes (utf8 e.1), trimBytes (utf8 e.2)) := by
  have hpairs : (s.entries.map fun e => utf8 (e.1 ++ "=" ++ e.2))
      = (s.entries.map fun e => (utf8 e.1, utf8 e.2)).map (paired 61) := by
    rw [List.map_map]
    exact List.map_congr_left fun e _ => utf8_pair e
  have hparts : ∀ e ∈ s.entries.map fun e => (utf8 e.1, utf8 e.2),
      61 ∉ e.1 ∧ 59 ∉ paired 61 e := by
    intro _ hmem
    obtain ⟨e, he, rfl⟩ := List.mem_map.1 hmem
    refine ⟨not_mem_utf8 (c := '=') (by decide) (h e he).1.equals, ?_⟩
    have hpair := not_mem_utf8 (c := ';') (by decide) (semicolon_not_mem_pair (h e he))
    rwa [utf8_pair] at hpair
  rw [crumbs, sentBack, hpairs]
  refine (pairsIn_intercalate (by decide) (by decide) (by decide) hparts).trans ?_
  rw [List.map_map]
  rfl

/-- A name that comes in again is the same as a name of bytes below 128 **exactly if it was
before**. -/
theorem sameName_sentBack {name : String} (h : PlainName name) {key : Bytes} (hkey : Low key) :
    sameName (latin1 (trimBytes (utf8 name))) (latin1 key) = sameName name (latin1 key) := by
  by_cases hlow : LowText name
  · have hchars : (utf8 name).map latin1Char = name.toList := by
      have := congrArg String.toList (latin1_utf8 hlow)
      rwa [latin1, String.toList_ofList] at this
    have hname : latin1 (trimBytes (utf8 name)) = name := by
      rw [latin1, ← trimChars_latin1, hchars]
      exact h.trimmed
    rw [hname]
  · -- the byte that shows what the name was is not blank, so it stays
    have hother : ¬ LowText (latin1 (trimBytes (utf8 name))) := by
      obtain ⟨b, hb, hlead⟩ := exists_lead hlow
      have hblank : ¬ blankByte b = true := fun h => absurd (toNat_le_of_blankByte h) (by omega)
      intro hl
      have := hl (latin1Char b) (by
        rw [latin1, String.toList_ofList]
        exact List.mem_map_of_mem (mem_trimBy hb hblank))
      rw [toNat_latin1Char] at this
      omega
    have hfirst := mt (fun hs => lowText_of_sameName hs (lowText_latin1 hkey)) hother
    have hsecond := mt (fun hs => lowText_of_sameName hs (lowText_latin1 hkey)) hlow
    rw [Bool.eq_false_iff.2 hfirst, Bool.eq_false_iff.2 hsecond]

theorem sentOnce_sentBack {name value : Bytes} (h : s.HasOnce (latin1 name) (latin1 value))
    (hwhole : ∀ e ∈ s.entries, Whole e) (hname : Low name) (hvalue : Low value)
    (hbare : trimBytes name = name ∧ trimBytes value = value) : SentOnce s.sentBack name value := by
  have hsame : ∀ e ∈ s.entries,
      sameName (latin1 (trimBytes (utf8 e.1))) (latin1 name) = sameName e.1 (latin1 name) :=
    fun e he => sameName_sentBack (hwhole e he).1 hname
  have hfilter : s.entries.filter
      (fun e => sameName (latin1 (trimBytes (utf8 e.1))) (latin1 name))
        = [(latin1 name, latin1 value)] :=
    (List.filter_congr hsame).trans h
  rw [SentOnce, crumbs_sentBack hwhole, List.filter_map]
  refine (congrArg (List.map _) hfilter).trans ?_
  simp only [List.map_cons, List.map_nil, utf8_latin1, widened_of_low hname, widened_of_low hvalue,
    hbare.1, hbare.2]

/-! ### What a client is shown -/

/-- What stands **behind `Set-Cookie: `** in the lines of bytes. -/
def shown (data : Bytes) : List Bytes :=
  (linesOf data).filterMap (List.dropPrefix? · (utf8 "Set-Cookie: "))

/-- Where nothing that is stored ends a line, there is **a line for each cookie**. -/
theorem linesOf_cookieData (h : Named.Unsplit s.entries) :
    linesOf (utf8 s.cookieData)
      = s.entries.map (fun e => utf8 ("Set-Cookie: " ++ e.1 ++ "=" ++ e.2)) ++ [[]] := by
  have htexts : ∀ text ∈ s.entries.map fun e => "Set-Cookie: " ++ e.1 ++ "=" ++ e.2,
      Unbroken text := by
    intro text htext
    obtain ⟨e, he, rfl⟩ := List.mem_map.1 htext
    exact Response.unbroken_cookieText (h e he).1 (h e he).2
  have hlines := Response.linesOf_flatMap
    (s.entries.map fun e => "Set-Cookie: " ++ e.1 ++ "=" ++ e.2) []
  rw [List.append_nil, Response.flatMap_linesOf htexts, List.map_map] at hlines
  rw [Response.utf8_cookieData, hlines]
  rfl

/-- A client is then shown the names and values **as they are stored**. -/
theorem shown_cookieData (h : Named.Unsplit s.entries) :
    shown (utf8 s.cookieData) = s.entries.map fun e => utf8 (e.1 ++ "=" ++ e.2) := by
  have hempty : List.dropPrefix? ([] : Bytes) (utf8 "Set-Cookie: ") = none := by decide
  have hdropped : ∀ e : String × String,
      List.dropPrefix? (utf8 ("Set-Cookie: " ++ e.1 ++ "=" ++ e.2)) (utf8 "Set-Cookie: ")
        = some (utf8 (e.1 ++ "=" ++ e.2)) := by
    intro e
    have hparts : "Set-Cookie: " ++ e.1 ++ "=" ++ e.2 = "Set-Cookie: " ++ (e.1 ++ "=" ++ e.2) := by
      simp only [String.append_assoc]
    rw [hparts, utf8_append]
    exact List.dropPrefix?_eq_some_iff.2 ⟨_, rfl, beq_self_eq_true _⟩
  rw [shown, linesOf_cookieData h, List.filterMap_append, List.filterMap_map,
    List.filterMap_cons, hempty, List.filterMap_nil, List.append_nil, ← List.filterMap_eq_map']
  exact List.filterMap_congr fun e _ => hdropped e

/-- What comes in again is **what the lines that went out show**, one cookie after the other. -/
theorem sentBack_eq_of_unsplit (h : Named.Unsplit s.entries) :
    s.sentBack = [59, 32].intercalate (shown (utf8 s.cookieData)) := by
  rw [shown_cookieData h, sentBack]

theorem not_crlf_intercalate {parts : List Bytes} (h : ∀ part ∈ parts, ¬ crlf <:+: part) :
    ¬ crlf <:+: [59, 32].intercalate parts := by
  induction parts with
  | nil => decide
  | cons part parts ih =>
    obtain ⟨hpart, hparts⟩ := List.forall_mem_cons.1 h
    cases parts with
    | nil => rwa [List.intercalate_singleton]
    | cons other parts =>
      rw [List.intercalate_cons_cons, List.append_assoc]
      intro hi
      -- the semicolon is one separator and the blank after it another
      rcases pair_infix_of_separated (by decide) (by decide) hi with hi | hi
      · exact hpart hi
      · rcases pair_infix_of_separated (a := []) (by decide) (by decide) hi with hi | hi
        · exact absurd hi (by decide)
        · exact ih hparts hi

theorem not_crlf_sentBack (h : Named.Unsplit s.entries) : ¬ crlf <:+: s.sentBack := by
  refine not_crlf_intercalate fun part hpart => ?_
  obtain ⟨e, he, rfl⟩ := List.mem_map.1 hpart
  have hunbroken : Unbroken (e.1 ++ "=" ++ e.2) :=
    (h e he).1.join (h e he).2 '=' (by decide) (by decide)
  exact fun hi => crlf_infix_utf8_iff.1 hi hunbroken

/-! ### Back and forth -/

/-- The stores of one visit after another, **each with what the one before it wrote sent back**. A
store that is not touched writes nothing, and the client sends what it sent. -/
def trips (header : Bytes) : List (List Edit) → List CookieStore
  | [] => []
  | edits :: later =>
    let store := after (latin1 header) edits
    store :: trips (if store.touched then store.sentBack else header) later

/-- A cookie of bytes below 128 is left alone **by any number of visits** that store whole cookies
under other names. -/
theorem hasOnce_trips {name value : Bytes} {visits : List (List Edit)}
    (h : SentOnce header name value) (hname : Low name) (hvalue : Low value)
    (hvisits : ∀ edits ∈ visits, ∀ e ∈ edits, sameName e.name (latin1 name) = false ∧ e.Whole) :
    ∀ s ∈ trips header visits, s.HasOnce (latin1 name) (latin1 value) := by
  -- on the visits; what is sent to each of them has one such cookie
  have hbare := (parts_of_mem_crumbs h.mem).2.2
  induction visits generalizing header with
  | nil => exact nofun
  | cons edits later ih =>
    obtain ⟨hedits, hlater⟩ := List.forall_mem_cons.1 hvisits
    have hstore := hasOnce_after h fun e he => (hedits e he).1
    have hwhole := whole_after (latin1 header) fun e he => (hedits e he).2
    refine List.forall_mem_cons.2 ⟨hstore, ih ?_ hlater⟩
    split
    · exact sentOnce_sentBack hstore hwhole hname hvalue hbare
    · exact h

/-- No line ends in what is stored **on any visit**, where none ends in what is sent first and in what
handlers store. -/
theorem unsplit_trips {visits : List (List Edit)} (h : ¬ crlf <:+: header)
    (hvisits : ∀ edits ∈ visits, ∀ e ∈ edits, e.Unbroken) :
    ∀ s ∈ trips header visits, Named.Unsplit s.entries := by
  induction visits generalizing header with
  | nil => exact nofun
  | cons edits later ih =>
    obtain ⟨hedits, hlater⟩ := List.forall_mem_cons.1 hvisits
    have hstore : Named.Unsplit (after (latin1 header) edits).entries :=
      unsplit_after (inline_latin1 h).unbroken hedits
    refine List.forall_mem_cons.2 ⟨hstore, ih ?_ hlater⟩
    split
    · exact not_crlf_sentBack hstore
    · exact h

/-! ### The line that goes out -/

/-- The line of a cookie **with these bytes as its name and its value**. -/
def lineFor (name value : Bytes) : Bytes := ascii "Set-Cookie: " ++ name ++ 61 :: value

/-- A line goes out **as it came in** where its bytes are below 128. -/
theorem lineFor_widened_eq_iff {name value : Bytes} :
    lineFor (widened name) (widened value) = lineFor name value ↔ Low name ∧ Low value := by
  refine ⟨fun h => ?_, fun ⟨hname, hvalue⟩ => by rw [widened_of_low hname, widened_of_low hvalue]⟩
  -- there is one byte more for each that is not
  have hlength := congrArg List.length h
  simp only [lineFor, List.length_append, List.length_cons, length_widened] at hlength
  rw [low_iff_countP, low_iff_countP]
  omega

/-- A cookie in a touched store has a line of its own **in the head of every response**. -/
theorem lineFor_mem_linesOf {name value : Bytes} (h : s.HasOnce (latin1 name) (latin1 value))
    (htouched : s.touched = true) (hname : ¬ crlf <:+: name) (hvalue : ¬ crlf <:+: value)
    (response : Response) :
    lineFor (widened name) (widened value) ∈ linesOf (utf8 (response.head (some s))) := by
  let text := "Set-Cookie: " ++ latin1 name ++ "=" ++ latin1 value
  have hmem : (latin1 name, latin1 value) ∈ s.entries :=
    List.mem_of_mem_filter (p := (sameName ·.1 (latin1 name)))
      (by rw [show List.filter _ _ = _ from h]; exact List.mem_cons_self)
  have htext : text ∈ response.headTexts (some s) :=
    Response.mem_headTexts.2 (.inr (.inr (Response.mem_cookieTexts.2
      ⟨s, rfl, htouched, _, hmem, rfl⟩)))
  have hbytes : utf8 text = lineFor (widened name) (widened value) := by
    have hset : utf8 "Set-Cookie: " = ascii "Set-Cookie: " := by decide
    have hequals : utf8 "=" = [61] := by decide
    simp only [text, utf8_append, utf8_latin1, hset, hequals, lineFor, List.append_assoc,
      List.singleton_append]
  have hunbroken : Unbroken text :=
    Response.unbroken_cookieText (inline_latin1 hname).unbroken (inline_latin1 hvalue).unbroken
  rw [Response.linesOf_head, List.mem_append, List.mem_flatMap]
  refine .inl ⟨text, htext, ?_⟩
  rw [Function.comp_apply, linesOf_of_unbroken (fun hi => crlf_infix_utf8_iff.1 hi hunbroken), hbytes]
  exact List.mem_singleton_self _

end CookieStore

/-- What is left of a context once a handler made these edits to its cookies. -/
def Context.edited (c : Context) (edits : List CookieStore.Edit) : Context :=
  edits.foldl (fun c e => (c.withCookies fun s => ((), s.edit e)).2) c

/-- The cookies are read from the request **at the first edit**, and edited from then on. -/
theorem Context.cookies_edited (c : Context) (edits : List CookieStore.Edit) :
    (c.edited edits).cookies = edits.foldl CookieStore.edit c.cookies ∧
      (c.edited edits).cookies? = if edits = [] then c.cookies? else
        some (edits.foldl CookieStore.edit c.cookies) := by
  induction edits generalizing c with
  | nil => exact ⟨rfl, rfl⟩
  | cons e edits ih =>
    obtain ⟨hcookies, hstored⟩ := ih (c.withCookies fun s => ((), s.edit e)).2
    refine ⟨hcookies, hstored.trans ?_⟩
    cases edits <;> rfl

theorem Named.exists_of_find? {α : Type} {name : String} {value : α} {entries : List (String × α)}
    (h : find? name entries = some value) : ∃ e ∈ entries, e.2 = value := by
  induction entries with
  | nil => cases h
  | cons e rest ih =>
    rw [find?_cons] at h
    split at h
    · exact ⟨e, List.mem_cons_self, Option.some_inj.1 h⟩
    · obtain ⟨f, hf, hvalue⟩ := ih h
      exact ⟨f, List.mem_cons_of_mem _ hf, hvalue⟩

/-- No line ends in a header **that stands on one**. -/
theorem Request.Writable.not_crlf_infix {longest : Nat} {verb key : String} {r : Request}
    (hw : r.Writable longest verb) (h : r.header? key = some (latin1 header)) :
    ¬ crlf <:+: header := by
  obtain ⟨f, hf, hvalue⟩ := Named.exists_of_find? h
  have := not_crlf_infix_latin1Bytes (hw.fields f hf).value
  rwa [hvalue, latin1Bytes_latin1] at this

/-- A request written in front of anything **is received**. -/
theorem Parser.parseMany_one {o : ReaderOptions} {ends : Bool} {chunks : List Bytes}
    {verb : String} {r : Request} {further : Bytes} (hm : o.maxLine + 1 ≤ maxWord64)
    (names : List String) (hs : Steady o.retries ends chunks) (hw : r.Writable o.maxLine verb)
    (he : chunks.flatten = r.wire verb ++ further) :
    ((plain (.after names)).parseMany 1 (Link.reading o chunks ends)).1 = [.ok (some r)] := by
  have hp : (plain (.after names)).Sound := MethodCache.sound_after names
  have hheld := Link.reading_holds hs
  have hflat : chunks.flatten = [(verb, r)].flatMap (fun v => v.2.wire v.1) ++ further := by
    rw [he, List.flatMap_cons, List.flatMap_nil, List.append_nil]
  rw [hflat] at hheld
  exact (parseMany_holds hm hp rfl (fun v hv => List.mem_singleton.1 hv ▸ hw) hheld).1

open CookieStore in
/-- **What becomes of a cookie that is left alone.** A request comes in whose cookie header is these
bytes; they have one cookie of this name, and no edit of a handler speaks of it. Then the store has
that cookie as it came, one character for each byte, and if the store was touched every response has
a line for it: the bytes below 128 **as they came**, each of the others as two. So the line is the
bytes that came in exactly where all of them are below 128, and such a cookie goes out on that line
on every visit, any number of times back and forth, as long as whole cookies are stored under other
names. What a client then sends is what it is shown by the lines that were written for it, as long as no
line ends in what handlers store. -/
theorem Parser.parseMany_left_alone (o : ReaderOptions) (hm : o.maxLine + 1 ≤ maxWord64)
    (names : List String) (ends : Bool) (chunks : List Bytes) (hs : Steady o.retries ends chunks)
    (verb : String) (r : Request) (hw : r.Writable o.maxLine verb) (further : Bytes)
    (he : chunks.flatten = r.wire verb ++ further) (header name value : Bytes)
    (hheader : r.header? "cookie" = some (latin1 header)) (hsent : SentOnce header name value)
    (c : Context) (hc : c.request = r) (hfresh : c.cookies? = none) (edits : List Edit)
    (hspared : ∀ e ∈ edits, sameName e.name (latin1 name) = false) :
    ((plain (.after names)).parseMany 1 (Link.reading o chunks ends)).1 = [.ok (some r)] ∧
    ((c.edited edits).cookies.HasOnce (latin1 name) (latin1 value) ∧
      ((c.edited edits).cookies.touched = true → ∀ response : Response,
        lineFor (widened name) (widened value)
          ∈ linesOf (utf8 (response.head (c.edited edits).cookies?)))) ∧
    (lineFor (widened name) (widened value) = lineFor name value ↔ Low name ∧ Low value) ∧
    (Low name → Low value → ∀ visits : List (List Edit),
      (∀ edits ∈ visits, ∀ e ∈ edits, sameName e.name (latin1 name) = false ∧ e.Whole) →
      ∀ s ∈ trips header visits, s.HasOnce (latin1 name) (latin1 value) ∧
        (s.touched = true → ∀ response : Response,
          lineFor name value ∈ linesOf (utf8 (response.head (some s))))) ∧
    ∀ visits : List (List Edit), (∀ edits ∈ visits, ∀ e ∈ edits, e.Unbroken) →
      ∀ s ∈ trips header visits,
        s.sentBack = [59, 32].intercalate (shown (utf8 s.cookieData)) := by
  have hcookies : c.cookies = CookieStore.parse (latin1 header) := by
    rw [Context.cookies, hfresh, Option.getD_none, Context.sentCookies, hc, hheader]
    rfl
  obtain ⟨hedited, hstored⟩ := c.cookies_edited edits
  rw [hcookies] at hedited hstored
  have honce := hasOnce_after hsent hspared
  have hplain := hw.not_crlf_infix hheader
  obtain ⟨⟨hname, hvalue⟩, -⟩ := parts_of_mem_crumbs hsent.mem
  have hname' : ¬ crlf <:+: name := fun hi => hplain (hi.trans hname)
  have hvalue' : ¬ crlf <:+: value := fun hi => hplain (hi.trans hvalue)
  refine ⟨parseMany_one hm names hs hw he, ⟨?_, fun htouched response => ?_⟩, ?_,
    fun hlow hlow' visits hvisits s hs' => ?_, fun visits hvisits s hs' => ?_⟩
  · rw [hedited]
    exact honce
  · rw [hedited] at htouched
    have hne : edits ≠ [] := by
      rintro rfl
      cases htouched
    rw [hstored, if_neg hne]
    exact lineFor_mem_linesOf honce htouched hname' hvalue' response
  · exact lineFor_widened_eq_iff
  · have hstore := hasOnce_trips hsent hlow hlow' hvisits s hs'
    refine ⟨hstore, fun htouched response => ?_⟩
    have hline := lineFor_mem_linesOf hstore htouched hname' hvalue' response
    rwa [widened_of_low hlow, widened_of_low hlow'] at hline
  · exact sentBack_eq_of_unsplit (unsplit_trips hplain hvisits s hs')

/-- A header with a cookie of bytes below 128, one with a byte from 128 on, one that comes twice and
a piece that is none. -/
def sundries : Bytes := ascii "theme = dark ;a=1; junk;id=" ++ [233] ++ ascii "; A=2"

/-- A request that brings them. -/
def bringing (header : Bytes) : Request :=
  { method := .get, target := "/", protocol := "HTTP/1.1", headers := ⟨[("cookie", latin1 header)]⟩,
    body := [] }

theorem writable_bringing : (bringing sundries).Writable 64 "GET" := by
  refine ⟨by decide, by decide, by decide, by decide, by decide, List.pairwise_singleton _ _, ?_,
    by decide, .inr ⟨by decide, rfl⟩, by decide⟩
  intro f hf
  rw [List.mem_singleton.1 hf]
  exact ⟨by decide, by decide +kernel, by decide, by decide⟩

open CookieStore in
/-- Two cookies that are left alone while a third is set: one goes out **as it came**, also on the
next visits, and the other with its last byte as two. -/
theorem Parser.parseMany_left_alone_sundries :
    let c : Context := { request := bringing sundries, remote := ⟨"127.0.0.1", 40000⟩ }
    let set : List Edit := [.upsert "b" "2"]
    (∀ response : Response, lineFor (ascii "id") [195, 169]
      ∈ linesOf (utf8 (response.head (c.edited set).cookies?))) ∧
    ∀ s ∈ trips sundries [set, [], [.remove "A", .upsert "b" "3"]],
      s.HasOnce "theme" "dark" := by
  intro c set
  have hw := writable_bringing
  have hs : Steady 1 true [(bringing sundries).wire "GET"] := by decide +kernel
  have hspared : ∀ name ∈ [ascii "id", ascii "theme"], ∀ e ∈ set,
      sameName e.name (latin1 name) = false := by decide
  have hid : SentOnce sundries (ascii "id") [233] := by decide +kernel
  have htheme : SentOnce sundries (ascii "theme") (ascii "dark") := by decide +kernel
  obtain ⟨-, ⟨-, hline⟩, -⟩ := parseMany_left_alone { retries := 1, maxLine := 64 } (by decide) []
    true _ hs "GET" _ hw [] (by simp) _ _ _ rfl hid c rfl rfl set (hspared _ (by decide))
  obtain ⟨-, -, -, hkept, -⟩ := parseMany_left_alone { retries := 1, maxLine := 64 } (by decide) []
    true _ hs "GET" _ hw [] (by simp) _ _ _ rfl htheme c rfl rfl set (hspared _ (by decide))
  have hlow : Low (ascii "theme") ∧ Low (ascii "dark") := by decide +kernel
  exact ⟨hline rfl, fun s hmem => (hkept hlow.1 hlow.2 _ (by decide) s hmem).1⟩

open CookieStore in
/-- A cookie with a byte from 128 on **does not go out as it came**, and comes in again as
another. -/
theorem Parser.not_left_as_it_came :
    ((plain (.after [])).parseMany 1 (Link.reading { retries := 1, maxLine := 64 }
        [(bringing sundries).wire "GET"] true)).1 = [.ok (some (bringing sundries))] ∧
    SentOnce sundries (ascii "id") [233] ∧
    (let c : Context := { request := bringing sundries, remote := ⟨"127.0.0.1", 40000⟩ }
    lineFor (ascii "id") [233]
      ∉ linesOf (utf8 ((Response.empty .ok).head (c.edited [.upsert "b" "2"]).cookies?))) ∧
    (trips sundries [[.upsert "b" "2"], []]).map (·.get? "id")
      = [some "\u00e9", some "\u00c3\u00a9"] := by
  have hs : Steady 1 true [(bringing sundries).wire "GET"] := by decide +kernel
  have hreceived := parseMany_one (o := { retries := 1, maxLine := 64 }) (by decide) [] hs
    writable_bringing (List.append_nil _).symm
  exact ⟨hreceived, by decide +kernel, by decide +kernel, by decide +kernel⟩

end HttpEngine
