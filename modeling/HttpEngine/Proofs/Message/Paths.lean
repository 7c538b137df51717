import HttpEngine.Message.Request
import HttpEngine.Proofs.Text.FormCode
import HttpEngine.Proofs.Text.Form
import HttpEngine.Proofs.Text.Pieces

/-!
# Paths and the segments they stand for

A segment can be written in many ways: a byte as an escape, its digits in either case, or, where it
is a character below 128 that means nothing in a target, as itself. **However it is written it is
read back**, because escapes are undone before slashes are looked for and no escape is cut by one.

* `PathWritten`: how bytes are written in a path.
* `PathOf`: the paths of some segments, with slashes between, before and behind them.
* `PathWritten.percentDecode_eq`: what is written stands for its bytes, whatever is behind it.
* `PathOf.plain`: a path with its escapes undone.
* `Request.decodedPath`: the text of a path, read strictly where it can be.
* `Request.segments_read_back`: **the segments of every spelling**, and those of every target.
-/

namespace HttpEngine

open Text

namespace Text

/-- A hex digit of a number below sixteen, **in either case**. -/
def IsHex (n : Nat) (c : Char) : Prop := c = n.digitChar ∨ c = capitalHex n

instance (n : Nat) (c : Char) : Decidable (IsHex n c) :=
  inferInstanceAs (Decidable (c = n.digitChar ∨ c = capitalHex n))

/-- How bytes are **written in a path**. -/
inductive PathWritten : Bytes → List Char → Prop
  | nil : PathWritten [] []
  /-- A character below 128 may stand for its own byte, if it means nothing in a target. -/
  | plain {b : UInt8} {bytes : Bytes} {cs : List Char} (low : b.toNat < 128)
      (free : latin1Char b ∉ ['%', '/', '?']) (rest : PathWritten bytes cs) :
      PathWritten (b :: bytes) (latin1Char b :: cs)
  /-- Any byte may be an escape. -/
  | escape {b : UInt8} {bytes : Bytes} {high low : Char} {cs : List Char}
      (hh : IsHex (b.toNat / 16) high) (hl : IsHex (b.toNat % 16) low)
      (rest : PathWritten bytes cs) : PathWritten (b :: bytes) ('%' :: high :: low :: cs)

/-- The paths **with these segments**: one slash or more between them, and any number before the
first and behind the last. -/
inductive PathOf : List String → List Char → Prop
  | nil : PathOf [] []
  | slash {texts : List String} {cs : List Char} (rest : PathOf texts cs) :
      PathOf texts ('/' :: cs)
  | last {text : String} {cs : List Char} (written : PathWritten (utf8 text) cs) :
      PathOf [text] cs
  | segment {text : String} {texts : List String} {cs rest : List Char}
      (written : PathWritten (utf8 text) cs) (more : PathOf texts rest) :
      PathOf (text :: texts) (cs ++ '/' :: rest)

/-! ### Escapes undone -/

variable {n : Nat} {c : Char} {bytes : Bytes} {cs : List Char} {texts : List String}

/-- A hex digit **has its number**, and is no other sign of a target. -/
theorem IsHex.digit (h : IsHex n c) (hn : n < 16) :
    c.toNat < 128 ∧ c ≠ '?' ∧ hexValue? (UInt8.ofNat c.toNat) = some (UInt8.ofNat n) := by
  have hsmall : ∀ n : Fin 16, n.val.digitChar.toNat < 128 ∧ n.val.digitChar ≠ '?' ∧
      hexValue? (UInt8.ofNat n.val.digitChar.toNat) = some (UInt8.ofNat n.val) := by
    decide
  have hcapital : ∀ n : Fin 16, (capitalHex n.val).toNat < 128 ∧ capitalHex n.val ≠ '?' ∧
      hexValue? (UInt8.ofNat (capitalHex n.val).toNat) = some (UInt8.ofNat n.val) := by
    decide
  rcases h with rfl | rfl
  · exact hsmall ⟨n, hn⟩
  · exact hcapital ⟨n, hn⟩

/-- The halves of a byte **give it back**. -/
theorem ofNat_halves (b : UInt8) :
    UInt8.ofNat (b.toNat / 16) * 16 + UInt8.ofNat (b.toNat % 16) = b :=
  forall_byte (P := fun b => UInt8.ofNat (b.toNat / 16) * 16 + UInt8.ofNat (b.toNat % 16) = b)
    (by decide +kernel) b

/-- What is written **stands for its bytes**, whatever is behind it. -/
theorem PathWritten.percentDecode_eq (h : PathWritten bytes cs) (rest : List Char) :
    percentDecode (utf8 (String.ofList (cs ++ rest)))
      = bytes ++ percentDecode (utf8 (String.ofList rest)) := by
  induction h with
  | nil => rfl
  | @plain b bytes cs low free _ ih =>
    have hpercent : b ≠ 37 := by
      rintro rfl
      exact free List.mem_cons_self
    rw [List.cons_append, utf8_cons_of_low (by rwa [toNat_latin1Char]), toNat_latin1Char,
      UInt8.ofNat_toNat, percentDecode_of_ne hpercent, ih, List.cons_append]
  | @escape b bytes high low cs hh hl _ ih =>
    have hb : b.toNat < 256 := b.toNat_lt
    obtain ⟨hhigh, -, hhighValue⟩ := hh.digit (by omega)
    obtain ⟨hlow, -, hlowValue⟩ := hl.digit (by omega)
    rw [List.cons_append, List.cons_append, List.cons_append, utf8_cons_of_low (by decide),
      utf8_cons_of_low hhigh, utf8_cons_of_low hlow]
    have hescape := percentDecode_escape hhighValue hlowValue
      (utf8 (String.ofList (cs ++ rest)))
    rw [ofNat_halves, ih] at hescape
    exact hescape

/-- **No question mark** is written in a path. -/
theorem PathWritten.no_query (h : PathWritten bytes cs) : '?' ∉ cs := by
  induction h with
  | nil => exact List.not_mem_nil
  | @plain b bytes cs _ free _ ih =>
    have hb : '?' ≠ latin1Char b := by
      intro he
      exact free (by rw [← he]; decide)
    exact List.not_mem_cons_of_ne_of_not_mem hb ih
  | @escape b bytes high low cs hh hl _ ih =>
    have hb : b.toNat < 256 := b.toNat_lt
    obtain ⟨-, hhigh, -⟩ := hh.digit (by omega)
    obtain ⟨-, hlow, -⟩ := hl.digit (by omega)
    have hrest := List.not_mem_cons_of_ne_of_not_mem hlow.symm ih
    exact List.not_mem_cons_of_ne_of_not_mem (by decide)
      (List.not_mem_cons_of_ne_of_not_mem hhigh.symm hrest)

theorem PathOf.no_query (h : PathOf texts cs) : '?' ∉ cs := by
  induction h with
  | nil => exact List.not_mem_nil
  | slash _ ih => exact List.not_mem_cons_of_ne_of_not_mem (by decide) ih
  | last written => exact written.no_query
  | segment written _ ih =>
    rw [List.mem_append, not_or]
    exact ⟨written.no_query, List.not_mem_cons_of_ne_of_not_mem (by decide) ih⟩

/-! ### What stands between the slashes -/

/-- What stands between slashes, **empty pieces left out**. -/
def segmentChars (cs : List Char) : List (List Char) := (pieces '/' cs).filter (!·.isEmpty)

theorem segmentChars_append (a b : List Char) :
    segmentChars (a ++ '/' :: b) = segmentChars a ++ segmentChars b := by
  rw [segmentChars, pieces_append_pieces, List.filter_append]
  rfl

theorem segmentChars_of_not_mem {l : List Char} (hne : l ≠ []) (h : '/' ∉ l) :
    segmentChars l = [l] := by
  rw [segmentChars, pieces_of_not_mem h, List.filter_cons_of_pos]
  · rfl
  · rw [List.isEmpty_eq_false_iff.2 hne]
    rfl

/-- A path is, its escapes undone, **the encoding of a text** that has its segments between slashes. -/
theorem PathOf.plain (h : PathOf texts cs) (htexts : ∀ t ∈ texts, t ≠ "" ∧ '/' ∉ t.toList) :
    ∃ text, percentDecode (utf8 (String.ofList cs)) = utf8 text ∧
      segmentChars text.toList = texts.map String.toList := by
  have halone : ∀ t : String, t ≠ "" ∧ '/' ∉ t.toList → segmentChars t.toList = [t.toList] := by
    intro t ht
    refine segmentChars_of_not_mem ?_ ht.2
    intro hnil
    exact ht.1 (String.toList_inj.1 hnil)
  induction h with
  | nil => exact ⟨"", rfl, rfl⟩
  | @slash texts cs _ ih =>
    obtain ⟨text, hdecode, hsegments⟩ := ih htexts
    refine ⟨String.ofList ('/' :: text.toList), ?_, ?_⟩
    · rw [utf8_cons_of_low (by decide), percentDecode_of_ne (by decide), hdecode,
        utf8_cons_of_low (by decide), String.ofList_toList]
    · rw [String.toList_ofList, ← hsegments]
      exact segmentChars_append [] text.toList
  | @last text cs written =>
    have hdecode := written.percentDecode_eq []
    rw [List.append_nil] at hdecode
    refine ⟨text, ?_, halone text (htexts text List.mem_cons_self)⟩
    rw [hdecode]
    exact List.append_nil _
  | @segment text texts cs rest written _ ih =>
    obtain ⟨hfirst, hrest⟩ := List.forall_mem_cons.1 htexts
    obtain ⟨behind, hdecode, hsegments⟩ := ih hrest
    refine ⟨String.ofList (text.toList ++ '/' :: behind.toList), ?_, ?_⟩
    · rw [written.percentDecode_eq, utf8_cons_of_low (by decide),
        percentDecode_of_ne (by decide), hdecode, utf8_ofList_append, utf8_cons_of_low (by decide),
        String.ofList_toList, String.ofList_toList]
    · rw [String.toList_ofList, segmentChars_append, halone text hfirst, hsegments]
      rfl

end Text

namespace Request

/-! ### Segments of a request -/

/-- The text that a path stands for: its bytes **as they are** if they can be read, or else with
replacements for what is broken. -/
def decodedPath (path : String) : String :=
  match Utf8.decode? (percentDecode (utf8 path)) with
  | some text => text
  | none => Utf8.lossy (percentDecode (utf8 path))

theorem segmentsOf_eq (path : String) :
    segmentsOf path = (segmentChars (decodedPath path).toList).map String.ofList := by
  have hlossy : decodedPath path = Utf8.lossy (percentDecode (utf8 path)) := by
    unfold decodedPath
    cases hread : Utf8.decode? (percentDecode (utf8 path)) with
    | none => rfl
    | some text => exact (Utf8.lossy_of_decode? hread).symm
  rw [hlossy, Utf8.lossy, String.toList_ofList]
  rfl

/-- No segment is empty, and **none has a slash**. -/
theorem filled_of_mem_segments {r : Request} {s : String} (h : s ∈ r.segments) :
    s ≠ "" ∧ '/' ∉ s.toList := by
  obtain ⟨piece, hpiece, rfl⟩ := List.mem_map.1 h
  obtain ⟨hmem, hfilled⟩ := List.mem_filter.1 hpiece
  rw [String.toList_ofList]
  refine ⟨?_, not_mem_of_mem_pieces hmem⟩
  intro hempty
  have hnil : piece = [] := String.ofList_injective hempty
  rw [hnil] at hfilled
  exact absurd hfilled Bool.false_ne_true

/-- A target is **parted at its first question mark**, if there is one. -/
theorem target_cases (r : Request) :
    ('?' ∉ r.target.toList ∧ r.uri = r.target ∧ r.query = Params.empty) ∨
      ∃ rest, r.target = r.uri ++ "?" ++ rest ∧ '?' ∉ r.uri.toList ∧
        r.query = Params.parse rest := by
  unfold uri query
  cases hcut : cut '?' r.target.toList with
  | none => exact .inl ⟨cut_eq_none_iff.1 hcut, rfl, rfl⟩
  | some parts =>
    obtain ⟨path, rest⟩ := parts
    obtain ⟨htarget, hpath⟩ := cut_eq_some_iff.1 hcut
    refine .inr ⟨String.ofList rest, ?_, ?_, rfl⟩
    · rw [← String.toList_inj, htarget]
      simp
    · rwa [String.toList_ofList]

/-- A path without a question mark is **the whole path**, with or without a query behind it. -/
theorem uri_of_target {r : Request} {path : String} (hpath : '?' ∉ path.toList)
    (h : r.target = path ∨ ∃ query, r.target = path ++ "?" ++ query) : r.uri = path := by
  rcases h with htarget | ⟨query, htarget⟩
  · rw [uri, htarget, cut_eq_none_iff.2 hpath]
  · have hcut : cut '?' r.target.toList = some (path.toList, query.toList) := by
      refine cut_eq_some_iff.2 ⟨?_, hpath⟩
      rw [htarget]
      simp
    rw [uri, hcut]
    exact String.ofList_toList

theorem segmentsOf_path {texts : List String} {path : String}
    (htexts : ∀ t ∈ texts, t ≠ "" ∧ '/' ∉ t.toList) (h : PathOf texts path.toList) :
    segmentsOf path = texts := by
  obtain ⟨text, hdecode, hsegments⟩ := h.plain htexts
  rw [String.ofList_toList] at hdecode
  rw [segmentsOf_eq, decodedPath, hdecode, Utf8.decode?_utf8]
  simp only [hsegments, List.map_map, Function.comp_def, String.ofList_toList, List.map_id']

/-- **Segments are read back however they are written.** Every request for a path of some segments,
not empty and without slashes, has those segments, and its path is what was written, with any query or
none. And whatever the target is, its escapes and its bytes may be broken: no segment is empty or has a
slash, they stand between the slashes of the text that the path stands for, and the target is the path
alone, or the path, the first question mark and the text of the query. -/
theorem segments_read_back :
    (∀ (texts : List String) (path : String), (∀ t ∈ texts, t ≠ "" ∧ '/' ∉ t.toList) →
      PathOf texts path.toList → ∀ r : Request,
        (r.target = path ∨ ∃ query, r.target = path ++ "?" ++ query) →
        r.segments = texts ∧ r.uri = path) ∧
    ∀ r : Request, (∀ s ∈ r.segments, s ≠ "" ∧ '/' ∉ s.toList) ∧
      r.segments = ((pieces '/' (decodedPath r.uri).toList).filter (!·.isEmpty)).map String.ofList ∧
      (('?' ∉ r.target.toList ∧ r.uri = r.target ∧ r.query = Params.empty) ∨
        ∃ rest, r.target = r.uri ++ "?" ++ rest ∧ '?' ∉ r.uri.toList ∧
          r.query = Params.parse rest) := by
  refine ⟨?_, ?_⟩
  · intro texts path htexts hpath r htarget
    have huri : r.uri = path := uri_of_target hpath.no_query htarget
    refine ⟨?_, huri⟩
    rw [segments, huri]
    exact segmentsOf_path htexts hpath
  · intro r
    exact ⟨fun s hs => filled_of_mem_segments hs, segmentsOf_eq r.uri, target_cases r⟩

/-- A path with escapes in either case, slashes to spare and a plus. -/
def spelled : String := "//%c3%A9+/%3fa//"

theorem pathOf_spelled : PathOf ["\u00e9+", "?a"] spelled.toList := by
  have hfirst : PathWritten (utf8 "\u00e9+") "%c3%A9+".toList :=
    .escape (by decide) (by decide) (.escape (by decide) (by decide)
      (.plain (by decide) (by decide) .nil))
  have hsecond : PathWritten (utf8 "?a") "%3fa".toList :=
    .escape (by decide) (by decide) (.plain (by decide) (by decide) .nil)
  exact .slash (.slash (.segment hfirst (.segment hsecond (.slash .nil))))

/-- A request for it, with a query that looks like a path. -/
def spelling : Request :=
  { method := .get, target := spelled ++ "?" ++ "/b?c=/d", protocol := "HTTP/1.1", headers := {}
    body := [] }

theorem segments_read_back_spelled :
    (∀ t ∈ ["\u00e9+", "?a"], t ≠ "" ∧ '/' ∉ t.toList) ∧
    PathOf ["\u00e9+", "?a"] spelled.toList ∧
    spelling.segments = ["\u00e9+", "?a"] ∧ spelling.uri = spelled := by
  have hfilled : ∀ t ∈ ["\u00e9+", "?a"], t ≠ "" ∧ '/' ∉ t.toList := by decide
  obtain ⟨hwritten, -⟩ := segments_read_back
  exact ⟨hfilled, pathOf_spelled, hwritten _ _ hfilled pathOf_spelled spelling (.inr ⟨_, rfl⟩)⟩

end Request

end HttpEngine
