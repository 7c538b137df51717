import HttpEngine.Proofs.Message.RoundTrip
import HttpEngine.Proofs.Text.Form

/-!
# The query and the body of a request as parameters

A query is read **one character for each byte**, as the line that it stands on is, and a body as
UTF-8. Both readings part the same bytes into the same keys and values, and a key or a value comes
to the same text in both exactly when it is written with bytes below 128.

* `Params.writtenIn`: the keys and values in bytes, before anything is decoded.
* `Params.parse_latin1`, `Params.parse_lossy`: the parameters in either reading.
* `Params.lookup_ofPairs`: a key has one value in two readings that agree on what is written for it.
* `Parser.parseMany_related`: requests with **the same bytes** as their query and as their body.
-/

namespace HttpEngine

open Text

namespace Params

/-! ### What is written -/

/-- What one piece between `&` says: a key, and a value **if there is a `=`**. -/
def written (piece : Bytes) : Bytes × Option Bytes :=
  match cut 61 piece with
  | some (key, value) => (key, some value)
  | none => (piece, none)

/-- The keys and values **written in bytes**, empty pieces skipped. -/
def writtenIn (bytes : Bytes) : List (Bytes × Option Bytes) :=
  ((pieces 38 bytes).filter (!·.isEmpty)).map written

/-- A key and a value as the texts that they stand for, in one reading of bytes. -/
def readAs (text : Bytes → String) (e : Bytes × Option Bytes) : String × Option String :=
  (decode (utf8 (text e.1)), e.2.map fun value => decode (utf8 (text value)))

/-- The parameters that keys and values give, **the last value of a key winning**. -/
def ofPairs (pairs : List (String × Option String)) : Params :=
  pairs.foldl (fun p e => p.set e.1 e.2) empty

/-- A key and a value written with bytes below 128. -/
def LowPair (e : Bytes × Option Bytes) : Prop := Low e.1 ∧ ∀ value ∈ e.2, Low value

/-! ### Readings of bytes -/

/-- A reading of bytes that **parts texts where it parts bytes**. -/
structure Parting (chars : Bytes → List Char) : Prop where
  pieces : ∀ bytes, pieces '&' (chars bytes) = (Text.pieces 38 bytes).map chars
  cut : ∀ bytes, cut '=' (chars bytes)
    = (Text.cut 61 bytes).map fun parts => (chars parts.1, chars parts.2)
  filled : ∀ bytes, chars bytes = [] ↔ bytes = []

theorem parting_latin1 : Parting (List.map latin1Char) where
  pieces := pieces_map latin1Char_injective 38
  cut := cut_map latin1Char_injective 61
  filled _ := List.map_eq_nil_iff

theorem parting_lossy : Parting Utf8.lossyChars where
  pieces := Utf8.pieces_lossyChars (b := 38) (by decide)
  cut := Utf8.cut_lossyChars (b := 61) (by decide)
  filled _ := Utf8.lossyChars_eq_nil_iff

/-- A text is cut at its first `=` **as its encoding is**. -/
theorem cut_utf8 (cs : List Char) :
    cut 61 (utf8 (String.ofList cs))
      = (cut '=' cs).map fun parts => (utf8 (String.ofList parts.1), utf8 (String.ofList parts.2)) := by
  have hequals : ∀ ds : List Char, 61 ∈ utf8 (String.ofList ds) → '=' ∈ ds := by
    intro ds h
    have hmem : '=' ∈ (String.ofList ds).toList := (mem_utf8_iff (by decide)).1 h
    rwa [String.toList_ofList] at hmem
  cases hcut : cut '=' cs with
  | none => exact cut_eq_none_iff.2 (mt (hequals cs) (cut_eq_none_iff.1 hcut))
  | some parts =>
    obtain ⟨rfl, h⟩ := cut_eq_some_iff.1 hcut
    refine cut_eq_some_iff.2 ⟨?_, mt (hequals parts.1) h⟩
    rw [utf8_ofList_append, utf8_cons]
    rfl

variable {chars : Bytes → List Char}

theorem pairOf_chars (h : Parting chars) (piece : Bytes) :
    pairOf (chars piece) = readAs (fun bytes => String.ofList (chars bytes)) (written piece) := by
  unfold pairOf written readAs
  rw [cut_utf8, h.cut]
  cases Text.cut 61 piece with
  | none => rfl
  | some parts => rfl

/-- The parameters in a text are **those written in its bytes**. -/
theorem parse_chars (h : Parting chars) (bytes : Bytes) :
    parse (String.ofList (chars bytes))
      = ofPairs ((writtenIn bytes).map (readAs fun bytes => String.ofList (chars bytes))) := by
  have hempty : (fun piece : List Char => !piece.isEmpty) ∘ chars
      = fun piece : Bytes => !piece.isEmpty := by
    funext piece
    rw [Bool.eq_iff_iff, Function.comp_apply, Bool.not_eq_true', Bool.not_eq_true',
      List.isEmpty_eq_false_iff, List.isEmpty_eq_false_iff]
    exact not_congr (h.filled piece)
  unfold parse ofPairs writtenIn
  rw [String.toList_ofList, h.pieces, List.filter_map, hempty, List.foldl_map, List.map_map,
    List.foldl_map]
  simp only [pairOf_chars h, Function.comp_apply]

theorem parse_latin1 (bytes : Bytes) :
    parse (latin1 bytes) = ofPairs ((writtenIn bytes).map (readAs latin1)) :=
  parse_chars parting_latin1 bytes

theorem parse_lossy (bytes : Bytes) :
    parse (Utf8.lossy bytes) = ofPairs ((writtenIn bytes).map (readAs Utf8.lossy)) :=
  parse_chars parting_lossy bytes

/-! ### Two readings -/

/-- A key and a value come to the same texts in both readings **each where its bytes are below
128**. -/
theorem readAs_agree_iff (e : Bytes × Option Bytes) :
    ((readAs latin1 e).1 = (readAs Utf8.lossy e).1 ↔ Low e.1) ∧
      ((readAs latin1 e).2 = (readAs Utf8.lossy e).2 ↔ ∀ value ∈ e.2, Low value) := by
  unfold readAs
  refine ⟨decode_latin1_eq_lossy_iff e.1, ?_⟩
  cases e.2 with
  | none =>
    rw [Option.map_none, Option.map_none]
    exact ⟨fun _ _ hv => absurd hv (Option.not_mem_none _), fun _ => rfl⟩
  | some value =>
    rw [Option.map_some, Option.map_some, Option.some_inj, decode_latin1_eq_lossy_iff]
    exact ⟨fun h v hv => Option.some_inj.1 hv ▸ h, fun h => h value rfl⟩

theorem readAs_eq_iff {e : Bytes × Option Bytes} :
    readAs latin1 e = readAs Utf8.lossy e ↔ LowPair e := by
  rw [Prod.ext_iff, LowPair]
  exact and_congr (readAs_agree_iff e).1 (readAs_agree_iff e).2

/-- The parts of bytes below 128 are below 128. -/
theorem lowPair_of_low {bytes : Bytes} (h : Low bytes) : ∀ e ∈ writtenIn bytes, LowPair e := by
  intro e he
  obtain ⟨piece, hpiece, rfl⟩ := List.mem_map.1 he
  have hlow : Low piece := fun b hb =>
    h b ((infix_of_mem_pieces (List.mem_of_mem_filter hpiece)).subset hb)
  unfold written
  cases hcut : cut 61 piece with
  | none => exact ⟨hlow, fun _ hv => absurd hv (Option.not_mem_none _)⟩
  | some parts =>
    obtain ⟨rfl, -⟩ := cut_eq_some_iff.1 hcut
    refine ⟨fun b hb => hlow b (List.mem_append_left _ hb), fun value hvalue b hb => ?_⟩
    rw [← Option.some_inj.1 hvalue] at hb
    exact hlow b (List.mem_append_right _ (List.mem_cons_of_mem _ hb))

theorem lookup_set (p : Params) (key name : String) (value : Option String) :
    (p.set key value).lookup name = if sameName key name then some value else p.lookup name := by
  unfold lookup set
  by_cases h : sameName key name = true
  · rw [if_pos h, ← Named.find?_congr h, Named.find?_put_self]
  · rw [if_neg h, Named.find?_put_of_not_same (Bool.eq_false_iff.2 h)]

/-- Two readings agree on a key **as long as they agree on what is written for it**. -/
theorem lookup_ofPairs {pairs : List (Bytes × Option Bytes)} {key : String}
    {f g : Bytes × Option Bytes → String × Option String}
    (h : ∀ e ∈ pairs, f e = g e ∨
      sameName (f e).1 key = false ∧ sameName (g e).1 key = false) :
    (ofPairs (pairs.map f)).lookup key = (ofPairs (pairs.map g)).lookup key := by
  have hfrom : ∀ p q : Params, p.lookup key = q.lookup key →
      ((pairs.map f).foldl (fun p e => p.set e.1 e.2) p).lookup key
        = ((pairs.map g).foldl (fun p e => p.set e.1 e.2) q).lookup key := by
    induction pairs with
    | nil => exact fun p q hpq => hpq
    | cons e pairs ih =>
      intro p q hpq
      obtain ⟨he, hpairs⟩ := List.forall_mem_cons.1 h
      refine ih hpairs _ _ ?_
      rw [lookup_set, lookup_set, hpq]
      rcases he with he | ⟨hf, hg⟩
      · rw [he]
      · rw [hf, hg, if_neg Bool.false_ne_true, if_neg Bool.false_ne_true]
  exact hfrom empty empty rfl

end Params

/-! ### Requests with the same bytes in the target and in the body -/

namespace Request

/-- A request for a path with bytes behind a question mark, **as it is put on a stream**. -/
def asking (s : Bytes) : Bytes := ascii "GET /p?" ++ s ++ ascii " HTTP/1.1\r\n\r\n"

/-- A request with bytes as its body, as it is put on a stream. -/
def posting (s : Bytes) : Bytes :=
  ascii ("POST /p HTTP/1.1\r\nContent-Length: " ++ toString s.length ++ "\r\n\r\n") ++ s

/-- What `asking` asks for. -/
def asked (s : Bytes) : Request :=
  { method := .get, target := "/p?" ++ latin1 s, protocol := "HTTP/1.1", headers := {}, body := [] }

/-- What `posting` posts. -/
def posted (s : Bytes) : Request :=
  { method := .post, target := "/p", protocol := "HTTP/1.1",
    headers := ⟨[("Content-Length", toString s.length)]⟩, body := s }

variable {s : Bytes} {longest : Nat}

theorem wire_asked (s : Bytes) : (asked s).wire "GET" = asking s := by
  simp only [wire, asked, startLine, fieldLines, latin1Bytes_append, latin1Bytes_latin1]
  simp only [asking, ascii, latin1Bytes, List.append_assoc, List.flatMap_nil, List.nil_append]
  rfl

theorem wire_posted (s : Bytes) : (posted s).wire "POST" = posting s := by
  simp only [wire, posted, startLine, fieldLines, fieldLine, latin1Bytes_append]
  simp only [posting, ascii, latin1Bytes, String.toList_append, List.map_append, List.append_assoc,
    List.flatMap_cons, List.flatMap_nil, List.nil_append]
  rfl

theorem inline_protocol : Inline "HTTP/1.1" ∧ ' ' ∉ "HTTP/1.1".toList := by decide

theorem writable_asked (h : ¬ crlf <:+: s) (hfits : s.length + 16 ≤ longest) :
    (asked s).Writable longest "GET" where
  method := show sameName Method.get.token "GET" = true by decide
  target := by
    have hpath : Inline "/p" := by decide
    exact hpath.join (inline_latin1 h) '?' (by decide) (by decide) (by decide)
  protocol := inline_protocol.1
  no_space := inline_protocol.2
  fits := by
    have hlength : (latin1 s).length = s.length := by
      rw [latin1, String.length_ofList, List.length_map]
    have hparts : "GET".length + " ".length + "/p?".length + " ".length + "HTTP/1.1".length = 16 := by
      decide
    simp only [startLine, asked, String.length_append, hlength]
    omega
  distinct := List.Pairwise.nil
  fields := fun _ hf => absurd hf List.not_mem_nil
  not_overridden := rfl
  announced := .inr ⟨rfl, rfl⟩
  body := Nat.zero_le _

theorem writable_posted (hbody : s.length ≤ maxInt64) (hfits : 16 ≤ longest)
    (hlength : (toString s.length).length + 16 ≤ longest) :
    (posted s).Writable longest "POST" where
  method := show sameName Method.post.token "POST" = true by decide
  target := show Inline "/p" by decide
  protocol := inline_protocol.1
  no_space := inline_protocol.2
  fits := Nat.le_trans (show (startLine "POST" (posted [])).length ≤ 16 by decide) hfits
  distinct := List.pairwise_singleton _ _
  fields := by
    intro f hf
    rw [List.mem_singleton.1 hf]
    refine ⟨show Inline "Content-Length" by decide, inline_toString _,
      show ¬ [':', ' '] <:+: "Content-Length".toList by decide, ?_⟩
    have hname : ("Content-Length" ++ ": ").length = 16 := by decide
    rw [fieldLine, String.length_append, hname, Nat.add_comm]
    exact hlength
  not_overridden := by
    have hname : sameName "Content-Length" "_method" = false := by decide
    rw [posted, Headers.get?, Named.find?_cons, hname]
    rfl
  announced := by
    have hname : sameName "Content-Length" "content-length" = true := by decide
    refine .inl ?_
    rw [posted, Headers.get?, Named.find?_cons, hname]
    rfl
  body := hbody

theorem query_of_target {r : Request} (h : r.target = "/p?" ++ latin1 s) :
    r.query = Params.parse (latin1 s) := by
  have hcut : cut '?' r.target.toList = some (['/', 'p'], (latin1 s).toList) := by
    rw [h, cut_eq_some_iff, String.toList_append]
    exact ⟨rfl, by decide⟩
  rw [query, hcut]
  exact congrArg Params.parse String.ofList_toList

/-- How the query and the form are related that **the same bytes** are received as. -/
structure Related (s : Bytes) (query form : Params) : Prop where
  query_eq : query = .ofPairs ((Params.writtenIn s).map (Params.readAs latin1))
  form_eq : form = .ofPairs ((Params.writtenIn s).map (Params.readAs Utf8.lossy))
  keys : ∀ e ∈ Params.writtenIn s,
    (Params.readAs latin1 e).1 = (Params.readAs Utf8.lossy e).1 ↔ Low e.1
  values : ∀ e ∈ Params.writtenIn s,
    (Params.readAs latin1 e).2 = (Params.readAs Utf8.lossy e).2 ↔ ∀ value ∈ e.2, Low value
  /-- A key that **no other bytes** are written for or read as has the same value in both. -/
  lookup : ∀ key, (∀ e ∈ Params.writtenIn s, Params.LowPair e ∨
      sameName (Params.readAs latin1 e).1 key = false ∧
        sameName (Params.readAs Utf8.lossy e).1 key = false) →
    query.lookup key = form.lookup key
  low : Low s → query = form

/-- The query of a request and the form of another are **related by the bytes** that both were
received as. -/
theorem related_of_received {q f : Request} (hq : q.target = "/p?" ++ latin1 s) (hf : f.body = s) :
    Related s q.query f.form := by
  have hquery : q.query = .ofPairs ((Params.writtenIn s).map (Params.readAs latin1)) := by
    rw [query_of_target hq, Params.parse_latin1]
  have hform : f.form = .ofPairs ((Params.writtenIn s).map (Params.readAs Utf8.lossy)) := by
    rw [form, hf, Params.parse_lossy]
  refine ⟨hquery, hform, fun e _ => (Params.readAs_agree_iff e).1,
    fun e _ => (Params.readAs_agree_iff e).2, fun key hkey => ?_, fun hlow => ?_⟩
  · rw [hquery, hform]
    exact Params.lookup_ofPairs fun e he => (hkey e he).imp_left Params.readAs_eq_iff.2
  · rw [hquery, hform]
    refine congrArg Params.ofPairs (List.map_congr_left fun e he => ?_)
    exact Params.readAs_eq_iff.2 (Params.lowPair_of_low hlow e he)

end Request

namespace Parser

open Request

section Received

variable (o : ReaderOptions) (names : List String) (ends : Bool) (s : Bytes)
  (hm : o.maxLine + 1 ≤ maxWord64) (hcrlf : ¬ crlf <:+: s) (hline : s.length + 16 ≤ o.maxLine)
  (hlength : (toString s.length).length + 16 ≤ o.maxLine) (hbody : s.length ≤ maxInt64)
  (chunks : List Bytes) (hs : Steady o.retries ends chunks) (further : Bytes)
  (he : chunks.flatten = asking s ++ posting s ++ further)

include hm hcrlf hline hlength hbody hs he

theorem parseMany_asking_posting :
    ((plain (.after names)).parseMany 2 (Link.reading o chunks ends)).1
      = [.ok (some (asked s)), .ok (some (posted s))] := by
  have hp : (plain (.after names)).Sound := MethodCache.sound_after names
  have hwritable : ∀ v ∈ [("GET", asked s), ("POST", posted s)], v.2.Writable o.maxLine v.1 := by
    intro v hv
    rcases List.mem_cons.1 hv with rfl | hv
    · exact writable_asked hcrlf hline
    · rw [List.mem_singleton.1 hv]
      exact writable_posted hbody (Nat.le_trans (Nat.le_add_left _ _) hline) hlength
  have hwire : chunks.flatten
      = [("GET", asked s), ("POST", posted s)].flatMap (fun v => v.2.wire v.1) ++ further := by
    simp only [he, ← wire_asked, ← wire_posted, List.flatMap_cons, List.flatMap_nil,
      List.append_nil]
  have hholds := Link.reading_holds hs
  rw [hwire] at hholds
  exact (parseMany_holds hm hp rfl hwritable hholds).1

/-- **The same bytes as a query and as a body.** Where no line ends in them and they fit on the
request line, both requests are received, and their parameters are those written in the bytes, read
one character for each byte in the query and as UTF-8 in the form. A key or a value is the same in
both exactly when its bytes are below 128, so bytes below 128 throughout give the same parameters
in both. -/
theorem parseMany_related :
    ((plain (.after names)).parseMany 2 (Link.reading o chunks ends)).1
        = [.ok (some (asked s)), .ok (some (posted s))] ∧
      ∀ q f : Request, q.target = "/p?" ++ latin1 s → f.body = s → Related s q.query f.form := by
  refine ⟨?_, fun q f => related_of_received⟩
  exact parseMany_asking_posting o names ends s hm hcrlf hline hlength hbody chunks hs further he

end Received

/-- A value of one byte from 128 on, behind one that is escaped. -/
def escapedAndRaw : Bytes := ascii "a=%C3%A9+b&flag&k=" ++ [233]

/-- Both requests for it are received, in reads that part them anywhere, and their parameters are
**those written in it**. -/
theorem parseMany_related_raw :
    ((plain (.after [])).parseMany 2 (Link.reading { retries := 1, maxLine := 64 }
        [asking escapedAndRaw ++ ascii "PO", [], (posting escapedAndRaw).drop 2] false)).1
      = [.ok (some (asked escapedAndRaw)), .ok (some (posted escapedAndRaw))] ∧
    Related escapedAndRaw (asked escapedAndRaw).query (posted escapedAndRaw).form := by
  have h := parseMany_related { retries := 1, maxLine := 64 } [] false escapedAndRaw (by decide)
    (by decide +kernel) (by decide) (by decide) (by decide)
    [asking escapedAndRaw ++ ascii "PO", [], (posting escapedAndRaw).drop 2] (by decide +kernel) []
    (by decide +kernel)
  exact ⟨h.1, h.2 _ _ rfl rfl⟩

/-- A byte from 128 on that is not escaped **is one character in the query and broken in the
form**. -/
theorem query_ne_form_raw :
    ((plain (.after [])).parseMany 2 (Link.reading { retries := 1, maxLine := 64 }
        [asking (ascii "k=" ++ [233]) ++ posting (ascii "k=" ++ [233])] false)).1
      = [.ok (some (asked (ascii "k=" ++ [233]))), .ok (some (posted (ascii "k=" ++ [233])))] ∧
    ¬ crlf <:+: ascii "k=" ++ [233] ∧
    (asked (ascii "k=" ++ [233])).query.entries = [("k", some "\u00e9")] ∧
    (posted (ascii "k=" ++ [233])).form.entries = [("k", some "\uFFFD")] := by
  refine ⟨?_, by decide, ?_, ?_⟩
  · exact parseMany_asking_posting { retries := 1, maxLine := 64 } [] false _ (by decide) (by decide)
      (by decide) (by decide) (by decide) _ (by decide +kernel) [] (by decide +kernel)
  · rw [query_of_target rfl, Params.parse_latin1]
    decide +kernel
  · rw [form, posted, Params.parse_lossy]
    decide +kernel

end Parser

end HttpEngine
