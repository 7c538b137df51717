import HttpEngine.Proofs.Message.Parsing
import HttpEngine.Proofs.Text.Integer
import HttpEngine.Proofs.Text.Latin1

/-!
# Requests written and read back

* `Request.wire`: a request as it is put on a stream.
* `Request.Writable`: **what a request must not have in it** to be read back as it was written.
* `Request.judged_of_wire`: written in front of anything, it is the request that is read.
* `Parser.parseMany`: requests read one after another.
-/

namespace HttpEngine

open Text

namespace Request

/-- The request line, with the name of the method spelled `verb`. -/
def startLine (verb : String) (r : Request) : String :=
  verb ++ " " ++ r.target ++ " " ++ r.protocol

/-- The line of a header. -/
def fieldLine (f : String × String) : String := f.1 ++ ": " ++ f.2

/-- The lines of headers, each with its end. -/
def fieldLines (fields : List (String × String)) : Bytes :=
  fields.flatMap fun f => latin1Bytes (fieldLine f) ++ crlf

/-- A request **as it is put on a stream**. -/
def wire (verb : String) (r : Request) : Bytes :=
  latin1Bytes (r.startLine verb) ++ crlf ++ fieldLines r.headers.entries ++ crlf ++ r.body

/-- A header that can be written on a line of at most `longest` bytes. -/
structure WritableField (longest : Nat) (f : String × String) : Prop where
  name : Inline f.1
  value : Inline f.2
  uncut : ¬ [':', ' '] <:+: f.1.toList
  fits : (fieldLine f).length ≤ longest

/-- A request that can be written with this name of its method, on lines of at most `longest`
bytes. -/
structure Writable (longest : Nat) (verb : String) (r : Request) : Prop where
  method : sameName r.method.token verb = true
  target : Inline r.target
  protocol : Inline r.protocol
  no_space : ' ' ∉ r.protocol.toList
  fits : (r.startLine verb).length ≤ longest
  distinct : r.headers.entries.Pairwise fun f g => sameName f.1 g.1 = false
  fields : ∀ f ∈ r.headers.entries, WritableField longest f
  not_overridden : r.headers.get? "_method" = none
  /-- The length of the body is announced, and may be left out **when there is none**. -/
  announced : r.headers.get? "content-length" = some (toString r.body.length) ∨
    r.headers.get? "content-length" = none ∧ r.body = []
  body : r.body.length ≤ maxInt64

variable {longest window limit : Nat} {ends : Bool} {verb : String} {r : Request}

/-! ### Lines -/

theorem isAlpha_of_verb (h : sameName r.method.token verb = true) :
    ∀ c ∈ verb.toList, c.isAlpha = true := by
  intro c hc
  have hletters : (folded r.method.token).all Char.isAlpha = true := by
    cases r.method <;> decide
  have hmem : c.toLower ∈ folded r.method.token := by
    rw [sameName_iff.1 h]
    exact List.mem_map_of_mem hc
  exact isAlpha_of_isAlpha_toLower (List.all_eq_true.1 hletters _ hmem)

theorem inline_of_letters (h : ∀ c ∈ verb.toList, c.isAlpha = true) : Inline verb := by
  constructor
  · -- letters are below 123
    intro c hc
    have := isAlpha_le (h c hc)
    omega
  · intro hi
    have := h '\r' (hi.subset List.mem_cons_self)
    exact absurd this (by decide)

theorem lineAt_of_inline {s : String} (hs : Inline s) (hf : s.length ≤ longest)
    (hw : longest + 2 ≤ window) (rest : Bytes) :
    LineAt window (latin1Bytes s ++ crlf ++ rest) (latin1Bytes s) rest := by
  refine ⟨rfl, not_crlf_infix_latin1Bytes hs, ?_⟩
  rw [length_latin1Bytes]
  omega

theorem Writable.inline_startLine (h : r.Writable longest verb) : Inline (r.startLine verb) :=
  ((inline_of_letters (isAlpha_of_verb h.method)).join_space h.target).join_space h.protocol

theorem Writable.requestLine (h : r.Writable longest verb) :
    RequestLine (latin1Bytes (r.startLine verb)) verb r.target r.protocol := by
  refine ⟨latin1_latin1Bytes h.inline_startLine, fun hs => ?_, h.no_space⟩
  exact absurd (isAlpha_of_verb h.method ' ' hs) (by decide)

theorem fields_fieldLines {fields : List (String × String)} (hw : longest + 2 ≤ window)
    (h : ∀ f ∈ fields, WritableField longest f) (rest : Bytes) :
    Fields window (fieldLines fields ++ rest) fields rest := by
  induction fields with
  | nil => exact .nil rest
  | cons f fields ih =>
    have hf := h f List.mem_cons_self
    have hline : Inline (fieldLine f) := hf.name.join_colon hf.value
    have hmore := ih fun g hg => h g (List.mem_cons_of_mem _ hg)
    have he : fieldLines (f :: fields) ++ rest
        = latin1Bytes (fieldLine f) ++ crlf ++ (fieldLines fields ++ rest) := by
      simp [fieldLines]
    rw [he]
    exact .cons (lineAt_of_inline hline hf.fits hw _)
      ⟨latin1_latin1Bytes hline, hf.uncut⟩ hmore

/-- A request **written in front of anything** is the request that is read. -/
theorem judged_of_wire (h : r.Writable longest verb) (hw : longest + 2 ≤ window)
    (further : Bytes) :
    Judged limit window ends (r.wire verb ++ further) (.ok (some r)) further := by
  have hheaders : Headers.collapsed r.headers.entries = r.headers :=
    congrArg Headers.mk (Headers.entries_collapsed h.distinct)
  have hvalue : ∀ name, lastValue? name r.headers.entries = r.headers.get? name := by
    intro name
    rw [← Headers.get?_collapsed, hheaders]
  have he : r.wire verb ++ further = latin1Bytes (r.startLine verb) ++ crlf ++
      (fieldLines r.headers.entries ++ (crlf ++ (r.body ++ further))) := by
    simp [wire]
  have hopened : Opened window (r.wire verb ++ further) verb r.target r.protocol
      r.headers.entries (crlf ++ (r.body ++ further)) := by
    rw [he]
    exact ⟨_, _, lineAt_of_inline h.inline_startLine h.fits hw _, h.requestLine,
      fields_fieldLines hw h.fields _⟩
  -- the empty line, the length, and the method, in the order they are judged in
  have hblank : LineAt window (crlf ++ (r.body ++ further)) [] (r.body ++ further) :=
    ⟨rfl, by decide, by rw [List.length_nil]; omega⟩
  have hlength : Announces r.headers.entries r.body.length := by
    unfold Announces
    rw [hvalue]
    rcases h.announced with hv | ⟨hv, hbody⟩
    · refine .inr ⟨_, (r.body.length : Int), hv, ?_, rfl⟩
      rw [trim_toString, intUpTo?_toString h.body]
    · exact .inl ⟨hv, by rw [hbody, List.length_nil]⟩
  have hmethod : Method.ofName? (methodName verb r.headers.entries) = some r.method := by
    unfold methodName
    rw [hvalue, h.not_overridden, Option.getD_none]
    exact Method.ofName?_eq_some_iff.2 h.method
  exact judged_request_iff.2 ⟨verb, r.headers.entries, _, r.body ++ further, r.body.length, hopened,
    hblank, hlength, by simp, hmethod, hheaders.symm, List.take_left.symm, List.drop_left.symm⟩

end Request

/-! ### Requests one after another -/

namespace Parser

/-- Parse so many times, and give the outcomes and the link that is left. -/
def parseMany : Nat → Parser → Link → List (Except (Halt Error) (Option Request)) × Link
  | 0, _, l => ([], l)
  | n + 1, p, l =>
    let parsed := p.parse l
    let (outcomes, l) := parseMany n parsed.parser parsed.link
    (parsed.outcome :: outcomes, l)

variable {o : ReaderOptions} {ends : Bool} {s : Link.Sending} {p : Parser} {l : Link}

/-- Requests in front of anything are read **one by one**, and nothing else is. -/
theorem parseMany_holds {requests : List (String × Request)} {further : Bytes}
    (hm : o.maxLine + 1 ≤ maxWord64) (hp : p.Sound) (hplain : p.overrides = [])
    (hw : ∀ v ∈ requests, v.2.Writable o.maxLine v.1)
    (h : l.Holds o ends s (requests.flatMap (fun v => v.2.wire v.1) ++ further)) :
    (p.parseMany requests.length l).1 = requests.map (fun v => .ok (some v.2)) ∧
      (p.parseMany requests.length l).2.left = further := by
  -- each request leaves a link that holds the next, and a sound parser
  induction requests generalizing p l with
  | nil => exact ⟨rfl, h.left_eq⟩
  | cons v requests ih =>
    have hwindow : o.maxLine + 2 ≤ o.window := Nat.le_of_eq (ReaderOptions.window_eq hm).symm
    rw [List.flatMap_cons, List.append_assoc] at h
    have hg := parse_of_judged hp h
      (Request.judged_of_wire (hw v List.mem_cons_self) hwindow _)
    obtain ⟨houts, hleft⟩ := ih hg.sound (hg.overrides.trans hplain)
      (fun u hu => hw u (List.mem_cons_of_mem _ hu)) hg.holds
    have hfirst : (p.parse l).outcome = .ok (some v.2) := by
      rw [hg.outcome, hplain]
      rfl
    refine ⟨?_, hleft⟩
    rw [List.map_cons, ← hfirst, ← houts]
    rfl

/-- **Requests that were written are read back**, in order and to the byte, as long as the
longest line and one byte more are a 64-bit number of bytes. With the longest line of all not
even the first is: a trap is what comes of it. -/
theorem parseMany_wire (o : ReaderOptions) (names : List String) (ends : Bool)
    (chunks : List Bytes) (hs : Steady o.retries ends chunks)
    (requests : List (String × Request)) (hw : ∀ v ∈ requests, v.2.Writable o.maxLine v.1)
    (further : Bytes)
    (he : chunks.flatten = requests.flatMap (fun v => v.2.wire v.1) ++ further) :
    (o.maxLine + 1 ≤ maxWord64 ∨ requests = [] →
      ((plain (.after names)).parseMany requests.length (Link.reading o chunks ends)).1
          = requests.map (fun v => .ok (some v.2)) ∧
        ((plain (.after names)).parseMany requests.length (Link.reading o chunks ends)).2.left
          = further) ∧
    (o.maxLine = maxWord64 → requests ≠ [] →
      ((plain (.after names)).parseMany requests.length (Link.reading o chunks ends)).1.head?
        = some (.error .trapped)) := by
  have hl := Link.reading_holds hs
  constructor
  · intro hm
    rw [he] at hl
    rcases hm with hm | rfl
    · exact parseMany_holds hm (MethodCache.sound_after names) rfl hw hl
    · exact ⟨rfl, hl.left_eq⟩
  · intro hm hne
    -- a request is not empty, so its first line is begun
    cases requests with
    | nil => exact absurd rfl hne
    | cons v requests =>
      have hbytes : chunks.flatten ≠ [] := by
        rw [he]
        simp [Request.wire, crlf]
      have hg := parse_of_judged (p := plain (.after names)) (MethodCache.sound_after names) hl
        (judged_of_one_byte hm hbytes)
      have hfirst := hg.outcome
      simp only [List.length_cons, parseMany, List.head?_cons, hfirst]
      rfl

/-- A request whose body is made of line ends, and one with no body. -/
def lineEndsAndNothing : List (String × Request) :=
  [("pOsT", { method := .post, target := "/a b?c", protocol := "HTTP/1.1",
              headers := ⟨[("x:", "\r"), ("Content-Length", "4")]⟩, body := crlf ++ crlf }),
    ("GET", { method := .get, target := "", protocol := "", headers := {}, body := [] })]

/-- Both of them are read back, cut within a line end and with an empty read after it. -/
theorem parseMany_wire_cut :
    Steady 1 false [ascii "pOsT /a b?c HTTP/1.1\r", [],
        ascii "\nx:: \r\r\nContent-Length: 4\r\n\r\n", ascii "\r\n\r\nGET  \r\n\r\nP"] ∧
    (∀ v ∈ lineEndsAndNothing, v.2.Writable 20 v.1) ∧
    ((plain (.after [])).parseMany 2 (Link.reading { retries := 1, maxLine := 20 }
        [ascii "pOsT /a b?c HTTP/1.1\r", [],
          ascii "\nx:: \r\r\nContent-Length: 4\r\n\r\n",
          ascii "\r\n\r\nGET  \r\n\r\nP"] false)).1
      = lineEndsAndNothing.map (fun v => .ok (some v.2)) := by
  have hs : Steady 1 false [ascii "pOsT /a b?c HTTP/1.1\r", [],
      ascii "\nx:: \r\r\nContent-Length: 4\r\n\r\n", ascii "\r\n\r\nGET  \r\n\r\nP"] := by decide
  have hw : ∀ v ∈ lineEndsAndNothing, v.2.Writable 20 v.1 := by
    intro v hv
    rcases List.mem_cons.1 hv with rfl | hv
    · refine ⟨by decide, by decide +kernel, by decide +kernel, by decide, by decide, by decide, ?_,
        by decide, .inl (by decide), by decide⟩
      intro f hf
      rcases List.mem_cons.1 hf with rfl | hf
      · exact ⟨by decide, by decide, by decide, by decide⟩
      · rw [List.mem_singleton.1 hf]
        exact ⟨by decide +kernel, by decide, by decide +kernel, by decide⟩
    · rw [List.mem_singleton.1 hv]
      exact ⟨by decide, by decide, by decide, by decide, by decide, by decide, by simp, by decide,
        .inr ⟨by decide, rfl⟩, by decide⟩
  exact ⟨hs, hw, ((parseMany_wire { retries := 1, maxLine := 20 } [] false _ hs lineEndsAndNothing
    hw (ascii "P") (by decide)).1 (.inl (by decide))).1⟩

end Parser

end HttpEngine
