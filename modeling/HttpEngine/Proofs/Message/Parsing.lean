import HttpEngine.Proofs.Message.Grammar
import HttpEngine.Proofs.Transport.Calls

/-!
# What a parser makes of a byte string

* `Link.readLine_of_lineAt`, `Draft.headersFrom_fields`, `Draft.receive_of_opened`: one line,
  header lines, and everything in front of the end of the head, off a link.
* `Parser.parse_of_judged`: a parser on a link does with the bytes the link has not consumed
  **what is said of them**, and leaves what is left of them.
-/

namespace HttpEngine

open Text
open Plain (starved)

/-! ### The parts of a line -/

theorem requestLine?_of_requestLine {line : Bytes} {verb target protocol : String}
    (h : RequestLine line verb target protocol) :
    requestLine? (line.map latin1Char) = some (verb, target, protocol) := by
  have he : line.map latin1Char
      = verb.toList ++ ' ' :: (target.toList ++ ' ' :: protocol.toList) := by
    rw [← toList_latin1, h.eq]
    simp
  have hv := cut_eq_some_iff.2 ⟨he, h.verb⟩
  have ht := cutLast_eq_some_iff.2
    ⟨(rfl : target.toList ++ ' ' :: protocol.toList = _), h.protocol⟩
  simp only [requestLine?, hv, ht, Option.bind_eq_bind, Option.bind_some, String.ofList_toList]
  rfl

theorem requestLine?_of_few_spaces {line : Bytes} (h : (latin1 line).toList.count ' ' < 2) :
    requestLine? (line.map latin1Char) = none := by
  rw [toList_latin1] at h
  unfold requestLine?
  cases hv : cut ' ' (line.map latin1Char) with
  | none => rfl
  | some parts =>
    obtain ⟨verb, after⟩ := parts
    obtain ⟨he, -⟩ := cut_eq_some_iff.1 hv
    -- one space is before `after`, so that none is in it
    have ht : cutLast ' ' after = none := by
      refine cutLast_eq_none_iff.2 fun hm => ?_
      have := List.count_pos_iff.2 hm
      rw [he, List.count_append, List.count_cons_self] at h
      omega
    simp only [Option.bind_eq_bind, Option.bind_some, ht, Option.bind_none]

theorem headerLine?_of_headerLine {line : Bytes} {name value : String}
    (h : HeaderLine line name value) : headerLine? (line.map latin1Char) = some (name, value) := by
  have he : line.map latin1Char = name.toList ++ ':' :: ' ' :: value.toList := by
    rw [← toList_latin1, h.eq]
    simp
  have hc := (cutAt_pair_eq_some_iff (by decide)).2 ⟨he, h.first⟩
  simp only [headerLine?, hc, Option.map_some, String.ofList_toList]

theorem headerLine?_of_uncut {line : Bytes} (h : ¬ [':', ' '] <:+: (latin1 line).toList) :
    headerLine? (line.map latin1Char) = none := by
  rw [toList_latin1] at h
  rw [headerLine?, (cutAt_eq_none_iff (by decide)).2 h, Option.map_none]

theorem HeaderLine.ne_nil {line : Bytes} {name value : String} (h : HeaderLine line name value) :
    line ≠ [] := by
  rintro rfl
  have := congrArg String.toList h.eq
  simp [latin1] at this

/-! ### Lines off a link -/

variable {o : ReaderOptions} {ends : Bool} {s : Link.Sending} {bytes line rest : Bytes} {l : Link}
  {verb target protocol : String} {fields : List (String × String)}

namespace Link

theorem readLine_of_lineAt (h : l.Holds o ends s bytes) (hl : LineAt o.window bytes line rest) :
    ∃ l', readLine l = .ok (some line) l' ∧ l'.Holds o ends s rest := by
  have := readLine_holds h
  rwa [Plain.line_of_lineAt hl] at this

theorem readLine_of_unended (h : l.Holds o ends s bytes) (hn : Unended o.window bytes) :
    ∃ l', readLine l = Act.settle (starved ends (.ok none)) l' ∧ l'.Holds o ends s [] := by
  have := readLine_holds h
  rwa [Plain.line_of_unended hn] at this

theorem readLine_of_overlong (h : l.Holds o ends s bytes) (ho : Overlong o.window bytes) :
    ∃ l', readLine l = .error (lineFault o.maxLine) l' ∧
      l'.Holds o ends s (bytes.drop o.window) := by
  have := readLine_holds h
  rwa [Plain.line_of_overlong ho] at this

theorem readBody_holds (count : Nat) (h : l.Holds o ends s bytes) :
    ∃ l', readBody count l = Act.settle (Plain.bytes count ends bytes).1 l' ∧
      l'.Holds o ends s (Plain.bytes count ends bytes).2 := by
  have hu : l.readLeft = none := by
    obtain ⟨ahead, chunks, hf, -, -⟩ := h
    exact hf.unlimited
  obtain ⟨l', he, hl'⟩ := readBytes_holds count h
  refine ⟨l', ?_, hl'⟩
  unfold readBody
  rw [Act.run_bind, Act.run_get]
  simp only [hu, Budget.spend]
  exact he

end Link

namespace Draft

/-! ### Header lines -/

theorem headersFrom_eq (soFar : Headers) (l : Link) :
    headersFrom soFar l = match Link.readLine l with
      | .error halt l' => .error (halt.map .io) l'
      | .ok none l' => .ok none l'
      | .ok (some line) l' =>
        if line.isEmpty then .ok (some soFar) l'
        else
          match headerLine? (line.map latin1Char) with
          | none => .error (.failed (.malformedHeader (latin1 line))) l'
          | some (name, value) => headersFrom (soFar.insert name value) l' := by
  rw [headersFrom]
  split <;> rename_i h <;> rewrite [h] <;> rfl

/-- Header lines are **put with those before them**. -/
theorem headersFrom_fields (soFar : Headers) (h : l.Holds o ends s bytes)
    (hf : Fields o.window bytes fields rest) :
    ∃ l', headersFrom soFar l
        = headersFrom (fields.foldl (fun h f => h.insert f.1 f.2) soFar) l' ∧
      l'.Holds o ends s rest := by
  -- on the header lines; each is one turn of the loop
  induction hf generalizing l soFar with
  | nil bytes => exact ⟨l, rfl, h⟩
  | @cons bytes line after rest name value fields hl hh _ ih =>
    obtain ⟨l₁, hr, h₁⟩ := Link.readLine_of_lineAt h hl
    obtain ⟨l', he, h'⟩ := ih (soFar.insert name value) h₁
    refine ⟨l', ?_, h'⟩
    have hne : line.isEmpty = false := List.isEmpty_eq_false_iff.2 hh.ne_nil
    rw [headersFrom_eq, hr]
    simp only [hne, headerLine?_of_headerLine hh, Bool.false_eq_true, if_false]
    exact he

theorem headersFrom_blank (soFar : Headers) (h : l.Holds o ends s bytes)
    (hb : LineAt o.window bytes [] rest) :
    ∃ l', headersFrom soFar l = .ok (some soFar) l' ∧ l'.Holds o ends s rest := by
  obtain ⟨l', hr, h'⟩ := Link.readLine_of_lineAt h hb
  refine ⟨l', ?_, h'⟩
  rw [headersFrom_eq, hr]
  rfl

theorem headersFrom_malformed (soFar : Headers) (h : l.Holds o ends s bytes)
    (hl : LineAt o.window bytes line rest) (hne : line ≠ [])
    (hu : ¬ [':', ' '] <:+: (latin1 line).toList) :
    ∃ l', headersFrom soFar l = .error (.failed (.malformedHeader (latin1 line))) l' ∧
      l'.Holds o ends s rest := by
  obtain ⟨l', hr, h'⟩ := Link.readLine_of_lineAt h hl
  refine ⟨l', ?_, h'⟩
  rw [headersFrom_eq, hr]
  simp only [List.isEmpty_eq_false_iff.2 hne, headerLine?_of_uncut hu, Bool.false_eq_true, if_false]

theorem headersFrom_overlong (soFar : Headers) (h : l.Holds o ends s bytes)
    (ho : Overlong o.window bytes) :
    ∃ l', headersFrom soFar l = .error ((Link.lineFault o.maxLine).map .io) l' ∧
      l'.Holds o ends s (bytes.drop o.window) := by
  obtain ⟨l', hr, h'⟩ := Link.readLine_of_overlong h ho
  refine ⟨l', ?_, h'⟩
  rw [headersFrom_eq, hr]

theorem headersFrom_unended (soFar : Headers) (h : l.Holds o ends s bytes)
    (hn : Unended o.window bytes) :
    ∃ l', headersFrom soFar l = Act.settle (starved ends (.ok none)) l' ∧
      l'.Holds o ends s [] := by
  obtain ⟨l', hr, h'⟩ := Link.readLine_of_unended h hn
  refine ⟨l', ?_, h'⟩
  rw [headersFrom_eq, hr]
  cases ends <;> rfl

/-! ### A whole request -/

/-- A request whose head was read, with so many bytes of a body. -/
def withBody (verb target protocol : String) (headers : Headers) (count : Nat) :
    Link.Task (Option Draft) := do
  let body ← (Link.readBody count).task
  return some { verb, target, protocol, headers, body }

/-- What is done once the header lines are read, if they are. -/
def finish (verb target protocol : String) : Option Headers → Link.Task (Option Draft)
  | none => return none
  | some headers =>
    match announcedLength headers with
    | .error e => throw (.failed e)
    | .ok length =>
      withBody ((headers.get? "_method").getD verb) target protocol headers length

theorem receive_of_opened (h : l.Holds o ends s bytes)
    (ho : Opened o.window bytes verb target protocol fields rest) :
    ∃ l', receive l = (headersFrom (.collapsed fields) >>= finish verb target protocol) l' ∧
      l'.Holds o ends s rest := by
  obtain ⟨line, after, hl, hr, hf⟩ := ho
  obtain ⟨l₁, hread, h₁⟩ := Link.readLine_of_lineAt h hl
  obtain ⟨l', he, h'⟩ := headersFrom_fields {} h₁ hf
  refine ⟨l', ?_, h'⟩
  unfold receive
  simp only [Act.run_bind, Link.Act.task, hread, requestLine?_of_requestLine hr]
  unfold Headers.collapsed
  rw [he]
  -- what is done next is `finish`, whatever comes of the header lines left
  cases headersFrom (fields.foldl (fun h f => h.insert f.1 f.2) {}) l' with
  | error halt l'' => rfl
  | ok headers l'' => cases headers <;> rfl

theorem announcedLength_of_announces {n : Nat} (h : Announces fields n) :
    announcedLength (.collapsed fields) = .ok n := by
  unfold announcedLength
  rw [Headers.get?_collapsed]
  rcases h with ⟨hv, rfl⟩ | ⟨raw, k, hv, hk, rfl⟩
  · rw [hv]
  · simp only [hv, hk]

theorem announcedLength_of_invalid {raw : String}
    (hv : lastValue? "content-length" fields = some raw)
    (hi : intUpTo? maxInt64 (trim raw) = none) :
    announcedLength (.collapsed fields) = .error (.invalidContentLength raw) := by
  unfold announcedLength
  rw [Headers.get?_collapsed]
  simp only [hv, hi]

theorem receive_of_head {blank after : Bytes} {n : Nat} (h : l.Holds o ends s bytes)
    (ho : Opened o.window bytes verb target protocol fields blank)
    (hb : LineAt o.window blank [] after) (ha : Announces fields n) :
    ∃ l', receive l
        = withBody (methodName verb fields) target protocol (.collapsed fields) n l' ∧
      l'.Holds o ends s after := by
  obtain ⟨l₁, hr, h₁⟩ := receive_of_opened h ho
  obtain ⟨l', hf, h'⟩ := headersFrom_blank (.collapsed fields) h₁ hb
  refine ⟨l', ?_, h'⟩
  rw [hr, Act.run_bind, hf]
  simp only [finish, announcedLength_of_announces ha, Headers.get?_collapsed]
  rfl

theorem receive_of_short {blank after : Bytes} {n : Nat} (h : l.Holds o ends s bytes)
    (ho : Opened o.window bytes verb target protocol fields blank)
    (hb : LineAt o.window blank [] after) (ha : Announces fields n) (hs : after.length < n) :
    ∃ l', receive l
        = Act.settle (starved ends (.error (.failed (.io (.bodyCutShort after.length n))))) l' ∧
      l'.Holds o ends s [] := by
  obtain ⟨l₁, hr, h₁⟩ := receive_of_head h ho hb ha
  obtain ⟨l', hbody, h'⟩ := Link.readBody_holds n h₁
  simp only [Plain.bytes, Nat.not_le.2 hs, if_false,
    List.drop_eq_nil_of_le (Nat.le_of_lt hs)] at hbody h'
  refine ⟨l', ?_, h'⟩
  rw [hr, withBody, Act.run_bind]
  simp only [Link.Act.task, hbody]
  cases ends <;> rfl

/-- A head and a whole body are a request, **but for its method**. -/
theorem receive_of_enough {blank after : Bytes} {n : Nat} (h : l.Holds o ends s bytes)
    (ho : Opened o.window bytes verb target protocol fields blank)
    (hb : LineAt o.window blank [] after) (ha : Announces fields n) (he : n ≤ after.length) :
    ∃ l', receive l = Act.settle (.ok (some
        { verb := methodName verb fields, target, protocol, headers := .collapsed fields,
          body := after.take n })) l' ∧
      l'.Holds o ends s (after.drop n) := by
  obtain ⟨l₁, hr, h₁⟩ := receive_of_head h ho hb ha
  obtain ⟨l', hbody, h'⟩ := Link.readBody_holds n h₁
  simp only [Plain.bytes, he, if_true] at hbody h'
  refine ⟨l', ?_, h'⟩
  rw [hr, withBody, Act.run_bind]
  simp only [Link.Act.task, hbody]
  rfl

/-- What is made of an answer once the method's name is looked up. -/
def named : Except (Halt Error) (Option Draft) → Except (Halt Error) (Option Request)
  | .error halt => .error halt
  | .ok none => .ok none
  | .ok (some d) =>
    match Method.ofName d.verb with
    | .error e => .error (.failed e)
    | .ok m => .ok (some (d.toRequest m))

/-- What a link gives is **what its bytes are judged to be**. -/
theorem receive_of_judged {outcome : Except (Halt Error) (Option Request)}
    (h : l.Holds o ends s bytes) (hj : Judged o.maxLine o.window ends bytes outcome rest) :
    ∃ answer l', receive l = Act.settle answer l' ∧ named answer = outcome ∧
      l'.Holds o ends s rest := by
  -- one case for each judgement: how far the link reads, and what it says then
  cases hj with
  | noLine hn =>
    obtain ⟨l', hr, h'⟩ := Link.readLine_of_unended h hn
    refine ⟨starved ends (.ok none), l', ?_, by cases ends <;> rfl, h'⟩
    unfold receive
    simp only [Act.run_bind, Link.Act.task, hr]
    cases ends <;> rfl
  | lineTooLong ho =>
    obtain ⟨l', hr, h'⟩ := Link.readLine_of_overlong h ho
    refine ⟨.error ((Link.lineFault o.maxLine).map .io), l', ?_, rfl, h'⟩
    unfold receive
    simp only [Act.run_bind, Link.Act.task, hr]
    rfl
  | noRequestLine hl hs =>
    obtain ⟨l', hr, h'⟩ := Link.readLine_of_lineAt h hl
    refine ⟨.ok none, l', ?_, rfl, h'⟩
    unfold receive
    simp only [Act.run_bind, Link.Act.task, hr, requestLine?_of_few_spaces hs]
    rfl
  -- from here on the head is open, and what its next line is decides
  | @endsInHead _ _ _ fields _ opened hn =>
    obtain ⟨l₁, hr, h₁⟩ := receive_of_opened h opened
    obtain ⟨l', hf, h'⟩ := headersFrom_unended (.collapsed fields) h₁ hn
    refine ⟨starved ends (.ok none), l', ?_, by cases ends <;> rfl, h'⟩
    rw [hr, Act.run_bind, hf]
    cases ends <;> rfl
  | @headerTooLong _ _ _ fields _ opened ho =>
    obtain ⟨l₁, hr, h₁⟩ := receive_of_opened h opened
    obtain ⟨l', hf, h'⟩ := headersFrom_overlong (.collapsed fields) h₁ ho
    refine ⟨.error ((Link.lineFault o.maxLine).map .io), l', ?_, rfl, h'⟩
    rw [hr, Act.run_bind, hf]
    rfl
  | @malformedHeader _ _ _ fields _ line _ opened hl hne hu =>
    obtain ⟨l₁, hr, h₁⟩ := receive_of_opened h opened
    obtain ⟨l', hf, h'⟩ := headersFrom_malformed (.collapsed fields) h₁ hl hne hu
    refine ⟨.error (.failed (.malformedHeader (latin1 line))), l', ?_, rfl, h'⟩
    rw [hr, Act.run_bind, hf]
    rfl
  | @invalidLength _ _ _ fields _ _ raw opened hb hv hi =>
    obtain ⟨l₁, hr, h₁⟩ := receive_of_opened h opened
    obtain ⟨l', hf, h'⟩ := headersFrom_blank (.collapsed fields) h₁ hb
    refine ⟨.error (.failed (.invalidContentLength raw)), l', ?_, rfl, h'⟩
    rw [hr, Act.run_bind, hf]
    simp only [finish, announcedLength_of_invalid hv hi]
    rfl
  | @bodyCutShort _ _ _ _ _ after n opened hb ha hshort =>
    obtain ⟨l', hr, h'⟩ := receive_of_short h opened hb ha hshort
    exact ⟨_, l', hr, by cases ends <;> rfl, h'⟩
  -- the link gives the same draft in both: the name of the method is looked up afterwards
  | unknownMethod opened hb ha he hm =>
    obtain ⟨l', hr, h'⟩ := receive_of_enough h opened hb ha he
    exact ⟨_, l', hr, by simp only [named, Method.ofName_of_none hm], h'⟩
  | request opened hb ha he hm =>
    obtain ⟨l', hr, h'⟩ := receive_of_enough h opened hb ha he
    exact ⟨_, l', hr, by simp only [named, Method.ofName_eq_ok.2 hm, toRequest], h'⟩

end Draft

/-! ### Parsers -/

/-- What a parser that honours an override field makes of the outcome of the parser in it. -/
def OverrideField.revise (field : OverrideField) :
    Except (Halt Error) (Option Request) → Except (Halt Error) (Option Request)
  | .ok (some r) =>
    match field.read r with
    | none => .ok (some r)
    | some name =>
      match Method.ofName name with
      | .error e => .error (.failed e)
      | .ok m => .ok (some (r.withMethod m))
  | outcome => outcome

/-- What parsers that honour override fields make of an outcome, **the outermost last**. -/
def revise (fields : List OverrideField) (outcome : Except (Halt Error) (Option Request)) :
    Except (Halt Error) (Option Request) :=
  fields.foldr OverrideField.revise outcome

namespace Parser

/-- The override fields a parser honours, the outermost first. -/
def overrides : Parser → List OverrideField
  | plain _ => []
  | overriding field inner _ => field :: inner.overrides

/-- A parser whose caches are all sound. -/
def Sound : Parser → Prop
  | plain verbs => verbs.Sound
  | overriding _ inner verbs => inner.Sound ∧ verbs.Sound

/-- What comes of a parser when the bytes of its link come to `outcome` and leave `rest`. -/
structure Gives (p : Parser) (o : ReaderOptions) (ends : Bool) (s : Link.Sending)
    (outcome : Except (Halt Error) (Option Request)) (rest : Bytes) (parsed : Parsed) : Prop where
  outcome : parsed.outcome = revise p.overrides outcome
  holds : parsed.link.Holds o ends s rest
  sound : parsed.parser.Sound
  overrides : parsed.parser.overrides = p.overrides

variable {outcome : Except (Halt Error) (Option Request)} {p : Parser}

theorem plain_gives {verbs : MethodCache} {l' : Link} {answer : Except (Halt Error) (Option Draft)}
    (hv : verbs.Sound) (hr : Draft.receive l = Act.settle answer l')
    (h' : l'.Holds o ends s rest) :
    (plain verbs).Gives o ends s (Draft.named answer) rest ((plain verbs).parse l) := by
  match answer with
  | .error halt =>
    simp only [parse, hr, Act.settle]
    exact ⟨rfl, h', hv, rfl⟩
  | .ok none =>
    simp only [parse, hr, Act.settle]
    exact ⟨rfl, h', hv, rfl⟩
  | .ok (some d) =>
    -- the cache answers as if there were none, so that `named` says what comes of the draft
    obtain ⟨hm, hs⟩ := MethodCache.provide_of_sound hv d.verb
    cases hp : verbs.provide d.verb with
    | mk found verbs' =>
      rw [hp] at hm hs
      simp only at hm hs
      simp only [parse, hr, Act.settle, hp, Draft.named, ← hm]
      cases found with
      | error e => exact ⟨rfl, h', hs, rfl⟩
      | ok m => exact ⟨rfl, h'.noted rfl, hs, rfl⟩

/-- A sound cache of a wrapped parser is **not to be seen**: what is made of the outcome of the parser
in it is what the field says, and nothing else is read. -/
theorem parse_overriding_of_sound (p : Parser) (field : OverrideField) {verbs : MethodCache}
    (hv : verbs.Sound) (l : Link) :
    ((overriding field p verbs).parse l).outcome = field.revise (p.parse l).outcome ∧
      ((overriding field p verbs).parse l).link = (p.parse l).link ∧
      ∃ verbs' : MethodCache, verbs'.Sound ∧
        ((overriding field p verbs).parse l).parser = overriding field (p.parse l).parser verbs' := by
  cases hp : p.parse l with
  | mk out inner l' =>
    match out with
    | .error halt =>
      simp only [parse, hp]
      exact ⟨rfl, trivial, verbs, hv, rfl⟩
    | .ok none =>
      simp only [parse, hp]
      exact ⟨rfl, trivial, verbs, hv, rfl⟩
    | .ok (some r) =>
      simp only [OverrideField.revise]
      cases hn : field.read r with
      | none =>
        simp only [parse, hp, hn]
        exact ⟨trivial, trivial, verbs, hv, rfl⟩
      | some name =>
        obtain ⟨hm, hsound⟩ := MethodCache.provide_of_sound hv name
        simp only [← hm]
        cases hprovide : verbs.provide name with
        | mk found verbs' =>
          rw [hprovide] at hsound
          simp only [parse, hp, hn, hprovide]
          cases found with
          | error e => exact ⟨rfl, rfl, verbs', hsound, rfl⟩
          | ok m => exact ⟨rfl, rfl, verbs', hsound, rfl⟩

theorem overriding_gives {field : OverrideField} {verbs : MethodCache} (hv : verbs.Sound)
    (h : p.Gives o ends s outcome rest (p.parse l)) :
    (overriding field p verbs).Gives o ends s outcome rest
      ((overriding field p verbs).parse l) := by
  obtain ⟨ho, hl, hs, hf⟩ := h
  obtain ⟨houtcome, hlink, verbs', hv', hparser⟩ := parse_overriding_of_sound p field hv l
  refine ⟨?_, ?_, ?_, ?_⟩
  · rw [houtcome, ho]
    rfl
  · rw [hlink]
    exact hl
  · rw [hparser]
    exact ⟨hs, hv'⟩
  · rw [hparser]
    exact congrArg (field :: ·) hf

/-- A parser **does with the bytes of its link what is said of them**. -/
theorem parse_of_judged (hp : p.Sound) (h : l.Holds o ends s bytes)
    (hj : Judged o.maxLine o.window ends bytes outcome rest) :
    p.Gives o ends s outcome rest (p.parse l) := by
  induction p with
  | plain verbs =>
    obtain ⟨answer, l', hr, rfl, h'⟩ := Draft.receive_of_judged h hj
    exact plain_gives hp hr h'
  | overriding field inner verbs ih => exact overriding_gives hp.2 (ih hp.1)

/-- With the longest line a 64-bit word can hold, a line is looked for **in a single byte**, and a
trap is what comes of that. -/
theorem judged_of_one_byte (ho : o.maxLine = maxWord64) (hb : bytes ≠ []) :
    Judged o.maxLine o.window ends bytes (.error .trapped) (bytes.drop 1) := by
  have hw : o.window = 1 := by
    unfold ReaderOptions.window Link.lineCeiling
    rw [ho]
    rfl
  have hfault : (Link.lineFault o.maxLine).map Error.io = .trapped := by
    rw [ho, Link.lineFault_trapped]
    rfl
  rw [hw, ← hfault]
  -- two bytes do not stand in one
  refine .lineTooLong ⟨fun hi => ?_, List.length_pos_iff.2 hb⟩
  have hlen : crlf.length ≤ (bytes.take 1).length := hi.length_le
  rw [List.length_take, show crlf.length = 2 from rfl] at hlen
  omega

/-- **The parser accepts its grammar** and rejects in the order of the bytes, as long as the
longest line and one byte more are a 64-bit number of bytes. With the longest line of all a trap is
what comes of every stream that is not empty, at the cost of one byte. -/
theorem parse_iff_judged (o : ReaderOptions) (names : List String) (chunks : List Bytes)
    (hs : Steady o.retries true chunks) :
    (o.maxLine + 1 ≤ maxWord64 ∨ chunks.flatten = [] → ∀ outcome rest,
      ((plain (.after names)).parse (Link.reading o chunks)).outcome = outcome ∧
          ((plain (.after names)).parse (Link.reading o chunks)).link.left = rest ↔
        Judged o.maxLine (o.maxLine + 2) true chunks.flatten outcome rest) ∧
    (o.maxLine = maxWord64 → chunks.flatten ≠ [] →
      ((plain (.after names)).parse (Link.reading o chunks)).outcome = .error .trapped ∧
        ((plain (.after names)).parse (Link.reading o chunks)).link.left
          = chunks.flatten.drop 1 ∧
        ¬ Judged o.maxLine (o.maxLine + 2) true chunks.flatten (.error .trapped)
          (chunks.flatten.drop 1)) := by
  have gives : ∀ {outcome rest}, Judged o.maxLine o.window true chunks.flatten outcome rest →
      ((plain (.after names)).parse (Link.reading o chunks)).outcome = outcome ∧
        ((plain (.after names)).parse (Link.reading o chunks)).link.left = rest := by
    intro outcome rest hj
    have hg := parse_of_judged (p := plain (.after names)) (MethodCache.sound_after names)
      (Link.reading_holds hs) hj
    exact ⟨hg.outcome, hg.holds.left_eq⟩
  constructor
  · intro hm outcome rest
    -- in either case the window is the one of the grammar
    have hwindow : Judged o.maxLine o.window true chunks.flatten outcome rest ↔
        Judged o.maxLine (o.maxLine + 2) true chunks.flatten outcome rest := by
      rcases hm with hm | hnil
      · rw [ReaderOptions.window_eq hm]
      · rw [hnil, judged_nil_iff o.window_pos, judged_nil_iff (Nat.succ_pos (o.maxLine + 1))]
    rw [← hwindow]
    constructor
    · -- something becomes of the bytes, and that is what the parser gives
      rintro ⟨rfl, rfl⟩
      obtain ⟨outcome, rest, hj⟩ := judged_total o.maxLine o.window true chunks.flatten
      obtain ⟨ho, hl⟩ := gives hj
      rw [ho, hl]
      exact hj
    · exact gives
  · intro hm hne
    obtain ⟨ho, hl⟩ := gives (judged_of_one_byte hm hne)
    refine ⟨ho, hl, fun hj => ?_⟩
    -- a line too long for the grammar would have cost more than a byte
    have hfault : (Link.lineFault o.maxLine).map Error.io = .trapped := by
      rw [hm, Link.lineFault_trapped]
      rfl
    rw [← hfault] at hj
    have := hj.length_of_too_long
    rw [List.length_drop] at this
    omega

/-- A request cut in the middle of its first line, with an empty read between the parts. -/
theorem parse_iff_judged_cut :
    Steady 3 true [ascii "GET / HT", [], ascii "TP/1.1\r\n\r\nPOST"] ∧
    ((plain (.after ["get"])).parse
        (Link.reading {} [ascii "GET / HT", [], ascii "TP/1.1\r\n\r\nPOST"])).outcome
      = .ok (some { method := .get, target := "/", protocol := "HTTP/1.1", headers := {},
                    body := [] }) ∧
    ((plain (.after ["get"])).parse
        (Link.reading {} [ascii "GET / HT", [], ascii "TP/1.1\r\n\r\nPOST"])).link.left
      = ascii "POST" := by
  have hs : Steady 3 true [ascii "GET / HT", [], ascii "TP/1.1\r\n\r\nPOST"] := by decide
  refine ⟨hs, ((parse_iff_judged {} ["get"] _ hs).1 (.inl (by decide)) _ _).2 ?_⟩
  have hopened : Opened (16384 + 2) (ascii "GET / HTTP/1.1\r\n\r\nPOST") "GET" "/" "HTTP/1.1" []
      (ascii "\r\nPOST") :=
    ⟨ascii "GET / HTTP/1.1", _, ⟨by decide, by decide +kernel, by decide⟩,
      ⟨by decide, by decide, by decide⟩, .nil _⟩
  have hblank : LineAt (16384 + 2) (ascii "\r\nPOST") [] (ascii "POST") :=
    ⟨by decide, by decide, by decide⟩
  have hget : Method.ofName? (methodName "GET" []) = some .get := by decide
  have hj : Judged 16384 (16384 + 2) true (ascii "GET / HTTP/1.1\r\n\r\nPOST") _ _ :=
    .request hopened hblank (.inl ⟨rfl, rfl⟩) (Nat.zero_le _) hget
  exact hj

end Parser

end HttpEngine
