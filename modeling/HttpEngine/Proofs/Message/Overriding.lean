import HttpEngine.Proofs.Message.Allowance
import HttpEngine.Proofs.Text.Integer

/-!
# Requests under every override field

A parser that honours an override field gives what the plain parser gives, off the same bytes, **but
for the method**; and however a request was received, the body has the length that the request says it
has.

* `OverrideField.method_of_revise`: what a field makes of a request.
* `Parser.parse_of_sound`: any parser, from what the plain one gives.
* `Parser.Overrides`: what an override field may change, and where the method comes from.
* `Parser.overriding_frame`: the two fields there are.
* `contentLength_of_announcedLength`: a header text read as a signed and as an unsigned number.
* `Parser.contentLength_received`: the two lengths of a request that is received.
-/

namespace HttpEngine

open Text

namespace OverrideField

variable {field : OverrideField} {q d : Request} {name verb : String} {m : Method}

theorem revise_of_absent (h : field.read q = none) :
    field.revise (.ok (some q)) = .ok (some q) := by
  simp only [revise, h]

theorem revise_of_method (h : field.read q = some name) (hm : Method.ofName? name = some m) :
    field.revise (.ok (some q)) = .ok (some (q.withMethod m)) := by
  simp only [revise, h, Method.ofName_eq_ok.2 hm]

theorem revise_of_unknown (h : field.read q = some name) (hm : Method.ofName? name = none) :
    field.revise (.ok (some q)) = .error (.failed (.unknownMethod name)) := by
  simp only [revise, h, Method.ofName_of_none hm]

/-- A request that is not refused differs **in its method at most**, which the field names, or else
what named it before. -/
theorem method_of_revise (hverb : Method.ofName? verb = some q.method)
    (hd : field.revise (.ok (some q)) = .ok (some d)) :
    d = q.withMethod d.method ∧
      Method.ofName? ((field.read q).getD verb) = some d.method := by
  cases hf : field.read q with
  | none =>
    rw [revise_of_absent hf] at hd
    cases hd
    exact ⟨rfl, hverb⟩
  | some name =>
    cases hm : Method.ofName? name with
    | none =>
      rw [revise_of_unknown hf hm] at hd
      cases hd
    | some m =>
      rw [revise_of_method hf hm] at hd
      cases hd
      exact ⟨rfl, hm⟩

end OverrideField

namespace Parser

variable {p : Parser} {verbs other : MethodCache} {l : Link} {request : Request}

/-! ### Parsers in one another -/

/-- Two plain parsers **do not differ** but in the names they have seen. -/
theorem parse_plain_of_sound (hv : verbs.Sound) (ho : other.Sound) (l : Link) :
    ((plain verbs).parse l).outcome = ((plain other).parse l).outcome ∧
      ((plain verbs).parse l).link = ((plain other).parse l).link ∧
      ((plain verbs).parse l).parser.Sound := by
  simp only [parse]
  cases Draft.receive l with
  | error halt l' => exact ⟨rfl, rfl, hv⟩
  | ok draft? l' =>
    cases draft? with
    | none => exact ⟨rfl, rfl, hv⟩
    | some d =>
      -- each cache answers as if there were none
      obtain ⟨hname, hsound⟩ := MethodCache.provide_of_sound hv d.verb
      obtain ⟨hother, -⟩ := MethodCache.provide_of_sound ho d.verb
      have hsame := hname.trans hother.symm
      cases hp : verbs.provide d.verb with
      | mk found verbs' =>
        cases ho' : other.provide d.verb with
        | mk found' other' =>
          rw [hp, ho'] at hsame
          rw [hp] at hsound
          obtain rfl : found = found' := hsame
          simp only [hp, ho']
          cases found <;> exact ⟨rfl, rfl, hsound⟩

/-- **Any parser** reads what the plain parser reads, and makes of what that gives what its override
fields say, the innermost first. -/
theorem parse_of_sound (hp : p.Sound) (hv : verbs.Sound) (l : Link) :
    (p.parse l).outcome = revise p.overrides ((plain verbs).parse l).outcome ∧
      (p.parse l).link = ((plain verbs).parse l).link ∧ (p.parse l).parser.Sound := by
  induction p with
  | plain own => exact parse_plain_of_sound hp hv l
  | overriding field inner cache ih =>
    obtain ⟨houtcome, hlink, hsound⟩ := ih hp.1
    obtain ⟨houtcome', hlink', cache', hcache, hparser⟩ :=
      parse_overriding_of_sound inner field hp.2 l
    refine ⟨?_, hlink'.trans hlink, ?_⟩
    · rw [houtcome', houtcome]
      rfl
    · rw [hparser]
      exact ⟨hsound, hcache⟩

/-- The method of a request is the one **its verb names**. -/
theorem method_of_plain (hv : verbs.Sound)
    (h : ((plain verbs).parse l).outcome = .ok (some request)) :
    ∃ line l₁ verb, Link.readLine l = .ok (some line) l₁ ∧
      requestLine? (line.map latin1Char) = some (verb, request.target, request.protocol) ∧
      Method.ofName? ((request.header? "_method").getD verb) = some request.method := by
  rw [parse] at h
  cases hr : Draft.receive l with
  | error halt l' =>
    rw [hr] at h
    cases h
  | ok draft? l' =>
    rw [hr] at h
    cases draft? with
    | none => cases h
    | some d =>
      simp only at h
      obtain ⟨head, l₁, body, hhead, -, rfl⟩ := Draft.receive_eq_ok hr
      obtain ⟨line, l₂, verb, hline, hparts, -, -, hverb⟩ := Draft.readHead_eq_ok hhead
      obtain ⟨hname, -⟩ := MethodCache.provide_of_sound hv head.verb
      cases hp : verbs.provide head.verb with
      | mk found verbs' =>
        rw [hp] at h hname
        cases found with
        | error e => cases h
        | ok m =>
          cases h
          refine ⟨line, l₂, verb, hline, hparts, ?_⟩
          rw [hverb] at hname
          exact Method.ofName_eq_ok.1 hname.symm

/-- What a parser gives that **replaces the method by what `asks` finds in a request**, next to what
the plain parser gives on the same link. -/
structure Overrides (asks : Request → Option String) (l : Link) (plainly asked : Parsed) : Prop where
  link : asked.link = plainly.link
  sound : plainly.parser.Sound ∧ asked.parser.Sound
  failed : ∀ halt, plainly.outcome = .error halt → asked.outcome = .error halt
  closed : plainly.outcome = .ok none → asked.outcome = .ok none
  absent : ∀ q, plainly.outcome = .ok (some q) → asks q = none → asked.outcome = .ok (some q)
  named : ∀ q name m, plainly.outcome = .ok (some q) → asks q = some name →
    Method.ofName? name = some m → asked.outcome = .ok (some (q.withMethod m))
  unknown : ∀ q name, plainly.outcome = .ok (some q) → asks q = some name →
    Method.ofName? name = none → asked.outcome = .error (.failed (.unknownMethod name))
  /-- The method is the one asked for, or else the one in the header `_method`, or else the one on the
  first line. -/
  chosen : ∀ q, plainly.outcome = .ok (some q) →
    ∃ line l₁ verb, Link.readLine l = .ok (some line) l₁ ∧
      requestLine? (line.map latin1Char) = some (verb, q.target, q.protocol) ∧
      Method.ofName? ((q.header? "_method").getD verb) = some q.method ∧
      ∀ d, asked.outcome = .ok (some d) → d = q.withMethod d.method ∧
        Method.ofName? ((asks q).getD ((q.header? "_method").getD verb)) = some d.method

theorem overrides_read (field : OverrideField) {verbs inner cache : MethodCache}
    (hverbs : verbs.Sound) (hinner : inner.Sound) (hcache : cache.Sound) (l : Link) :
    Overrides field.read l ((plain verbs).parse l)
      ((overriding field (plain inner) cache).parse l) := by
  obtain ⟨hasked, hlink, hsound⟩ :=
    parse_of_sound (p := overriding field (plain inner) cache) ⟨hinner, hcache⟩ hverbs l
  replace hasked : _ = field.revise ((plain verbs).parse l).outcome := hasked
  refine ⟨hlink, ⟨(parse_plain_of_sound hverbs hverbs l).2.2, hsound⟩, fun halt h => ?_,
    fun h => ?_, fun q h hfield => ?_, fun q name m h hname hm => ?_, fun q name h hname hm => ?_,
    fun q h => ?_⟩
  · rw [hasked, h]
    rfl
  · rw [hasked, h]
    rfl
  · rw [hasked, h]
    exact OverrideField.revise_of_absent hfield
  · rw [hasked, h]
    exact OverrideField.revise_of_method hname hm
  · rw [hasked, h]
    exact OverrideField.revise_of_unknown hname hm
  · obtain ⟨line, l₁, verb, hline, hparts, hmethod⟩ := method_of_plain hverbs h
    refine ⟨line, l₁, verb, hline, hparts, hmethod, fun d hd => ?_⟩
    rw [hasked, h] at hd
    exact OverrideField.method_of_revise hmethod hd

/-- **Override fields change the method and nothing else.** A parser that honours one fails, or gives no
request, exactly as the plain parser does, and leaves the link as that leaves it. Of a request it
replaces the method by the one that the field names, fails with the text of a field that names none, and
gives the request as it is where there is no such field. The one field is the header
`X-HTTP-Method-Override`, the other a `_method` with a value in the body as a form. So the method is the
one named by the field, or else by the header `_method`, or else on the first line. -/
theorem overriding_frame {verbs inner cache : MethodCache} (hverbs : verbs.Sound)
    (hinner : inner.Sound) (hcache : cache.Sound) (l : Link) :
    Overrides (fun q => q.headers.get? "X-HTTP-Method-Override") l ((plain verbs).parse l)
        ((overriding .header (plain inner) cache).parse l) ∧
      Overrides (fun q => (Params.parse (Utf8.lossy q.body)).get? "_method") l
        ((plain verbs).parse l) ((overriding .form (plain inner) cache).parse l) :=
  ⟨overrides_read .header hverbs hinner hcache l, overrides_read .form hverbs hinner hcache l⟩

/-- A link to a peer that posts a form, which asks to be put. Its length is written with a plus, zeros
and blanks, under a name that stands for another length before. -/
def posting : Link :=
  Link.reading { delayNanos := 1000000, retries := 1 }
    [ascii "POST /f HTTP/1.1\r\nContent-Length: 3\r\ncontent-", [],
      ascii "LENGTH:  +0011 \r\n\r\n_method=Put"]

/-- What can be said of the request in an outcome says **that there is one**. -/
theorem exists_of_map_eq_some {β : Type} {f : Request → β} {b : β}
    {outcome : Except (Halt Error) (Option Request)}
    (h : outcome.toOption.join.map f = some b) : ∃ r, outcome = .ok (some r) ∧ f r = b := by
  match outcome with
  | .error halt => cases h
  | .ok none => cases h
  | .ok (some r) => exact ⟨r, rfl, Option.some.inj h⟩

/-- A link to a peer that posts a form **with both fields**, which do not say the same. -/
def contrary : Link :=
  Link.reading { delayNanos := 1000000, retries := 1 }
    [ascii "POST /f HTTP/1.1\r\nx-http-method-OVERRIDE: Patch\r\nContent-Le",
      ascii "ngth: 11\r\n\r\n_method=Put"]

/-- Each of the three parsers gives **the same request under another method**. -/
theorem overriding_frame_contrary :
    MethodCache.empty.Sound ∧
    ∃ q, ((plain .empty).parse contrary).outcome = .ok (some q) ∧ q.method = .post ∧
      ((overriding .header (plain .empty) .empty).parse contrary).outcome
        = .ok (some (q.withMethod .patch)) ∧
      ((overriding .form (plain .empty) .empty).parse contrary).outcome
        = .ok (some (q.withMethod .put)) := by
  have hsound := MethodCache.sound_empty
  have hpatch : Method.ofName? "Patch" = some .patch := by decide +kernel
  have hput : Method.ofName? "Put" = some .put := by decide +kernel
  have hread : ((plain .empty).parse contrary).outcome.toOption.join.map
      (fun q => (q.method, q.headers.get? "X-HTTP-Method-Override",
        (Params.parse (Utf8.lossy q.body)).get? "_method"))
      = some (.post, some "Patch", some "Put") := by decide +kernel
  obtain ⟨q, hq, hfields⟩ := exists_of_map_eq_some hread
  obtain ⟨hpost, hheader, hform⟩ : _ ∧ _ ∧ _ := by
    simpa only [Prod.mk.injEq] using hfields
  obtain ⟨hbyHeader, hbyForm⟩ := overriding_frame hsound hsound hsound contrary
  exact ⟨hsound, q, hq, hpost, hbyHeader.named q _ _ hq hheader hpatch,
    hbyForm.named q _ _ hq hform hput⟩

end Parser

/-! ### Two readings of one length -/

/-- The length that is announced is **the length that the request says it has**, whatever the headers:
a number that is not negative is read the same without a sign, and where none is read there is none, or
a negative one. -/
theorem contentLength_of_announcedLength {r : Request} {n : Nat}
    (h : announcedLength r.headers = .ok n) : r.contentLength = n := by
  unfold announcedLength at h
  unfold Request.contentLength Headers.natUpTo? Headers.trimmed?
  cases hraw : r.headers.get? "content-length" with
  | none =>
    simp only [hraw] at h
    cases h
    rfl
  | some raw =>
    simp only [hraw] at h
    cases hi : intUpTo? maxInt64 (trim raw) with
    | none => simp only [hi, reduceCtorEq] at h
    | some k =>
      simp only [hi] at h
      cases h
      have hsame := natUpTo?_of_intUpTo? (show maxInt64 ≤ maxWord64 by decide) hi
      rw [Option.map_some, Option.bind_some]
      exact hsame

namespace Parser

/-- **The length a request says it has is the length of its body**, under every override field and
however the length is written: the two readings of a header text agree wherever the one that the body
was read by gives a number. -/
theorem contentLength_received :
    (∀ r n, announcedLength r.headers = .ok n → Request.contentLength r = n) ∧
    ∀ p l r, (parse p l).outcome = .ok (some r) →
      announcedLength r.headers = .ok r.body.length ∧ r.contentLength = r.body.length := by
  refine ⟨fun r n => contentLength_of_announcedLength, fun p l r h => ?_⟩
  have hp : p.parse l = ⟨.ok (some r), (p.parse l).parser, (p.parse l).link⟩ := by rw [← h]
  obtain ⟨heard, -, verb, fields, blank, -, -, hannounced, hheaders⟩ := occupies_of_parse hp
  have hlength : announcedLength r.headers = .ok r.body.length := by
    rw [hheaders]
    exact Draft.announcedLength_of_announces hannounced
  exact ⟨hlength, contentLength_of_announcedLength hlength⟩

theorem contentLength_received_posting :
    ∃ r, ((ofField (some .header)).parse posting).outcome = .ok (some r) ∧
      announcedLength r.headers = .ok 11 ∧ r.body.length = 11 ∧ r.contentLength = 11 := by
  have hread : ((ofField (some .header)).parse posting).outcome.toOption.join.map
      (·.body.length) = some 11 := by decide +kernel
  obtain ⟨r, hr, hlength⟩ := exists_of_map_eq_some hread
  have hannounced := (contentLength_received.2 _ posting r hr).1
  rw [hlength] at hannounced
  exact ⟨r, hr, hannounced, hlength, contentLength_received.1 r 11 hannounced⟩

/-- A zero with a minus is no natural number, and announces no body. -/
example : natUpTo? maxWord64 "-0" = none ∧
    (announcedLength (.ofList [("Content-Length", "-0")])).toOption = some 0 := by decide +kernel

end Parser

end HttpEngine
