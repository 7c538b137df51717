import HttpEngine.Proofs.Message.Pace
import HttpEngine.Proofs.Message.Parsing
import HttpEngine.Proofs.Transport.Allowance

/-!
# Receiving a request within an allowance

A request that is received **was the front of the bytes not consumed**, its head and then its body.
On a link with an allowance it is received as on one without, unless a read brings more than is left
of the allowance, or a body is announced that would.

* `Request.Occupies`: the bytes that are a request.
* `Parser.occupies_of_parse`: a request that is received.
* `Draft.Refused`: a body that would take more than is left.
* `Parser.parse_within`: whatever comes of receiving one.
-/

namespace HttpEngine

open Text

/-! ### The bytes of a request -/

/-- What is in front of the body of a request. -/
structure Draft.Head where
  verb : String
  target : String
  protocol : String
  headers : Headers
  /-- The length of the body that is announced. -/
  length : Nat

/-- These bytes are a request: **a head and then the body** that it announces. -/
def Request.Occupies (window : Nat) (heard : Bytes) (r : Request) : Prop :=
  ∃ verb fields blank, Opened window heard verb r.target r.protocol fields blank ∧
    LineAt window blank [] r.body ∧ Announces fields r.body.length ∧ r.headers = .collapsed fields

namespace Draft

/-- The head of a request, none when there is no request to be had. -/
def readHead : Link.Task (Option Head) := do
  let some line ← Link.readLine.task | return none
  let some (verb, target, protocol) := requestLine? (line.map latin1Char) | return none
  let some headers ← headersFrom {} | return none
  match announcedLength headers with
  | .error e => throw (.failed e)
  | .ok length =>
    return some { verb := (headers.get? "_method").getD verb, target, protocol, headers, length }

/-- A request is received **head first**. -/
theorem receive_eq : receive = readHead >>= fun head? =>
    match head? with
    | none => return none
    | some h => withBody h.verb h.target h.protocol h.headers h.length := by
  funext l
  unfold receive readHead
  simp only [Act.run_bind]
  cases Link.readLine.task l with
  | error halt l₁ => rfl
  | ok line? l₁ =>
    cases line? with
    | none => rfl
    | some line =>
      simp only
      cases requestLine? (line.map latin1Char) with
      | none => rfl
      | some parts =>
        simp only [Act.run_bind]
        cases headersFrom {} l₁ with
        | error halt l₂ => rfl
        | ok headers? l₂ =>
          cases headers? with
          | none => rfl
          | some headers =>
            simp only
            cases announcedLength headers <;> rfl

end Draft

theorem requestLine_of_requestLine? {line : Bytes} {verb target protocol : String}
    (h : requestLine? (line.map latin1Char) = some (verb, target, protocol)) :
    RequestLine line verb target protocol := by
  rcases requestLine_cases line with ⟨verb', target', protocol', hr⟩ | hfew
  · rw [requestLine?_of_requestLine hr] at h
    cases h
    exact hr
  · rw [requestLine?_of_few_spaces hfew] at h
    cases h

theorem headerLine_of_headerLine? {line : Bytes} {name value : String}
    (h : headerLine? (line.map latin1Char) = some (name, value)) : HeaderLine line name value := by
  rcases headerLine_cases line with ⟨name', value', hh⟩ | huncut
  · rw [headerLine?_of_headerLine hh] at h
    cases h
    exact hh
  · rw [headerLine?_of_uncut huncut] at h
    cases h

theorem announces_of_announcedLength {fields : List (String × String)} {n : Nat}
    (h : announcedLength (.collapsed fields) = .ok n) : Announces fields n := by
  rcases announces_cases fields with ⟨m, ha⟩ | ⟨raw, hv, hi⟩
  · rw [Draft.announcedLength_of_announces ha] at h
    cases h
    exact ha
  · rw [Draft.announcedLength_of_invalid hv hi] at h
    cases h

theorem Link.lineAt_of_readLine {line : Bytes} {l l' : Link}
    (h : Link.readLine l = .ok (some line) l') :
    LineAt l.options.window l.left line l'.left := by
  obtain ⟨hdrew, hfirst, hle⟩ := Link.readLine_drew h
  rw [List.length_append, show crlf.length = 2 from rfl] at hle
  exact ⟨hdrew.left, hfirst, hle⟩

namespace Draft

variable {l l' : Link}

/-- Header lines that are read **were in front of the empty line** and all else. -/
theorem headersFrom_drew {soFar headers : Headers} (h : headersFrom soFar l = .ok (some headers) l') :
    ∃ heard fields blank, Link.Drew heard l l' ∧ Fields l.options.window l.left fields blank ∧
      LineAt l.options.window blank [] l'.left ∧
      headers = fields.foldl (fun h f => h.insert f.1 f.2) soFar := by
  fun_induction headersFrom soFar l with
  | case1 => cases h
  | case2 => cases h
  | case3 soFar l l₁ line hr hempty =>
    cases h
    rw [List.isEmpty_iff] at hempty
    subst hempty
    exact ⟨_, [], l.left, (Link.readLine_drew hr).1, .nil _, Link.lineAt_of_readLine hr, rfl⟩
  | case4 => cases h
  | case5 soFar l l₁ line hr hempty name value hentry ih =>
    obtain ⟨heard, fields, blank, hdrew, hfields, hblank, rfl⟩ := ih h
    have hline := (Link.readLine_drew hr).1
    rw [hline.options] at hfields hblank
    exact ⟨_, (name, value) :: fields, blank, hline.trans hdrew,
      .cons (Link.lineAt_of_readLine hr) (headerLine_of_headerLine? hentry) hfields, hblank, rfl⟩

/-- A head is **its first line, its header lines and what they announce**. -/
theorem readHead_eq_ok {head : Head} (h : readHead l = .ok (some head) l') :
    ∃ line l₁ verb, Link.readLine l = .ok (some line) l₁ ∧
      requestLine? (line.map latin1Char) = some (verb, head.target, head.protocol) ∧
      headersFrom {} l₁ = .ok (some head.headers) l' ∧
      announcedLength head.headers = .ok head.length ∧
      head.verb = (head.headers.get? "_method").getD verb := by
  unfold readHead at h
  obtain ⟨line?, l₁, hl, h⟩ := Act.bind_eq_ok.1 h
  rw [Link.Act.task_eq_ok] at hl
  cases line? with
  | none => cases h
  | some line =>
    simp only at h
    cases hq : requestLine? (line.map latin1Char) with
    | none =>
      simp only [hq] at h
      cases h
    | some parts =>
      simp only [hq] at h
      obtain ⟨headers?, l₂, hh, h⟩ := Act.bind_eq_ok.1 h
      cases headers? with
      | none => cases h
      | some headers =>
        simp only at h
        cases ha : announcedLength headers with
        | error e =>
          simp only [ha] at h
          cases h
        | ok n =>
          simp only [ha] at h
          cases h
          exact ⟨line, l₁, parts.1, hl, hq, hh, ha, rfl⟩

/-- A request that is received is **its head and then its body**. -/
theorem receive_eq_ok {d : Draft} (h : receive l = .ok (some d) l') :
    ∃ head l₁ body, readHead l = .ok (some head) l₁ ∧
      Link.readBody head.length l₁ = .ok body l' ∧ d = { head with body } := by
  rw [receive_eq] at h
  obtain ⟨head?, l₁, hhead, h⟩ := Act.bind_eq_ok.1 h
  cases head? with
  | none => cases h
  | some head =>
    simp only at h
    obtain ⟨body, l₂, hb, h⟩ := Act.bind_eq_ok.1 h
    rw [Link.Act.task_eq_ok] at hb
    cases h
    exact ⟨head, l₁, body, hhead, hb, rfl⟩

/-- A head that is read **was in front of all else**. -/
theorem readHead_drew {head : Head} (h : readHead l = .ok (some head) l') :
    ∃ heard verb fields blank, Link.Drew heard l l' ∧
      Opened l.options.window l.left verb head.target head.protocol fields blank ∧
      LineAt l.options.window blank [] l'.left ∧ Announces fields head.length ∧
      head.headers = .collapsed fields := by
  obtain ⟨line, l₁, verb, hl, hq, hh, ha, -⟩ := readHead_eq_ok h
  obtain ⟨heard, fields, blank, hdrew, hfields, hblank, hheaders⟩ := headersFrom_drew hh
  have hcollapsed : head.headers = .collapsed fields := hheaders
  have hline := (Link.readLine_drew hl).1
  rw [hline.options] at hfields hblank
  rw [hcollapsed] at ha
  exact ⟨_, verb, fields, blank, hline.trans hdrew,
    ⟨line, l₁.left, Link.lineAt_of_readLine hl, requestLine_of_requestLine? hq, hfields⟩,
    hblank, announces_of_announcedLength ha, hcollapsed⟩

/-- A request that is received, but for its method, **was in front of all else**. -/
theorem receive_drew {d : Draft} {m : Method} (h : receive l = .ok (some d) l') :
    ∃ heard, Link.Drew heard l l' ∧ (d.toRequest m).Occupies l.options.window heard := by
  obtain ⟨head, l₁, body, hhead, hb, rfl⟩ := receive_eq_ok h
  obtain ⟨heard, verb, fields, blank, hdrew, hopened, hblank, hannounced, hheaders⟩ :=
    readHead_drew hhead
  obtain ⟨hbody, hlen⟩ := Link.readBody_drew hb
  -- the head is the same in front of its body alone
  obtain ⟨front, hfront, halone⟩ := hopened.alone
  have hheard : heard = front ++ crlf := by
    refine List.append_cancel_right (hdrew.left.symm.trans (hfront.trans ?_))
    rw [hblank.eq, List.nil_append, List.append_assoc]
  refine ⟨heard ++ body, hdrew.trans hbody, verb, fields, crlf ++ body, ?_, hblank.alone body, ?_,
    hheaders⟩
  · rw [hheard, List.append_assoc]
    exact halone _
  · show Announces fields body.length
    rw [hlen]
    exact hannounced

end Draft

/-! ### Allowances -/

/-- The failure of a request for which **too much would be read**. -/
abbrev Draft.tooMuch : Halt Error := Link.tooMuch.map .io

variable {limit : Budget} {l l' : Link}

theorem Link.Meets.task {α : Type} {act : Link.Act α} (h : Link.Meets Link.tooMuch limit act l) :
    Link.Meets Draft.tooMuch limit act.task l := by
  intro hl
  obtain ⟨hsupply, hends⟩ := h hl
  rw [Link.Act.leaves_task]
  refine ⟨hsupply, hends.imp (fun ⟨hcharged, hsame⟩ => ⟨hcharged, ?_⟩) fun ⟨l₁, he, hover⟩ => ?_⟩
  · unfold Link.Act.task
    rw [hsame]
    cases act l <;> rfl
  · refine ⟨l₁, ?_, hover⟩
    unfold Link.Act.task
    rw [he]

namespace Draft

/-- What is made of the next line after some header lines, none at the end of the stream. -/
def headersAfter (soFar : Headers) : Option Bytes → Link.Task (Option Headers)
  | none => pure none
  | some line =>
    if line.isEmpty then pure (some soFar)
    else
      match headerLine? (line.map latin1Char) with
      | none => throw (.failed (.malformedHeader (latin1 line)))
      | some (name, value) => headersFrom (soFar.insert name value)

/-- Header lines are read **one after another**. -/
theorem headersFrom_step (soFar : Headers) :
    headersFrom soFar = Link.readLine.task >>= headersAfter soFar := by
  funext l
  rw [headersFrom_eq, Act.run_bind]
  unfold Link.Act.task
  cases Link.readLine l with
  | error halt l₁ => rfl
  | ok line? l₁ =>
    cases line? with
    | none => rfl
    | some line =>
      simp only [headersAfter, Act.run_ite]
      cases headerLine? (line.map latin1Char) <;> rfl

/-- Header lines are read one by one, **each like the first**. -/
theorem headersFrom_meets (soFar : Headers) (l : Link) :
    Link.Meets tooMuch limit (headersFrom soFar) l := by
  -- on the bytes that are left, of which every line takes some
  induction h : l.available using Nat.strongRecOn generalizing soFar l with
  | ind n ih =>
    rw [headersFrom_step]
    refine (Link.readLine_meets l).task.bind fun line? l₁ hr => ?_
    cases line? with
    | none => exact Link.meets_pure _ l₁
    | some line =>
      simp only [headersAfter]
      split
      · exact Link.meets_pure _ l₁
      · cases headerLine? (line.map latin1Char) with
        | none => exact Link.meets_throw _ l₁
        | some entry =>
          have hlt := Link.available_readLine (Link.Act.task_eq_ok.1 hr)
          exact ih _ (h ▸ hlt) _ l₁ rfl

theorem readHead_meets (l : Link) : Link.Meets tooMuch limit readHead l := by
  unfold readHead
  refine (Link.readLine_meets l).task.bind fun line? l₁ _ => ?_
  cases line? with
  | none => exact Link.meets_pure _ l₁
  | some line =>
    simp only
    cases requestLine? (line.map latin1Char) with
    | none => exact Link.meets_pure _ l₁
    | some parts =>
      refine (headersFrom_meets {} l₁).bind fun headers? l₂ _ => ?_
      cases headers? with
      | none => exact Link.meets_pure _ l₂
      | some headers =>
        simp only
        cases announcedLength headers with
        | error e => exact Link.meets_throw _ l₂
        | ok length => exact Link.meets_pure _ l₂

/-- A head was read that announces a body of which **more is still to come than may be read**. -/
def Refused (l l' : Link) : Prop :=
  ∃ head, readHead l = .ok (some head) l' ∧
    l'.readLeft.Exceeded (head.length - l'.unread.length)

/-- Such a body is refused **before any of it is read**. -/
theorem receive_of_refused (h : Refused l l') : receive l = .error tooMuch l' := by
  obtain ⟨head, hhead, hover⟩ := h
  have hbody : Link.readBody head.length l' = .error Link.tooMuch l' := by
    unfold Link.readBody
    simp only [Act.run_bind, Act.run_get, Budget.spend_eq_none.2 hover]
    rfl
  rw [receive_eq, Act.run_bind, hhead]
  simp only [withBody, Act.run_bind, Link.Act.task, hbody]

/-- Where no body is refused, a request is received **as without an allowance**, or a read brings
more than is left of it. -/
theorem receive_meets (h : ∀ l', ¬ Refused l l') : Link.Meets tooMuch limit receive l := by
  rw [receive_eq]
  refine (readHead_meets l).bind fun head? l₁ hhead => ?_
  cases head? with
  | none => exact Link.meets_pure _ l₁
  | some head =>
    have henough : ¬ l₁.readLeft.Exceeded (head.length - l₁.unread.length) :=
      fun hover => h l₁ ⟨head, hhead, hover⟩
    -- what is left covers the body, so that it is read like any other bytes
    have hbody : Link.Meets Link.tooMuch limit (Link.readBody head.length) l₁ := by
      intro hl
      obtain ⟨hsupply, hends⟩ := Link.readBytes_meets head.length l₁ hl
      have he : Link.readBody head.length l₁ = Link.readBytes head.length l₁ :=
        Link.readBody_of_solvent (Budget.spend_of_not_exceeded henough)
      have hfree : Link.readBody head.length l₁.unlimited
          = Link.readBytes head.length l₁.unlimited := rfl
      rw [Act.leaves, he, hfree]
      exact ⟨hsupply, hends⟩
    exact hbody.task.bind fun body l₂ _ => Link.meets_pure _ l₂

end Draft

/-- The link once a request was received on it. -/
def Link.received (l : Link) : Link :=
  { l with wire := { l.wire with journal := .received :: l.wire.journal } }

namespace Parser

variable {p p' : Parser} {request : Request}

/-- A failure to receive a request is **the failure of every parser**. -/
theorem parse_of_receive_error (p : Parser) {halt : Halt Error}
    (h : Draft.receive l = .error halt l') :
    (p.parse l).outcome = .error halt ∧ (p.parse l).link = l' := by
  induction p with
  | plain verbs =>
    rw [parse, h]
    exact ⟨rfl, rfl⟩
  | overriding field inner verbs ih =>
    rw [link_parse_overriding]
    refine ⟨?_, ih.2⟩
    rw [parse]
    cases hi : inner.parse l with
    | mk outcome inner' l₁ =>
      rw [hi] at ih
      have ho : outcome = .error halt := ih.1
      subst ho
      rfl

/-- A request **came of a draft**, and was noted as received. -/
theorem received_of_parse (h : p.parse l = ⟨.ok (some request), p', l'⟩) :
    ∃ d l₁ m, Draft.receive l = .ok (some d) l₁ ∧ l' = l₁.received ∧
      request = d.toRequest m := by
  induction p generalizing p' request with
  | plain verbs =>
    rw [parse] at h
    cases hr : Draft.receive l with
    | error halt l₁ =>
      rw [hr] at h
      cases h
    | ok draft? l₁ =>
      rw [hr] at h
      cases draft? with
      | none => cases h
      | some draft =>
        simp only at h
        cases hv : verbs.provide draft.verb with
        | mk found verbs' =>
          rw [hv] at h
          cases found with
          | error e => cases h
          | ok m =>
            cases h
            exact ⟨draft, l₁, m, rfl, rfl, rfl⟩
  | overriding field inner verbs ih =>
    obtain ⟨request', inner', hi⟩ := received_of_overriding h
    obtain ⟨d, l₁, m, hr, hl, rfl⟩ := ih hi
    rw [parse, hi] at h
    simp only at h
    cases hf : field.read (d.toRequest m) with
    | none =>
      rw [hf] at h
      cases h
      exact ⟨d, l₁, m, hr, hl, rfl⟩
    | some name =>
      rw [hf] at h
      simp only at h
      cases hv : verbs.provide name with
      | mk found verbs' =>
        rw [hv] at h
        cases found with
        | error e => cases h
        | ok m' =>
          cases h
          exact ⟨d, l₁, m', hr, hl, rfl⟩

/-- A request that is received **was in front of all else**, head and body. -/
theorem occupies_of_parse (h : p.parse l = ⟨.ok (some request), p', l'⟩) :
    ∃ heard, Link.Drew heard l l' ∧ request.Occupies l.options.window heard := by
  obtain ⟨d, l₁, m, hr, rfl, rfl⟩ := received_of_parse h
  obtain ⟨heard, hdrew, hoccupies⟩ := Draft.receive_drew (m := m) hr
  exact ⟨heard, ⟨hdrew.left, hdrew.options⟩, hoccupies⟩

theorem link_parse (p : Parser) (l : Link) :
    (p.parse l).link = Act.leaves Draft.receive l ∨
      (p.parse l).link = (Act.leaves Draft.receive l).received := by
  induction p with
  | plain verbs =>
    unfold parse Act.leaves
    cases hr : Draft.receive l with
    | error halt l₁ => exact .inl rfl
    | ok draft? l₁ =>
      cases draft? with
      | none => exact .inl rfl
      | some draft =>
        simp only
        cases verbs.provide draft.verb with
        | mk found verbs' =>
          cases found with
          | error e => exact .inl rfl
          | ok m => exact .inr rfl
  | overriding field inner verbs ih =>
    rw [link_parse_overriding]
    exact ih

/-- A parser does without a limit what it does within one, **if receiving does**. -/
theorem parse_unlimited (p : Parser)
    (h : Draft.receive l.unlimited = Link.freed (Draft.receive l)) :
    p.parse l.unlimited = { p.parse l with link := (p.parse l).link.unlimited } := by
  induction p with
  | plain verbs =>
    rw [parse, parse, h]
    cases Draft.receive l with
    | error halt l₁ => rfl
    | ok draft? l₁ =>
      cases draft? with
      | none => rfl
      | some draft =>
        simp only [Link.freed]
        cases verbs.provide draft.verb with
        | mk found verbs' => cases found <;> rfl
  | overriding field inner verbs ih =>
    rw [parse_overriding_onto ih, link_parse_overriding]

/-- **Receiving a request within an allowance**, whatever comes of it: it is received as without
one; or a read brings more than is left, or a body is refused, and no request is received. -/
theorem parse_within (p : Parser) (hl : l.Charged limit) :
    (p.parse l).link.supply = l.supply ∧
      ((p.parse l).link.Charged limit ∧
          p.parse l.unlimited = { p.parse l with link := (p.parse l).link.unlimited } ∨
        (p.parse l).outcome = .error Draft.tooMuch ∧
          ((p.parse l).link.Overrun limit ∨
            Draft.Refused l (p.parse l).link ∧ (p.parse l).link.Charged limit)) := by
  by_cases hrefused : ∃ l', Draft.Refused l l'
  · obtain ⟨l', hl'⟩ := hrefused
    obtain ⟨houtcome, hlink⟩ := p.parse_of_receive_error (Draft.receive_of_refused hl')
    obtain ⟨head, hhead, hover⟩ := hl'
    obtain ⟨hsupply, hends⟩ := Draft.readHead_meets l hl
    rw [Act.leaves_of_ok hhead] at hsupply hends
    rw [hlink]
    refine ⟨hsupply, .inr ⟨houtcome, .inr ⟨⟨head, hhead, hover⟩, ?_⟩⟩⟩
    rcases hends with ⟨hcharged, -⟩ | ⟨l₁, he, -⟩
    · exact hcharged
    · rw [hhead] at he
      cases he
  · obtain ⟨hsupply, hends⟩ :=
      Draft.receive_meets (fun l' h => hrefused ⟨l', h⟩) hl
    -- that a request was received is noted, and brings nothing
    have hsame : (p.parse l).link.supply = (Act.leaves Draft.receive l).supply ∧
        ((Act.leaves Draft.receive l).Charged limit → (p.parse l).link.Charged limit) := by
      rcases p.link_parse l with hlink | hlink
      · rw [hlink]
        exact ⟨rfl, id⟩
      · rw [hlink]
        exact ⟨rfl, id⟩
    refine ⟨hsame.1.trans hsupply, ?_⟩
    rcases hends with ⟨hcharged, hfree⟩ | ⟨l₁, he, hover⟩
    · exact .inl ⟨hsame.2 hcharged, p.parse_unlimited hfree⟩
    · obtain ⟨houtcome, hlink⟩ := p.parse_of_receive_error he
      exact .inr ⟨houtcome, .inl (hlink ▸ hover)⟩

end Parser

end HttpEngine
