import HttpEngine.Proofs.Message.Affording
import HttpEngine.Proofs.Serving.Turns

/-!
# Requests within their allowance

A read asks for as much as there is room for and is refused whole when it brings too much. So a
request within its allowance is refused **only for its neighbours**: when the reads made for it bring
bytes from beyond its end, and more than the allowance in all.

* `Service.Retains`: requests that a service answers and goes on after.
* `Service.neighbours_of_turns`: serving them.
* `Service.run_refuses_neighbours_only`: a whole connection.
* `Service.run_refuses_neighbours`: two requests in one read.
-/

namespace HttpEngine

open Text
open Plain (starved)

namespace Link

variable {o : ReaderOptions} {ends : Bool} {left rest : Bytes} {l l' : Link} {limit : Nat}

/-- A link between two requests, **whatever its budgets**. -/
def Rests (o : ReaderOptions) (ends : Bool) (left : Bytes) (l : Link) : Prop :=
  (l.renew none none).Idle o ends left

/-- What a read brings beyond an allowance **is gone from what there is to read**. -/
theorem Overrun.length_lt (h : l'.Overrun (some limit)) (hfresh : l.wire.journal.intake = 0)
    (hsupply : l'.supply = l.supply) :
    limit + l'.wire.inbound.undelivered.length < l.left.length := by
  obtain ⟨count, older, hjournal, -, left, hleft, hlt⟩ := h
  cases hleft
  have hintake : l'.wire.journal.intake = older.intake + count := by
    rw [hjournal]
    rfl
  rw [supply, supply, hintake, hfresh] at hsupply
  rw [Link.left, List.length_append]
  omega

theorem notingAll_unlimited (lines : List String) (l : Link) :
    (l.notingAll lines).unlimited = l.unlimited.notingAll lines := by
  unfold notingAll
  induction lines generalizing l with
  | nil => rfl
  | cons line lines ih => exact ih _

end Link

/-- A body that is refused belongs to a request that is **larger than the allowance and what was read
ahead**. -/
theorem Draft.length_lt_of_refused {l l' l₁ : Link} {d : Draft} {limit : Nat}
    (hl : l.Charged (some limit)) (hfresh : l.wire.journal.intake = 0) (h : Refused l l')
    (hreceived : receive l.unlimited = .ok (some d) l₁) :
    limit + l.unread.length + l₁.left.length < l.left.length := by
  obtain ⟨head, hhead, left, hleft, hover⟩ := h
  obtain ⟨hsupply, hends⟩ := readHead_meets l hl
  rw [Act.leaves_of_ok hhead] at hsupply hends
  rcases hends with ⟨hcharged, hfree⟩ | ⟨l₂, he, -⟩
  · -- the head is the same without an allowance, and so the body is what comes after it
    rw [hhead] at hfree
    rw [receive_eq, Act.run_bind, hfree] at hreceived
    simp only [Link.freed] at hreceived
    obtain ⟨body, l₂, hbody, hdone⟩ := Act.bind_eq_ok.1 hreceived
    rw [Link.Act.task_eq_ok] at hbody
    cases hdone
    obtain ⟨hdrew, hlen⟩ := Link.readBody_drew hbody
    have hbytes := congrArg List.length hdrew.left
    rw [List.length_append, hlen] at hbytes
    have hpaid := Budget.less_of_spend hcharged
    have henough := Budget.le_of_spend hcharged limit rfl
    rw [hleft] at hpaid
    simp only [Budget.less, Option.map_some, Option.some.injEq] at hpaid
    have hahead : l'.unlimited.left.length
        = l'.unread.length + l'.wire.inbound.undelivered.length := List.length_append
    have hall : l.left.length = l.unread.length + l.wire.inbound.undelivered.length :=
      List.length_append
    simp only [Link.supply, hfresh] at hsupply
    omega
  · rw [hhead] at he
    cases he

namespace Service

variable {s : Service} {remote : Address} {ends : Bool} {limit : Nat} {parser parser' : Parser}
  {l l₁ l₂ : Link} {bytes rest : Bytes} {request : Request} {c : Context} {ts : List Turn}

/-- A request, with the bytes that are read as it, **after which a service goes on**, whatever happened
before: it is handled, and what is answered ends, is within the write limit, and leaves the connection
open. -/
structure Retains (s : Service) (remote : Address) (v : Request × Bytes) : Prop where
  hears : s.Hears true v.2 (.ok (some v.1)) []
  handled : ∀ past, (s.handleAfter past remote v.1).1 = .done
  ended : ∀ past r, (s.handleAfter past remote v.1).2.response? = some r →
    r.body.contents.2 = .ended
  affordable : ∀ past,
    ¬ s.settings.writeLimit.Exceeded (s.handleAfter past remote v.1).2.reply.length
  staying : ∀ past, (v.1.keepAlive && !(s.handleAfter past remote v.1).2.closes) = true

/-- **Where nothing is to be read**, no request is heard, and none is refused. -/
theorem hears_nil (s : Service) (ends : Bool) :
    ∃ outcome, s.Hears ends [] outcome [] ∧ (∀ r, outcome ≠ .ok (some r)) ∧
      outcome ≠ .error Draft.tooMuch := by
  have hn : Unended s.settings.reader.window [] := ⟨by decide, ReaderOptions.window_pos _⟩
  -- what is no request stays as it is, whatever fields are honoured
  have hsame : ∀ fields, revise fields (starved ends (.ok none)) = starved ends (.ok none) := by
    intro fields
    induction fields with
    | nil => rfl
    | cons field fields ih =>
      show field.revise (revise fields _) = _
      rw [ih]
      cases ends <;> rfl
  refine ⟨starved ends (.ok none), ⟨_, .noLine hn, hsame _⟩, fun r hr => ?_, fun he => ?_⟩
  · cases ends <;> cases hr
  · cases ends <;> cases he

/-- A link between two requests that is made ready for the next **holds what it held**. -/
theorem readied_unlimited_holds (hl : l.Rests s.settings.reader ends bytes) :
    (s.readied l).unlimited.Holds s.settings.reader ends (s.readied l).sending bytes := by
  obtain ⟨ahead, chunks, hf, hs, he⟩ := hl.holds
  exact ⟨ahead, chunks, ⟨hf.options, rfl, hf.calm, hf.inbound, hf.unread, rfl⟩, hs, he⟩

/-- A parser of a link between two requests **hears what there is to hear**, or a read brings too
much, or a body is refused. -/
theorem parse_of_rests (hlimit : s.settings.readLimit = some limit)
    (hl : l.Rests s.settings.reader ends bytes) (hp : parser.Sound)
    (ho : parser.overrides = s.parser.overrides)
    {outcome : Except (Halt Error) (Option Request)} (hears : s.Hears ends bytes outcome rest) :
    (parser.parse (s.readied l).unlimited).outcome = outcome ∧
      (parser.parse (s.readied l).unlimited).link.left = rest ∧
      ((∃ parser' l₁, parser.parse (s.readied l) = ⟨outcome, parser', l₁⟩ ∧
          l₁.unlimited.Holds s.settings.reader ends (s.readied l).sending rest ∧
          parser'.Sound ∧ parser'.overrides = s.parser.overrides) ∨
        (parser.parse (s.readied l)).outcome = .error Draft.tooMuch ∧
          (Draft.Refused (s.readied l) (parser.parse (s.readied l)).link ∨
            (parser.parse (s.readied l)).link.Overrun (some limit) ∧
              limit + (parser.parse (s.readied l)).link.wire.inbound.undelivered.length
                < bytes.length)) := by
  obtain ⟨judged, hj, hr⟩ := hears
  have hholds := readied_unlimited_holds hl
  have hg := Parser.parse_of_judged hp hholds hj
  have hout := hg.outcome
  rw [ho, hr] at hout
  refine ⟨hout, hg.holds.left_eq, ?_⟩
  obtain ⟨hsupply, hends⟩ := parser.parse_within (charged_readied hlimit l)
  rcases hends with ⟨-, hfree⟩ | ⟨houtcome, hover⟩
  · left
    rw [hfree] at hg hout
    exact ⟨(parser.parse (s.readied l)).parser, (parser.parse (s.readied l)).link, by rw [← hout],
      hg.holds, hg.sound, hg.overrides.trans ho⟩
  · refine .inr ⟨houtcome, ?_⟩
    rcases hover with hover | ⟨hrefused, -⟩
    · have hlt := hover.length_lt rfl hsupply
      rw [← hholds.left_eq]
      exact .inr ⟨hover, hlt⟩
    · exact .inl hrefused

/-- An answer that can be paid for is sent, and **nothing is held** afterwards. -/
theorem answer_paid (hheld : l.held = []) (hl : l.Affords c.reply.length)
    (hc : ∀ r, c.response? = some r → r.body.contents.2 = .ended) :
    ∃ l', answer c l = .ok c.closes l' ∧ l.Paid c.reply l' ∧ l'.held = [] := by
  have hnoting : ∀ {l : Link} (p : Event), Journal.sent [p] = [] → (l.worth none).Ready →
      l.Paid [] (l.noting p) := fun p hsent hready =>
    ⟨hready.noting_wrote hsent, Budget.spend_zero _⟩
  unfold answer Context.closes
  unfold Context.reply at hl ⊢
  cases hr : c.response? with
  | none => exact ⟨l, rfl, hl.paid_nil, hheld⟩
  | some r =>
    rw [hr] at hl
    have hp₁ := hnoting (l := l) (.entered .writing) rfl hl.ready
    obtain ⟨l₂, hd, hp₂, hheld₂⟩ :=
      r.deliver_paid c.cookies? (hc r hr) (hl.rest hp₁ (Nat.zero_add _).symm)
    have hp₃ := hnoting (l := l₂) (.touched .writing) rfl hp₂.wrote.ready
    refine ⟨l₂.noting (.touched .writing), by simp only [hd], ?_, hheld₂⟩
    have := (hp₁.trans hp₂).trans hp₃
    rwa [List.append_nil, List.nil_append] at this

/-- Handling a request that was heard **leads back to a link between two requests**. -/
theorem handled_of_rests {v : Request × Bytes} (hv : s.Retains remote v)
    (hl : l.Rests s.settings.reader ends bytes)
    (h₁ : l₁.unlimited.Holds s.settings.reader ends (s.readied l).sending rest) :
    ∃ c l₂ l₃, s.dispatch remote v.1 l₁ = (.done, c, l₂) ∧ answer c l₂ = .ok c.closes l₃ ∧
      (v.1.keepAlive && !c.closes) = true ∧ l₃.Rests s.settings.reader ends rest := by
  obtain ⟨past, hdispatch⟩ := dispatch_eq s remote v.1 l₁
  obtain ⟨l₂, hd, h₂⟩ : ∃ l₂,
      s.dispatch remote v.1 l₁ = (.done, (s.handleAfter past remote v.1).2, l₂) ∧
      l₂.unlimited.Holds s.settings.reader ends (s.readied l).sending rest := by
    rw [hv.handled] at hdispatch
    refine ⟨_, hdispatch, ?_⟩
    rw [Link.notingAll_unlimited]
    exact (h₁.noted (e := .touched .dispatching) rfl).notedAll _
  -- nothing was written while the request was read and handled
  have hsending : l₂.sending = (s.readied l).sending := h₂.sending_eq
  have hheld : l₂.held = [] := (congrArg Link.Sending.held hsending).trans hl.held
  obtain ⟨ahead, chunks, hf, hsteady, hleft⟩ := h₂
  have hafford : l₂.Affords (s.handleAfter past remote v.1).2.reply.length := by
    refine ⟨⟨hf.calm, ?_, rfl⟩, ?_⟩
    · show l₂.wire.outbound.Accepting
      rw [show l₂.wire.outbound = l.wire.outbound from congrArg Link.Sending.outbound hsending]
      exact hl.ready.accepting
    · rw [show l₂.writeLeft = s.settings.writeLimit from congrArg Link.Sending.writeLeft hsending]
      exact Option.ne_none_iff_exists'.1 fun h => hv.affordable past (Budget.spend_eq_none.1 h)
  obtain ⟨l₃, ha, hp, hheld₃⟩ := answer_paid hheld hafford (hv.ended past)
  exact ⟨_, l₂, l₃, hd, ha, hv.staying past, ⟨⟨ahead, chunks, ⟨hp.wrote.options.trans hf.options, rfl,
    hp.wrote.ready.calm, hp.wrote.inbound.trans hf.inbound, hp.wrote.unread.trans hf.unread, rfl⟩,
    hsteady, hleft⟩, ⟨hp.wrote.ready.calm, hp.wrote.ready.accepting, rfl⟩, hheld₃⟩⟩

/-- A request that is heard alone **is heard in front of anything**. -/
theorem Retains.hears_append {v : Request × Bytes} (h : s.Retains remote v) (ends : Bool)
    (rest : Bytes) : s.Hears ends (v.2 ++ rest) (.ok (some v.1)) rest := by
  obtain ⟨heard, hbytes, -, halone⟩ := h.hears.alone
  rw [List.append_nil] at hbytes
  rw [hbytes]
  exact halone ends rest

/-- **One request within its allowance**, in front of anything: it is received, or a read brings too
much, and with it bytes from beyond the request. -/
theorem received_of_rests (hlimit : s.settings.readLimit = some limit) {v : Request × Bytes}
    (hv : s.Retains remote v) (hle : v.2.length ≤ limit)
    (hl : l.Rests s.settings.reader ends (v.2 ++ rest)) (hp : parser.Sound)
    (ho : parser.overrides = s.parser.overrides) :
    (∃ parser' l₁, parser.parse (s.readied l) = ⟨.ok (some v.1), parser', l₁⟩ ∧
        l₁.unlimited.Holds s.settings.reader ends (s.readied l).sending rest ∧
        parser'.Sound ∧ parser'.overrides = s.parser.overrides) ∨
      (parser.parse (s.readied l)).outcome = .error Draft.tooMuch ∧
        (parser.parse (s.readied l)).link.Overrun (some limit) ∧
        (parser.parse (s.readied l)).link.wire.inbound.undelivered.length < rest.length := by
  obtain ⟨houtcome, hleft, hends⟩ := parse_of_rests hlimit hl hp ho (hv.hears_append ends rest)
  refine hends.imp id fun ⟨hfailed, hover⟩ => ⟨hfailed, ?_⟩
  rcases hover with hrefused | ⟨hover, hlt⟩
  · -- a body is refused only if the request is too large
    have hparsed : parser.parse (s.readied l).unlimited
        = ⟨.ok (some v.1), (parser.parse (s.readied l).unlimited).parser,
          (parser.parse (s.readied l).unlimited).link⟩ := by
      rw [← houtcome]
    obtain ⟨d, l₁, m, hreceived, hlink, -⟩ := Parser.received_of_parse hparsed
    have hlong := Draft.length_lt_of_refused (charged_readied hlimit l) rfl hrefused hreceived
    have hbytes := congrArg List.length (readied_unlimited_holds hl).left_eq
    rw [hlink] at hleft
    rw [show l₁.left = rest from hleft] at hlong
    rw [List.length_append, show (s.readied l).unlimited.left = (s.readied l).left from rfl] at hbytes
    omega
  · rw [List.length_append] at hlt
    exact ⟨hover, by omega⟩

/-- A wait in which no request comes **is the last**. -/
theorem turns_of_nothing (nothing : ∀ r, (parser.parse (s.readied l)).outcome ≠ .ok (some r))
    (h : Turns s remote parser l ts) :
    ts = [⟨s.readied l, parser.parse (s.readied l)⟩] ∧ ts.filterMap Turn.taken? = [] := by
  have hts : ts = [⟨s.readied l, parser.parse (s.readied l)⟩] := by
    cases h with
    | silent _ => rfl
    | last received _ => exact absurd (congrArg Parsed.outcome received) (nothing _)
    | next received _ _ _ _ => exact absurd (congrArg Parsed.outcome received) (nothing _)
  refine ⟨hts, ?_⟩
  rw [hts, List.filterMap_cons_none (taken?_of_nothing nothing), List.filterMap_nil]

/-- A wait after which another follows **is the first of more**. -/
theorem turns_of_staying {l₃ : Link} {close : Bool}
    (hparse : parser.parse (s.readied l) = ⟨.ok (some request), parser', l₁⟩)
    (hd : s.dispatch remote request l₁ = (.done, c, l₂)) (ha : answer c l₂ = .ok close l₃)
    (hstay : (request.keepAlive && !close) = true) (h : Turns s remote parser l ts) :
    ∃ more, ts = ⟨s.readied l, parser.parse (s.readied l)⟩ :: more ∧
      Turns s remote parser' l₃ more := by
  cases h with
  | silent nothing =>
    rw [hparse] at nothing
    exact absurd rfl (nothing request)
  | last received parting =>
    rw [hparse] at received
    cases received
    rw [parting _ _ _ _ hd ha] at hstay
    cases hstay
  | next received handled answered staying more =>
    rw [hparse] at received
    cases received
    rw [hd] at handled
    cases handled
    rw [ha] at answered
    cases answered
    exact ⟨_, rfl, more⟩

/-- Where there is nothing to read, **no request comes, and none is refused**. -/
theorem nothing_of_rests (hlimit : s.settings.readLimit = some limit)
    (hl : l.Rests s.settings.reader ends []) (hp : parser.Sound)
    (ho : parser.overrides = s.parser.overrides) :
    (∀ r, (parser.parse (s.readied l)).outcome ≠ .ok (some r)) ∧
      (parser.parse (s.readied l)).outcome ≠ .error Draft.tooMuch := by
  obtain ⟨outcome, hears, hnothing⟩ := hears_nil s ends
  obtain ⟨-, -, hends⟩ := parse_of_rests hlimit hl hp ho hears
  have hparse : (parser.parse (s.readied l)).outcome = outcome := by
    rcases hends with ⟨parser', l₁, hparse, -⟩ | ⟨-, hrefused | ⟨-, hlt⟩⟩
    · rw [hparse]
    · -- there is not even a head
      obtain ⟨head, hhead, -⟩ := hrefused
      obtain ⟨_, _, _, _, -, hopened, hblank, -⟩ := Draft.readHead_drew hhead
      obtain ⟨front, hfront, -⟩ := hopened.alone
      have hempty : (s.readied l).left = [] := (readied_unlimited_holds hl).left_eq
      rw [hempty, hblank.eq] at hfront
      exact absurd hfront (by simp [crlf])
    · exact absurd hlt (Nat.not_lt_zero _)
  rw [hparse]
  exact hnothing

/-- What a request was read from is **what it was sent as**. -/
theorem taken?_of_rests (hlimit : s.settings.readLimit = some limit) {v : Request × Bytes}
    (hl : l.Rests s.settings.reader ends (v.2 ++ rest))
    (hparse : parser.parse (s.readied l) = ⟨.ok (some v.1), parser', l₁⟩)
    (h₁ : l₁.unlimited.Holds s.settings.reader ends (s.readied l).sending rest) :
    Turn.taken? ⟨s.readied l, parser.parse (s.readied l)⟩ = some v := by
  obtain ⟨hdrew, -, -⟩ := heard_of_received hlimit hparse
  have hleft := hdrew.left
  have hfront : (s.readied l).left = v.2 ++ rest := (readied_unlimited_holds hl).left_eq
  rw [hfront, show l₁.left = rest from h₁.left_eq] at hleft
  rw [taken?_of_received hparse, ← List.append_cancel_right hleft]

/-- **Serving requests that are each within the allowance**: all of them are received, or one is
refused for bytes from beyond its end. -/
theorem neighbours_of_turns (hlimit : s.settings.readLimit = some limit)
    {requests : List (Request × Bytes)}
    (hr : ∀ v ∈ requests, s.Retains remote v ∧ v.2.length ≤ limit)
    (hl : l.Rests s.settings.reader ends (requests.flatMap (·.2))) (hp : parser.Sound)
    (ho : parser.overrides = s.parser.overrides) (h : Turns s remote parser l ts) :
    ts.filterMap Turn.taken? = requests ∧ (∀ t ∈ ts, t.parsed.outcome ≠ .error Draft.tooMuch) ∨
      ∃ k < requests.length, ts.filterMap Turn.taken? = requests.take k ∧
        ∃ t ∈ ts, t.parsed.outcome = .error Draft.tooMuch ∧
          t.parsed.link.Overrun (some limit) ∧
          t.parsed.link.wire.inbound.undelivered.length
            < ((requests.drop (k + 1)).flatMap (·.2)).length := by
  -- on the requests; between two of them the link rests
  induction requests generalizing parser l ts with
  | nil =>
    obtain ⟨hnothing, hfine⟩ := nothing_of_rests hlimit hl hp ho
    obtain ⟨hts, htaken⟩ := turns_of_nothing hnothing h
    refine .inl ⟨htaken, fun t ht => ?_⟩
    rw [hts, List.mem_singleton] at ht
    rw [ht]
    exact hfine
  | cons v requests ih =>
    obtain ⟨hv, hle⟩ := hr v List.mem_cons_self
    rw [List.flatMap_cons] at hl
    rcases received_of_rests hlimit hv hle hl hp ho with
      ⟨parser', l₁, hparse, h₁, hp', ho'⟩ | ⟨hfailed, hover, hlt⟩
    · obtain ⟨c, l₂, l₃, hd, ha, hstay, hrests⟩ := handled_of_rests hv hl h₁
      obtain ⟨more, rfl, hmore⟩ := turns_of_staying hparse hd ha hstay h
      rw [List.filterMap_cons_some (taken?_of_rests hlimit hl hparse h₁)]
      rcases ih (fun u hu => hr u (List.mem_cons_of_mem _ hu)) hrests hp' ho' hmore with
        ⟨hall, hfine⟩ | ⟨k, hk, hall, t, ht, hrest⟩
      · refine .inl ⟨by rw [hall], fun t ht hfailed => ?_⟩
        rcases List.mem_cons.1 ht with rfl | ht
        · rw [hparse] at hfailed
          cases hfailed
        · exact hfine t ht hfailed
      · exact .inr ⟨k + 1, Nat.succ_lt_succ hk, by rw [hall, List.take_succ_cons], t,
          List.mem_cons_of_mem _ ht, hrest⟩
    · -- the wait for it is the last
      obtain ⟨hts, htaken⟩ := turns_of_nothing (fun r hr => by rw [hfailed] at hr; cases hr) h
      exact .inr ⟨0, Nat.succ_pos _, htaken, _, hts ▸ List.mem_singleton.2 rfl, hfailed, hover, hlt⟩

/-! ### A whole connection -/

/-- A service with an allowance for what may be read, and requests that it retains, **each of them
within the allowance**. -/
structure Rations (s : Service) (remote : Address) (limit : Nat) (requests : List (Request × Bytes)) :
    Prop where
  readLimit : s.settings.readLimit = some limit
  parser : s.parser.Sound
  retains : ∀ v ∈ requests, s.Retains remote v
  within : ∀ v ∈ requests, v.2.length ≤ limit

variable {requests : List (Request × Bytes)} {chunks : List Bytes} {sink : Sink}

theorem opened_of_sending (remote : Address) (chunks : List Bytes) (ends : Bool) (sink : Sink) :
    (Client.sending remote chunks ends sink).openStream
      = .ok () { Client.sending remote chunks ends sink with taken := true } := rfl

/-- Every request that comes **is handed to handlers**. -/
theorem handled_of_sending (hlimit : s.settings.readLimit = some limit)
    (h : s.TurnsOf (.sending remote chunks ends sink) ts) :
    (s.run (.sending remote chunks ends sink)).client.wire.journal.handled
      = (ts.filterMap Turn.taken?).length := by
  obtain ⟨added, hadded, hhandled, -⟩ := kept_of_turns hlimit (opened_of_sending ..) h
  rw [hadded, ← hhandled]
  exact congrArg Journal.handled (List.append_nil added)

/-- **A request within the read limit is refused only for its neighbours**, however what a client
sends is cut into reads: all its requests are received and handed to handlers, or, after all those
before it, the reads made for one bring bytes from beyond its end and with them more than the limit.
The read that does is refused whole, and the connection ends there. -/
theorem run_refuses_neighbours_only (s : Service) (remote : Address) (limit : Nat)
    (requests : List (Request × Bytes)) (h : s.Rations remote limit requests) (ends : Bool)
    (chunks : List Bytes) (hs : Steady s.settings.reader.retries ends chunks)
    (hchunks : chunks.flatten = requests.flatMap (·.2)) (sink : Sink)
    (hsink : (Outbound.script sink).Accepting) :
    (∃ ts, s.TurnsOf (.sending remote chunks ends sink) ts) ∧
    ∀ ts, s.TurnsOf (.sending remote chunks ends sink) ts →
      (s.run (.sending remote chunks ends sink)).client.wire.journal.handled
        = (ts.filterMap Turn.taken?).length ∧
      (ts.filterMap Turn.taken? = requests ∧
          (∀ t ∈ ts, t.parsed.outcome ≠ .error Draft.tooMuch) ∨
        ∃ k < requests.length, ts.filterMap Turn.taken? = requests.take k ∧
          (s.run (.sending remote chunks ends sink)).conclusion = tooMuchRead ∧
          ∃ (count : Nat) (before : Journal),
            (s.run (.sending remote chunks ends sink)).client.wire.journal
              = .entered .closed :: .transfer (.read count) :: before ∧
            before.intake ≤ limit ∧ limit < before.intake + count ∧
            (s.run (.sending remote chunks ends sink)).client.wire.inbound.undelivered.length
              < ((requests.drop (k + 1)).flatMap (·.2)).length) := by
  refine ⟨turnsOf_some s _, fun ts hts => ⟨handled_of_sending h.readLimit hts, ?_⟩⟩
  have hrests : (s.linkTo (Client.sending remote chunks ends sink).wire).Rests s.settings.reader ends
      (requests.flatMap (·.2)) :=
    ⟨⟨[], chunks, ⟨rfl, rfl, ⟨rfl, rfl⟩, rfl, rfl, rfl⟩, hs, hchunks⟩, ⟨⟨rfl, rfl⟩, hsink, rfl⟩, rfl⟩
  refine (neighbours_of_turns h.readLimit (fun v hv => ⟨h.retains v hv, h.within v hv⟩) hrests h.parser
    rfl hts).imp id ?_
  rintro ⟨k, hk, hall, t, ht, hfailed, ⟨count, before, hjournal, hbefore, left, hleft, hover⟩, hlt⟩
  cases hleft
  obtain ⟨hconclusion, hwire⟩ :=
    run_of_failed (opened_of_sending ..) (serve_of_failed hts ht hfailed)
  refine ⟨k, hk, hall, hconclusion, count, before, ?_, ?_, hover, ?_⟩
  · rw [hwire, hjournal]
  · exact Nat.le_of_not_lt fun hlt => hbefore ⟨limit, rfl, hlt⟩
  · rw [hwire]
    exact hlt

theorem retains_staying : frugal.Retains { port := 80 } (staying, staying.wire "GET") := by
  have hwritable : staying.Writable 16384 "GET" :=
    ⟨by decide, by decide, by decide +kernel, by decide, by decide, by decide,
      fun f hf => by
        rw [List.mem_singleton.1 hf]
        exact ⟨by decide +kernel, by decide +kernel, by decide +kernel, by decide⟩,
      by decide, .inr ⟨by decide, rfl⟩, by decide⟩
  refine ⟨⟨.ok (some staying), ?_, ?_⟩, fun past => rfl, fun past r hr => ?_, fun past => ?_,
    fun past => ?_⟩
  · have hjudged : Judged 16384 16386 true (staying.wire "GET" ++ []) (.ok (some staying)) [] :=
      Request.judged_of_wire hwritable (by decide) []
    rwa [List.append_nil] at hjudged
  · show OverrideField.header.revise (.ok (some staying)) = _
    have hnone : OverrideField.header.read staying = none := by decide +kernel
    simp only [OverrideField.revise, hnone]
  · cases hr
    rfl
  · rintro ⟨left, hleft, -⟩
    cases hleft
  · have hkeeps : staying.keepAlive = true := by decide +kernel
    rw [hkeeps]
    rfl

/-- Two requests of 43 bytes each, from a client that may send 64 for one. -/
theorem rations_staying :
    frugal.Rations { port := 80 } 64 (List.replicate 2 (staying, staying.wire "GET")) := by
  refine ⟨rfl, ⟨MethodCache.sound_empty, MethodCache.sound_empty⟩, fun v hv => ?_, fun v hv => ?_⟩
  · rw [List.eq_of_mem_replicate hv]
    exact retains_staying
  · rw [List.eq_of_mem_replicate hv]
    decide +kernel

/-- When both **arrive in one read**, not even the first is served. -/
theorem run_refuses_neighbours :
    ¬ ∀ (s : Service) (remote : Address) (limit : Nat) (requests : List (Request × Bytes))
        (ends : Bool) (chunks : List Bytes) (sink : Sink), s.Rations remote limit requests →
      Steady s.settings.reader.retries ends chunks → chunks.flatten = requests.flatMap (·.2) →
      (Outbound.script sink).Accepting →
      ∀ ts, s.TurnsOf (.sending remote chunks ends sink) ts →
        ts.filterMap Turn.taken? = requests ∧
          ∀ t ∈ ts, t.parsed.outcome ≠ .error Draft.tooMuch := by
  intro h
  obtain ⟨ts, hts⟩ := turnsOf_some frugal
    (.sending { port := 80 } [staying.wire "GET" ++ staying.wire "GET"] true {})
  obtain ⟨hall, -⟩ := h frugal _ 64 _ true [staying.wire "GET" ++ staying.wire "GET"] {} rations_staying
    (by decide +kernel) rfl ⟨by simp, by simp, rfl, by simp⟩ ts hts
  have hhandled := handled_of_sending rfl hts
  rw [hall] at hhandled
  have hnone : (frugal.run (.sending { port := 80 } [staying.wire "GET" ++ staying.wire "GET"] true
      {})).client.wire.journal.handled = 0 := by decide +kernel
  rw [hnone] at hhandled
  cases hhandled

/-- When each **arrives in a read of its own**, both are served. -/
theorem run_refuses_neighbours_only_apart :
    frugal.Rations { port := 80 } 64 (List.replicate 2 (staying, staying.wire "GET")) ∧
    ∃ ts, frugal.TurnsOf
        (.sending { port := 80 } [staying.wire "GET", staying.wire "GET"] true {}) ts ∧
      ts.filterMap Turn.taken? = List.replicate 2 (staying, staying.wire "GET") := by
  obtain ⟨⟨ts, hts⟩, h⟩ := run_refuses_neighbours_only frugal { port := 80 } 64 _ rations_staying true
    [staying.wire "GET", staying.wire "GET"] (by decide +kernel) rfl {}
    ⟨by simp, by simp, rfl, by simp⟩
  obtain ⟨hhandled, hends⟩ := h ts hts
  have htwo : (frugal.run (.sending { port := 80 } [staying.wire "GET", staying.wire "GET"] true
      {})).client.wire.journal.handled = 2 := by decide +kernel
  refine ⟨rations_staying, ts, hts, ?_⟩
  rcases hends with ⟨hall, -⟩ | ⟨k, hk, hall, -⟩
  · exact hall
  · -- fewer than all of them would be fewer than two
    rw [htwo, hall, List.length_take] at hhandled
    rw [List.length_replicate] at hk hhandled
    omega

end Service

end HttpEngine
