import HttpEngine.Proofs.Message.Hearing
import HttpEngine.Proofs.Message.Interruption
import HttpEngine.Proofs.Serving.Conversation
import HttpEngine.Proofs.Serving.Order

/-!
# The course of a connection

Whatever becomes of a connection (limits, a stream that takes little or fails, bodies that fail, a
cut from outside), what is on the stream is **a front of the replies** that handlers left, in their
order.

* `Service.answer_adds`: answering it, whatever comes of that.
* `Service.Course`: what handlers leave behind, request by request.
* `Service.over_of_course`: what serving comes to, by induction on the requests.
* `Service.run_sends_front`: a whole connection.
-/

namespace HttpEngine

open Text

/-! ### Answers -/

theorem Event.isAnswer_of_isOutput {e : Event} (h : e.isOutput = true) : e.isAnswer = true := by
  cases e with
  | transfer t => cases t <;> first | rfl | cases h
  | _ => cases h

/-- What delivering adds to the journal and leaves held: **a front of the response**, and all of it,
flushed, if it succeeds. -/
theorem Response.deliver_adds (r : Response) (cookies : Option CookieStore) {l : Link}
    (hheld : l.held = []) :
    ∃ added, (Act.leaves (r.deliver cookies) l).wire.journal = added ++ l.wire.journal ∧
      (∀ e ∈ added, e.isOutput = true) ∧
      Journal.sent added ++ (Act.leaves (r.deliver cookies) l).held
        <+: utf8 (r.head cookies) ++ r.body.contents.1 ∧
      ∀ l', r.deliver cookies l = .ok () l' → l'.held = [] ∧
        Journal.sent added = utf8 (r.head cookies) ++ r.body.contents.1 ∧
        ∃ between, added = .transfer .flushed :: between := by
  obtain ⟨front, hpassed, hfront, hall⟩ := r.deliver_writes cookies l
  obtain ⟨added, hadded, hkind⟩ := hpassed.grows
  have hwritten := hpassed.written
  -- what was sent before is the same on both sides, and nothing was held
  have hsent : Journal.sent added ++ (Act.leaves (r.deliver cookies) l).held = front := by
    simp only [Link.written, hadded, Journal.sent_append, hheld, List.append_nil,
      List.append_assoc] at hwritten
    exact List.append_cancel_left hwritten
  refine ⟨added, hadded, hkind, by rw [hsent]; exact hfront, fun l' h => ?_⟩
  obtain ⟨hheld', older, hflushed, between, hbetween, -⟩ := Response.deliver_eq_ok h
  have hfull := hall () l' h
  rw [Act.leaves_of_ok h] at hadded hsent
  rw [hheld', List.append_nil] at hsent
  rw [List.append_nil] at hfull
  refine ⟨hheld', hsent.trans hfull, between, ?_⟩
  rw [hadded, hbetween, ← List.cons_append] at hflushed
  exact List.append_cancel_right hflushed

namespace Service

variable {s : Service} {remote : Address} {parser parser' : Parser} {l l₁ l₂ l₃ l' : Link}
  {request : Request} {c : Context} {cs : List Context}

theorem answer_of_halted {r : Response} {halt : Halt IoError} (hr : c.response? = some r)
    (hd : r.deliver c.cookies? (l.noting (.entered .writing)) = .error halt l₁) :
    answer c l = .error halt l₁ := by
  simp only [answer, hr, hd]

theorem answer_of_delivered {r : Response} (hr : c.response? = some r)
    (hd : r.deliver c.cookies? (l.noting (.entered .writing)) = .ok () l₁) :
    answer c l = .ok r.close (l₁.noting (.touched .writing)) := by
  simp only [answer, hr, hd]

/-- Entering the phase for writing **comes first, and sends nothing**. -/
theorem added_of_entered {added : Journal} (h : ∀ e ∈ added, e.isOutput = true) :
    (∀ e ∈ added ++ [.entered .writing], e.isAnswer = true) ∧
      Journal.sent (added ++ [.entered .writing]) = Journal.sent added := by
  refine ⟨fun e he => ?_, Journal.sent_append _ _⟩
  rcases List.mem_append.1 he with he | he
  · exact Event.isAnswer_of_isOutput (h e he)
  · rw [List.mem_singleton.1 he]
    rfl

/-- What answering adds to the journal and leaves held: **a front of the reply**, and all of it,
flushed, if it succeeds. -/
theorem answer_adds (c : Context) (hheld : l.held = []) :
    ∃ more, (Act.leaves (answer c) l).wire.journal = more ++ l.wire.journal ∧
      (∀ e ∈ more, e.isAnswer = true) ∧
      Journal.sent more ++ (Act.leaves (answer c) l).held <+: c.reply ∧
      ∀ close l', answer c l = .ok close l' → l'.held = [] ∧ Journal.sent more = c.reply ∧
        ∀ j, Journal.unflushed j = [] → Journal.unflushed (more ++ j) = [] := by
  cases hr : c.response? with
  | none =>
    have he : answer c l = .ok false l := by simp only [answer, hr]
    refine ⟨[], by rw [Act.leaves_of_ok he]; rfl, nofun, ?_, fun close l' h => ?_⟩
    · rw [Act.leaves_of_ok he, hheld]
      exact List.nil_prefix
    · rw [he] at h
      cases h
      exact ⟨hheld, by simp only [Context.reply, hr, Journal.sent], fun j hj => hj⟩
  | some r =>
    have hreply : c.reply = utf8 (r.head c.cookies?) ++ r.body.contents.1 := by
      simp only [Context.reply, hr]
    obtain ⟨added, hadded, hkind, hfront, hend⟩ :=
      r.deliver_adds c.cookies? (l := l.noting (.entered .writing)) hheld
    rw [← hreply] at hfront hend
    obtain ⟨hanswer, hsame⟩ := added_of_entered hkind
    have hjournal : (Act.leaves (r.deliver c.cookies?) (l.noting (.entered .writing))).wire.journal
        = added ++ [.entered .writing] ++ l.wire.journal := by
      rw [hadded, List.append_assoc]
      rfl
    rw [← hsame] at hfront hend
    cases hd : r.deliver c.cookies? (l.noting (.entered .writing)) with
    | error halt l₁ =>
      have he := answer_of_halted hr hd
      rw [Act.leaves_of_error hd] at hjournal hfront
      rw [Act.leaves_of_error he]
      refine ⟨added ++ [.entered .writing], hjournal, hanswer, hfront, fun close l' h => ?_⟩
      rw [he] at h
      cases h
    | ok u l₁ =>
      have he := answer_of_delivered hr hd
      obtain ⟨hheld₁, hsent, between, hflushed⟩ := hend l₁ hd
      rw [Act.leaves_of_ok hd] at hjournal hfront
      rw [Act.leaves_of_ok he]
      refine ⟨.touched .writing :: (added ++ [Event.entered .writing]), ?_, ?_, hfront, ?_⟩
      · show Event.touched .writing :: l₁.wire.journal = _
        rw [hjournal, List.cons_append]
      · intro e hmem
        rcases List.mem_cons.1 hmem with rfl | hmem
        · rfl
        · exact hanswer e hmem
      · intro close l' h
        rw [he] at h
        cases h
        refine ⟨hheld₁, hsent, fun j _ => ?_⟩
        rw [hflushed]
        rfl

/-! ### Serving -/

/-- The course of serving a client from a link on: **what handlers left behind** of the requests
they were done with, in order, and the link in the end. -/
inductive Course (s : Service) (remote : Address) : Parser → Link → List Context → Link → Prop
  /-- No request came. -/
  | silent {parser parser' : Parser} {l l₁ : Link} {outcome : Except (Halt Error) (Option Request)}
      (received : parser.parse (s.readied l) = ⟨outcome, parser', l₁⟩)
      (nothing : ∀ r, outcome ≠ .ok (some r)) : Course s remote parser l [] l₁
  /-- A handler failed, and nothing is answered. -/
  | failed {parser parser' : Parser} {l l₁ l₂ : Link} {request : Request} {text : String}
      {c : Context} (received : parser.parse (s.readied l) = ⟨.ok (some request), parser', l₁⟩)
      (handled : s.dispatch remote request l₁ = (.failed text, c, l₂)) :
      Course s remote parser l [] l₂
  /-- A handler never came back. -/
  | stuck {parser parser' : Parser} {l l₁ l₂ : Link} {request : Request} {c : Context}
      (received : parser.parse (s.readied l) = ⟨.ok (some request), parser', l₁⟩)
      (handled : s.dispatch remote request l₁ = (.stuck, c, l₂)) :
      Course s remote parser l [] (stuckOn l₂)
  /-- The answer could not be sent to its end. -/
  | halted {parser parser' : Parser} {l l₁ l₂ l₃ : Link} {request : Request} {c : Context}
      {halt : Halt IoError}
      (received : parser.parse (s.readied l) = ⟨.ok (some request), parser', l₁⟩)
      (handled : s.dispatch remote request l₁ = (.done, c, l₂))
      (answered : answer c l₂ = .error halt l₃) : Course s remote parser l [c] l₃
  /-- The answer was the last one. -/
  | parted {parser parser' : Parser} {l l₁ l₂ l₃ : Link} {request : Request} {c : Context}
      {close : Bool} (received : parser.parse (s.readied l) = ⟨.ok (some request), parser', l₁⟩)
      (handled : s.dispatch remote request l₁ = (.done, c, l₂))
      (answered : answer c l₂ = .ok close l₃) (leaving : (request.keepAlive && !close) = false) :
      Course s remote parser l [c] l₃
  | stayed {parser parser' : Parser} {l l₁ l₂ l₃ l' : Link} {request : Request} {c : Context}
      {close : Bool} {cs : List Context}
      (received : parser.parse (s.readied l) = ⟨.ok (some request), parser', l₁⟩)
      (handled : s.dispatch remote request l₁ = (.done, c, l₂))
      (answered : answer c l₂ = .ok close l₃) (staying : (request.keepAlive && !close) = true)
      (more : Course s remote parser' l₃ cs l') : Course s remote parser l (c :: cs) l'

/-- Serving **takes its course**. -/
theorem serve_course (s : Service) (remote : Address) (parser : Parser) (l : Link) :
    ∃ cs, Course s remote parser l cs (s.serve remote parser l).link := by
  -- on the requests; each is one turn of serving
  fun_induction serve s remote parser l with
  | case1 parser l halt parser' l₁ hp => exact ⟨[], .silent hp nofun⟩
  | case2 parser l parser' l₁ hp => exact ⟨[], .silent hp nofun⟩
  | case3 parser l request parser' l₁ hp text c l₂ hd => exact ⟨[], .failed hp hd⟩
  | case4 parser l request parser' l₁ hp c l₂ hd => exact ⟨[], .stuck hp hd⟩
  | case5 parser l request parser' l₁ hp c l₂ hd halt l₃ ha => exact ⟨[c], .halted hp hd ha⟩
  | case6 parser l request parser' l₁ hp c l₂ hd close l₃ ha hstay ih =>
    obtain ⟨cs, hcs⟩ := ih
    exact ⟨c :: cs, .stayed hp hd ha hstay hcs⟩
  | case7 parser l request parser' l₁ hp c l₂ hd close l₃ ha hleave =>
    exact ⟨[c], .parted hp hd ha (Bool.not_eq_true _ ▸ hleave)⟩

end Service

namespace Link

/-- A link between two requests, so many of which were handled since an earlier journal: **nothing
is held and nothing is owed**. -/
structure Even (replies : List Bytes) (base : Journal) (n : Nat) (l : Link) : Prop where
  held : l.held = []
  since : ∃ added, l.wire.journal = added ++ base ∧ Journal.Orderly replies added ∧
    Journal.Settled replies added ∧ Journal.handled added = n

/-- A link on which a request is **being handled**, before anything is sent for it. -/
structure Busy (replies : List Bytes) (base : Journal) (n : Nat) (l : Link) : Prop where
  held : l.held = []
  since : ∃ added, l.wire.journal = added ++ base ∧ Journal.Orderly replies added ∧
    Journal.handled added = n + 1 ∧ Journal.phase added ≠ .reading ∧
    Journal.sent added = (replies.take n).flatten ∧ Journal.unflushed added = []

/-- What was written to a link since an earlier journal, when nothing more is served: **a front of
the replies**, and all of them if a request was being awaited. -/
structure Over (replies : List Bytes) (added : Journal) (l : Link) : Prop where
  orderly : Journal.Orderly replies added
  front : Journal.sent added ++ l.held <+: (replies.take (Journal.handled added)).flatten
  awaiting : Journal.phase added = .reading → l.held = [] ∧ Journal.Settled replies added

end Link

namespace Service

variable {s : Service} {remote : Address} {parser parser' : Parser} {l l₁ l₂ l' : Link}
  {request : Request} {c : Context} {cs : List Context} {replies : List Bytes} {base : Journal}
  {n : Nat}

/-- While a request is awaited and read, **everything stays settled**. -/
theorem heard_of_even (h : l.Even replies base n) (parser : Parser) :
    (parser.parse (s.readied l)).link.held = [] ∧
      ∃ added, (parser.parse (s.readied l)).link.wire.journal = added ++ base ∧
        Journal.Awaiting replies added ∧ Journal.handled added = n := by
  obtain ⟨added, hadded, horderly, hsettled, hn⟩ := h.since
  obtain ⟨hawaiting, hsame⟩ := horderly.awaiting hsettled
  have hheard := parser.parse_heard (s.readied l)
  obtain ⟨more, hmore, hkind⟩ := hheard.grows
  obtain ⟨hnow, hstill⟩ := hawaiting.heard ⟨more, rfl, hkind⟩
  refine ⟨hheard.held.trans h.held, more ++ .entered .reading :: added, ?_, hnow,
    (hstill.trans hsame).trans hn⟩
  rw [hmore]
  show more ++ .entered .reading :: l.wire.journal = _
  rw [hadded, List.append_assoc]
  rfl

theorem notingAll_grows (lines : List String) (l : Link) :
    l.wire.journal.Grows Event.isNote (l.notingAll lines).wire.journal ∧
      (l.notingAll lines).held = l.held := by
  unfold Link.notingAll
  induction lines generalizing l with
  | nil => exact ⟨.refl _, rfl⟩
  | cons line lines ih =>
    obtain ⟨hgrows, hheld⟩ := ih (l.noting (.noted l.wire.clock line))
    exact ⟨.trans (Journal.grows_cons rfl) hgrows, hheld⟩

theorem dispatch_adds {verdict : Verdict}
    (hd : s.dispatch remote request l₁ = (verdict, c, l₂)) : l₂.held = l₁.held ∧
      ∃ notes, l₂.wire.journal = notes ++ .touched .dispatching :: l₁.wire.journal ∧
        ∀ e ∈ notes, e.isNote = true := by
  have hl : l₂ = (l₁.noting (.touched .dispatching)).notingAll c.notes := by
    cases hd
    rfl
  obtain ⟨⟨notes, hnotes, hkind⟩, hheld⟩ := notingAll_grows c.notes
    (l₁.noting (.touched .dispatching))
  rw [hl]
  exact ⟨hheld, notes, hnotes, hkind⟩

/-- A request that came **is being handled**, and what handlers note sends nothing. -/
theorem busy_of_dispatch {verdict : Verdict} (hheld : l₁.held = [])
    (hsince : ∃ added, l₁.wire.journal = added ++ base ∧ Journal.Awaiting replies added ∧
      Journal.handled added = n)
    (hd : s.dispatch remote request l₁ = (verdict, c, l₂)) : l₂.Busy replies base n := by
  obtain ⟨added, hadded, hawaiting, hn⟩ := hsince
  obtain ⟨hdispatched, hhandled⟩ := hawaiting.dispatched
  obtain ⟨hsame, notes, hnotes, hkind⟩ := dispatch_adds hd
  have hgrows : Journal.Grows Event.isNote (.touched .dispatching :: added)
      (notes ++ .touched .dispatching :: added) := ⟨notes, rfl, hkind⟩
  obtain ⟨hsent, hunflushed, hphase, hstill⟩ := hgrows.of_note
  have hbefore : Journal.sent (.touched .dispatching :: added) = (replies.take n).flatten := by
    rw [← hn]
    exact hawaiting.settled.sent
  have hkind' : Journal.Grows Event.isAnswer (.touched .dispatching :: added)
      (notes ++ .touched .dispatching :: added) := by
    refine hgrows.mono fun e he => ?_
    cases e with
    | noted time line => rfl
    | _ => cases he
  refine ⟨hsame.trans hheld, notes ++ .touched .dispatching :: added, ?_, ?_, ?_, ?_, ?_, ?_⟩
  · rw [hnotes, hadded, List.append_assoc]
    rfl
  · refine (hdispatched.answered hkind' ?_).1
    rw [hsent]
    exact hdispatched.front
  · rw [hstill, hhandled, hn]
  · rw [hphase]
    nofun
  · rw [hsent, hbefore]
  · rw [hunflushed]
    exact hawaiting.settled.flushed

theorem busy_of_received (h : l.Even replies base n)
    (received : parser.parse (s.readied l) = ⟨.ok (some request), parser', l₁⟩)
    {verdict : Verdict} (handled : s.dispatch remote request l₁ = (verdict, c, l₂)) :
    l₂.Busy replies base n := by
  obtain ⟨hheld, hsince⟩ := heard_of_even (s := s) h parser
  rw [received] at hheld hsince
  exact busy_of_dispatch hheld hsince handled

theorem flatten_take_prefix (replies : List Bytes) (n : Nat) :
    (replies.take n).flatten <+: (replies.take (n + 1)).flatten := by
  obtain ⟨more, hmore⟩ := List.take_prefix_take_left (l := replies) (Nat.le_succ n)
  rw [← hmore, List.flatten_append]
  exact List.prefix_append _ _

theorem flatten_take_succ {reply : Bytes} (h : replies[n]? = some reply) :
    (replies.take (n + 1)).flatten = (replies.take n).flatten ++ reply := by
  rw [List.take_add_one, h, List.flatten_append]
  simp

/-- When nothing is sent for a request, what was sent **is a front all the same**. -/
theorem over_of_busy (h : l.Busy replies base n) :
    ∃ added, l.wire.journal = added ++ base ∧ l.Over replies added := by
  obtain ⟨added, hadded, horderly, hhandled, hphase, hsent, -⟩ := h.since
  refine ⟨added, hadded, horderly, ?_, fun hreading => absurd hreading hphase⟩
  rw [h.held, List.append_nil, hsent, hhandled]
  exact flatten_take_prefix replies n

/-- Waiting for ever leaves a link as it is, but for its clock. -/
theorem stuckOn_same (l : Link) :
    (stuckOn l).held = l.held ∧ (stuckOn l).wire.journal = l.wire.journal := by
  have hjournal := Wire.journal_await none l.wire
  unfold Act.leaves at hjournal
  unfold stuckOn
  cases h : Wire.await none l.wire <;> rw [h] at hjournal <;> exact ⟨rfl, hjournal⟩

/-- **Answering a request** sends a front of the reply; if it succeeds, nothing is owed. -/
theorem answer_of_busy (h : l.Busy replies base n) (hreply : replies[n]? = some c.reply) :
    (∃ added, (Act.leaves (answer c) l).wire.journal = added ++ base ∧
      (Act.leaves (answer c) l).Over replies added) ∧
    ∀ close l', answer c l = .ok close l' → l'.Even replies base (n + 1) := by
  obtain ⟨added, hadded, horderly, hhandled, hphase, hsent, hflushed⟩ := h.since
  obtain ⟨more, hmore, hkind, hfront, hend⟩ := answer_adds c h.held
  have hall := flatten_take_succ hreply
  -- the reply comes behind those before it
  have hwritten : Journal.sent (more ++ added) ++ (Act.leaves (answer c) l).held
      <+: (replies.take (Journal.handled added)).flatten := by
    rw [hhandled, hall, Journal.sent_append, hsent, List.append_assoc,
      List.prefix_append_right_inj]
    exact hfront
  obtain ⟨horderly', hstill, hafter⟩ := horderly.answered ⟨more, rfl, hkind⟩
    ((List.prefix_append _ _).trans hwritten)
  have hjournal : (Act.leaves (answer c) l).wire.journal = more ++ added ++ base := by
    rw [hmore, hadded, List.append_assoc]
  refine ⟨⟨more ++ added, hjournal, horderly', ?_, fun hreading => ?_⟩, fun close l' ha => ?_⟩
  · rw [hstill]
    exact hwritten
  · rcases hafter with hafter | hafter
    · rw [hafter] at hreading
      cases hreading
    · rw [hafter] at hreading
      exact absurd hreading hphase
  · obtain ⟨hheld, hreplied, hflush⟩ := hend close l' ha
    rw [Act.leaves_of_ok ha] at hjournal
    refine ⟨hheld, more ++ added, hjournal, horderly', ⟨?_, hflush added hflushed⟩,
      hstill.trans hhandled⟩
    rw [hstill, hhandled, hall, Journal.sent_append, hsent, hreplied]

/-- **Whatever the course of serving**, what was sent is a front of the replies. -/
theorem over_of_course (h : Course s remote parser l cs l') (hl : l.Even replies base n)
    (hreplies : replies.drop n = cs.map Context.reply) :
    ∃ added, l'.wire.journal = added ++ base ∧ l'.Over replies added := by
  -- the reply to the request being handled is the next one
  have next : ∀ {n : Nat} {c : Context} {cs : List Context},
      replies.drop n = (c :: cs).map Context.reply → replies[n]? = some c.reply := by
    intro n c cs hn
    rw [← List.head?_drop, hn]
    rfl
  -- on the requests; the link is even before each of them
  induction h generalizing n with
  | @silent parser parser' l l₁ outcome received nothing =>
    obtain ⟨hheld, added, hadded, hawaiting, -⟩ := heard_of_even (s := s) hl parser
    rw [received] at hheld hadded
    have hall : added.sent ++ l₁.held = (replies.take added.handled).flatten := by
      rw [hheld, List.append_nil, hawaiting.settled.sent]
    exact ⟨added, hadded, hawaiting.orderly, hall ▸ List.prefix_rfl,
      fun _ => ⟨hheld, hawaiting.settled⟩⟩
  | failed received handled => exact over_of_busy (busy_of_received hl received handled)
  | @stuck _ _ _ _ l₂ _ _ received handled =>
    obtain ⟨added, hadded, hover⟩ := over_of_busy (busy_of_received hl received handled)
    obtain ⟨hheld, hjournal⟩ := stuckOn_same l₂
    refine ⟨added, hjournal.trans hadded, hover.orderly, ?_, ?_⟩
    · rw [hheld]
      exact hover.front
    · rw [hheld]
      exact hover.awaiting
  | halted received handled answered =>
    have hbusy := busy_of_received hl received handled
    have hover := (answer_of_busy hbusy (next hreplies)).1
    rwa [Act.leaves_of_error answered] at hover
  | parted received handled answered _ =>
    have hbusy := busy_of_received hl received handled
    have hover := (answer_of_busy hbusy (next hreplies)).1
    rwa [Act.leaves_of_ok answered] at hover
  | stayed received handled answered _ _ ih =>
    have hbusy := busy_of_received hl received handled
    refine ih ((answer_of_busy hbusy (next hreplies)).2 _ _ answered) ?_
    rw [← List.tail_drop, hreplies]
    rfl

/-! ### A whole connection -/

/-- The link on which a stream is served. -/
def linkTo (s : Service) (w : Wire) : Link :=
  { wire := w, capacity := s.settings.writeBuffer, options := s.settings.reader }

/-- What handlers leave behind while a client is served, in order; **nothing when its stream is not
to be had**. -/
def Leaves (s : Service) (client : Client) (cs : List Context) : Prop :=
  match client.openStream with
  | .ok () c => s.Course c.address s.parser (s.linkTo c.wire) cs
      (s.serve c.address s.parser (s.linkTo c.wire)).link
  | .error _ _ => cs = []

theorem leaves_some (s : Service) (client : Client) : ∃ cs, s.Leaves client cs := by
  unfold Leaves
  cases client.openStream with
  | error halt c => exact ⟨[], rfl⟩
  | ok u c => exact serve_course s c.address s.parser (s.linkTo c.wire)

/-- Serving a fresh stream comes to **a front of the replies**. -/
theorem over_of_leaves {client opened : Client} (h : s.Leaves client cs)
    (ho : client.openStream = .ok () opened) :
    ∃ added, (s.serve opened.address s.parser (s.linkTo opened.wire)).link.wire.journal
        = added ++ opened.wire.journal ∧
      (s.serve opened.address s.parser (s.linkTo opened.wire)).link.Over (cs.map Context.reply)
        added := by
  unfold Leaves at h
  rw [ho] at h
  have heven : (s.linkTo opened.wire).Even (cs.map Context.reply) opened.wire.journal 0 :=
    ⟨rfl, [], rfl, .nil, ⟨rfl, rfl⟩, rfl⟩
  exact over_of_course h heven rfl

/-- Shutting down sends **at most what is held**. -/
theorem orderly_of_shutDown {added : Journal} (h : l.Over replies added)
    (hadded : l.wire.journal = added ++ base) :
    ∃ added', (Act.leaves Link.shutDown l).wire.journal = added' ++ base ∧
      Journal.Orderly replies added' := by
  have hpassed := Link.shutDown_passed l
  obtain ⟨more, hmore, hkind⟩ := hpassed.grows
  have hwritten := hpassed.written
  simp only [Link.written, hmore, hadded, List.append_nil, Journal.sent_append,
    List.append_assoc, List.append_cancel_left_eq] at hwritten
  have hfront : Journal.sent (more ++ added) <+: (replies.take (Journal.handled added)).flatten := by
    have := h.front
    rw [← hwritten] at this
    rw [Journal.sent_append]
    refine List.IsPrefix.trans ?_ this
    rw [List.prefix_append_right_inj]
    exact List.prefix_append _ _
  refine ⟨more ++ added, by rw [hmore, hadded, List.append_assoc], ?_⟩
  exact (h.orderly.answered ⟨more, rfl, fun e he => Event.isAnswer_of_isOutput (hkind e he)⟩
    hfront).1

theorem wire_partWith (client : Client) (served : Served) :
    (partWith client served).client.wire = (Act.leaves Link.shutDown served.link).wire ∨
      (partWith client served).client.wire = served.link.wire := by
  unfold partWith Act.leaves
  -- a connection that came to its end is shut down, any other is left as it is
  split
  · match h : served.link.shutDown with
    | .ok () l => exact .inl rfl
    | .error (.failed cause) l => exact .inl rfl
    | .error .cut l => exact .inl rfl
    | .error .trapped l => exact .inl rfl
  · match h : served.link.shutDown with
    | .ok () l => exact .inl rfl
    | .error (.failed cause) l => exact .inl rfl
    | .error .cut l => exact .inl rfl
    | .error .trapped l => exact .inl rfl
  · exact .inr rfl

/-- Parting from a client **does not close it**. -/
theorem switch_partWith (client : Client) (served : Served) :
    (partWith client served).client.switch = client.switch := by
  unfold partWith
  split
  · split <;> rfl
  · split <;> rfl
  · rfl

theorem attend_of_opened {client opened : Client} (ho : client.openStream = .ok () opened) :
    s.attend client
      = partWith opened (s.serve opened.address s.parser (s.linkTo opened.wire)) := by
  simp only [attend, ho]
  rfl

theorem attend_of_unopened {client c : Client} {halt : Halt Error}
    (ho : client.openStream = .error halt c) :
    s.attend client = ⟨c, .ofHalt Error.message halt, none⟩ := by
  simp only [attend, ho]

/-- Closing a connection **keeps it orderly**. -/
theorem orderly_of_attend {client : Client} {added : Journal}
    (hadded : (s.attend client).client.wire.journal = added ++ base)
    (h : Journal.Orderly replies added) :
    ∃ added', (s.run client).client.wire.journal = added' ++ base ∧
      Journal.Orderly replies added' := by
  rcases journal_run s client with hrun | hrun
  · exact ⟨added, hrun.trans hadded, h⟩
  · exact ⟨.entered .closed :: added, by rw [hrun, hadded, List.cons_append], h.closed⟩

/-- **A whole connection is orderly**, from when its stream is handed out. -/
theorem orderly_of_leaves {client : Client} (h : s.Leaves client cs) :
    ∃ added, (s.run client).client.wire.journal
        = added ++ (Act.leaves Client.openStream client).wire.journal ∧
      Journal.Orderly (cs.map Context.reply) added := by
  cases ho : client.openStream with
  | error halt c =>
    rw [Act.leaves_of_error ho]
    have hnothing : (s.attend client).client.wire.journal = [] ++ c.wire.journal := by
      rw [attend_of_unopened ho]
      rfl
    exact orderly_of_attend hnothing .nil
  | ok u opened =>
    rw [Act.leaves_of_ok ho]
    obtain ⟨added, hadded, hover⟩ := over_of_leaves h ho
    rcases wire_partWith opened (s.serve opened.address s.parser (s.linkTo opened.wire)) with hw | hw
    · obtain ⟨added', hadded', horderly⟩ := orderly_of_shutDown hover hadded
      exact orderly_of_attend (by rw [attend_of_opened ho, hw, hadded']) horderly
    · exact orderly_of_attend (by rw [attend_of_opened ho, hw, hadded]) hover.orderly

theorem flatten_take_map (cs : List Context) (n : Nat) :
    ((cs.map Context.reply).take n).flatten = (cs.take n).flatMap Context.reply := by
  rw [← List.map_take, List.flatMap_def]

/-- **Whatever stops a connection, and at every moment of it**, the bytes on the stream are a front
of the replies to the requests that handlers were done with, in their order. -/
theorem run_sends_front (s : Service) (client : Client) :
    (∃ cs, s.Leaves client cs) ∧
    ∀ cs, s.Leaves client cs →
      ∃ added, (s.run client).client.wire.journal
          = added ++ (Act.leaves Client.openStream client).wire.journal ∧
        ∀ newer older, added = newer ++ older →
          Journal.sent older <+: cs.flatMap Context.reply := by
  refine ⟨leaves_some s client, fun cs h => ?_⟩
  obtain ⟨added, hadded, horderly⟩ := orderly_of_leaves h
  refine ⟨added, hadded, fun newer older hsplit => ?_⟩
  rw [hsplit] at horderly
  -- the replies to the requests handled so far come before all others
  refine horderly.of_append.front.trans ?_
  rw [flatten_take_map]
  obtain ⟨more, hmore⟩ := List.take_prefix (Journal.handled older) cs
  exact ⟨more.flatMap Context.reply, by rw [← List.flatMap_append, hmore]⟩

/-- A client whose stream fails in the middle of the second response. -/
def breakingOff : Client :=
  .sending { port := 80 } stayingThenLeaving true { maxWrite := some 4, failAt := some 50 }

/-- It was sent one response and the front of another, **which is what handlers left for it**. -/
theorem run_sends_front_broken :
    ∃ cs, greeting.Leaves breakingOff cs ∧
      ascii "HTTP/1.1 200 OK\r\nContent-Length: 2\r\n\r\nhiHTTP/1.1 2"
        <+: cs.flatMap Context.reply := by
  obtain ⟨⟨cs, hcs⟩, h⟩ := run_sends_front greeting breakingOff
  obtain ⟨added, hadded, hfront⟩ := h cs hcs
  have hsent : Journal.sent added
      = ascii "HTTP/1.1 200 OK\r\nContent-Length: 2\r\n\r\nhiHTTP/1.1 2" := by
    have hopened : (Act.leaves Client.openStream breakingOff).wire.journal = [] := rfl
    rw [hopened, List.append_nil] at hadded
    rw [← hadded]
    decide +kernel
  exact ⟨cs, hcs, hsent ▸ hfront [] added rfl⟩

end Service

end HttpEngine
