import HttpEngine.Proofs.Message.Allowance
import HttpEngine.Proofs.Message.Holding
import HttpEngine.Proofs.Serving.Course

/-!
# The phases of a connection

A connection reads, dispatches and writes in turn, and does **each thing in the phase for it**. It
counts as active when a request was received in full, and when a response was sent in full and
flushed.

* `Phase.Leads`: from one phase to the next.
* `Journal.Allows`: what can come next on a connection.
* `Journal.Lawful`: a journal in which nothing else ever came.
* `Service.lawful_of_course`: serving, by induction on the requests.
* `Service.attend_lawful`: a client from its opening to the end of its service.
-/

namespace HttpEngine

open Text

/-- **From one phase to the next.** Requests are read and dispatched in turn, and what is answered is
written in between; every phase but the last can be left for it, and none follows that. -/
inductive Phase.Leads : Phase → Phase → Prop
  | opened : Leads .initializing .reading
  | received : Leads .reading .dispatching
  | answering : Leads .dispatching .writing
  | unanswered : Leads .dispatching .reading
  | answered : Leads .writing .reading
  | closing {p : Phase} (unclosed : p ≠ .closed) : Leads p .closed

theorem Phase.Leads.unclosed {p q : Phase} (h : p.Leads q) : p ≠ .closed := by
  cases h with
  | closing unclosed => exact unclosed
  | _ => decide

namespace Journal

variable {j j' : Journal} {e : Event}

/-- Since writing was entered **a response was sent in full, and flushed** just now. -/
def Replied (j : Journal) : Prop :=
  ∃ (r : Response) (cookies : Option CookieStore) (written earlier : Journal),
    j = .transfer .flushed :: (written ++ .entered .writing :: earlier) ∧
      (∀ e ∈ written, e.isOutput = true) ∧ written.sent = r.whole cookies

/-- **What can come next** on a connection. -/
inductive Allows : Journal → Event → Prop
  /-- Dispatching is entered with a request in hand, see below. -/
  | enter {j : Journal} {p : Phase} (leads : j.phase.Leads p) (free : p ≠ .dispatching) :
      Allows j (.entered p)
  /-- A request **was received just now**. -/
  | dispatch {j : Journal} (reading : phase (.received :: j) = .reading) :
      Allows (.received :: j) (.touched .dispatching)
  | answered {j : Journal} (writing : j.phase = .writing) (replied : j.Replied) :
      Allows j (.touched .writing)
  | receive {j : Journal} (reading : j.phase = .reading) : Allows j .received
  | note {j : Journal} {time : Nat} {line : String} (dispatching : j.phase = .dispatching) :
      Allows j (.noted time line)
  | read {j : Journal} {t : Transfer} (reads : t.isRead = true)
      (early : j.phase = .initializing ∨ j.phase = .reading) : Allows j (.transfer t)
  | write {j : Journal} {t : Transfer} (writes : t.isRead = false) (unclosed : j.phase ≠ .closed) :
      Allows j (.transfer t)

/-- Nothing ever came **but what could come next**. -/
inductive Lawful : Journal → Prop
  | nil : Lawful []
  | cons {e : Event} {older : Journal} (allowed : older.Allows e) (before : Lawful older) :
      Lawful (e :: older)

theorem Lawful.of_suffix (h : Lawful j) (hsuffix : j' <:+ j) : Lawful j' := by
  obtain ⟨newer, rfl⟩ := hsuffix
  induction newer with
  | nil => exact h
  | cons e newer ih =>
    cases h with
    | cons _ before => exact ih before

/-- What comes next leaves the phase as it is, **or leads to the next**. -/
theorem Allows.leads (h : j.Allows e) :
    phase (e :: j) = j.phase ∨ j.phase.Leads (phase (e :: j)) := by
  cases h with
  | enter leads _ => exact .inr leads
  | dispatch reading =>
    right
    rw [reading]
    exact .received
  | answered writing _ =>
    left
    rw [writing]
    rfl
  | receive _ => exact .inl rfl
  | note _ => exact .inl rfl
  | read _ _ => exact .inl rfl
  | write _ _ => exact .inl rfl

/-- The last phase **is never left**. -/
theorem Lawful.unclosed_of_suffix (h : Lawful j) (hunclosed : j.phase ≠ .closed)
    (hsuffix : j' <:+ j) : j'.phase ≠ .closed := by
  obtain ⟨newer, rfl⟩ := hsuffix
  induction newer with
  | nil => exact hunclosed
  | cons e newer ih =>
    cases h with
    | cons allowed before =>
      refine ih before fun hclosed => ?_
      rcases allowed.leads with hsame | hleads
      · exact hunclosed (hsame.trans hclosed)
      · exact hleads.unclosed hclosed

/-- What had happened when the connection **last counted as active**; nothing when it never did. -/
def lastActive : Journal → Journal
  | [] => []
  | .touched p :: older => .touched p :: older
  | _ :: older => lastActive older

/-- A connection counts as active **only for a request received, or a response sent**, in full. -/
theorem Allows.active (h : j.Allows e) :
    lastActive (e :: j) = j.lastActive ∨ (∃ older, j = .received :: older) ∨ j.Replied := by
  cases h with
  | enter _ _ => exact .inl rfl
  | @dispatch j _ => exact .inr (.inl ⟨j, rfl⟩)
  | answered _ replied => exact .inr (.inr replied)
  | receive _ => exact .inl rfl
  | note _ => exact .inl rfl
  | read _ _ => exact .inl rfl
  | write _ _ => exact .inl rfl

/-- Entries of a kind that a phase allows, and that leave it, **can come in any number**. -/
theorem Lawful.grows {kind : Event → Bool} (h : Lawful j) (hgrows : Grows kind j j')
    (hkind : ∀ (older : Journal) (e : Event), older.phase = j.phase → kind e = true →
      older.Allows e ∧ phase (e :: older) = older.phase) :
    Lawful j' ∧ j'.phase = j.phase := by
  obtain ⟨added, rfl, hadded⟩ := hgrows
  induction added with
  | nil => exact ⟨h, rfl⟩
  | cons e added ih =>
    obtain ⟨hbefore, hsame⟩ := ih fun e' he => hadded e' (List.mem_cons_of_mem _ he)
    obtain ⟨hallowed, hstays⟩ := hkind (added ++ j) e hsame (hadded e List.mem_cons_self)
    exact ⟨.cons hallowed hbefore, hstays.trans hsame⟩

theorem Lawful.input (h : Lawful j) (hreading : j.phase = .reading)
    (hgrows : Grows Event.isInput j j') : Lawful j' ∧ j'.phase = .reading := by
  rw [← hreading]
  refine h.grows hgrows fun older e hphase he => ?_
  rw [hreading] at hphase
  cases e with
  | transfer t => cases t <;> first | exact ⟨.read rfl (.inr hphase), rfl⟩ | cases he
  | received => exact ⟨.receive hphase, rfl⟩
  | _ => cases he

theorem Lawful.output (h : Lawful j) (hunclosed : j.phase ≠ .closed)
    (hgrows : Grows Event.isOutput j j') : Lawful j' ∧ j'.phase = j.phase := by
  refine h.grows hgrows fun older e hphase he => ?_
  rw [← hphase] at hunclosed
  cases e with
  | transfer t => cases t <;> first | exact ⟨.write rfl hunclosed, rfl⟩ | cases he
  | _ => cases he

theorem Lawful.noted (h : Lawful j) (hdispatching : j.phase = .dispatching)
    (hgrows : Grows Event.isNote j j') : Lawful j' ∧ j'.phase = .dispatching := by
  rw [← hdispatching]
  refine h.grows hgrows fun older e hphase he => ?_
  cases e with
  | noted time line => exact ⟨.note (hphase.trans hdispatching), rfl⟩
  | _ => cases he

theorem Lawful.opening (h : Lawful j) (hphase : j.phase = .initializing)
    (hgrows : Grows Event.isTransfer j j') : Lawful j' ∧ j'.phase = .initializing := by
  rw [← hphase]
  refine h.grows hgrows fun older e hsame he => ?_
  rw [hphase] at hsame
  cases e with
  | transfer t =>
    refine ⟨?_, rfl⟩
    cases hread : t.isRead with
    | true => exact .read hread (.inl hsame)
    | false => exact .write hread (by rw [hsame]; decide)
  | _ => cases he

end Journal

namespace Service

variable {s : Service} {remote : Address} {parser parser' : Parser} {l l₁ l₂ l' : Link}
  {request : Request} {c : Context} {cs : List Context}

/-- A link **between two requests**: nothing is held, and the next can be awaited. -/
structure Between (l : Link) : Prop where
  lawful : l.wire.journal.Lawful
  leads : l.wire.journal.phase.Leads .reading
  held : l.held = []

/-- A request is **awaited and received** in the phase for it. -/
theorem lawful_of_parse (h : Between l) (parser : Parser) :
    (parser.parse (s.readied l)).link.wire.journal.Lawful ∧
      (parser.parse (s.readied l)).link.wire.journal.phase = .reading ∧
      (parser.parse (s.readied l)).link.held = [] := by
  have hheard := parser.parse_heard (s.readied l)
  have hready : (s.readied l).wire.journal.Lawful := .cons (.enter h.leads (by decide)) h.lawful
  obtain ⟨hlawful, hphase⟩ := hready.input rfl hheard.grows
  exact ⟨hlawful, hphase, hheard.held.trans h.held⟩

/-- A request that came is **handed to handlers** in the phase for it. -/
theorem lawful_of_dispatch (h : Between l)
    (received : parser.parse (s.readied l) = ⟨.ok (some request), parser', l₁⟩) {verdict : Verdict}
    (handled : s.dispatch remote request l₁ = (verdict, c, l₂)) :
    l₂.wire.journal.Lawful ∧ l₂.wire.journal.phase = .dispatching ∧ l₂.held = [] := by
  obtain ⟨hlawful, hphase, hheld⟩ := lawful_of_parse (s := s) h parser
  rw [received] at hlawful hphase hheld
  obtain ⟨-, l₀, -, -, hl₁, -⟩ := Parser.received_of_parse received
  have hjournal : l₁.wire.journal = .received :: l₀.wire.journal := by
    rw [hl₁]
    rfl
  obtain ⟨hsame, notes, hnotes, hkind⟩ := dispatch_adds handled
  have hdispatched : Journal.Lawful (.touched .dispatching :: l₁.wire.journal) := by
    rw [hjournal] at hlawful hphase ⊢
    exact .cons (.dispatch hphase) hlawful
  obtain ⟨hnoted, hstill⟩ := hdispatched.noted rfl ⟨notes, hnotes, hkind⟩
  exact ⟨hnoted, hstill, hsame.trans hheld⟩

/-- An answer is **sent** in the phase for it, and counts as one when all of it was flushed. -/
theorem lawful_of_answer (c : Context) (h : l.wire.journal.Lawful)
    (hphase : l.wire.journal.phase = .dispatching) (hheld : l.held = []) :
    (Act.leaves (answer c) l).wire.journal.Lawful ∧
      (Act.leaves (answer c) l).wire.journal.phase ≠ .closed ∧
      ∀ close l', answer c l = .ok close l' → Between l' := by
  cases hr : c.response? with
  | none =>
    have he : answer c l = .ok false l := by simp only [answer, hr]
    rw [Act.leaves_of_ok he]
    refine ⟨h, by rw [hphase]; decide, fun close l' ha => ?_⟩
    rw [he] at ha
    cases ha
    exact ⟨h, hphase ▸ .unanswered, hheld⟩
  | some r =>
    have hunclosed : Phase.writing ≠ .closed := by decide
    have hentered : Journal.Lawful (.entered .writing :: l.wire.journal) :=
      .cons (.enter (hphase ▸ .answering) (by decide)) h
    obtain ⟨added, hadded, hkind, -, hend⟩ :=
      r.deliver_adds c.cookies? (l := l.noting (.entered .writing)) hheld
    obtain ⟨hlawful, hwriting⟩ := hentered.output hunclosed ⟨added, hadded, hkind⟩
    cases hd : r.deliver c.cookies? (l.noting (.entered .writing)) with
    | error halt l₁ =>
      have he := answer_of_halted hr hd
      rw [Act.leaves_of_error hd] at hlawful hwriting
      rw [Act.leaves_of_error he]
      refine ⟨hlawful, by rw [hwriting]; exact hunclosed, fun close l' ha => ?_⟩
      rw [he] at ha
      cases ha
    | ok u l₁ =>
      have he := answer_of_delivered hr hd
      obtain ⟨hheld₁, hsent, between, hflushed⟩ := hend l₁ hd
      rw [Act.leaves_of_ok hd] at hadded hlawful hwriting
      subst hflushed
      have hreplied : l₁.wire.journal.Replied :=
        ⟨r, c.cookies?, between, l.wire.journal, hadded,
          fun e he => hkind e (List.mem_cons_of_mem _ he), hsent⟩
      have htouched : Journal.Lawful (.touched .writing :: l₁.wire.journal) :=
        .cons (.answered hwriting hreplied) hlawful
      rw [Act.leaves_of_ok he]
      refine ⟨htouched, hunclosed, fun close l' ha => ?_⟩
      rw [he] at ha
      cases ha
      exact ⟨htouched, .answered, hheld₁⟩

/-- **Serving does each thing in the phase for it**, whatever its course. -/
theorem lawful_of_course (h : Course s remote parser l cs l') (hl : Between l) :
    l'.wire.journal.Lawful ∧ l'.wire.journal.phase ≠ .closed := by
  -- on the requests; the link is between two of them before each
  induction h with
  | @silent parser parser' l l₁ outcome received nothing =>
    obtain ⟨hlawful, hphase, -⟩ := lawful_of_parse (s := s) hl parser
    rw [received] at hlawful hphase
    exact ⟨hlawful, by rw [hphase]; decide⟩
  | failed received handled =>
    obtain ⟨hlawful, hphase, -⟩ := lawful_of_dispatch hl received handled
    exact ⟨hlawful, by rw [hphase]; decide⟩
  | stuck received handled =>
    obtain ⟨hlawful, hphase, -⟩ := lawful_of_dispatch hl received handled
    rw [(stuckOn_same _).2]
    exact ⟨hlawful, by rw [hphase]; decide⟩
  | @halted _ _ _ _ _ _ _ c _ received handled answered =>
    obtain ⟨hlawful, hphase, hheld⟩ := lawful_of_dispatch hl received handled
    obtain ⟨hafter, hunclosed, -⟩ := lawful_of_answer c hlawful hphase hheld
    rw [Act.leaves_of_error answered] at hafter hunclosed
    exact ⟨hafter, hunclosed⟩
  | @parted _ _ _ _ _ _ _ c _ received handled answered _ =>
    obtain ⟨hlawful, hphase, hheld⟩ := lawful_of_dispatch hl received handled
    have hbetween := (lawful_of_answer c hlawful hphase hheld).2.2 _ _ answered
    exact ⟨hbetween.lawful, hbetween.leads.unclosed⟩
  | @stayed _ _ _ _ _ _ _ _ c _ _ received handled answered _ _ ih =>
    obtain ⟨hlawful, hphase, hheld⟩ := lawful_of_dispatch hl received handled
    exact ih ((lawful_of_answer c hlawful hphase hheld).2.2 _ _ answered)

/-! ### Handlers -/

/-- Handlers are handed a request **in the phase for it, and in no other**: what they would do in any
other makes no difference. -/
theorem serve_of_chain {chain : Chain}
    (h : ∀ c : Context, c.phase? = some .dispatching → chain.run c = s.chain.run c)
    (remote : Address) (parser : Parser) (l : Link) :
    ({ s with chain } : Service).serve remote parser l = s.serve remote parser l := by
  have hdispatch : ∀ request l, ({ s with chain } : Service).dispatch remote request l
      = s.dispatch remote request l := by
    intro request l
    unfold dispatch
    simp only [h _ (show (contextOn remote request (l.noting (.touched .dispatching))).phase?
      = some .dispatching from rfl)]
  have hreadied : ∀ l, ({ s with chain } : Service).readied l = s.readied l := fun _ => rfl
  -- on the requests, each of which goes the same way
  fun_induction serve s remote parser l with
  | case1 parser l halt parser' l₁ hp => rw [serve_eq, hreadied, hp]
  | case2 parser l parser' l₁ hp => rw [serve_eq, hreadied, hp]
  | case3 parser l request parser' l₁ hp text c l₂ hd =>
    rw [serve_eq, hreadied, hp]
    simp only [hdispatch, hd]
  | case4 parser l request parser' l₁ hp c l₂ hd =>
    rw [serve_eq, hreadied, hp]
    simp only [hdispatch, hd]
  | case5 parser l request parser' l₁ hp c l₂ hd halt l₃ ha =>
    rw [serve_eq, hreadied, hp]
    simp only [hdispatch, hd, ha]
  | case6 parser l request parser' l₁ hp c l₂ hd close l₃ ha hstay ih =>
    rw [serve_eq, hreadied, hp]
    simp only [hdispatch, hd, ha, hstay, if_true, ih]
  | case7 parser l request parser' l₁ hp c l₂ hd close l₃ ha hleave =>
    rw [serve_eq, hreadied, hp]
    simp only [hdispatch, hd, ha, hleave]
    rfl

end Service

/-! ### Opening a stream -/

namespace Client

/-- What is left of a client after a handshake that came to this. -/
def afterHandshake (security : Security) (client : Client) :
    EStateM.Result (Halt IoError) Wire (Inbound × Outbound) → EStateM.Result (Halt Error) Client Unit
  | .ok (inbound, outbound) w =>
    .ok () { client with wire := { w with inbound, outbound, deadline := client.wire.deadline } }
  | .error halt w =>
    let c := { client with wire := { w with deadline := client.wire.deadline } }
    match halt with
    | .failed cause => .error (.failed (.tls cause)) c
    | .cut =>
      if client.wire.clock + security.limit ≤ w.clock then
        .error (.failed (.handshakeTimeout (security.limit * 1000000))) c.close.2
      else .error .cut c
    | .trapped => .error .trapped c

theorem secure_eq (security : Security) (client : Client) :
    ∃ w : Wire, w.journal = client.wire.journal ∧
      secure security client = afterHandshake security client (security.acceptor.accept w) := by
  refine ⟨{ client.wire with deadline := some (min (client.wire.clock + security.limit)
    (client.wire.deadline.getD (client.wire.clock + security.limit))) }, rfl, ?_⟩
  simp only [secure]
  generalize security.acceptor.accept _ = answer
  cases answer with
  | ok streams w => rfl
  | error halt w => cases halt <;> rfl

/-- What a handshake comes to: it reads and writes, and **closes its client only where it took too
long**. -/
theorem secure_cases (security : Security) (client : Client) :
    (∃ c, secure security client = .ok () c ∧
      client.wire.journal.Grows Event.isTransfer c.wire.journal ∧ c.switch = client.switch) ∨
    ∃ halt c, secure security client = .error halt c ∧
      client.wire.journal.Grows Event.isTransfer c.wire.journal ∧
      (c.switch = client.switch ∨
        halt = .failed (.handshakeTimeout (security.limit * 1000000)) ∧ c.switch = ⟨true⟩) := by
  obtain ⟨w₀, hw, he⟩ := secure_eq security client
  have hgrows := security.acceptor.transfers w₀
  rw [he, ← hw]
  cases ha : security.acceptor.accept w₀ with
  | ok streams w =>
    rw [Act.leaves_of_ok ha] at hgrows
    exact .inl ⟨_, rfl, hgrows, rfl⟩
  | error halt w =>
    rw [Act.leaves_of_error ha] at hgrows
    cases halt with
    | failed cause => exact .inr ⟨_, _, rfl, hgrows, .inl rfl⟩
    | trapped => exact .inr ⟨_, _, rfl, hgrows, .inl rfl⟩
    | cut =>
      by_cases hlate : client.wire.clock + security.limit ≤ w.clock
      · simp only [afterHandshake, hlate, if_true]
        exact .inr ⟨_, _, rfl, hgrows, .inr ⟨rfl, rfl⟩⟩
      · simp only [afterHandshake, hlate, if_false]
        exact .inr ⟨_, _, rfl, hgrows, .inl rfl⟩

/-- **What opening a stream comes to**: it is handed out, or there is a failure, before which nothing
was done but to read and write, and that only if the client was open. -/
theorem openStream_cases (client : Client) :
    (∃ c, client.openStream = .ok () c ∧
      client.wire.journal.Grows Event.isTransfer c.wire.journal ∧ c.switch = client.switch ∧
      client.switch.closed = false) ∨
    ∃ halt c, client.openStream = .error halt c ∧
      client.wire.journal.Grows Event.isTransfer c.wire.journal ∧
      (client.switch.closed = true → c = client) ∧
      (c.switch = client.switch ∨
        ∃ limit, halt = .failed (.handshakeTimeout limit) ∧ c.switch = ⟨true⟩) := by
  unfold openStream
  cases hclosed : client.switch.closed with
  | true => exact .inr ⟨_, _, rfl, .refl _, fun _ => rfl, .inl rfl⟩
  | false =>
    simp only [Bool.false_eq_true, if_false, false_imp_iff, true_and]
    cases client.taken with
    | true => exact .inr ⟨_, _, rfl, .refl _, .inl rfl⟩
    | false =>
      simp only [Bool.false_eq_true, if_false]
      cases client.security? with
      | none => exact .inl ⟨_, rfl, .refl _, rfl, trivial⟩
      | some security =>
        rcases secure_cases security { client with taken := true, security? := some security } with
          ⟨c, he, hgrows, hswitch⟩ | ⟨halt, c, he, hgrows, hswitch⟩
        · exact .inl ⟨c, he, hgrows, hswitch, trivial⟩
        · exact .inr ⟨halt, c, he, hgrows, hswitch.imp id fun ⟨h, hc⟩ => ⟨_, h, hc⟩⟩

end Client

namespace Service

/-- **From the opening of a client to the end of its service** each thing is done in the phase for
it, and the last phase is not entered. -/
theorem attend_lawful (s : Service) (client : Client) (hfresh : client.wire.journal = []) :
    (s.attend client).client.wire.journal.Lawful ∧
      (s.attend client).client.wire.journal.phase ≠ .closed := by
  rcases client.openStream_cases with ⟨opened, ho, hgrows, -, -⟩ | ⟨halt, c, ho, hgrows, -, -⟩
  · rw [hfresh] at hgrows
    obtain ⟨hlawful, hphase⟩ := Journal.Lawful.nil.opening rfl hgrows
    have hbetween : Between (s.linkTo opened.wire) := ⟨hlawful, hphase ▸ .opened, rfl⟩
    obtain ⟨cs, hcs⟩ := serve_course s opened.address s.parser (s.linkTo opened.wire)
    obtain ⟨hlawful, hunclosed⟩ := lawful_of_course hcs hbetween
    rw [attend_of_opened ho]
    rcases wire_partWith opened
      (s.serve opened.address s.parser (s.linkTo opened.wire)) with hw | hw
    · rw [hw]
      obtain ⟨hafter, hsame⟩ := hlawful.output hunclosed (Link.shutDown_passed _).grows
      exact ⟨hafter, hsame ▸ hunclosed⟩
    · rw [hw]
      exact ⟨hlawful, hunclosed⟩
  · rw [hfresh] at hgrows
    obtain ⟨hlawful, hphase⟩ := Journal.Lawful.nil.opening rfl hgrows
    rw [attend_of_unopened ho]
    exact ⟨hlawful, by rw [hphase]; decide⟩

/-- The same of a whole client. -/
theorem attend_of_chain {s : Service} {chain : Chain}
    (h : ∀ c : Context, c.phase? = some .dispatching → chain.run c = s.chain.run c)
    (client : Client) : ({ s with chain } : Service).attend client = s.attend client := by
  unfold attend
  cases client.openStream with
  | error halt c => rfl
  | ok u c => exact congrArg (partWith c) (serve_of_chain h _ _ _)

end Service

end HttpEngine
