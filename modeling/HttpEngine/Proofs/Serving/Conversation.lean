import HttpEngine.Proofs.Message.Delivery
import HttpEngine.Proofs.Message.RoundTrip
import HttpEngine.Serving.Connection

/-!
# Conversations

What a client sends falls into requests, and each is answered **as if it had come alone**.

* `Conversation`: the requests served of a byte string, each with what is sent for it.
* `Service.serve_conversation`: serving them, request by request.
* `Service.run_conversation`: what is on the stream when a connection is over.
-/

namespace HttpEngine

open Text

/-- What is sent of what handlers left behind. -/
def Context.reply (c : Context) : Bytes :=
  match c.response? with
  | none => []
  | some r => utf8 (r.head c.cookies?) ++ r.body.contents.1

/-- Whether the response asks for the connection to be closed. -/
def Context.closes (c : Context) : Bool :=
  match c.response? with
  | none => false
  | some r => r.close

/-- Two contexts **that are answered alike**. -/
structure Context.AnsweredAlike (c c' : Context) : Prop where
  response : c'.response? = c.response?
  cookies : c'.cookies? = c.cookies?

namespace Context.AnsweredAlike

variable {c c' : Context}

theorem reply_eq (h : c.AnsweredAlike c') : c'.reply = c.reply := by
  unfold reply
  rw [h.response, h.cookies]

theorem closes_eq (h : c.AnsweredAlike c') : c'.closes = c.closes := by
  unfold closes
  rw [h.response]

end Context.AnsweredAlike

/-- A request that was served. -/
structure Exchange where
  /-- The bytes it was read from. -/
  heard : Bytes
  request : Request
  reply : Bytes

namespace Service

/-- What handlers make of a request from a client, **after what happened before it**. -/
def handleAfter (s : Service) (past : Journal) (remote : Address) (request : Request) :
    Verdict × Context :=
  s.chain.run { request, remote, phase? := some .dispatching, past }

/-- What handlers make of a request from a client **before which nothing happened**. -/
def handle (s : Service) (remote : Address) (request : Request) : Verdict × Context :=
  s.handleAfter [] remote request

/-- What the parser of a service makes of a byte string, and what it leaves of it. -/
def Hears (s : Service) (ends : Bool) (bytes : Bytes)
    (outcome : Except (Halt Error) (Option Request)) (rest : Bytes) : Prop :=
  ∃ judged, Judged s.settings.reader.maxLine s.settings.reader.window ends bytes judged rest ∧
    revise s.parser.overrides judged = outcome

end Service

/-- The requests served of a byte string from a client, on a stream that ends after it or stays
open. -/
inductive Conversation (s : Service) (remote : Address) (ends : Bool) :
    Bytes → List Exchange → Prop
  /-- There is no further request. -/
  | silence {bytes rest : Bytes} {outcome : Except (Halt Error) (Option Request)}
      (hears : s.Hears ends bytes outcome rest) (nothing : ∀ r, outcome ≠ .ok (some r)) :
      Conversation s remote ends bytes []
  /-- A handler failed, and **nothing is sent**. -/
  | failed {bytes rest : Bytes} {request : Request} {verdict : Verdict} {c : Context}
      (hears : s.Hears ends bytes (.ok (some request)) rest)
      (handled : s.handle remote request = (verdict, c)) (undone : verdict ≠ .done) :
      Conversation s remote ends bytes []
  /-- The request or its response is **the last one**. -/
  | last {heard rest : Bytes} {request : Request} {c : Context}
      (hears : s.Hears ends (heard ++ rest) (.ok (some request)) rest)
      (handled : s.handle remote request = (.done, c))
      (parting : (request.keepAlive && !c.closes) = false) :
      Conversation s remote ends (heard ++ rest) [⟨heard, request, c.reply⟩]
  | next {heard rest : Bytes} {request : Request} {c : Context} {exchanges : List Exchange}
      (hears : s.Hears ends (heard ++ rest) (.ok (some request)) rest)
      (handled : s.handle remote request = (.done, c))
      (staying : (request.keepAlive && !c.closes) = true)
      (more : Conversation s remote ends rest exchanges) :
      Conversation s remote ends (heard ++ rest) (⟨heard, request, c.reply⟩ :: exchanges)

/-! ### One request after another -/

theorem OverrideField.eq_of_revise {field : OverrideField}
    {outcome : Except (Halt Error) (Option Request)} {r : Request}
    (h : field.revise outcome = .ok (some r)) : ∃ r', outcome = .ok (some r') := by
  match outcome with
  | .error halt => cases h
  | .ok none => cases h
  | .ok (some r') => exact ⟨r', rfl⟩

theorem eq_of_revise {fields : List OverrideField}
    {outcome : Except (Halt Error) (Option Request)} {r : Request}
    (h : revise fields outcome = .ok (some r)) : ∃ r', outcome = .ok (some r') := by
  induction fields generalizing r with
  | nil => exact ⟨r, h⟩
  | cons field fields ih =>
    obtain ⟨r', hr⟩ := OverrideField.eq_of_revise h
    exact ih hr

namespace Service

variable {s : Service} {remote : Address} {ends : Bool} {bytes rest heard : Bytes}
  {request : Request} {exchanges : List Exchange}

/-- A request that is heard **is heard alone**. -/
theorem Hears.alone (h : s.Hears ends bytes (.ok (some request)) rest) :
    ∃ heard, bytes = heard ++ rest ∧ heard ≠ [] ∧
      ∀ ends more, s.Hears ends (heard ++ more) (.ok (some request)) more := by
  obtain ⟨judged, hj, hr⟩ := h
  obtain ⟨r, rfl⟩ := eq_of_revise hr
  obtain ⟨heard, he, hne, ha⟩ := hj.alone
  exact ⟨heard, he, hne, fun ends more => ⟨_, ha ends more, hr⟩⟩

end Service

namespace Conversation

variable {s : Service} {remote : Address} {ends : Bool} {bytes : Bytes}
  {exchanges : List Exchange}

/-- **Some requests** are served of every byte string, if none at all. -/
theorem total (s : Service) (remote : Address) (ends : Bool) (bytes : Bytes) :
    ∃ exchanges, Conversation s remote ends bytes exchanges := by
  -- on the number of bytes, of which every request takes one at least
  induction h : bytes.length using Nat.strongRecOn generalizing bytes with
  | ind n ih =>
    obtain ⟨judged, rest, hj⟩ := judged_total s.settings.reader.maxLine s.settings.reader.window
      ends bytes
    have hears : s.Hears ends bytes (revise s.parser.overrides judged) rest := ⟨judged, hj, rfl⟩
    by_cases hsome : ∃ request, revise s.parser.overrides judged = .ok (some request)
    · obtain ⟨request, hrequest⟩ := hsome
      rw [hrequest] at hears
      obtain ⟨heard, rfl, hne, -⟩ := hears.alone
      cases hc : s.handle remote request with
      | mk verdict c =>
        by_cases hv : verdict = .done
        · subst hv
          cases hstay : request.keepAlive && !c.closes with
          | false => exact ⟨_, .last hears hc hstay⟩
          | true =>
            have hlt : rest.length < n := by
              have := List.length_pos_iff.2 hne
              rw [List.length_append] at h
              omega
            obtain ⟨exchanges, hmore⟩ := ih rest.length hlt rest rfl
            exact ⟨_, .next hears hc hstay hmore⟩
        · exact ⟨[], .failed hears hc hv⟩
    · exact ⟨[], .silence hears fun r hr => hsome ⟨r, hr⟩⟩

theorem nil (s : Service) (remote : Address) (ends : Bool) : Conversation s remote ends [] [] := by
  have hn : Unended s.settings.reader.window [] := ⟨by decide, ReaderOptions.window_pos _⟩
  refine .silence ⟨_, .noLine hn, rfl⟩ fun r hr => ?_
  obtain ⟨r', hr'⟩ := eq_of_revise hr
  cases ends <;> cases hr'

/-- Each request that is served **would be served alone**, with the same reply. -/
theorem alone (h : Conversation s remote ends bytes exchanges) {e : Exchange}
    (he : e ∈ exchanges) (ends : Bool) : Conversation s remote ends e.heard [e] := by
  -- a request is heard from its own bytes, also when nothing follows them
  have own : ∀ {before heard rest request},
      s.Hears before (heard ++ rest) (.ok (some request)) rest →
      s.Hears ends (heard ++ []) (.ok (some request)) [] := by
    intro before heard rest request hears
    obtain ⟨heard', hsplit, -, ha⟩ := hears.alone
    rw [List.append_cancel_right hsplit]
    exact ha ends []
  induction h with
  | silence _ _ => cases he
  | failed _ _ _ => cases he
  | last hears handled parting =>
    rw [List.mem_singleton.1 he]
    have := Conversation.last (own hears) handled parting
    rwa [List.append_nil] at this
  | next hears handled staying _ ih =>
    rcases List.mem_cons.1 he with rfl | he
    · have := Conversation.next (own hears) handled staying (.nil s remote ends)
      rwa [List.append_nil] at this
    · exact ih he

end Conversation

/-! ### Serving -/

namespace Link

variable {o : ReaderOptions} {ends : Bool} {w : Sending} {left : Bytes} {l : Link} {e : Event}

theorem Holds.ready (h : l.Holds o ends w left) (hw : w.writeLeft = none)
    (ho : w.outbound.Accepting) : l.Ready := by
  obtain ⟨ahead, chunks, hf, -, -⟩ := h
  obtain rfl := hf.sending
  exact ⟨hf.calm, ho, hw⟩

/-- A link between two requests: **nothing is held**, and what is not yet consumed is `left`. -/
structure Idle (o : ReaderOptions) (ends : Bool) (left : Bytes) (l : Link) : Prop where
  holds : l.Holds o ends l.sending left
  ready : l.Ready
  held : l.held = []

theorem Ready.noting_wrote (h : l.Ready) (he : Journal.sent [e] = []) :
    Wrote [] l (l.noting e) := by
  refine ⟨⟨h.calm, h.accepting, h.unlimited⟩, ?_, rfl, rfl, rfl, rfl⟩
  simp only [written, noting, Journal.sent_cons he, List.append_nil]

theorem Holds.notedAll (h : l.Holds o ends w left) (lines : List String) :
    (l.notingAll lines).Holds o ends w left := by
  unfold notingAll
  induction lines generalizing l with
  | nil => exact h
  | cons line lines ih => exact ih (h.noted (e := .noted l.wire.clock line) rfl)

theorem Holds.sending_eq (h : l.Holds o ends w left) : l.sending = w := by
  obtain ⟨ahead, chunks, hf, -, -⟩ := h
  exact hf.sending

/-- A link on which **nothing is done any more**, with what was sent. -/
structure Quiet (sent : Bytes) (l : Link) : Prop where
  calm : l.wire.Calm
  held : l.held = []
  sent : l.wire.journal.sent = sent

/-- An idle link from which something was read has sent what it had sent before. -/
theorem Idle.quiet {l' : Link} {rest : Bytes} (h : l.Idle o ends left)
    (h' : l'.Holds o ends l.sending rest) : l'.Quiet l.wire.journal.sent := by
  have hs := h'.sending_eq
  obtain ⟨ahead, chunks, hf, -, -⟩ := h'
  exact ⟨hf.calm, (congrArg Sending.held hs).trans h.held, congrArg Sending.sent hs⟩

theorem Idle.ready_of_holds {l' : Link} {rest : Bytes} (h : l.Idle o ends left)
    (h' : l'.Holds o ends l.sending rest) : l'.Ready :=
  h'.ready h.ready.unlimited h.ready.accepting

end Link

namespace Service

/-- A service that sets no limits, whose handlers answer a client with bodies that end, and answer a
request alike **whatever happened before it**. -/
structure Unhindered (s : Service) (remote : Address) : Prop where
  readLimit : s.settings.readLimit = none
  writeLimit : s.settings.writeLimit = none
  parser : s.parser.Sound
  forgetful : ∀ past request, (s.handleAfter past remote request).1 = (s.handle remote request).1 ∧
    (s.handle remote request).2.AnsweredAlike (s.handleAfter past remote request).2
  bodies : ∀ request c r, s.handle remote request = (.done, c) → c.response? = some r →
    r.body.contents.2 = .ended

variable {s : Service} {remote : Address} {o : ReaderOptions} {ends : Bool}
  {bytes left rest : Bytes} {l : Link} {request : Request} {c : Context}
  {exchanges : List Exchange}

/-- What is sent of an answer **is the reply**, and nothing is held afterwards. -/
theorem answer_wrote (hl : l.Ready) (hheld : l.held = [])
    (hc : ∀ r, c.response? = some r → r.body.contents.2 = .ended) :
    ∃ l', answer c l = .ok c.closes l' ∧ l.Wrote c.reply l' ∧ l'.held = [] := by
  unfold answer Context.closes Context.reply
  cases hr : c.response? with
  | none => exact ⟨l, rfl, hl.wrote_nil, hheld⟩
  | some r =>
    have hw₁ := hl.noting_wrote (e := .entered .writing) rfl
    obtain ⟨l₂, hd, hw₂, hheld₂⟩ := r.deliver_wrote c.cookies? hw₁.ready (hc r hr)
    refine ⟨l₂.noting (.touched .writing), by simp only [hd], ?_, hheld₂⟩
    have := (hw₁.trans hw₂).trans (hw₂.ready.noting_wrote (e := .touched .writing) rfl)
    rwa [List.append_nil, List.nil_append] at this

variable {parser parser' : Parser} {l₁ l₂ l₃ : Link}

/-- One request of serving, **and then the others**. -/
theorem serve_eq (s : Service) (remote : Address) (parser : Parser) (l : Link) :
    s.serve remote parser l = match parser.parse (s.readied l) with
      | ⟨.error halt, _, l⟩ => ⟨.ofHalt Error.message halt, l⟩
      | ⟨.ok none, _, l⟩ => ⟨.noRequest, l⟩
      | ⟨.ok (some request), parser, l⟩ =>
        match s.dispatch remote request l with
        | (.failed text, _, l) => ⟨.failed text, l⟩
        | (.stuck, _, l) => ⟨.cut, stuckOn l⟩
        | (.done, c, l) =>
          match answer c l with
          | .error halt l => ⟨.ofHalt IoError.message halt, l⟩
          | .ok close l =>
            if request.keepAlive && !close then s.serve remote parser l else ⟨.finished, l⟩ := by
  conv => lhs; rw [serve]
  split <;> rename_i hp
  · rw [hp]
  · rw [hp]
  · rw [hp]
    split <;> rename_i hd
    · simp only [hd]
    · simp only [hd]
    · simp only [hd]
      split <;> rename_i ha <;> simp only [ha]

theorem serve_of_nothing (h : ∀ r, (parser.parse (s.readied l)).outcome ≠ .ok (some r)) :
    (s.serve remote parser l).link = (parser.parse (s.readied l)).link := by
  rw [serve]
  split
  · rename_i hp
    rw [hp]
  · rename_i hp
    rw [hp]
  · rename_i hp
    rw [hp] at h
    exact absurd rfl (h _)

theorem serve_of_undone {verdict : Verdict}
    (hp : parser.parse (s.readied l) = ⟨.ok (some request), parser', l₁⟩)
    (hd : s.dispatch remote request l₁ = (verdict, c, l₂)) (hv : verdict ≠ .done) :
    (s.serve remote parser l).link = l₂ ∨ (s.serve remote parser l).link = stuckOn l₂ := by
  rw [serve]
  split <;> rename_i h <;> rw [hp] at h <;> cases h
  split <;> rename_i h <;> rw [hd] at h <;> cases h
  · exact .inl rfl
  · exact .inr rfl
  · exact absurd rfl hv

theorem serve_of_answer {close : Bool}
    (hp : parser.parse (s.readied l) = ⟨.ok (some request), parser', l₁⟩)
    (hd : s.dispatch remote request l₁ = (.done, c, l₂)) (ha : answer c l₂ = .ok close l₃) :
    s.serve remote parser l
      = if request.keepAlive && !close then s.serve remote parser' l₃ else ⟨.finished, l₃⟩ := by
  rw [serve]
  split <;> rename_i h <;> rw [hp] at h <;> cases h
  split <;> rename_i h <;> rw [hd] at h <;> cases h
  split <;> rename_i h <;> rw [ha] at h <;> cases h
  rfl

/-- An idle link is ready for the next request **as it is**. -/
theorem readied_holds (h : s.Unhindered remote) (hl : l.Idle o ends left) :
    (s.readied l).Holds o ends l.sending left := by
  obtain ⟨ahead, chunks, hf, hs, he⟩ := hl.holds.noted (e := .entered .reading) rfl
  refine ⟨ahead, chunks, ⟨hf.options, ?_, hf.calm, hf.inbound, hf.unread, ?_⟩, hs, he⟩
  · exact h.readLimit
  · -- there is no write limit before the request and none after it
    have hw : (s.readied l).sending
        = { (l.noting (.entered .reading)).sending with writeLeft := s.settings.writeLimit } := rfl
    have hn : (l.noting (.entered .reading)).sending = l.sending := hf.sending
    rw [hw, hn, h.writeLimit, ← hl.ready.unlimited]
    rfl

/-- The parser of an idle link **hears what there is to hear**. -/
theorem parse_of_hears (h : s.Unhindered remote) (hl : l.Idle s.settings.reader ends bytes)
    (hp : parser.Sound) (ho : parser.overrides = s.parser.overrides)
    {outcome : Except (Halt Error) (Option Request)} (hears : s.Hears ends bytes outcome rest) :
    ∃ parser' l₁, parser.parse (s.readied l) = ⟨outcome, parser', l₁⟩ ∧
      l₁.Holds s.settings.reader ends l.sending rest ∧ parser'.Sound ∧
      parser'.overrides = s.parser.overrides := by
  obtain ⟨judged, hj, hr⟩ := hears
  have hg := Parser.parse_of_judged hp (readied_holds h hl) hj
  refine ⟨(parser.parse (s.readied l)).parser, (parser.parse (s.readied l)).link, ?_, hg.holds,
    hg.sound, hg.overrides.trans ho⟩
  have hout := hg.outcome
  rw [ho, hr] at hout
  rw [← hout]

theorem dispatch_eq (s : Service) (remote : Address) (request : Request) (l : Link) :
    ∃ past, s.dispatch remote request l
      = ((s.handleAfter past remote request).1, (s.handleAfter past remote request).2,
        (l.noting (.touched .dispatching)).notingAll
          (s.handleAfter past remote request).2.notes) :=
  ⟨_, rfl⟩

/-- A request is handled **as if nothing had happened before it**. -/
theorem dispatch_holds {o : ReaderOptions} {w : Link.Sending} {verdict : Verdict}
    (hs : s.Unhindered remote) (handled : s.handle remote request = (verdict, c))
    (h : l.Holds o ends w left) :
    ∃ c' l', s.dispatch remote request l = (verdict, c', l') ∧ c.AnsweredAlike c' ∧
      l'.Holds o ends w left := by
  obtain ⟨past, hd⟩ := dispatch_eq s remote request l
  obtain ⟨hverdict, halike⟩ := hs.forgetful past request
  rw [handled] at hverdict halike
  rw [hverdict] at hd
  exact ⟨_, _, hd, halike, (h.noted (e := .touched .dispatching) rfl).notedAll _⟩

theorem stuckOn_of_calm (h : l.wire.Calm) : stuckOn l = l := by
  unfold stuckOn
  rw [Wire.await_never h]

/-- **One exchange**: the reply is sent, and the link is idle again. -/
theorem exchange_of_hears (h : s.Unhindered remote) (hl : l.Idle s.settings.reader ends bytes)
    (hp : parser.Sound) (ho : parser.overrides = s.parser.overrides)
    (hears : s.Hears ends bytes (.ok (some request)) rest)
    (handled : s.handle remote request = (.done, c)) :
    ∃ parser' l', s.serve remote parser l
        = (if request.keepAlive && !c.closes then s.serve remote parser' l'
          else ⟨.finished, l'⟩) ∧
      l'.Idle s.settings.reader ends rest ∧ parser'.Sound ∧
      parser'.overrides = s.parser.overrides ∧
      l'.wire.journal.sent = l.wire.journal.sent ++ c.reply := by
  obtain ⟨parser', l₁, hparse, h₁, hp', ho'⟩ := parse_of_hears h hl hp ho hears
  obtain ⟨c', l₂, hd, halike, h₂⟩ := dispatch_holds h handled h₁
  -- nothing was written while the request was read and handled
  have hquiet := hl.quiet h₂
  obtain ⟨l₃, ha, hw, hheld⟩ := answer_wrote (hl.ready_of_holds h₂) hquiet.held
    fun r hr => h.bodies request c r handled (halike.response ▸ hr)
  rw [halike.closes_eq] at ha
  rw [halike.reply_eq] at hw
  have hwritten := hw.written
  simp only [Link.written, hheld, hquiet.held, List.append_nil, hquiet.sent] at hwritten
  exact ⟨parser', l₃, serve_of_answer hparse hd ha, ⟨hw.holds h₂, hw.ready, hheld⟩, hp', ho',
    hwritten⟩

/-- **Serving a conversation sends its replies**, one after another. -/
theorem serve_conversation (h : s.Unhindered remote)
    (hc : Conversation s remote ends bytes exchanges)
    (hl : l.Idle s.settings.reader ends bytes) (hp : parser.Sound)
    (ho : parser.overrides = s.parser.overrides) :
    (s.serve remote parser l).link.Quiet
      (l.wire.journal.sent ++ exchanges.flatMap (·.reply)) := by
  -- the link is idle before each request, whatever was served before
  induction hc generalizing l parser with
  | silence hears nothing =>
    obtain ⟨parser', l₁, hparse, h₁, -, -⟩ := parse_of_hears h hl hp ho hears
    have hnone : ∀ r, (parser.parse (s.readied l)).outcome ≠ .ok (some r) := by
      rw [hparse]
      exact nothing
    rw [serve_of_nothing hnone, hparse, List.flatMap_nil, List.append_nil]
    exact hl.quiet h₁
  | @failed _ _ request _ _ hears handled undone =>
    obtain ⟨parser', l₁, hparse, h₁, -, -⟩ := parse_of_hears h hl hp ho hears
    obtain ⟨c', l₂, hd, -, h₂⟩ := dispatch_holds h handled h₁
    have hquiet := hl.quiet h₂
    rw [List.flatMap_nil, List.append_nil]
    -- a handler that never comes back leaves the link as it found it
    rcases serve_of_undone hparse hd undone with he | he
    · rwa [he]
    · rwa [he, stuckOn_of_calm hquiet.calm]
  | last hears handled parting =>
    obtain ⟨parser', l', he, hl', -, -, hsent⟩ := exchange_of_hears h hl hp ho hears handled
    rw [he, parting, List.flatMap_singleton, ← hsent]
    exact ⟨hl'.ready.calm, hl'.held, rfl⟩
  | next hears handled staying _ ih =>
    obtain ⟨parser', l', he, hl', hp', ho', hsent⟩ := exchange_of_hears h hl hp ho hears handled
    rw [he, staying, List.flatMap_cons, ← List.append_assoc, ← hsent]
    exact ih hl' hp' ho'

/-! ### A whole connection -/

theorem shutDown_of_quiet {sent : Bytes} (h : l.Quiet sent) :
    ∃ l', (l.shutDown = .ok () l' ∨ ∃ cause, l.shutDown = .error (.failed cause) l') ∧
      l'.wire.journal.sent = sent := by
  have hspill : Link.spill l = .ok () { l with held := [] } := by
    have hout : Link.writeOut true l.held l.wire = ⟨[], none, l.wire⟩ := by
      rw [h.held, Link.writeOut]
    simp only [Link.spill, Link.spillOut, Act.run_bind, hout]
    rfl
  have hstep : Wire.step l.wire = .ok () l.wire := by
    simp only [Wire.step, Act.run_bind, Act.run_get, Wire.await_of_calm h.calm, Nat.max_self]
  refine ⟨{ l with
    held := []
    wire := { l.wire with journal := .transfer .shutDown :: l.wire.journal } }, ?_, h.sent⟩
  cases hf : l.wire.outbound.shutdownFailure? with
  | none =>
    left
    simp only [Link.shutDown, Act.run_bind, hspill, Link.onWire, Wire.shutDown, hstep, Wire.note,
      Act.run_modify, Act.run_get, hf]
    rfl
  | some cause =>
    right
    refine ⟨cause, ?_⟩
    simp only [Link.shutDown, Act.run_bind, hspill, Link.onWire, Wire.shutDown, hstep, Wire.note,
      Act.run_modify, Act.run_get, hf]
    rfl

/-- Parting from a client sends **nothing more**. -/
theorem sent_partWith (client : Client) {served : Served} {sent : Bytes}
    (h : served.link.Quiet sent) : (partWith client served).client.wire.journal.sent = sent := by
  obtain ⟨l', he, hsent⟩ := shutDown_of_quiet h
  unfold partWith
  -- a connection that came to its end is shut down, any other is left as it is
  split
  · rcases he with he | ⟨cause, he⟩ <;> simp only [he, hsent]
  · rcases he with he | ⟨cause, he⟩ <;> simp only [he, hsent]
  · exact h.sent

/-- Closing is **the last that is noted** of a connection, unless a trap kept it from being closed. -/
theorem journal_run (s : Service) (client : Client) :
    (s.run client).client.wire.journal = (s.attend client).client.wire.journal ∨
      (s.run client).client.wire.journal
        = .entered .closed :: (s.attend client).client.wire.journal := by
  by_cases htrapped : (s.attend client).conclusion = .trapped
  · exact .inl (by rw [run, if_pos htrapped])
  · exact .inr (by rw [run, if_neg htrapped]; rfl)

theorem sent_run (s : Service) (client : Client) :
    (s.run client).client.wire.journal.sent = (s.attend client).client.wire.journal.sent := by
  rcases journal_run s client with h | h <;> rw [h]
  rfl

end Service

/-- A client that sends these chunks and then ends or falls silent, on a stream whose writes are
taken so. -/
def Client.sending (address : Address) (chunks : List Bytes) (ends : Bool) (sink : Sink) : Client :=
  { address, wire := { inbound := .script (.ofChunks chunks ends), outbound := .script sink } }

namespace Service

/-- When a connection is over, the replies of its conversation **have been sent, and nothing
else**. -/
theorem sent_of_conversation (h : s.Unhindered remote) {chunks : List Bytes}
    (hs : Steady s.settings.reader.retries ends chunks) {sink : Sink}
    (hsink : (Outbound.script sink).Accepting)
    (hc : Conversation s remote ends chunks.flatten exchanges) :
    (s.run (.sending remote chunks ends sink)).client.wire.journal.sent
      = exchanges.flatMap (·.reply) := by
  have hidle : Link.Idle s.settings.reader ends chunks.flatten
      { wire := (Client.sending remote chunks ends sink).wire
        capacity := s.settings.writeBuffer
        options := s.settings.reader } :=
    ⟨⟨[], chunks, ⟨rfl, rfl, ⟨rfl, rfl⟩, rfl, rfl, rfl⟩, hs, rfl⟩, ⟨⟨rfl, rfl⟩, hsink, rfl⟩, rfl⟩
  have hquiet := serve_conversation h hc hidle h.parser rfl
  rw [sent_run]
  exact sent_partWith { Client.sending remote chunks ends sink with taken := true } hquiet

/-- **A connection is a conversation**: whatever the cutting into reads and the sizes of the
buffers, what is on the stream when it is over are the replies to the requests served, in order.
Each of them is what a client gets that sends the request and nothing else. -/
theorem run_conversation (s : Service) (remote : Address) (h : s.Unhindered remote) (ends : Bool)
    (chunks : List Bytes) (hs : Steady s.settings.reader.retries ends chunks) (sink : Sink)
    (hsink : (Outbound.script sink).Accepting) :
    (∃ exchanges, Conversation s remote ends chunks.flatten exchanges) ∧
    ∀ exchanges, Conversation s remote ends chunks.flatten exchanges →
      (s.run (.sending remote chunks ends sink)).client.wire.journal.sent
        = exchanges.flatMap (·.reply) ∧
      ∀ e ∈ exchanges, ∀ (ends : Bool) (alone : List Bytes) (sink : Sink),
        alone.flatten = e.heard → Steady s.settings.reader.retries ends alone →
        (Outbound.script sink).Accepting →
        (s.run (.sending remote alone ends sink)).client.wire.journal.sent = e.reply := by
  refine ⟨Conversation.total s remote ends chunks.flatten, fun exchanges hc => ?_⟩
  refine ⟨sent_of_conversation h hs hsink hc, ?_⟩
  -- alone, a request is a conversation of its own
  intro e he ends alone sink halone hsteady haccept
  have hc' := hc.alone he ends
  rw [← halone] at hc'
  rw [sent_of_conversation h hsteady haccept hc', List.flatMap_singleton]

/-- A service that greets whoever comes, over buffers of a few bytes. -/
def greeting : Service :=
  { chain := ⟨[fun _ c => .stop .done (c.respond (.ok (.bytes (ascii "hi"))))]⟩
    settings := { reader := { bufferSize := 2, retries := 1 }, writeBuffer := 3 } }

/-- A request after which the client stays. -/
def staying : Request :=
  { method := .get, target := "/a", protocol := "HTTP/1.1",
    headers := ⟨[("Connection", "keep-alive")]⟩, body := [] }

/-- A request after which the client leaves. -/
def leaving : Request :=
  { method := .get, target := "/b", protocol := "HTTP/1.1", headers := {}, body := [] }

/-- Both requests, cut after the first byte of the second, and bytes that are never read. -/
def stayingThenLeaving : List Bytes :=
  [staying.wire "GET" ++ [71], [], (leaving.wire "GET").tail ++ ascii "GET"]

/-- Both are greeted, and the bytes after them are not. -/
theorem run_conversation_greeting :
    greeting.Unhindered { port := 80 } ∧ Steady 1 true stayingThenLeaving ∧
    (greeting.run (.sending { port := 80 } stayingThenLeaving true
        { maxWrite := some 1 })).client.wire.journal.sent
      = ascii "HTTP/1.1 200 OK\r\nContent-Length: 2\r\n\r\nhi" ++
        ascii "HTTP/1.1 200 OK\r\nContent-Length: 2\r\n\r\nhi" := by
  have h : greeting.Unhindered { port := 80 } := by
    refine ⟨rfl, rfl, ⟨MethodCache.sound_empty, MethodCache.sound_empty⟩,
      fun past request => ⟨rfl, rfl, rfl⟩, ?_⟩
    intro request c r hc hr
    cases hc
    cases hr
    rfl
  have hs : Steady 1 true stayingThenLeaving := by decide +kernel
  have hstaying : staying.Writable 16384 "GET" :=
    ⟨by decide, by decide, by decide +kernel, by decide, by decide, by decide,
      fun f hf => by
        rw [List.mem_singleton.1 hf]
        exact ⟨by decide +kernel, by decide +kernel, by decide +kernel, by decide⟩,
      by decide, .inr ⟨by decide, rfl⟩, by decide⟩
  have hleaving : leaving.Writable 16384 "GET" :=
    ⟨by decide, by decide, by decide +kernel, by decide, by decide, by decide,
      (by intro _ hf; cases hf),
      by decide, .inr ⟨by decide, rfl⟩, by decide⟩
  have hbytes : stayingThenLeaving.flatten
      = staying.wire "GET" ++ (leaving.wire "GET" ++ ascii "GET") := by decide +kernel
  have hears : ∀ {r : Request}, r.Writable 16384 "GET" → OverrideField.header.read r = none →
      ∀ further, greeting.Hears true (r.wire "GET" ++ further) (.ok (some r)) further := by
    intro r hr hnone further
    refine ⟨_, Request.judged_of_wire hr (by decide) further, ?_⟩
    show OverrideField.header.revise (.ok (some r)) = _
    simp only [OverrideField.revise, hnone]
  have hlast : Conversation greeting { port := 80 } true (leaving.wire "GET" ++ ascii "GET") _ :=
    .last (hears hleaving (by decide +kernel) _) rfl (by decide +kernel)
  have hc := Conversation.next (hears hstaying (by decide +kernel) _) rfl (by decide +kernel) hlast
  rw [← hbytes] at hc
  refine ⟨h, hs, ?_⟩
  rw [((run_conversation greeting { port := 80 } h true _ hs { maxWrite := some 1 }
    ⟨by simp, by simp, rfl, by simp⟩).2 _ hc).1]
  decide +kernel

end Service

end HttpEngine
