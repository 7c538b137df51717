import HttpEngine.Proofs.Message.Pace
import HttpEngine.Proofs.Serving.Course

/-!
# What is held while a request is awaited

Serving can be cut just before each of its reads, and a connection that is cut where it reads
**holds nothing and owes nothing**.

* `Service.cut_of_course`: the run that ends where something is about to be read.
* `Service.run_awaits_settled`: every read of a whole connection.
-/

namespace HttpEngine

open Text

/-- Whether an entry tells of a read. -/
def Event.isRead : Event → Bool
  | .transfer t => t.isRead
  | _ => false

/-- A read is **none of the entries** of another kind. -/
theorem Journal.Grows.read_before {kind : Event → Bool} {e : Event} {older j j' : Journal}
    (h : Grows kind j j') (hkind : kind e = false) (hread : (e :: older) <:+ j') :
    (e :: older) <:+ j := by
  obtain ⟨added, rfl, hadded⟩ := h
  induction added with
  | nil => exact hread
  | cons e' added ih =>
    rcases List.suffix_cons_iff.1 hread with hnow | hbefore
    · have hother := hadded e' List.mem_cons_self
      rw [← (List.cons.inj hnow).1, hkind] at hother
      cases hother
    · exact ih (fun e'' he => hadded e'' (List.mem_cons_of_mem _ he)) hbefore

namespace Link

/-- Nothing came but what can come **between a request and the end of its answer**. -/
def Answers (l l' : Link) : Prop := l.wire.journal.Grows Event.isAnswer l'.wire.journal

theorem notingAll_within (lines : List String) (l : Link) (k : Nat) :
    (l.within k).notingAll lines = (l.notingAll lines).within k := by
  unfold notingAll
  induction lines generalizing l with
  | nil => rfl
  | cons line lines ih => exact ih (l.noting (.noted l.wire.clock line))

end Link

namespace Service

variable {s : Service} {remote : Address} {parser parser' : Parser} {l l₁ l₂ l₃ l' : Link}
  {request : Request} {c : Context} {cs : List Context} {t : Transfer} {older : Journal}

theorem dispatch_within {verdict : Verdict}
    (h : s.dispatch remote request l = (verdict, c, l')) (k : Nat) :
    s.dispatch remote request (l.within k) = (verdict, c, l'.within k) := by
  cases h
  rw [← Link.notingAll_within]
  rfl

/-- An answer in three steps: the phase is entered, the response delivered, **and the phase touched
again**. -/
theorem answer_eq (c : Context) :
    answer c = match c.response? with
      | none => pure false
      | some r => do
        modify fun l => l.noting (.entered .writing)
        r.deliver c.cookies?
        modify fun l => l.noting (.touched .writing)
        return r.close := by
  funext l
  unfold answer
  cases c.response? with
  | none => rfl
  | some r =>
    simp only [Act.run_bind, Act.run_modify]
    cases r.deliver c.cookies? (l.noting (.entered .writing)) <;> rfl

theorem answer_goes (c : Context) : Act.Goes Link.within (answer c) := by
  rw [answer_eq]
  cases c.response? with
  | none => exact Act.goes_pure _
  | some r =>
    refine Act.Goes.bind (Act.goes_modify (by intros; rfl)) fun _ => ?_
    refine (r.deliver_goes c.cookies?).bind fun _ => ?_
    exact (Act.goes_modify (by intros; rfl)).bind fun _ => Act.goes_pure _

theorem answer_grows (c : Context) : Act.Keeps Link.Answers (answer c) := by
  have htrans : ∀ {l₁ l₂ l₃ : Link}, l₁.Answers l₂ → l₂.Answers l₃ → l₁.Answers l₃ :=
    fun h k => Journal.Grows.trans h k
  have hnoting : ∀ p, (Event.isAnswer p = true) → Act.Keeps Link.Answers
      (modify fun l => l.noting p : Link.Act PUnit) := fun p hp l => Journal.grows_cons hp
  rw [answer_eq]
  cases c.response? with
  | none => exact fun l => .refl _
  | some r =>
    refine Act.keeps_bind htrans (hnoting _ rfl) fun _ => Act.keeps_bind htrans ?_ fun _ => ?_
    · intro l
      obtain ⟨_, hpassed, -, -⟩ := r.deliver_writes c.cookies? l
      exact hpassed.grows.mono fun _ => Event.isAnswer_of_isOutput
    · exact Act.keeps_bind htrans (hnoting _ rfl) fun _ l => .refl _

theorem dispatch_grows {verdict : Verdict}
    (h : s.dispatch remote request l = (verdict, c, l')) :
    l.wire.journal.Grows (fun e => !e.isRead) l'.wire.journal := by
  obtain ⟨-, notes, hnotes, hkind⟩ := dispatch_adds h
  rw [hnotes]
  refine Journal.Grows.trans (Journal.grows_cons (e := .touched .dispatching) rfl) ⟨notes, rfl, ?_⟩
  intro e he
  have := hkind e he
  cases e with
  | noted time line => rfl
  | _ => cases this

theorem serve_of_cut (h : parser.parse (s.readied l) = ⟨.error .cut, parser', l'⟩) :
    s.serve remote parser l = ⟨.cut, l'⟩ := by
  rw [serve]
  split <;> rename_i hp <;> rw [h] at hp <;> cases hp
  rfl

theorem later_of_received {outcome : Except (Halt Error) (Option Request)}
    (h : parser.parse (s.readied l) = ⟨outcome, parser', l'⟩) : (s.readied l).Later l' := by
  have := (parser.parse_heard (s.readied l)).grows.suffix
  rwa [h] at this

theorem later_of_handled {outcome : Except (Halt Error) (Option Request)} {verdict : Verdict}
    (received : parser.parse (s.readied l) = ⟨outcome, parser', l₁⟩)
    (handled : s.dispatch remote request l₁ = (verdict, c, l₂)) : l.Later l₂ := by
  have hready : l.Later (s.readied l) := List.suffix_cons _ _
  exact (hready.trans (later_of_received received)).trans (dispatch_grows handled).suffix

/-- Serving **only goes on**. -/
theorem later_of_course (h : Course s remote parser l cs l') : l.Later l' := by
  induction h with
  | @silent _ _ l _ _ received _ =>
    have hready : l.Later (s.readied l) := List.suffix_cons _ _
    exact hready.trans (later_of_received received)
  | failed received handled => exact later_of_handled received handled
  | @stuck _ _ _ _ l₂ _ _ received handled =>
    have hstuck : l₂.Later (stuckOn l₂) := ⟨[], (stuckOn_same l₂).2.symm⟩
    exact (later_of_handled received handled).trans hstuck
  | @halted _ _ _ _ l₂ l₃ _ c _ received handled answered =>
    have hanswer := (answer_grows c l₂).suffix
    rw [Act.leaves_of_error answered] at hanswer
    exact (later_of_handled received handled).trans hanswer
  | @parted _ _ _ _ l₂ l₃ _ c _ received handled answered _ =>
    have hanswer := (answer_grows c l₂).suffix
    rw [Act.leaves_of_ok answered] at hanswer
    exact (later_of_handled received handled).trans hanswer
  | @stayed _ _ _ _ l₂ l₃ _ _ c _ _ received handled answered _ _ ih =>
    have hanswer := (answer_grows c l₂).suffix
    rw [Act.leaves_of_ok answered] at hanswer
    exact ((later_of_handled received handled).trans hanswer).trans ih

/-- Whatever is read while a request is received, serving can be cut **just before**. -/
theorem cut_of_received {outcome : Except (Halt Error) (Option Request)}
    (received : parser.parse (s.readied l) = ⟨outcome, parser', l₁⟩) (ht : t.isRead = true)
    (hread : (.transfer t :: older) <:+ l₁.wire.journal) (hl : l.wire.journal <:+ older) :
    ∃ k l', s.serve remote parser (l.within k) = ⟨.cut, l'⟩ ∧ l'.wire.journal = older := by
  rcases Journal.behind_or_ahead hread (later_of_received received) with hbehind | hahead
  · -- nothing is read between two requests
    have hready : l.wire.journal.Grows (fun e => !e.isRead) (s.readied l).wire.journal :=
      Journal.grows_cons rfl
    exact absurd (hready.read_before (by simp [Event.isRead, ht]) hbehind) (Journal.not_behind hl)
  · have hparse : (.transfer t :: older) <:+ (parser.parse (s.readied l)).link.wire.journal := by
      rw [received]
      exact hread
    obtain ⟨k, parser'', l', hcut, hj⟩ := Parser.parse_cut ht hparse hahead
    exact ⟨k, l', serve_of_cut hcut, hj⟩

/-- Whenever something is read in the course of serving, serving can be cut **just before**. -/
theorem cut_of_course (h : Course s remote parser l cs l') (ht : t.isRead = true)
    (hread : (.transfer t :: older) <:+ l'.wire.journal) (hl : l.wire.journal <:+ older) :
    ∃ k l'', s.serve remote parser (l.within k) = ⟨.cut, l''⟩ ∧ l''.wire.journal = older := by
  -- handing a request to the handlers and answering it reads nothing
  have hhandled : ∀ {verdict : Verdict} {request : Request} {c : Context} {l₁ l₂ : Link},
      s.dispatch remote request l₁ = (verdict, c, l₂) →
      (.transfer t :: older) <:+ l₂.wire.journal → (.transfer t :: older) <:+ l₁.wire.journal :=
    fun handled => (dispatch_grows handled).read_before (by simp [Event.isRead, ht])
  have hanswered : ∀ {c : Context} {l₂ : Link},
      (.transfer t :: older) <:+ (Act.leaves (answer c) l₂).wire.journal →
      (.transfer t :: older) <:+ l₂.wire.journal :=
    (answer_grows _ _).read_before (by simp [Event.isAnswer, ht])
  -- on the requests; the steps of one come before those of the next
  induction h with
  | silent received _ => exact cut_of_received received ht hread hl
  | failed received handled => exact cut_of_received received ht (hhandled handled hread) hl
  | @stuck _ _ _ _ l₂ _ _ received handled =>
    rw [(stuckOn_same l₂).2] at hread
    exact cut_of_received received ht (hhandled handled hread) hl
  | halted received handled answered =>
    rw [← Act.leaves_of_error answered] at hread
    exact cut_of_received received ht (hhandled handled (hanswered hread)) hl
  | parted received handled answered _ =>
    rw [← Act.leaves_of_ok answered] at hread
    exact cut_of_received received ht (hhandled handled (hanswered hread)) hl
  | @stayed parser parser' l l₁ l₂ l₃ _ request c close _ received handled answered staying more ih =>
    rcases Journal.behind_or_ahead hread (later_of_course more) with hbehind | hahead
    · rw [← Act.leaves_of_ok answered] at hbehind
      exact cut_of_received received ht (hhandled handled (hanswered hbehind)) hl
    · obtain ⟨k, l'', hcut, hj⟩ := ih hread hahead
      obtain ⟨n, hn⟩ := Parser.parse_goes received
      obtain ⟨m, hm⟩ := answer_goes c _ _ _ answered
      refine ⟨n + (m + k), l'', ?_, hj⟩
      rw [serve_of_answer (hn (m + k)) (dispatch_within handled (m + k)) (hm k)]
      simp only [staying, if_true]
      exact hcut

/-! ### A whole connection -/

/-- Serving that stops while a request is awaited **holds nothing**. -/
theorem held_of_reading {w : Wire}
    (hjournal : (s.serve remote parser (s.linkTo w)).link.wire.journal = older ++ w.journal)
    (hphase : older.phase = .reading) : (s.serve remote parser (s.linkTo w)).link.held = [] := by
  obtain ⟨cs, hcs⟩ := serve_course s remote parser (s.linkTo w)
  have heven : (s.linkTo w).Even (cs.map Context.reply) w.journal 0 :=
    ⟨rfl, [], rfl, .nil, ⟨rfl, rfl⟩, rfl⟩
  obtain ⟨added, hadded, hover⟩ := over_of_course hcs heven rfl
  rw [hjournal] at hadded
  rw [← List.append_cancel_right hadded] at hover
  exact (hover.awaiting hphase).1

/-- Once nothing more is served, **nothing more is read**. -/
theorem run_grows {client opened : Client} (ho : client.openStream = .ok () opened) :
    (s.serve opened.address s.parser (s.linkTo opened.wire)).link.wire.journal.Grows
      (fun e => !e.isRead) (s.run client).client.wire.journal := by
  have hpart : (s.serve opened.address s.parser (s.linkTo opened.wire)).link.wire.journal.Grows
      (fun e => !e.isRead) (s.attend client).client.wire.journal := by
    rw [attend_of_opened ho]
    rcases wire_partWith opened (s.serve opened.address s.parser (s.linkTo opened.wire)) with hw | hw
    · rw [hw]
      refine (Link.shutDown_passed _).grows.mono fun e he => ?_
      cases e with
      | transfer t => cases t <;> first | rfl | cases he
      | _ => rfl
    · rw [hw]
      exact .refl _
  rcases journal_run s client with hrun | hrun <;> rw [hrun]
  · exact hpart
  · exact hpart.trans (Journal.grows_cons rfl)

/-- Whenever something is read on a connection, serving its stream can be cut **just before**. -/
theorem cut_of_run {client opened : Client} (ho : client.openStream = .ok () opened)
    (ht : t.isRead = true)
    (hread : (.transfer t :: (older ++ opened.wire.journal)) <:+ (s.run client).client.wire.journal) :
    ∃ k l', s.serve opened.address s.parser (s.linkTo (opened.wire.within k)) = ⟨.cut, l'⟩ ∧
      l'.wire.journal = older ++ opened.wire.journal := by
  obtain ⟨cs, hcs⟩ := serve_course s opened.address s.parser (s.linkTo opened.wire)
  have hserved := (run_grows ho).read_before (by simp [Event.isRead, ht]) hread
  exact cut_of_course hcs ht hserved (List.suffix_append _ _)

/-- **Where a connection reads, nothing is held**: serving its stream can be cut there. -/
theorem held_of_read {client : Client} {newer : Journal} (ht : t.isRead = true)
    (hjournal : (s.run client).client.wire.journal
      = newer ++ .transfer t :: older ++ (Act.leaves Client.openStream client).wire.journal)
    (hphase : older.phase = .reading) :
    ∃ opened k l, client.openStream = .ok () opened ∧
      s.serve opened.address s.parser (s.linkTo (opened.wire.within k)) = ⟨.cut, l⟩ ∧
      l.wire.journal = older ++ opened.wire.journal ∧ l.held = [] := by
  cases ho : client.openStream with
  | error halt c =>
    -- a stream that is not to be had is not read
    rw [Act.leaves_of_error ho] at hjournal
    have hattend : (s.attend client).client.wire.journal = c.wire.journal := by
      rw [attend_of_unopened ho]
    rcases journal_run s client with hrun | hrun <;> rw [hrun, hattend] at hjournal
    · have hnone : [] = newer ++ .transfer t :: older := List.append_cancel_right hjournal
      simp at hnone
    · have hnone : [Event.entered .closed] = newer ++ .transfer t :: older :=
        List.append_cancel_right hjournal
      have hmem : Event.transfer t ∈ [Event.entered .closed] := by simp [hnone]
      cases List.mem_singleton.1 hmem
  | ok u opened =>
    rw [Act.leaves_of_ok ho, List.append_assoc] at hjournal
    obtain ⟨k, l, hcut, hl⟩ := cut_of_run ho ht ⟨newer, hjournal.symm⟩
    refine ⟨opened, k, l, rfl, hcut, hl, ?_⟩
    have hstopped : (s.serve opened.address s.parser
        (s.linkTo (opened.wire.within k))).link.wire.journal = older ++ opened.wire.journal := by
      rw [hcut, hl]
    have hheld := held_of_reading (w := opened.wire.within k) hstopped hphase
    rwa [hcut] at hheld

/-- **No request is awaited while something is owed.** Whenever something is read of the stream, the
connection is in the phase for reading, the replies to all requests handled so far are on the stream
and flushed, and nothing is held: this is how serving ends when it is cut just before the read.
Wherever else serving stops in that phase, it is the same. -/
theorem run_awaits_settled (s : Service) (client : Client) :
    (∃ cs, s.Leaves client cs) ∧
    ∀ cs, s.Leaves client cs →
      (∃ added, (s.run client).client.wire.journal
          = added ++ (Act.leaves Client.openStream client).wire.journal ∧
        ∀ newer t older, added = newer ++ .transfer t :: older → t.isRead = true →
          Journal.phase older = .reading ∧ Journal.unflushed older = [] ∧
          Journal.sent older = (cs.take (Journal.handled older)).flatMap Context.reply ∧
          ∃ opened k l, client.openStream = .ok () opened ∧
            s.serve opened.address s.parser (s.linkTo (opened.wire.within k)) = ⟨.cut, l⟩ ∧
            l.wire.journal = older ++ opened.wire.journal ∧ l.held = []) ∧
      ∀ opened, client.openStream = .ok () opened →
        let served := s.serve opened.address s.parser (s.linkTo opened.wire)
        ∃ added, served.link.wire.journal = added ++ opened.wire.journal ∧
          (Journal.phase added = .reading → served.link.held = [] ∧
            Journal.unflushed added = [] ∧
            Journal.sent added = (cs.take (Journal.handled added)).flatMap Context.reply) := by
  refine ⟨leaves_some s client, fun cs h => ⟨?_, fun opened ho => ?_⟩⟩
  · obtain ⟨added, hadded, horderly⟩ := orderly_of_leaves h
    refine ⟨added, hadded, fun newer t older hsplit hread => ?_⟩
    rw [hsplit] at horderly hadded
    cases horderly.of_append with
    | cons _ _ _ reads =>
      have hinput : Event.isInput (.transfer t) = true := by
        cases t <;> first | rfl | cases hread
      obtain ⟨hphase, hsettled⟩ := reads hinput
      exact ⟨hphase, hsettled.flushed, by rw [hsettled.sent, flatten_take_map],
        held_of_read hread hadded hphase⟩
  · obtain ⟨added, hadded, hover⟩ := over_of_leaves h ho
    refine ⟨added, hadded, fun hreading => ?_⟩
    obtain ⟨hheld, hsettled⟩ := hover.awaiting hreading
    exact ⟨hheld, hsettled.flushed, by rw [hsettled.sent, flatten_take_map]⟩

/-- A client that stays, and of whose second request no more than a byte comes. -/
def fallingSilent : Client :=
  .sending { port := 80 } [staying.wire "GET", [71]] false { maxWrite := some 20 }

/-- When that byte is read the first response is on the stream and nothing is held, **and so it is
when no more comes**. -/
theorem run_awaits_settled_silent :
    (∃ k l, greeting.serve { port := 80 } greeting.parser
        (greeting.linkTo (fallingSilent.wire.within k)) = ⟨.cut, l⟩ ∧ l.held = [] ∧
      l.wire.journal.sent = ascii "HTTP/1.1 200 OK\r\nContent-Length: 2\r\n\r\nhi") ∧
    (greeting.serve { port := 80 } greeting.parser (greeting.linkTo fallingSilent.wire)).link.held
      = [] := by
  obtain ⟨⟨cs, hcs⟩, h⟩ := run_awaits_settled greeting fallingSilent
  obtain ⟨⟨added, hadded, hreads⟩, hstops⟩ := h cs hcs
  have hopened : fallingSilent.wire.journal = [] := rfl
  constructor
  · have hfresh : (Act.leaves Client.openStream fallingSilent).wire.journal = [] := rfl
    rw [hfresh, List.append_nil] at hadded
    have hsplit : added = [.entered .closed] ++ .transfer (.read 1) :: added.drop 2 := by
      rw [← hadded]
      decide +kernel
    obtain ⟨-, -, -, opened, k, l, ho, hcut, hjournal, hheld⟩ := hreads _ _ _ hsplit rfl
    cases ho
    refine ⟨k, l, hcut, hheld, ?_⟩
    rw [hjournal, ← hadded]
    decide +kernel
  · obtain ⟨added', hadded', hsettled⟩ := hstops { fallingSilent with taken := true } rfl
    rw [hopened, List.append_nil] at hadded'
    refine (hsettled ?_).1
    rw [← hadded']
    decide +kernel

end Service

end HttpEngine
