import HttpEngine.Proofs.Message.Allowance
import HttpEngine.Proofs.Serving.Awaiting

/-!
# What a connection takes in

Each request has an allowance of its own, and what was read ahead for one request is there for the
next. So a single request can be larger than its allowance, but **no number of requests is larger
than as many allowances**.

* `Service.Turns`: the requests a connection waits for, one after another.
* `Journal.Within`: at no moment was more brought for a request than its allowance.
* `Service.within_of_turns`, `Service.heard_of_turns`: serving.
* `Service.run_takes_within`: a whole connection.
-/

namespace HttpEngine

open Text

/-- One wait for a request: the link made ready for it, and **what came of parsing it**. -/
structure Turn where
  ready : Link
  parsed : Parsed

namespace Turn

/-- The bytes consumed in a turn. -/
def heard (t : Turn) : Bytes := t.ready.left.take (t.ready.left.length - t.parsed.link.left.length)

/-- The request that came, if one did, with the bytes it was read from. -/
def taken? (t : Turn) : Option (Request × Bytes) :=
  match t.parsed.outcome with
  | .ok (some request) => some (request, t.heard)
  | _ => none

/-- A turn keeps within an allowance: a request that came is head and body of what was consumed, and
**no larger than the allowance and what was read ahead**. Where a read or a body would take more,
no request comes. -/
structure Fits (limit : Nat) (t : Turn) : Prop where
  fresh : t.ready.wire.journal.intake = 0
  received : ∀ request, t.parsed.outcome = .ok (some request) →
    t.parsed.link.wire.journal.intake ≤ limit ∧ t.ready.left = t.heard ++ t.parsed.link.left ∧
      request.Occupies t.ready.options.window t.heard ∧
      t.heard.length ≤ limit + t.ready.unread.length
  refused : limit < t.parsed.link.wire.journal.intake ∨ (∃ l', Draft.Refused t.ready l') →
    t.parsed.outcome = .error Draft.tooMuch

theorem heard_of_drew {t : Turn} {heard : Bytes} (h : Link.Drew heard t.ready t.parsed.link) :
    t.heard = heard := by
  rw [Turn.heard, h.left, List.length_append, Nat.add_sub_cancel, List.take_left]

end Turn

/-- Whether an entry can come **while a request is handled and answered**. -/
def Event.isHandling : Event → Bool
  | .touched .dispatching => true
  | e => e.isAnswer

namespace Journal

variable {limit : Nat} {base j j' : Journal}

/-- At every moment after an earlier one, reads brought **at most so many bytes** since a request was
awaited. -/
inductive Within (limit : Nat) (base : Journal) : Journal → Prop
  | start : Within limit base base
  | next {e : Event} {older : Journal} (before : Within limit base older)
      (now : intake (e :: older) ≤ limit) : Within limit base (e :: older)

/-- **At every moment of a journal** reads had brought at most so many bytes since a request was
awaited. -/
def Kept (limit : Nat) (j : Journal) : Prop :=
  ∀ newer older : Journal, j = newer ++ older → older.intake ≤ limit

/-- The last read brought **more than so many bytes** for a request, and none before it did. -/
def Crossed (limit : Nat) (base j : Journal) : Prop :=
  ∃ (count : Nat) (added : Journal), j = .transfer (.read count) :: added ++ base ∧
    Within limit base (added ++ base) ∧ limit < added.intake + count

theorem intake_le_append (newer older : Journal) : newer.intake ≤ intake (newer ++ older) := by
  induction newer with
  | nil => exact Nat.zero_le _
  | cons e newer ih =>
    cases e with
    | transfer t =>
      cases t with
      | read count => exact Nat.add_le_add_right ih count
      | _ => exact ih
    | entered p =>
      cases p with
      | reading => exact Nat.le_refl _
      | _ => exact ih
    | _ => exact ih

/-- What was added, **moment by moment**. -/
theorem Within.kept (h : Within limit base j) : ∃ added, j = added ++ base ∧ Kept limit added := by
  induction h with
  | start =>
    refine ⟨[], rfl, fun newer older hsplit => ?_⟩
    rw [(List.append_eq_nil_iff.1 hsplit.symm).2]
    exact Nat.zero_le _
  | @next e older _ now ih =>
    obtain ⟨added, rfl, hmoments⟩ := ih
    refine ⟨e :: added, rfl, fun newer older hsplit => ?_⟩
    cases newer with
    | nil =>
      rw [List.nil_append] at hsplit
      rw [← hsplit]
      exact Nat.le_trans (intake_le_append (e :: added) base) now
    | cons e' newer => exact hmoments newer older (List.cons.inj hsplit).2

/-- An entry of another kind comes **no more often than before**. -/
theorem Grows.count_eq {kind : Event → Bool} {e : Event} (h : Grows kind j j')
    (he : kind e = false) : j'.count e = j.count e := by
  obtain ⟨added, rfl, hadded⟩ := h
  have hnone : added.count e = 0 := by
    refine List.count_eq_zero.2 fun hmem => ?_
    rw [hadded e hmem] at he
    cases he
  rw [List.count_append, hnone, Nat.zero_add]

/-- What is heard of a request is within its allowance **if all of it is**. -/
theorem Within.heard (h : Within limit base j) (hgrows : Grows Event.isInput j j')
    (hnow : j'.intake ≤ limit) : Within limit base j' := by
  obtain ⟨added, rfl, hadded⟩ := hgrows
  induction added with
  | nil => exact h
  | cons e added ih =>
    have hlast : Grows Event.isInput (added ++ j) (e :: added ++ j) :=
      grows_cons (hadded e List.mem_cons_self)
    have hbefore := ih (fun e' he => hadded e' (List.mem_cons_of_mem _ he))
      (Nat.le_trans hlast.intake_le hnow)
    exact .next hbefore hnow

/-- Handling a request **brings nothing**. -/
theorem Within.handled (h : Within limit base j) (hnow : j.intake ≤ limit)
    (hgrows : Grows Event.isHandling j j') : Within limit base j' ∧ j'.intake = j.intake := by
  obtain ⟨added, rfl, hadded⟩ := hgrows
  induction added with
  | nil => exact ⟨h, rfl⟩
  | cons e added ih =>
    obtain ⟨hbefore, hsame⟩ := ih fun e' he => hadded e' (List.mem_cons_of_mem _ he)
    have he := hadded e List.mem_cons_self
    have hstill : intake (e :: (added ++ j)) = j.intake := by
      rw [← hsame]
      cases e with
      | transfer t => cases t <;> first | rfl | cases he
      | entered p => cases p <;> first | rfl | cases he
      | touched p => rfl
      | noted time line => rfl
      | received => cases he
    exact ⟨.next hbefore (hstill ▸ hnow), hstill⟩

end Journal

namespace Service

/-- The turns of serving a client from a link on. -/
inductive Turns (s : Service) (remote : Address) : Parser → Link → List Turn → Prop
  /-- No request came. -/
  | silent {parser : Parser} {l : Link}
      (nothing : ∀ r, (parser.parse (s.readied l)).outcome ≠ .ok (some r)) :
      Turns s remote parser l [⟨s.readied l, parser.parse (s.readied l)⟩]
  /-- A request came and was handed to handlers, and **none is awaited after it**. -/
  | last {parser parser' : Parser} {l l₁ : Link} {request : Request}
      (received : parser.parse (s.readied l) = ⟨.ok (some request), parser', l₁⟩)
      (parting : ∀ c l₂ close l₃, s.dispatch remote request l₁ = (.done, c, l₂) →
        answer c l₂ = .ok close l₃ → (request.keepAlive && !close) = false) :
      Turns s remote parser l [⟨s.readied l, parser.parse (s.readied l)⟩]
  | next {parser parser' : Parser} {l l₁ l₂ l₃ : Link} {request : Request} {c : Context}
      {close : Bool} {ts : List Turn}
      (received : parser.parse (s.readied l) = ⟨.ok (some request), parser', l₁⟩)
      (handled : s.dispatch remote request l₁ = (.done, c, l₂))
      (answered : answer c l₂ = .ok close l₃) (staying : (request.keepAlive && !close) = true)
      (more : Turns s remote parser' l₃ ts) :
      Turns s remote parser l (⟨s.readied l, parser.parse (s.readied l)⟩ :: ts)

/-- Serving **takes its turns**. -/
theorem serve_turns (s : Service) (remote : Address) (parser : Parser) (l : Link) :
    ∃ ts, Turns s remote parser l ts := by
  -- on the requests; each is one turn of serving
  fun_induction serve s remote parser l with
  | case1 parser l halt parser' l₁ hp => exact ⟨_, .silent fun r hr => by rw [hp] at hr; cases hr⟩
  | case2 parser l parser' l₁ hp => exact ⟨_, .silent fun r hr => by rw [hp] at hr; cases hr⟩
  | case3 parser l request parser' l₁ hp text c l₂ hd =>
    exact ⟨_, .last hp fun _ _ _ _ hd' _ => by rw [hd] at hd'; cases hd'⟩
  | case4 parser l request parser' l₁ hp c l₂ hd =>
    exact ⟨_, .last hp fun _ _ _ _ hd' _ => by rw [hd] at hd'; cases hd'⟩
  | case5 parser l request parser' l₁ hp c l₂ hd halt l₃ ha =>
    refine ⟨_, .last hp fun _ _ _ _ hd' ha' => ?_⟩
    rw [hd] at hd'
    cases hd'
    rw [ha] at ha'
    cases ha'
  | case6 parser l request parser' l₁ hp c l₂ hd close l₃ ha hstay ih =>
    obtain ⟨ts, hts⟩ := ih
    exact ⟨_, .next hp hd ha hstay hts⟩
  | case7 parser l request parser' l₁ hp c l₂ hd close l₃ ha hleave =>
    refine ⟨_, .last hp fun _ _ _ _ hd' ha' => ?_⟩
    rw [hd] at hd'
    cases hd'
    rw [ha] at ha'
    cases ha'
    exact Bool.not_eq_true _ ▸ hleave

variable {s : Service} {remote : Address} {parser parser' : Parser} {l l₁ l₂ : Link} {ts : List Turn}
  {t : Turn} {limit : Nat} {base : Journal} {request : Request} {c : Context}

/-- Every turn **is a parse** of a link made ready. -/
theorem parse_of_turn (h : Turns s remote parser l ts) (ht : t ∈ ts) :
    ∃ (p : Parser) (l' : Link), t = ⟨s.readied l', p.parse (s.readied l')⟩ := by
  induction h with
  | silent _ => exact ⟨_, _, List.mem_singleton.1 ht⟩
  | last _ _ => exact ⟨_, _, List.mem_singleton.1 ht⟩
  | next _ _ _ _ _ ih =>
    rcases List.mem_cons.1 ht with rfl | ht
    · exact ⟨_, _, rfl⟩
    · exact ih ht

/-- A turn in which parsing fails **is where serving ends**. -/
theorem serve_of_failed {halt : Halt Error} (h : Turns s remote parser l ts) (ht : t ∈ ts)
    (hfailed : t.parsed.outcome = .error halt) :
    s.serve remote parser l = ⟨.ofHalt Error.message halt, t.parsed.link⟩ := by
  induction h with
  | @silent parser l _ =>
    rw [List.mem_singleton.1 ht] at hfailed ⊢
    rw [serve]
    split <;> rename_i hp <;> rw [hp] at hfailed ⊢ <;> cases hfailed
    rfl
  | last received _ =>
    rw [List.mem_singleton.1 ht, received] at hfailed
    cases hfailed
  | next received handled answered staying _ ih =>
    rcases List.mem_cons.1 ht with rfl | ht
    · rw [received] at hfailed
      cases hfailed
    · rw [serve_of_answer received handled answered, staying]
      exact ih ht

/-! ### Allowances -/

theorem charged_readied (hlimit : s.settings.readLimit = some limit) (l : Link) :
    (s.readied l).Charged (some limit) := by
  show Budget.spend (some limit) 0 = some s.settings.readLimit
  rw [Budget.spend_zero, hlimit]

theorem intake_le_of_charged (h : l.Charged (some limit)) : l.wire.journal.intake ≤ limit :=
  Budget.le_of_spend h limit rfl

/-- Handing a request to handlers and answering it **is handling one request**. -/
theorem handling_of_dispatch {verdict : Verdict} {l' : Link}
    (hd : s.dispatch remote request l₁ = (verdict, c, l₂))
    (hanswer : l₂.wire.journal.Grows Event.isAnswer l'.wire.journal) :
    l₁.wire.journal.Grows Event.isHandling l'.wire.journal ∧
      l'.wire.journal.handled = l₁.wire.journal.handled + 1 := by
  obtain ⟨-, notes, hnotes, hkind⟩ := dispatch_adds hd
  have hhandling : ∀ e : Event, e.isAnswer = true → e.isHandling = true := by
    intro e he
    cases e with
    | touched p => cases p <;> first | rfl | cases he
    | _ => exact he
  have hnoted : Journal.Grows Event.isAnswer (.touched .dispatching :: l₁.wire.journal)
      l₂.wire.journal := by
    refine ⟨notes, hnotes, fun e he => ?_⟩
    have := hkind e he
    cases e with
    | noted time line => rfl
    | _ => cases this
  have hall := hnoted.trans hanswer
  have htouched : Journal.handled (.touched .dispatching :: l₁.wire.journal)
      = l₁.wire.journal.handled + 1 := List.count_cons_self
  exact ⟨Journal.Grows.trans (Journal.grows_cons rfl) (hall.mono hhandling),
    (hall.count_eq rfl).trans htouched⟩

/-- When no request is awaited after one, serving **handles that one and ends**. -/
theorem handling_of_last (received : parser.parse (s.readied l) = ⟨.ok (some request), parser', l₁⟩)
    (parting : ∀ c l₂ close l₃, s.dispatch remote request l₁ = (.done, c, l₂) →
      answer c l₂ = .ok close l₃ → (request.keepAlive && !close) = false) :
    l₁.wire.journal.Grows Event.isHandling (s.serve remote parser l).link.wire.journal ∧
      (s.serve remote parser l).link.wire.journal.handled = l₁.wire.journal.handled + 1 := by
  rw [serve_eq, received]
  simp only
  split <;> rename_i hd
  · exact handling_of_dispatch hd (.refl _)
  · refine handling_of_dispatch hd ?_
    rw [(stuckOn_same _).2]
    exact .refl _
  · rename_i c l₂
    have hgrows := answer_grows c l₂
    unfold Link.Answers at hgrows
    split <;> rename_i ha
    · rw [Act.leaves_of_error ha] at hgrows
      exact handling_of_dispatch hd hgrows
    · rw [Act.leaves_of_ok ha] at hgrows
      simp only [parting _ _ _ _ hd ha, Bool.false_eq_true, if_false]
      exact handling_of_dispatch hd hgrows

/-- The read that brings too much for a request **is the first that does**. -/
theorem crossed_of_overrun {l' : Link} (hbase : Journal.Within limit base l.wire.journal)
    (hheard : (s.readied l).wire.journal.Grows Event.isInput l'.wire.journal)
    (hover : l'.Overrun (some limit)) : Journal.Crossed limit base l'.wire.journal := by
  obtain ⟨count, older, hjournal, hbefore, left, hleft, hlt⟩ := hover
  cases hleft
  obtain ⟨added, hadded, hkind⟩ := hheard
  obtain ⟨earlier, hearlier, -⟩ := hbase.kept
  rw [hjournal] at hadded
  cases added with
  | nil => cases hadded
  | cons e added =>
    have holder : older = added ++ (s.readied l).wire.journal := (List.cons.inj hadded).2
    subst holder
    have hready : Journal.Within limit base (s.readied l).wire.journal :=
      .next hbase (Nat.zero_le limit)
    -- all that came before that read was within the allowance
    have hwithin : Journal.Within limit base (added ++ (s.readied l).wire.journal) := by
      refine hready.heard ⟨added, rfl, fun e he => hkind e (List.mem_cons_of_mem _ he)⟩ ?_
      exact Nat.le_of_not_lt fun hlt => hbefore ⟨limit, rfl, hlt⟩
    have hsplit : added ++ (s.readied l).wire.journal
        = (added ++ .entered .reading :: earlier) ++ base := by
      show added ++ .entered .reading :: l.wire.journal = _
      rw [hearlier, List.append_assoc]
      rfl
    refine ⟨count, added ++ .entered .reading :: earlier, ?_, hsplit ▸ hwithin, ?_⟩
    · rw [hjournal, hsplit]
      rfl
    · rw [Journal.intake_append_reading]
      rwa [show (s.readied l).wire.journal = .entered .reading :: l.wire.journal from rfl,
        Journal.intake_append_reading] at hlt

/-- **One wait for a request** keeps within its allowance, or it fails at the read that does not. -/
theorem parse_within_allowance (hlimit : s.settings.readLimit = some limit) (parser : Parser)
    (hbase : Journal.Within limit base l.wire.journal) :
    (parser.parse (s.readied l)).link.wire.journal.handled = l.wire.journal.handled ∧
      (Journal.Within limit base (parser.parse (s.readied l)).link.wire.journal ∧
          (parser.parse (s.readied l)).link.wire.journal.intake ≤ limit ∨
        (parser.parse (s.readied l)).outcome = .error Draft.tooMuch ∧
          Journal.Crossed limit base (parser.parse (s.readied l)).link.wire.journal) := by
  have hready : Journal.Within limit base (s.readied l).wire.journal :=
    .next hbase (Nat.zero_le limit)
  have hheard := (parser.parse_heard (s.readied l)).grows
  have hsame : (s.readied l).wire.journal.handled = l.wire.journal.handled :=
    Journal.handled_cons (by decide) _
  refine ⟨(hheard.count_eq rfl).trans hsame, ?_⟩
  have hwithin : (parser.parse (s.readied l)).link.Charged (some limit) →
      Journal.Within limit base (parser.parse (s.readied l)).link.wire.journal ∧
        (parser.parse (s.readied l)).link.wire.journal.intake ≤ limit := fun hcharged =>
    ⟨hready.heard hheard (intake_le_of_charged hcharged), intake_le_of_charged hcharged⟩
  rcases (parser.parse_within (charged_readied hlimit l)).2 with
    ⟨hcharged, -⟩ | ⟨houtcome, hover | ⟨-, hcharged⟩⟩
  · exact .inl (hwithin hcharged)
  · exact .inr ⟨houtcome, crossed_of_overrun hbase hheard hover⟩
  · exact .inl (hwithin hcharged)

/-- A request that came **was within its allowance**. -/
theorem within_of_received (hlimit : s.settings.readLimit = some limit)
    (received : parser.parse (s.readied l) = ⟨.ok (some request), parser', l₁⟩)
    (hbase : Journal.Within limit base l.wire.journal) :
    Journal.Within limit base l₁.wire.journal ∧ l₁.wire.journal.intake ≤ limit ∧
      l₁.wire.journal.handled = l.wire.journal.handled := by
  obtain ⟨hhandled, hends⟩ := parse_within_allowance hlimit parser hbase
  rw [received] at hhandled hends
  rcases hends with ⟨hwithin, hnow⟩ | ⟨houtcome, -⟩
  · exact ⟨hwithin, hnow, hhandled⟩
  · cases houtcome

theorem taken?_of_nothing
    (nothing : ∀ r, (parser.parse (s.readied l)).outcome ≠ .ok (some r)) :
    Turn.taken? ⟨s.readied l, parser.parse (s.readied l)⟩ = none := by
  unfold Turn.taken?
  split
  · rename_i request hr
    exact absurd hr (nothing request)
  · rfl

theorem taken?_of_received (received : parser.parse (s.readied l) = ⟨.ok (some request), parser', l₁⟩) :
    Turn.taken? ⟨s.readied l, parser.parse (s.readied l)⟩
      = some (request, Turn.heard ⟨s.readied l, parser.parse (s.readied l)⟩) := by
  unfold Turn.taken?
  rw [received]

/-- **Serving keeps within its allowances**, request by request, or it ends at the read that does
not. -/
theorem within_of_turns (hlimit : s.settings.readLimit = some limit)
    (h : Turns s remote parser l ts) (hbase : Journal.Within limit base l.wire.journal) :
    (s.serve remote parser l).link.wire.journal.handled
        = l.wire.journal.handled + (ts.filterMap Turn.taken?).length ∧
      (Journal.Within limit base (s.serve remote parser l).link.wire.journal ∧
          (s.serve remote parser l).link.wire.journal.intake ≤ limit ∨
        (∃ t ∈ ts, t.parsed.outcome = .error Draft.tooMuch) ∧
          Journal.Crossed limit base (s.serve remote parser l).link.wire.journal) := by
  induction h with
  | @silent parser l nothing =>
    obtain ⟨hhandled, hends⟩ := parse_within_allowance hlimit parser hbase
    rw [serve_of_nothing nothing, List.filterMap_cons_none (taken?_of_nothing nothing), List.filterMap_nil]
    refine ⟨hhandled, hends.imp id fun ⟨houtcome, hcrossed⟩ => ?_⟩
    exact ⟨⟨_, List.mem_singleton.2 rfl, houtcome⟩, hcrossed⟩
  | @last parser parser' l l₁ request received parting =>
    obtain ⟨hwithin, hnow, hhandled⟩ := within_of_received hlimit received hbase
    obtain ⟨hgrows, hone⟩ := handling_of_last received parting
    rw [List.filterMap_cons_some (taken?_of_received received), List.filterMap_nil]
    obtain ⟨hafter, hsame⟩ := hwithin.handled hnow hgrows
    exact ⟨hone.trans (by rw [hhandled]; rfl), .inl ⟨hafter, hsame ▸ hnow⟩⟩
  | @next parser parser' l l₁ l₂ l₃ request c close ts received handled answered staying _ ih =>
    obtain ⟨hwithin, hnow, hhandled⟩ := within_of_received hlimit received hbase
    have hanswer := answer_grows c l₂
    rw [Link.Answers, Act.leaves_of_ok answered] at hanswer
    obtain ⟨hgrows, hone⟩ := handling_of_dispatch handled hanswer
    obtain ⟨hmore, hends⟩ := ih (hwithin.handled hnow hgrows).1
    rw [serve_of_answer received handled answered, staying,
      List.filterMap_cons_some (taken?_of_received received), List.length_cons]
    refine ⟨?_, hends.imp id fun ⟨⟨t, ht, houtcome⟩, hcrossed⟩ => ?_⟩
    · rw [if_pos rfl, hmore, hone, hhandled]
      omega
    · exact ⟨⟨t, List.mem_cons_of_mem _ ht, houtcome⟩, hcrossed⟩

/-! ### What requests take up -/

theorem unread_of_handled {l₃ : Link} {verdict : Verdict} {close : Bool}
    (handled : s.dispatch remote request l₁ = (verdict, c, l₂))
    (answered : answer c l₂ = .ok close l₃) : l₃.unread = l₁.unread := by
  have hnoting : ∀ (lines : List String) (l : Link), (l.notingAll lines).unread = l.unread := by
    intro lines
    unfold Link.notingAll
    induction lines with
    | nil => exact fun _ => rfl
    | cons line lines ih => exact fun l => ih _
  have hdispatch : l₂.unread = l₁.unread := by
    cases handled
    exact hnoting _ _
  rw [← hdispatch]
  unfold answer at answered
  split at answered
  · cases answered
    rfl
  · split at answered
    · cases answered
    · rename_i hd
      cases answered
      exact (Response.same_deliver hd).1

/-- A request that came **was consumed**, and what was read ahead of it is what was brought beyond
it. -/
theorem heard_of_received (hlimit : s.settings.readLimit = some limit)
    (received : parser.parse (s.readied l) = ⟨.ok (some request), parser', l₁⟩) :
    Link.Drew (Turn.heard ⟨s.readied l, parser.parse (s.readied l)⟩) (s.readied l) l₁ ∧
      request.Occupies l.options.window
        (Turn.heard ⟨s.readied l, parser.parse (s.readied l)⟩) ∧
      (Turn.heard ⟨s.readied l, parser.parse (s.readied l)⟩).length + l₁.unread.length
        = l.unread.length + l₁.wire.journal.intake := by
  obtain ⟨heard, hdrew, hoccupies⟩ := Parser.occupies_of_parse received
  have hheard : Turn.heard ⟨s.readied l, parser.parse (s.readied l)⟩ = heard :=
    Turn.heard_of_drew (by rw [received]; exact hdrew)
  have hsupply := (parser.parse_within (charged_readied hlimit l)).1
  rw [received] at hsupply
  have hleft := congrArg List.length hdrew.left
  have hintake : (s.readied l).wire.journal.intake = 0 := rfl
  have hunread : (s.readied l).unread = l.unread := rfl
  simp only [Link.supply, hintake, Link.left, List.length_append, hunread] at hsupply hleft
  rw [hheard]
  exact ⟨hdrew, hoccupies, by omega⟩

/-- So many requests, **the first of a connection**, take up no more than as many allowances and what
was read ahead before them. -/
theorem heard_of_turns (hlimit : s.settings.readLimit = some limit)
    (h : Turns s remote parser l ts) (k : Nat) :
    (((ts.filterMap Turn.taken?).take k).flatMap (·.2)).length ≤ l.unread.length + k * limit := by
  induction h generalizing k with
  | @silent parser l nothing =>
    rw [List.filterMap_cons_none (taken?_of_nothing nothing), List.filterMap_nil, List.take_nil]
    exact Nat.zero_le _
  | @last parser parser' l l₁ request received parting =>
    obtain ⟨-, hnow, -⟩ := within_of_received hlimit received .start
    obtain ⟨-, -, hlen⟩ := heard_of_received hlimit received
    rw [List.filterMap_cons_some (taken?_of_received received), List.filterMap_nil]
    cases k with
    | zero => exact Nat.zero_le _
    | succ k =>
      rw [List.take_succ_cons, List.take_nil, List.flatMap_singleton, Nat.succ_mul]
      simp only
      omega
  | @next parser parser' l l₁ l₂ l₃ request c close ts received handled answered staying _ ih =>
    obtain ⟨-, hnow, -⟩ := within_of_received hlimit received .start
    obtain ⟨-, -, hlen⟩ := heard_of_received hlimit received
    rw [List.filterMap_cons_some (taken?_of_received received)]
    cases k with
    | zero => exact Nat.zero_le _
    | succ k =>
      -- what was read ahead of one request was brought, and counted, for it
      have hmore := ih k
      rw [unread_of_handled handled answered] at hmore
      rw [List.take_succ_cons, List.flatMap_cons, List.length_append, Nat.succ_mul]
      simp only
      omega

theorem fits_of_turn (hlimit : s.settings.readLimit = some limit) (h : Turns s remote parser l ts)
    (ht : t ∈ ts) : t.Fits limit := by
  obtain ⟨p, l', rfl⟩ := parse_of_turn h ht
  refine ⟨rfl, fun request hrequest => ?_, fun hover => ?_⟩
  · have received : p.parse (s.readied l')
        = ⟨.ok (some request), (p.parse (s.readied l')).parser, (p.parse (s.readied l')).link⟩ := by
      rw [← hrequest]
    obtain ⟨-, hnow, -⟩ := within_of_received hlimit received .start
    obtain ⟨hdrew, hoccupies, hlen⟩ := heard_of_received hlimit received
    refine ⟨hnow, hdrew.left, hoccupies, ?_⟩
    show _ ≤ limit + l'.unread.length
    omega
  · rcases hover with hover | ⟨l₁, hrefused⟩
    · rcases (p.parse_within (charged_readied hlimit l')).2 with ⟨hcharged, -⟩ | ⟨houtcome, -⟩
      · exact absurd (intake_le_of_charged hcharged) (Nat.not_le.2 hover)
      · exact houtcome
    · exact (p.parse_of_receive_error (Draft.receive_of_refused hrefused)).1

/-! ### A whole connection -/

/-- The turns of serving a client; **none when its stream is not to be had**. -/
def TurnsOf (s : Service) (client : Client) (ts : List Turn) : Prop :=
  match client.openStream with
  | .ok () c => s.Turns c.address s.parser (s.linkTo c.wire) ts
  | .error _ _ => ts = []

theorem turnsOf_some (s : Service) (client : Client) : ∃ ts, s.TurnsOf client ts := by
  unfold TurnsOf
  cases client.openStream with
  | error halt c => exact ⟨[], rfl⟩
  | ok u c => exact serve_turns s c.address s.parser (s.linkTo c.wire)

/-- Once serving failed, **nothing is done but to close**. -/
theorem run_of_failed {client opened : Client} {text : String} {l : Link}
    (ho : client.openStream = .ok () opened)
    (hs : s.serve opened.address s.parser (s.linkTo opened.wire) = ⟨.failed text, l⟩) :
    (s.run client).conclusion = .failed text ∧
      (s.run client).client.wire = { l.wire with journal := .entered .closed :: l.wire.journal } := by
  have ha := attend_of_opened (s := s) ho
  rw [hs] at ha
  unfold run
  rw [ha]
  exact ⟨rfl, rfl⟩

/-- Once served, a connection is shut down at most, **which brings nothing**. -/
theorem run_within {client opened : Client} (ho : client.openStream = .ok () opened)
    (hwithin : Journal.Within limit base
      (s.serve opened.address s.parser (s.linkTo opened.wire)).link.wire.journal)
    (hnow : (s.serve opened.address s.parser (s.linkTo opened.wire)).link.wire.journal.intake
      ≤ limit) :
    Journal.Within limit base (s.run client).client.wire.journal ∧
      (s.run client).client.wire.journal.handled
        = (s.serve opened.address s.parser (s.linkTo opened.wire)).link.wire.journal.handled := by
  suffices hparted : Journal.Within limit base (s.attend client).client.wire.journal ∧
      (s.attend client).client.wire.journal.intake ≤ limit ∧
      (s.attend client).client.wire.journal.handled
        = (s.serve opened.address s.parser (s.linkTo opened.wire)).link.wire.journal.handled by
    obtain ⟨hafter, hless, hsame⟩ := hparted
    rcases journal_run s client with hrun | hrun <;> rw [hrun]
    · exact ⟨hafter, hsame⟩
    · exact ⟨.next hafter hless, (Journal.handled_cons (by decide) _).trans hsame⟩
  rw [attend_of_opened ho]
  rcases wire_partWith opened (s.serve opened.address s.parser (s.linkTo opened.wire))
    with hw | hw
  · rw [hw]
    have hgrows := (Link.shutDown_passed
      (s.serve opened.address s.parser (s.linkTo opened.wire)).link).grows
    have hhandling : ∀ e : Event, e.isOutput = true → e.isHandling = true := by
      intro e he
      cases e with
      | transfer t => exact Event.isAnswer_of_isOutput he
      | _ => cases he
    obtain ⟨hafter, hsame⟩ := hwithin.handled hnow (hgrows.mono hhandling)
    exact ⟨hafter, hsame ▸ hnow, hgrows.count_eq rfl⟩
  · rw [hw]
    exact ⟨hwithin, hnow, rfl⟩

/-- What is said when too much would be read. -/
def tooMuchRead : Conclusion := .failed (Error.message (.io (.overBudget .read)))

/-- A connection from when its stream is handed out: at every moment of it **no more was brought for
a request than its allowance**, but where a read brings more and the connection ends. -/
theorem kept_of_turns {client opened : Client} (hlimit : s.settings.readLimit = some limit)
    (ho : client.openStream = .ok () opened)
    (h : Turns s opened.address s.parser (s.linkTo opened.wire) ts) :
    ∃ added, (s.run client).client.wire.journal = added ++ opened.wire.journal ∧
      Journal.handled added = (ts.filterMap Turn.taken?).length ∧
      (Journal.Kept limit added ∨ ∃ (count : Nat) (before : Journal),
        added = .entered .closed :: .transfer (.read count) :: before ∧
        Journal.Kept limit before ∧ limit < before.intake + count ∧
        (s.run client).conclusion = tooMuchRead) := by
  have hbase : (s.linkTo opened.wire).wire.journal = opened.wire.journal := rfl
  have hstart : Journal.Within limit opened.wire.journal (s.linkTo opened.wire).wire.journal :=
    .start
  obtain ⟨hhandled, hends⟩ := within_of_turns hlimit h hstart
  rw [hbase] at hhandled
  have hclosing : ∀ j : Journal, Journal.handled (.entered .closed :: j) = j.handled :=
    Journal.handled_cons (by decide)
  -- what was handed to handlers since the stream was handed out
  have hcount : ∀ {added : Journal} {n : Nat}, Journal.handled (added ++ opened.wire.journal)
      = opened.wire.journal.handled + n → Journal.handled added = n := by
    intro added n hadded
    unfold Journal.handled at hadded ⊢
    rw [List.count_append] at hadded
    omega
  rcases hends with ⟨hwithin, hnow⟩ | ⟨⟨t, ht, houtcome⟩, count, before, hjournal, hbefore, hover⟩
  · obtain ⟨hafter, hsame⟩ := run_within ho hwithin hnow
    obtain ⟨added, hadded, hkept⟩ := hafter.kept
    refine ⟨added, hadded, hcount ?_, .inl hkept⟩
    rw [← hadded, hsame, hhandled]
  · -- serving failed at the last read, so that nothing comes after it but to close
    have hserve := serve_of_failed h ht houtcome
    obtain ⟨hconclusion, hrun⟩ := run_of_failed ho hserve
    rw [hserve] at hjournal hhandled
    simp only at hjournal hhandled
    obtain ⟨added, hadded, hkept⟩ := hbefore.kept
    obtain rfl := List.append_cancel_right hadded
    refine ⟨.entered .closed :: .transfer (.read count) :: before, ?_, hcount ?_,
      .inr ⟨count, before, rfl, hkept, hover, hconclusion⟩⟩
    · rw [hrun, hjournal]
      rfl
    · rw [← hhandled, hjournal]
      exact hclosing _

/-- **What a connection takes in is bounded by its allowances**, whatever it is served: the reads
for a request bring no more than one, a request takes up no more than that and what was read ahead,
and the first requests together no more than as many. A read or a body that would take more is
refused, no request comes of it, and the connection ends. -/
theorem run_takes_within (s : Service) (limit : Nat) (hlimit : s.settings.readLimit = some limit)
    (client : Client) :
    (∃ ts, s.TurnsOf client ts) ∧ ∀ ts, s.TurnsOf client ts →
      (∀ t ∈ ts, t.Fits limit ∧ (t.parsed.outcome = .error Draft.tooMuch →
        (s.run client).conclusion = tooMuchRead ∧
        (s.run client).client.wire.journal = .entered .closed :: t.parsed.link.wire.journal)) ∧
      (∀ k, (((ts.filterMap Turn.taken?).take k).flatMap (·.2)).length ≤ k * limit) ∧
      ∃ added, (s.run client).client.wire.journal
          = added ++ (Act.leaves Client.openStream client).wire.journal ∧
        Journal.handled added = (ts.filterMap Turn.taken?).length ∧
        (Journal.Kept limit added ∨ ∃ (count : Nat) (before : Journal),
          added = .entered .closed :: .transfer (.read count) :: before ∧
          Journal.Kept limit before ∧ limit < before.intake + count ∧
          (s.run client).conclusion = tooMuchRead) := by
  refine ⟨turnsOf_some s client, fun ts h => ?_⟩
  unfold TurnsOf at h
  cases ho : client.openStream with
  | error halt c =>
    rw [ho] at h
    subst h
    rw [Act.leaves_of_error ho, List.filterMap_nil]
    refine ⟨fun t ht => absurd ht List.not_mem_nil, fun k => ?_, ?_⟩
    · rw [List.take_nil]
      exact Nat.zero_le _
    · have hattend : (s.attend client).client.wire.journal = c.wire.journal := by
        rw [attend_of_unopened ho]
      obtain ⟨added, hadded, hhandled, hwithin⟩ : ∃ added,
          (s.run client).client.wire.journal = added ++ c.wire.journal ∧
            Journal.handled added = 0 ∧ Journal.Within limit [] added := by
        rcases journal_run s client with hrun | hrun
        · exact ⟨[], hrun.trans hattend, rfl, .start⟩
        · exact ⟨[.entered .closed], by rw [hrun, hattend]; rfl, Journal.handled_cons (by decide) [],
            .next .start (Nat.zero_le _)⟩
      obtain ⟨added', hadded', hkept⟩ := hwithin.kept
      rw [List.append_nil] at hadded'
      exact ⟨added, hadded, hhandled, .inl (hadded' ▸ hkept)⟩
  | ok u opened =>
    rw [ho] at h
    rw [Act.leaves_of_ok ho]
    refine ⟨fun t ht => ⟨fits_of_turn hlimit h ht, fun houtcome => ?_⟩, fun k => ?_,
      kept_of_turns hlimit ho h⟩
    · obtain ⟨hconclusion, hrun⟩ := run_of_failed ho (serve_of_failed h ht houtcome)
      exact ⟨hconclusion, congrArg Wire.journal hrun⟩
    · have htotal := heard_of_turns hlimit h k
      rwa [show (s.linkTo opened.wire).unread = [] from rfl, List.length_nil, Nat.zero_add] at htotal

/-- A service that greets whoever comes and takes in 64 bytes for a request. -/
def frugal : Service := { greeting with settings := { readLimit := some 64 } }

/-- A client that sends a request, and then two of them at once. -/
def rushing : Client :=
  .sending { port := 80 } [staying.wire "GET", staying.wire "GET" ++ staying.wire "GET"] true {}

/-- It is greeted once: **what the second read brings is too much for one request**, and no other
request comes of it. -/
theorem run_takes_within_rushing :
    frugal.settings.readLimit = some 64 ∧
    ∃ ts, frugal.TurnsOf rushing ts ∧ (ts.filterMap Turn.taken?).length = 1 ∧
      (∀ t ∈ ts, t.Fits 64) ∧ (frugal.run rushing).conclusion = tooMuchRead := by
  obtain ⟨⟨ts, hts⟩, h⟩ := run_takes_within frugal 64 rfl rushing
  obtain ⟨hturns, -, added, hadded, hhandled, hends⟩ := h ts hts
  have hopened : (Act.leaves Client.openStream rushing).wire.journal = [] := rfl
  rw [hopened, List.append_nil] at hadded
  have hone : (frugal.run rushing).client.wire.journal.handled = 1 := by decide +kernel
  rw [hadded, hhandled] at hone
  refine ⟨rfl, ts, hts, hone, fun t ht => (hturns t ht).1, ?_⟩
  rcases hends with hkept | ⟨count, before, -, -, -, hconclusion⟩
  · -- the last two reads of the journal brought 86 bytes
    have hmuch : 64 < (frugal.run rushing).client.wire.journal.intake := by decide +kernel
    rw [hadded] at hmuch
    exact absurd (hkept [] added rfl) (Nat.not_le.2 hmuch)
  · exact hconclusion

end Service

end HttpEngine
