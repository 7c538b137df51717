import HttpEngine.Proofs.Serving.Phases
import HttpEngine.Serving.Handshake
import Mathlib.Logic.Relation

/-!
# The life of a connection among those who close it

A client can be closed by anyone who has a handle to it, as often as they like and at any moment.
Whatever they do in between the steps of its connection, **the connection ends closed, its client is
closed, and one call alone was the one that closed it**.

* `Scene`: a connection, the switch of its client, and what all calls to close it were answered.
* `Scene.Step`: what can happen next, by the connection or by anyone else.
* `Scene.Stands`: the invariant, with `Scene.stands_of_step` for one step.
* `Service.run_reached`: a connection that is left alone.
* `Service.life_cycle`: whatever happens.
-/

namespace HttpEngine

open Text

/-- Something that a connection does by itself. -/
inductive Deed
  /-- It adds to its journal. -/
  | adds (e : Event)
  /-- It closes its client before it is over, **as after a handshake that took too long**. -/
  | closes
  deriving DecidableEq

namespace Deed

/-- What a deed adds to a journal, if anything. -/
def event? : Deed → Option Event
  | adds e => some e
  | closes => none

/-- What is added to a journal by some deeds, oldest first. -/
def journal (deeds : List Deed) : Journal := (deeds.filterMap event?).reverse

theorem journal_append (behind ahead : List Deed) :
    journal (behind ++ ahead) = journal ahead ++ journal behind := by
  unfold journal
  rw [List.filterMap_append, List.reverse_append]

end Deed

/-- The same client with its switch as it stands. -/
def Client.switched (client : Client) (switch : CloseSwitch) : Client := { client with switch }

/-- **What a connection does** until there is a reason to stop, or for ever: what its journal tells,
and that it closed the client if it did. -/
def Service.deeds (s : Service) (client : Client) : List Deed :=
  (s.attend client).client.wire.journal.reverse.map .adds ++
    if (s.attend client).client.switch = client.switch then [] else [.closes]

/-- The deeds of a connection **are its journal**. -/
theorem Deed.journal_deeds (s : Service) (client : Client) :
    journal (s.deeds client) = (s.attend client).client.wire.journal := by
  have hadds : ∀ events : List Event, journal (events.map .adds) = events.reverse := by
    intro events
    unfold journal
    rw [List.filterMap_map, show event? ∘ .adds = some from rfl, List.filterMap_some]
  unfold Service.deeds
  rw [journal_append, hadds, List.reverse_reverse]
  split <;> rfl

theorem Deed.journal_suffix {s : Service} {client : Client} {behind ahead : List Deed}
    (h : s.deeds client = behind ++ ahead) :
    journal behind <:+ (s.attend client).client.wire.journal := by
  rw [← journal_deeds, h, journal_append]
  exact List.suffix_append _ _

/-- How far a connection has come, with the switch **as it stood when it began**. -/
inductive Stage
  | waiting
  | serving (began : CloseSwitch) (ahead : List Deed)
  /-- It has entered the last phase, and is about to close its client. -/
  | closing (began : CloseSwitch)
  | ended (began : CloseSwitch)

/-- The switch as it stood when the connection began. -/
def Stage.began? : Stage → Option CloseSwitch
  | waiting => none
  | serving began _ => some began
  | closing began => some began
  | ended began => some began

/-- A connection, and those who close its client. -/
structure Scene where
  journal : Journal := []
  switch : CloseSwitch := {}
  /-- What all calls to close the client were answered, **by whomever they were made**. -/
  answers : List Bool := []
  stage : Stage := .waiting

namespace Scene

/-- Someone closes the client. -/
def call (σ : Scene) : Scene :=
  { σ with switch := σ.switch.close.2, answers := σ.switch.close.1 :: σ.answers }

/-- The connection enters the last phase. -/
def close (σ : Scene) (began : CloseSwitch) : Scene :=
  { σ with journal := .entered .closed :: σ.journal, stage := .closing began }

/-- **What can happen next.** The connection goes on as it would undisturbed; once the client is
closed it can also be stopped, wherever it is, and it need not be so at once. One that runs into a trap
**never returns**, and does nothing more. -/
inductive Step (s : Service) (client : Client) : Scene → Scene → Prop
  /-- Anyone closes the client, at any moment. -/
  | called (σ : Scene) : Step s client σ σ.call
  | began {σ : Scene} (waiting : σ.stage = .waiting) :
      Step s client σ
        { σ with stage := .serving σ.switch (s.deeds (client.switched σ.switch)) }
  | added {σ : Scene} {began : CloseSwitch} {e : Event} {ahead : List Deed}
      (serving : σ.stage = .serving began (.adds e :: ahead)) :
      Step s client σ { σ with journal := e :: σ.journal, stage := .serving began ahead }
  | gaveUp {σ : Scene} {began : CloseSwitch} {ahead : List Deed}
      (serving : σ.stage = .serving began (.closes :: ahead)) :
      Step s client σ { σ.call with stage := .serving began ahead }
  /-- There is nothing more to do, **and nothing to wait for**. -/
  | finished {σ : Scene} {began : CloseSwitch} (serving : σ.stage = .serving began [])
      (returns : (s.attend (client.switched began)).conclusion ≠ .cut)
      (safe : (s.attend (client.switched began)).conclusion ≠ .trapped) :
      Step s client σ (σ.close began)
  /-- The last deed and a trap are one step, **between which nothing stops it**. -/
  | stopped {σ : Scene} {began : CloseSwitch} {ahead : List Deed}
      (serving : σ.stage = .serving began ahead) (closed : σ.switch.closed = true)
      (untrapped : ahead ≠ [] ∨ (s.attend (client.switched began)).conclusion ≠ .trapped) :
      Step s client σ (σ.close began)
  | ended {σ : Scene} {began : CloseSwitch} (closing : σ.stage = .closing began) :
      Step s client σ { σ.call with stage := .ended began }

/-- A scene that comes about, from before the connection began. -/
def Reached (s : Service) (client : Client) (σ : Scene) : Prop :=
  Relation.ReflTransGen (Step s client) {} σ

variable {s : Service} {client : Client} {σ σ' : Scene} {began : CloseSwitch}

/-! ### One step -/

theorem call_closes (σ : Scene) :
    σ.call.answers.count true = σ.answers.count true + (if σ.switch.closed then 0 else 1) ∧
      σ.call.switch = ⟨true⟩ := by
  refine ⟨?_, rfl⟩
  unfold call CloseSwitch.close
  cases σ.switch.closed <;> simp

/-- One call alone **closed the client**, and none if it is open. -/
def Counted (σ : Scene) : Prop := σ.answers.count true = if σ.switch.closed then 1 else 0

theorem Counted.call (h : σ.Counted) : σ.call.Counted := by
  obtain ⟨hanswers, hswitch⟩ := call_closes σ
  unfold Counted at h ⊢
  rw [hanswers, hswitch, h]
  cases σ.switch.closed <;> rfl

theorem counted_of_step (h : σ.Counted) (hstep : Step s client σ σ') : σ'.Counted := by
  cases hstep with
  | called => exact h.call
  | began _ => exact h
  | added _ => exact h
  | gaveUp _ => exact h.call
  | finished _ _ _ => exact h
  | stopped _ _ _ => exact h
  | ended _ => exact h.call

/-- **How a scene stands**: what has happened is the beginning of what would happen undisturbed, and
the last phase comes on top of it. -/
inductive Stands (s : Service) (client : Client) : Stage → CloseSwitch → Journal → Prop
  | waiting {switch : CloseSwitch} : Stands s client .waiting switch []
  | serving {began switch : CloseSwitch} {behind ahead : List Deed}
      (split : s.deeds (client.switched began) = behind ++ ahead) :
      Stands s client (.serving began ahead) switch (Deed.journal behind)
  | closing {began switch : CloseSwitch} {seen : Journal}
      (seen_of : seen <:+ (s.attend (client.switched began)).client.wire.journal) :
      Stands s client (.closing began) switch (.entered .closed :: seen)
  | ended {began : CloseSwitch} {seen : Journal}
      (seen_of : seen <:+ (s.attend (client.switched began)).client.wire.journal) :
      Stands s client (.ended began) ⟨true⟩ (.entered .closed :: seen)

variable {switch : CloseSwitch} {stage : Stage} {ahead : List Deed} {j : Journal}

theorem Stands.of_serving (h : Stands s client (.serving began ahead) switch j) :
    ∃ behind, s.deeds (client.switched began) = behind ++ ahead ∧ j = Deed.journal behind := by
  cases h with
  | serving split => exact ⟨_, split, rfl⟩

theorem Stands.of_closing (h : Stands s client (.closing began) switch j) :
    ∃ seen, seen <:+ (s.attend (client.switched began)).client.wire.journal ∧
      j = .entered .closed :: seen := by
  cases h with
  | closing seen_of => exact ⟨_, seen_of, rfl⟩

/-- A call **changes nothing** of what the connection has done. -/
theorem Stands.called (h : Stands s client stage switch j) : Stands s client stage ⟨true⟩ j := by
  cases h with
  | waiting => exact .waiting
  | serving split => exact .serving split
  | closing seen_of => exact .closing seen_of
  | ended seen_of => exact .ended seen_of

/-- The next deed **is done**. -/
theorem Stands.next {d : Deed} (h : Stands s client (.serving began (d :: ahead)) switch j)
    (switch' : CloseSwitch) :
    Stands s client (.serving began ahead) switch' (d.event?.toList ++ j) := by
  obtain ⟨behind, split, rfl⟩ := h.of_serving
  have hmore : d.event?.toList ++ Deed.journal behind = Deed.journal (behind ++ [d]) := by
    rw [Deed.journal_append]
    cases d <;> rfl
  rw [hmore]
  exact .serving (by rw [split, List.append_cons])

theorem Stands.close (h : Stands s client (.serving began ahead) switch j) :
    Stands s client (.closing began) switch (.entered .closed :: j) := by
  obtain ⟨behind, split, rfl⟩ := h.of_serving
  exact .closing (Deed.journal_suffix split)

theorem stands_of_step (h : Stands s client σ.stage σ.switch σ.journal)
    (hstep : Step s client σ σ') : Stands s client σ'.stage σ'.switch σ'.journal := by
  cases hstep with
  | called => exact h.called
  | began waiting =>
    rw [waiting] at h
    have hnone : σ.journal = Deed.journal [] := by
      generalize σ.journal = j at h
      cases h with
      | waiting => rfl
    show Stands s client _ _ σ.journal
    rw [hnone]
    exact .serving rfl
  | added serving =>
    rw [serving] at h
    exact h.next _
  | gaveUp serving =>
    rw [serving] at h
    exact h.next _
  | finished serving _ _ =>
    rw [serving] at h
    exact h.close
  | stopped serving _ _ =>
    rw [serving] at h
    exact h.close
  | ended closing =>
    rw [closing] at h
    obtain ⟨seen, hseen, hjournal⟩ := h.of_closing
    show Stands s client _ ⟨true⟩ σ.journal
    rw [hjournal]
    exact .ended hseen

/-- **The invariant of all scenes** that come about. -/
theorem stands_of_reached (h : Reached s client σ) :
    Stands s client σ.stage σ.switch σ.journal ∧ σ.Counted := by
  induction h with
  | refl => exact ⟨.waiting, rfl⟩
  | tail _ hstep ih => exact ⟨stands_of_step ih.1 hstep, counted_of_step ih.2 hstep⟩

/-! ### What follows for every scene -/

/-- What has happened is **a beginning of what would happen undisturbed**, and the last phase on top
of it if it was entered. -/
theorem Stands.seen (h : Stands s client stage switch j) (hbegan : stage.began? = some began) :
    ∃ seen, seen <:+ (s.attend (client.switched began)).client.wire.journal ∧
      (j = seen ∨ j = .entered .closed :: seen) := by
  cases h with
  | waiting => cases hbegan
  | serving split =>
    cases hbegan
    exact ⟨_, Deed.journal_suffix split, .inl rfl⟩
  | closing seen_of =>
    cases hbegan
    exact ⟨_, seen_of, .inr rfl⟩
  | ended seen_of =>
    cases hbegan
    exact ⟨_, seen_of, .inr rfl⟩

theorem Stands.lawful (h : Stands s client stage switch j) (hfresh : client.wire.journal = []) :
    j.Lawful := by
  -- before the last phase all is as in an undisturbed run, which never enters it
  have hseen : ∀ {began : CloseSwitch} {seen : Journal},
      seen <:+ (s.attend (client.switched began)).client.wire.journal →
        seen.Lawful ∧ seen.phase ≠ .closed := by
    intro began seen hsuffix
    obtain ⟨hlawful, hunclosed⟩ := s.attend_lawful (client.switched began) hfresh
    exact ⟨hlawful.of_suffix hsuffix, hlawful.unclosed_of_suffix hunclosed hsuffix⟩
  have hclosed : ∀ {began : CloseSwitch} {seen : Journal},
      seen <:+ (s.attend (client.switched began)).client.wire.journal →
        Journal.Lawful (.entered .closed :: seen) := by
    intro began seen hsuffix
    obtain ⟨hlawful, hunclosed⟩ := hseen hsuffix
    exact .cons (.enter (.closing hunclosed) (by decide)) hlawful
  cases h with
  | waiting => exact .nil
  | serving split => exact (hseen (Deed.journal_suffix split)).1
  | closing seen_of => exact hclosed seen_of
  | ended seen_of => exact hclosed seen_of

/-- When the stream is not to be had, **nothing was done but to read and write**, and not even that
when the client had been closed before. -/
theorem Stands.unopened (h : Stands s client stage switch j) (hfresh : client.wire.journal = [])
    (hbegan : stage.began? = some began) {halt : Halt Error} {c : Client}
    (ho : (client.switched began).openStream = .error halt c) {e : Event} (he : e ∈ j) :
    e = .entered .closed ∨ e.isTransfer = true ∧ began.closed = false := by
  obtain ⟨seen, hsuffix, hj⟩ := h.seen hbegan
  have hattend : (s.attend (client.switched began)).client = c := by
    simp only [Service.attend, ho]
  rw [hattend] at hsuffix
  have hseen : e ∈ seen → e.isTransfer = true ∧ began.closed = false := by
    intro he
    rcases (client.switched began).openStream_cases with
      ⟨c', ho', -⟩ | ⟨halt', c', ho', hgrows, hshut, -⟩
    · rw [ho'] at ho
      cases ho
    · rw [ho'] at ho
      cases ho
      obtain ⟨added, hadded, hkind⟩ := hgrows
      have hmem := hsuffix.subset he
      rw [hadded, show (client.switched began).wire.journal = [] from hfresh, List.append_nil] at hmem
      refine ⟨hkind e hmem, ?_⟩
      cases hclosed : began.closed with
      | false => rfl
      | true =>
        -- what is closed is left as it was
        rw [hshut hclosed] at hsuffix
        rw [show (client.switched began).wire.journal = [] from hfresh,
          List.suffix_nil] at hsuffix
        rw [hsuffix] at he
        cases he
  rcases hj with rfl | rfl
  · exact .inr (hseen he)
  · rcases List.mem_cons.1 he with rfl | he
    · exact .inl rfl
    · exact .inr (hseen he)

/-- **One step** adds one entry to the journal at most, and one that could come next. -/
theorem journal_of_step (hlawful : σ'.journal.Lawful) (hstep : Step s client σ σ') :
    σ'.journal = σ.journal ∨ ∃ e, σ'.journal = e :: σ.journal ∧ σ.journal.Allows e := by
  have hnext : ∀ {e}, σ'.journal = e :: σ.journal →
      σ'.journal = σ.journal ∨ ∃ e, σ'.journal = e :: σ.journal ∧ σ.journal.Allows e := by
    intro e he
    rw [he] at hlawful
    cases hlawful with
    | cons allowed _ => exact .inr ⟨e, he, allowed⟩
  cases hstep with
  | called => exact .inl rfl
  | began _ => exact .inl rfl
  | added _ => exact hnext rfl
  | gaveUp _ => exact .inl rfl
  | finished _ _ _ => exact hnext rfl
  | stopped _ _ _ => exact hnext rfl
  | ended _ => exact .inl rfl

/-! ### Whatever happens -/

/-- **What is true of a scene at any moment**, whoever has closed the client and when. -/
structure Sound (s : Service) (client : Client) (σ : Scene) : Prop where
  /-- Each thing was done in the phase for it, handlers that note something included. -/
  lawful : σ.journal.Lawful
  /-- One call alone closed the client, and none if it is open. -/
  counted : σ.Counted
  /-- Where no stream is to be had, no request is awaited and none handled. -/
  unopened : ∀ {began halt c}, σ.stage.began? = some began →
    (client.switched began).openStream = .error halt c →
      (∀ e ∈ σ.journal, e = .entered .closed ∨ e.isTransfer = true) ∧
        ∀ other : Service, other.attend (client.switched began) = s.attend (client.switched began)
  /-- If the client was closed before the connection began, nothing is read or written. -/
  shut : ∀ {began}, σ.stage.began? = some began → began.closed = true →
    ∀ e ∈ σ.journal, e = .entered .closed
  /-- A connection that is over has closed its client, which **one call closed alone**. -/
  ended : ∀ {began}, σ.stage = .ended began →
    σ.journal.phase = .closed ∧ σ.switch.closed = true ∧ σ.answers.count true = 1

/-- **What a step can change.** -/
structure Moves (σ σ' : Scene) : Prop where
  journal : σ'.journal = σ.journal ∨ ∃ e, σ'.journal = e :: σ.journal ∧ σ.journal.Allows e
  phase : σ'.journal.phase = σ.journal.phase ∨ σ.journal.phase.Leads σ'.journal.phase
  /-- The connection counts as active for a request received in full or a response sent in full. -/
  active : σ'.journal.lastActive = σ.journal.lastActive ∨
    (∃ older, σ.journal = .received :: older) ∨ σ.journal.Replied

theorem moves_of_step (hlawful : σ'.journal.Lawful) (hstep : Step s client σ σ') : σ.Moves σ' := by
  have hjournal := journal_of_step hlawful hstep
  refine ⟨hjournal, ?_, ?_⟩
  · rcases hjournal with h | ⟨e, h, hallowed⟩
    · exact .inl (congrArg Journal.phase h)
    · rw [h]
      exact hallowed.leads
  · rcases hjournal with h | ⟨e, h, hallowed⟩
    · exact .inl (congrArg Journal.lastActive h)
    · rw [h]
      exact hallowed.active

theorem sound_of_reached (hfresh : client.wire.journal = []) (h : Reached s client σ) :
    σ.Sound s client := by
  obtain ⟨hstands, hcounted⟩ := stands_of_reached h
  refine ⟨hstands.lawful hfresh, hcounted, fun hbegan ho => ⟨fun e he => ?_, fun other => ?_⟩,
    fun {began} hbegan hclosed e he => ?_, fun {began} hover => ?_⟩
  · exact (hstands.unopened hfresh hbegan ho he).imp id And.left
  · simp only [Service.attend, ho]
  · -- a closed client does not hand out its stream
    rcases (client.switched began).openStream_cases with
      ⟨-, -, -, -, hopen⟩ | ⟨halt, c, ho, -, -, -⟩
    · rw [show (client.switched began).switch.closed = began.closed from rfl, hclosed] at hopen
      cases hopen
    · rcases hstands.unopened hfresh hbegan ho he with h | ⟨-, hopen⟩
      · exact h
      · rw [hclosed] at hopen
        cases hopen
  · have hclosed : σ.journal.phase = .closed ∧ σ.switch.closed = true := by
      rw [hover] at hstands
      generalize σ.switch = switch, σ.journal = j at hstands ⊢
      cases hstands with
      | ended _ => exact ⟨rfl, rfl⟩
    refine ⟨hclosed.1, hclosed.2, ?_⟩
    rw [hcounted, hclosed.2]
    rfl

/-! ### A connection that is left alone -/

/-- A connection can **do all that it would do**. -/
theorem Reached.undisturbed (h : Reached s client σ) (serving : σ.stage = .serving began ahead) :
    ∃ σ', Reached s client σ' ∧ σ'.stage = .serving began [] ∧
      σ'.journal = Deed.journal ahead ++ σ.journal ∧
      σ'.switch = if .closes ∈ ahead then ⟨true⟩ else σ.switch := by
  -- on what is still ahead, deed by deed
  induction ahead generalizing σ with
  | nil => exact ⟨σ, h, serving, rfl, rfl⟩
  | cons d ahead ih =>
    have hmore : ∀ j : Journal, Deed.journal (d :: ahead) ++ j
        = Deed.journal ahead ++ (d.event?.toList ++ j) := by
      intro j
      rw [← List.singleton_append, Deed.journal_append, List.append_assoc]
      cases d <;> rfl
    cases d with
    | adds e =>
      obtain ⟨σ', hreached, hstage, hjournal, hswitch⟩ := ih (h.tail (.added serving)) rfl
      exact ⟨σ', hreached, hstage, hjournal.trans (hmore _).symm, by simpa using hswitch⟩
    | closes =>
      obtain ⟨σ', hreached, hstage, hjournal, hswitch⟩ := ih (h.tail (.gaveUp serving)) rfl
      exact ⟨σ', hreached, hstage, hjournal.trans (hmore _).symm, by
        simpa [call, CloseSwitch.close] using hswitch⟩

/-- With nothing left to do **it comes to its end**, once the client is closed if it waits for ever,
unless it ran into a trap. -/
theorem Reached.ends (h : Reached s client σ) (serving : σ.stage = .serving began [])
    (safe : (s.attend (client.switched began)).conclusion ≠ .trapped) :
    ∃ σ', Reached s client σ' ∧ σ'.stage = .ended began ∧
      σ'.journal = .entered .closed :: σ.journal ∧ σ'.switch = ⟨true⟩ := by
  by_cases hwaits : (s.attend (client.switched began)).conclusion = .cut
  · have hclosed : Reached s client σ.call := h.tail (.called σ)
    exact ⟨_, (hclosed.tail (.stopped serving rfl (.inr safe))).tail (.ended rfl), rfl, rfl, rfl⟩
  · exact ⟨_, (h.tail (.finished serving hwaits safe)).tail (.ended rfl), rfl, rfl, rfl⟩

end Scene

namespace Service

/-- Until it is over a connection closes its client **or leaves the switch as it is**. -/
theorem switch_attend (s : Service) (client : Client) :
    (s.attend client).client.switch = client.switch ∨ (s.attend client).client.switch = ⟨true⟩ := by
  rcases client.openStream_cases with ⟨c, ho, -, hswitch, -⟩ | ⟨halt, c, ho, -, -, hswitch⟩
  · rw [attend_of_opened ho, switch_partWith]
    exact .inl hswitch
  · rw [attend_of_unopened ho]
    exact hswitch.imp id fun ⟨_, _, h⟩ => h

/-- The deeds of a connection tell **what becomes of the switch**. -/
theorem switch_deeds (s : Service) (client : Client) :
    (s.attend client).client.switch
      = if .closes ∈ s.deeds client then ⟨true⟩ else client.switch := by
  have hcloses : .closes ∈ s.deeds client ↔ (s.attend client).client.switch ≠ client.switch := by
    unfold deeds
    by_cases h : (s.attend client).client.switch = client.switch <;> simp [h]
  simp only [hcloses]
  split
  · rename_i hchanged
    exact (switch_attend s client).resolve_left hchanged
  · rename_i hsame
    exact not_not.1 hsame

/-- What becomes of a client by `Service.run` **is one of the things that can happen** to it: it is
over, or it ran into a trap. -/
theorem run_reached (s : Service) (client : Client) :
    ∃ σ, Scene.Reached s client σ ∧
      (σ.stage = if (s.run client).conclusion = .trapped then .serving client.switch []
        else .ended client.switch) ∧
      σ.journal = (s.run client).client.wire.journal ∧ σ.switch = (s.run client).client.switch := by
  have hwaiting : ∃ σ, Scene.Reached s client σ ∧ σ.stage = .waiting ∧ σ.switch = client.switch ∧
      σ.journal = [] := by
    cases hswitch : client.switch with
    | mk closed =>
      cases closed with
      | false => exact ⟨_, .refl, rfl, rfl, rfl⟩
      | true => exact ⟨_, .tail .refl (.called _), rfl, rfl, rfl⟩
  obtain ⟨σ₀, hreached₀, hstage₀, hswitch₀, hjournal₀⟩ := hwaiting
  obtain ⟨σ₁, hreached₁, hstage₁, hjournal₁, hswitch₁⟩ :=
    Scene.Reached.undisturbed (hreached₀.tail (.began hstage₀)) rfl
  have hattended : σ₁.journal = (s.attend client).client.wire.journal := by
    rw [hjournal₁, hjournal₀, hswitch₀, Deed.journal_deeds, List.append_nil]
    rfl
  by_cases htrapped : (s.attend client).conclusion = .trapped
  · have hrun : s.run client = s.attend client := if_pos htrapped
    rw [hrun, if_pos htrapped]
    refine ⟨σ₁, hreached₁, hswitch₀ ▸ hstage₁, hattended, ?_⟩
    rw [hswitch₁, hswitch₀]
    exact (switch_deeds s client).symm
  · have hrun : s.run client = closing (s.attend client) := if_neg htrapped
    obtain ⟨σ₂, hreached₂, hstage₂, hjournal₂, hswitch₂⟩ :=
      hreached₁.ends hstage₁ (hswitch₀ ▸ htrapped)
    have hended : (closing (s.attend client)).conclusion ≠ .trapped := htrapped
    rw [hrun, if_neg hended]
    refine ⟨σ₂, hreached₂, hswitch₀ ▸ hstage₂, ?_, hswitch₂⟩
    rw [hjournal₂, hattended]
    rfl

/-- **The life of a connection**, whatever its client, and whoever closes that and when: every scene
is sound and every step a move, what the connection does when it is left alone included, and handlers
are handed requests in the phase for it alone. -/
theorem life_cycle (s : Service) (client : Client) (hfresh : client.wire.journal = []) :
    (∀ σ, Scene.Reached s client σ →
      σ.Sound s client ∧ ∀ σ', Scene.Step s client σ σ' → σ.Moves σ') ∧
    (∃ σ, Scene.Reached s client σ ∧
      (σ.stage = if (s.run client).conclusion = .trapped then .serving client.switch []
        else .ended client.switch) ∧
      σ.journal = (s.run client).client.wire.journal ∧
      σ.switch = (s.run client).client.switch) ∧
    ∀ chain : Chain,
      (∀ c : Context, c.phase? = some .dispatching → chain.run c = s.chain.run c) →
      ∀ began, ({ s with chain } : Service).attend (client.switched began)
        = s.attend (client.switched began) := by
  refine ⟨fun σ h => ⟨Scene.sound_of_reached hfresh h, fun σ' hstep => ?_⟩, s.run_reached client,
    fun chain hchain began => attend_of_chain hchain _⟩
  exact Scene.moves_of_step (Scene.sound_of_reached hfresh (h.tail hstep)).lawful hstep

/-- Handlers that greet while a request is dispatched, **and would wait for ever otherwise**. -/
def greetingInTurn : Chain :=
  ⟨[fun _ c => if c.phase? = some .dispatching then
      .stop .done (c.respond (.ok (.bytes (ascii "hi"))))
    else .stop .stuck c]⟩

/-- A client that sends two requests. -/
def visitor : Client := .sending { port := 80 } stayingThenLeaving true {}

/-- A client that is to be secured, and sends a request at once. -/
def blunt : Client :=
  { Client.sending { port := 443 } [ascii "GET / HTTP/1.1\r\n\r\n"] true {} with
    security? := some ⟨Handshake.acceptor, Security.defaultLimit⟩ }

/-- It is closed by someone **as soon as its first request is awaited**, and so its connection closes
it in vain. A client whose handshake fails is sent an alert, and closed by its connection alone. -/
theorem life_cycle_stopped :
    (∃ σ σ' : Scene, Scene.Reached greeting visitor σ ∧ Scene.Step greeting visitor σ σ' ∧
      σ.Moves σ' ∧ σ'.Sound greeting visitor ∧ σ'.stage = .ended {} ∧ σ'.answers = [false, true] ∧
      σ'.journal = [.entered .closed, .entered .reading]) ∧
    ({ greeting with chain := greetingInTurn } : Service).attend visitor
      = greeting.attend visitor ∧
    ∃ σ, Scene.Reached greeting blunt σ ∧ σ.stage = .ended {} ∧ σ.answers.count true = 1 ∧
      σ.journal = [.entered .closed, .transfer (.wrote [21, 3, 3, 0, 2, 2, 50]),
        .transfer (.read 18)] := by
  obtain ⟨hscenes, -, hhandlers⟩ := life_cycle greeting visitor rfl
  refine ⟨?_, ?_, ?_⟩
  · obtain ⟨ahead, hahead⟩ : ∃ ahead,
        greeting.deeds (visitor.switched {}) = .adds (.entered .reading) :: ahead := by
      refine List.head?_eq_some_iff.1 ?_
      decide +kernel
    have hbegan : Scene.Reached greeting visitor
        { stage := .serving {} (.adds (.entered .reading) :: ahead) } := by
      rw [← hahead]
      exact .tail .refl (.began rfl)
    have hclosed := (hbegan.tail (.added rfl)).tail (.called _)
    have hstopped := hclosed.tail (.stopped rfl rfl (.inr (by decide +kernel)))
    exact ⟨_, _, hstopped, .ended rfl, (hscenes _ hstopped).2 _ (.ended rfl),
      (hscenes _ (hstopped.tail (.ended rfl))).1, rfl, rfl, rfl⟩
  · refine hhandlers greetingInTurn (fun c hc => ?_) {}
    simp [Chain.run, Chain.passage, Next.through, Next.before, greetingInTurn, greeting, hc]
  · obtain ⟨hsound, ⟨σ, hreached, hstage, hjournal, -⟩, -⟩ := life_cycle greeting blunt rfl
    rw [if_neg (by decide +kernel)] at hstage
    refine ⟨σ, hreached, hstage, ((hsound σ hreached).1.ended hstage).2.2, ?_⟩
    rw [hjournal]
    decide +kernel

end Service

end HttpEngine
