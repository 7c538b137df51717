import HttpEngine.Proofs.Transport.Hearing

/-!
# The order of reads and replies

A journal tells in which order a connection read and wrote. In an orderly one, what is on the
stream is **at every moment** a front of the replies to the requests handled so far, and nothing is
read before these replies are all on it.

* `Journal.Settled`: nothing is owed to the client.
* `Journal.Orderly`: every moment of a journal, given the replies.
* `Journal.Awaiting.heard`, `Journal.Orderly.answered`: what reading a request and answering it add
  to an orderly journal.
-/

namespace HttpEngine

/-- Whether an entry can come between a request and **the end of its answer**. -/
def Event.isAnswer : Event → Bool
  | .transfer t => !t.isRead
  | .entered p => p == .writing
  | .touched p => p == .writing
  | .noted _ _ => true
  | .received => false

/-- Whether an entry is a line that a handler noted. -/
def Event.isNote : Event → Bool
  | .noted _ _ => true
  | _ => false

namespace Journal

variable {j j' : Journal} {e : Event} {replies : List Bytes}

/-- The number of requests that were handed to handlers. -/
def handled (j : Journal) : Nat := j.count (.touched .dispatching)

/-- The bytes put on the stream **since it was last flushed**. -/
def unflushed : Journal → Bytes
  | [] => []
  | .transfer (.wrote bytes) :: older => unflushed older ++ bytes
  | .transfer .flushed :: _ => []
  | _ :: older => unflushed older

/-- The replies to all requests handled are on the stream in full, **and flushed**. -/
structure Settled (replies : List Bytes) (j : Journal) : Prop where
  sent : j.sent = (replies.take j.handled).flatten
  flushed : j.unflushed = []

/-- At every moment a front of the replies is on the stream, and **nothing is awaited or read
before they are settled**. -/
inductive Orderly (replies : List Bytes) : Journal → Prop
  | nil : Orderly replies []
  | cons {e : Event} {older : Journal} (before : Orderly replies older)
      (front : sent (e :: older) <+: (replies.take (handled (e :: older))).flatten)
      (awaits : e = .entered .reading → older.Settled replies)
      (reads : e.isInput = true → older.phase = .reading ∧ older.Settled replies) :
      Orderly replies (e :: older)

theorem Orderly.of_append {newer older : Journal} (h : Orderly replies (newer ++ older)) :
    Orderly replies older := by
  induction newer with
  | nil => exact h
  | cons e newer ih =>
    cases h with
    | cons before _ _ _ => exact ih before

theorem Orderly.front (h : Orderly replies j) :
    j.sent <+: (replies.take j.handled).flatten := by
  cases h with
  | nil => exact List.nil_prefix
  | cons _ front _ _ => exact front

theorem sent_append (j older : Journal) : sent (j ++ older) = sent older ++ sent j := by
  induction j with
  | nil => exact (List.append_nil _).symm
  | cons e j ih =>
    cases e with
    | transfer t =>
      cases t with
      | wrote bytes =>
        show sent (j ++ older) ++ bytes = sent older ++ (sent j ++ bytes)
        rw [ih, List.append_assoc]
      | _ => exact ih
    | _ => exact ih

theorem handled_cons (h : e ≠ .touched .dispatching) (j : Journal) :
    handled (e :: j) = j.handled :=
  List.count_cons_of_ne h

/-- What was sent **stays sent**. -/
theorem sent_prefix_cons (e : Event) (j : Journal) : j.sent <+: sent (e :: j) := by
  cases e with
  | transfer t =>
    cases t with
    | wrote bytes => exact List.prefix_append j.sent bytes
    | _ => exact List.prefix_rfl
  | _ => exact List.prefix_rfl

/-! ### Waiting for a request -/

/-- A connection **waits for a request or receives it**, and owes nothing. -/
structure Awaiting (replies : List Bytes) (j : Journal) : Prop where
  orderly : Orderly replies j
  settled : j.Settled replies
  phase : j.phase = .reading

theorem Orderly.awaiting (h : Orderly replies j) (hs : j.Settled replies) :
    Awaiting replies (.entered .reading :: j) ∧ handled (.entered .reading :: j) = j.handled := by
  have hhandled : handled (.entered .reading :: j) = j.handled := handled_cons (by nofun) j
  have hsent : sent (.entered .reading :: j)
      = (replies.take (handled (.entered .reading :: j))).flatten := by
    rw [hhandled]
    exact hs.sent
  exact ⟨⟨.cons h (hsent ▸ List.prefix_rfl) (fun _ => hs) nofun, ⟨hsent, hs.flushed⟩, rfl⟩, hhandled⟩

theorem Awaiting.input (h : Awaiting replies j) (he : e.isInput = true) :
    Awaiting replies (e :: j) ∧ handled (e :: j) = j.handled := by
  -- an entry that tells of reading changes nothing of what matters
  have hsame : sent (e :: j) = j.sent ∧ unflushed (e :: j) = j.unflushed ∧
      Journal.phase (e :: j) = j.phase ∧ handled (e :: j) = j.handled := by
    cases e with
    | transfer t =>
      cases t with
      | read n => exact ⟨rfl, rfl, rfl, handled_cons (by nofun) j⟩
      | readFailed cause => exact ⟨rfl, rfl, rfl, handled_cons (by nofun) j⟩
      | _ => cases he
    | received => exact ⟨rfl, rfl, rfl, handled_cons (by nofun) j⟩
    | _ => cases he
  obtain ⟨hsent, hunflushed, hphase, hhandled⟩ := hsame
  have hall : sent (e :: j) = (replies.take (handled (e :: j))).flatten := by
    rw [hsent, hhandled, h.settled.sent]
  refine ⟨⟨.cons h.orderly (hall ▸ List.prefix_rfl) (fun _ => h.settled)
    fun _ => ⟨h.phase, h.settled⟩, ⟨hall, ?_⟩, ?_⟩, hhandled⟩
  · rw [hunflushed, h.settled.flushed]
  · rw [hphase, h.phase]

/-- Whatever is heard while a request is awaited, **nothing is owed**. -/
theorem Awaiting.heard (h : Awaiting replies j) (hgrows : Grows Event.isInput j j') :
    Awaiting replies j' ∧ j'.handled = j.handled := by
  obtain ⟨added, rfl, hadded⟩ := hgrows
  induction added with
  | nil => exact ⟨h, rfl⟩
  | cons e added ih =>
    obtain ⟨hbefore, hhandled⟩ := ih fun e' he => hadded e' (List.mem_cons_of_mem _ he)
    obtain ⟨hnow, hsame⟩ := hbefore.input (hadded e List.mem_cons_self)
    exact ⟨hnow, hsame.trans hhandled⟩

/-! ### Answering it -/

/-- Handing a request to the handlers, **before anything is sent** for it. -/
theorem Awaiting.dispatched (h : Awaiting replies j) :
    Orderly replies (.touched .dispatching :: j) ∧
      handled (.touched .dispatching :: j) = j.handled + 1 := by
  have hhandled : handled (.touched .dispatching :: j) = j.handled + 1 := List.count_cons_self
  refine ⟨.cons h.orderly ?_ nofun nofun, hhandled⟩
  rw [hhandled]
  show j.sent <+: _
  rw [h.settled.sent]
  have hle : replies.take j.handled <+: replies.take (j.handled + 1) :=
    List.take_prefix_take_left (Nat.le_succ _)
  obtain ⟨more, hmore⟩ := hle
  rw [← hmore, List.flatten_append]
  exact List.prefix_append _ _

/-- Lines that are noted change nothing of what matters. -/
theorem Grows.of_note (h : Grows Event.isNote j j') :
    j'.sent = j.sent ∧ j'.unflushed = j.unflushed ∧ j'.phase = j.phase ∧ j'.handled = j.handled := by
  obtain ⟨added, rfl, hadded⟩ := h
  induction added with
  | nil => exact ⟨rfl, rfl, rfl, rfl⟩
  | cons e added ih =>
    have he := hadded e List.mem_cons_self
    cases e with
    | noted time line =>
      obtain ⟨hsent, hunflushed, hphase, hhandled⟩ :=
        ih fun e' he => hadded e' (List.mem_cons_of_mem _ he)
      exact ⟨hsent, hunflushed, hphase, (handled_cons (by nofun) _).trans hhandled⟩
    | _ => cases he

/-- What an answer adds **is orderly as long as it is a front** of what is to be sent. -/
theorem Orderly.answered (h : Orderly replies j) (hgrows : Grows Event.isAnswer j j')
    (hfront : j'.sent <+: (replies.take j.handled).flatten) :
    Orderly replies j' ∧ j'.handled = j.handled ∧ (j'.phase = .writing ∨ j'.phase = j.phase) := by
  obtain ⟨added, rfl, hadded⟩ := hgrows
  induction added with
  | nil => exact ⟨h, rfl, .inr rfl⟩
  | cons e added ih =>
    rw [List.cons_append] at *
    have hbefore : sent (added ++ j) <+: (replies.take j.handled).flatten :=
      (sent_prefix_cons e _).trans hfront
    obtain ⟨horderly, hhandled, hphase⟩ :=
      ih (fun e' he => hadded e' (List.mem_cons_of_mem _ he)) hbefore
    have he := hadded e List.mem_cons_self
    have hkind : e ≠ .touched .dispatching ∧ e ≠ .entered .reading ∧ e.isInput = false ∧
        (phase (e :: (added ++ j)) = .writing ∨
          phase (e :: (added ++ j)) = phase (added ++ j)) := by
      cases e with
      | transfer t => cases t <;> first | exact ⟨nofun, nofun, rfl, .inr rfl⟩ | cases he
      | entered p => cases p <;> first | exact ⟨nofun, nofun, rfl, .inl rfl⟩ | cases he
      | touched p => cases p <;> first | exact ⟨nofun, nofun, rfl, .inl rfl⟩ | cases he
      | noted time line => exact ⟨nofun, nofun, rfl, .inr rfl⟩
      | received => cases he
    obtain ⟨hdispatch, hreading, hinput, hafter⟩ := hkind
    have hsame : handled (e :: (added ++ j)) = j.handled :=
      (handled_cons hdispatch _).trans hhandled
    refine ⟨.cons horderly ?_ (fun h => absurd h hreading) ?_, hsame, ?_⟩
    · rw [hsame]
      exact hfront
    · intro h
      rw [hinput] at h
      cases h
    · rcases hafter with hafter | hafter
      · exact .inl hafter
      · rw [hafter]
        exact hphase

theorem Orderly.closed (h : Orderly replies j) : Orderly replies (.entered .closed :: j) := by
  refine .cons h ?_ nofun nofun
  rw [handled_cons (by nofun)]
  exact h.front

end Journal

end HttpEngine
