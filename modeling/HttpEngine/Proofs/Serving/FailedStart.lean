import HttpEngine.Proofs.Serving.Registry

/-!
# A server that failed to start

A server starts the loop of one listener after another, each once it knows the listener's address.
Where an address cannot be told there is no server, but **the loops that were started before go
on**: there is nobody who could ask them to stop.

* `Server.ok_or_failed`, `startFrom_ok`, `startFrom_failed`: starting comes to an end of two kinds.
* `Server.length_loops_play`: no loop comes or goes, whatever happens.
* `Server.not_ended_of_unasked`: no loop is over while nobody asked it to stop.
* `Server.Abandoned`: what is left of the server at any later moment.
* `Server.start_failed`: the failed start. It leaves nothing behind **exactly if the first listener
  is the one that failed**.
-/

namespace HttpEngine

namespace Server

variable {s s' : Server} {e : Event} {past : List Event}

/-! ### How starting ends -/

/-- The address of each listener can be told, or **there is a first** of which it cannot. -/
theorem ok_or_failed (listeners : List (Except IoError Address)) :
    (∃ addresses : List Address, listeners = addresses.map Except.ok) ∨
      ∃ (before : List Address) (failed : IoError) (after : List (Except IoError Address)),
        listeners = before.map Except.ok ++ Except.error failed :: after := by
  induction listeners with
  | nil => exact .inl ⟨[], rfl⟩
  | cons listener listeners ih =>
    cases listener with
    | error failed => exact .inr ⟨[], failed, listeners, rfl⟩
    | ok address =>
      rcases ih with ⟨addresses, rfl⟩ | ⟨before, failed, after, rfl⟩
      · exact .inl ⟨address :: addresses, rfl⟩
      · exact .inr ⟨address :: before, failed, after, rfl⟩

theorem startFrom_ok (running : List AcceptLoop) (known addresses : List Address) :
    startFrom running known (addresses.map Except.ok)
      = ⟨.ok (known ++ addresses),
          { loops := running ++ List.replicate addresses.length .accepting }⟩ := by
  induction addresses generalizing running known with
  | nil =>
    simp only [List.map_nil, startFrom, List.length_nil, List.replicate_zero, List.append_nil]
  | cons address addresses ih =>
    rw [List.map_cons, startFrom, ih, List.append_assoc, List.append_assoc, List.length_cons,
      List.replicate_succ]
    rfl

/-- What is not known of a listener **stops what comes after it**, and nothing that came before. -/
theorem startFrom_failed (running : List AcceptLoop) (known before : List Address)
    (failed : IoError) (after : List (Except IoError Address)) :
    startFrom running known (before.map Except.ok ++ Except.error failed :: after)
      = ⟨.error (.io failed),
          { loops := running ++ List.replicate before.length .accepting }⟩ := by
  induction before generalizing running known with
  | nil =>
    simp only [List.map_nil, List.nil_append, startFrom, List.length_nil, List.replicate_zero,
      List.append_nil]
  | cons address before ih =>
    rw [List.map_cons, List.cons_append, startFrom, ih, List.append_assoc, List.length_cons,
      List.replicate_succ]
    rfl

theorem start_of_failed (before : List Address) (failed : IoError)
    (after : List (Except IoError Address)) :
    start (before.map Except.ok ++ Except.error failed :: after)
      = ⟨.error (.io failed), { loops := List.replicate before.length .accepting }⟩ := by
  have hsome : (before.map Except.ok ++ Except.error failed :: after).isEmpty = false := by simp
  rw [start, hsome, if_neg Bool.false_ne_true, startFrom_failed, List.nil_append]

/-! ### Loops that nobody asked to stop -/

/-- No loop **comes or goes**. -/
theorem length_loops_of_happens (h : s.Happens e s') : s'.loops.length = s.loops.length := by
  cases h with
  | refuse free => exact List.length_set
  | resume rests => exact List.length_set
  | notice stopping runs => exact List.length_set
  | _ => rfl

theorem length_loops_play (events : List Event) :
    (s.play events).loops.length = s.loops.length := by
  refine List.foldlRecOn events _
    (motive := fun t : Server => t.loops.length = s.loops.length) rfl ?_
  intro t ht e _
  cases hstep : t.step e with
  | none => exact ht
  | some t' => exact (length_loops_of_happens (happens_of_step hstep)).trans ht

/-- What has happened **was among what came**. -/
theorem mem_of_mem_history {events : List Event} (h : e ∈ s.history past events) :
    e ∈ past ∨ e ∈ events := by
  induction events generalizing s past with
  | nil => exact .inl h
  | cons first later ih =>
    cases hstep : s.step first with
    | none =>
      simp only [history, hstep] at h
      exact (ih h).imp_right (List.mem_cons_of_mem _)
    | some s' =>
      simp only [history, hstep] at h
      rcases ih h with h | h
      · rcases List.mem_cons.1 h with rfl | h
        · exact .inr List.mem_cons_self
        · exact .inl h
      · exact .inr (List.mem_cons_of_mem _ h)

/-- A loop is over only when it noticed, and **there is nothing to notice**. -/
theorem not_ended_of_unasked (listeners : List (Except IoError Address)) {events : List Event}
    (hunasked : .stop ∉ events) :
    ∀ now ∈ ((start listeners).server.play events).loops, now ≠ .ended := by
  rintro now hnow rfl
  have hattended := (kept_of_play (kept_of_start listeners) events).attended
  obtain ⟨loop, hloop⟩ := List.mem_iff_getElem?.1 hnow
  have hstop := hattended.noticed loop ((hattended.ended loop).1 hloop)
  rcases mem_of_mem_history hstop with hstop | hstop
  · cases hstop
  · exact hunasked hstop

/-! ### What is left -/

/-- A server that has accepted **so many clients more**, and has a task for each. -/
def withTasks (s : Server) (clients : Nat) : Server :=
  { s with
    registry := s.registry ++ List.range' s.accepted clients
    accepted := s.accepted + clients }

/-- A loop that waits for a client **takes as many as come**. -/
theorem play_accept {loop : Nat} (hfree : s.loops[loop]? = some .accepting) (clients : Nat) :
    s.play (List.replicate clients (.accept loop)) = s.withTasks clients := by
  induction clients generalizing s with
  | zero =>
    show s = s.withTasks 0
    simp only [withTasks, List.range'_zero, List.append_nil, Nat.add_zero]
  | succ clients ih =>
    have hstep : s.step (.accept loop) = some (s.withTasks 1) := if_pos hfree
    show ((s.step (.accept loop)).getD s).play (List.replicate clients (.accept loop)) = _
    rw [hstep, Option.getD_some, ih (s := s.withTasks 1) hfree]
    simp only [withTasks, List.append_assoc, List.range'_append_1, Nat.add_comm clients 1,
      Nat.add_assoc]

/-- The server with one of its loops **waiting for a client again**. -/
def awake (s : Server) (loop : Nat) : Server := { s with loops := s.loops.set loop .accepting }

theorem play_resume {loop : Nat} (hlt : loop < s.loops.length) (hgoes : s.loops[loop] ≠ .ended) :
    s.play [.resume loop] = s.awake loop := by
  show (s.step (.resume loop)).getD s = s.awake loop
  cases hnow : s.loops[loop] with
  | accepting =>
    -- it does not rest, and is passed over
    have hloop : s.loops[loop]? = some .accepting := by rw [List.getElem?_eq_getElem hlt, hnow]
    have hsame : s.loops.set loop .accepting = s.loops := by rw [← hnow, List.set_getElem_self]
    simp only [step, turn, hloop, awake, hsame, Option.some.injEq, reduceCtorEq, if_false,
      Option.getD_none]
  | resting =>
    have hloop : s.loops[loop]? = some .resting := by rw [List.getElem?_eq_getElem hlt, hnow]
    simp only [step, turn, hloop, awake, if_true, Option.getD_some]
  | ended => exact absurd hnow hgoes

/-- **What a start that failed leaves behind**, at any later moment: as many loops as were
started. -/
structure Abandoned (started : Nat) (s : Server) : Prop where
  length : s.loops.length = started
  /-- None of them is ever over. -/
  goes : ∀ now ∈ s.loops, now ≠ .ended
  /-- Each takes any number of clients, once it has rested, and a task begins for each of them. -/
  accepts : ∀ loop < started, ∀ clients,
    s.play (.resume loop :: List.replicate clients (.accept loop))
      = (s.awake loop).withTasks clients
  /-- Who connects to a listener that came later is never accepted. -/
  others : ∀ loop, started ≤ loop → s.step (.accept loop) = none

theorem abandoned_play {listeners : List (Except IoError Address)} {started : Nat}
    (hloops : (start listeners).server.loops.length = started) {events : List Event}
    (hunasked : .stop ∉ events) : ((start listeners).server.play events).Abandoned started := by
  have hlength := (length_loops_play events).trans hloops
  have hgoes := not_ended_of_unasked listeners hunasked
  generalize (start listeners).server.play events = s at hlength hgoes
  refine ⟨hlength, hgoes, fun loop hloop clients => ?_, fun loop hloop => ?_⟩
  · rw [← hlength] at hloop
    have hresume := play_resume hloop (hgoes _ (List.getElem_mem hloop))
    show (s.play [.resume loop]).play (List.replicate clients (.accept loop)) = _
    rw [hresume]
    exact play_accept (List.getElem?_set_self hloop) clients
  · have hnone : s.loops[loop]? = none := List.getElem?_eq_none (hlength ▸ hloop)
    simp only [step, hnone, reduceCtorEq, if_false]

theorem accepted_of_happens (hnone : s.loops = []) (h : s.Happens e s') :
    s'.accepted = s.accepted := by
  cases h with
  | accept free =>
    rw [hnone] at free
    cases free
  | _ => rfl

/-- Where no loop was started **nobody is accepted**. -/
theorem accepted_play_of_no_loop (hnone : s.loops = []) (events : List Event) :
    (s.play events).accepted = s.accepted := by
  induction events generalizing s with
  | nil => rfl
  | cons e later ih =>
    show (((s.step e).getD s).play later).accepted = s.accepted
    cases hstep : s.step e with
    | none => exact ih hnone
    | some s' =>
      have hhappens := happens_of_step hstep
      have hlength := length_loops_of_happens hhappens
      rw [hnone] at hlength
      exact (ih (List.eq_nil_of_length_eq_zero hlength)).trans (accepted_of_happens hnone hhappens)

/-- **A start that failed.** There was no listener, or one of which the address could not be told;
of those before it each has its loop, which **goes on for ever**, takes any number of clients and
begins a task for each, as nobody holds the server and could ask it to stop. So it leaves nothing
running exactly if there were none before. -/
theorem start_failed (listeners : List (Except IoError Address)) (cause : Error)
    (hfailed : (start listeners).outcome = .error cause) :
    ∃ before : List Address,
      (listeners = [] ∧ before = [] ∧ cause = .config "no listeners registered" ∨
        ∃ failed after, listeners = before.map Except.ok ++ Except.error failed :: after ∧
          cause = .io failed) ∧
      (∀ events, .stop ∉ events →
        ((start listeners).server.play events).Abandoned before.length) ∧
      ((∀ events, .stop ∉ events → ((start listeners).server.play events).accepted = 0) ↔
        before = []) := by
  rcases ok_or_failed listeners with ⟨addresses, rfl⟩ | ⟨before, failed, after, rfl⟩
  · -- all addresses can be told, so there are none
    cases addresses with
    | nil =>
      have hcause := (Except.error.inj hfailed).symm
      have hloops : (start []).server.loops.length = 0 := rfl
      refine ⟨[], .inl ⟨rfl, rfl, hcause⟩, fun events => abandoned_play hloops, ?_⟩
      exact ⟨fun _ => rfl, fun _ events _ => accepted_play_of_no_loop rfl events⟩
    | cons address addresses =>
      have hstart : start ((address :: addresses).map Except.ok) = startFrom [] [] _ := rfl
      rw [hstart, startFrom_ok] at hfailed
      cases hfailed
  · have hstart := start_of_failed before failed after
    have hloops : (start (before.map Except.ok ++ Except.error failed :: after)).server.loops.length
        = before.length := by rw [hstart, List.length_replicate]
    rw [hstart] at hfailed
    refine ⟨before, .inr ⟨failed, after, rfl, (Except.error.inj hfailed).symm⟩,
      fun events => abandoned_play hloops, fun hidle => ?_, ?_⟩
    · by_contra hne
      -- the first listener's loop takes a client at once
      have haccepts := (abandoned_play hloops (List.not_mem_nil)).accepts 0
        (List.length_pos_iff.2 hne) 1
      have hone := congrArg Server.accepted haccepts
      rw [hstart] at hone hidle
      exact Nat.zero_ne_one ((hidle [.resume 0, .accept 0] (by decide)).symm.trans hone)
    · rintro rfl events -
      rw [hstart]
      exact accepted_play_of_no_loop rfl events

/-- **Two clients are served** by a server that did not start, as its second listener failed. -/
theorem start_failed_second :
    let listeners : List (Except IoError Address) :=
      [.ok ⟨"127.0.0.1", 8000⟩, .error (.device .notConnected "no address")]
    let s := (start listeners).server.play [.accept 0, .refuse 0]
    (start listeners).outcome = .error (.io (.device .notConnected "no address")) ∧
      s.Abandoned 1 ∧ (s.play [.resume 0, .accept 0]).registry = [0, 1] := by
  intro listeners s
  obtain ⟨before, hcases, habandoned, -⟩ :=
    start_failed listeners (.io (.device .notConnected "no address")) rfl
  have hlength : before.length = 1 := (habandoned [] List.not_mem_nil).length.symm
  have hs : s.Abandoned 1 := hlength ▸ habandoned [.accept 0, .refuse 0] (by decide)
  refine ⟨rfl, hs, ?_⟩
  rw [show s.play [.resume 0, .accept 0] = _ from hs.accepts 0 Nat.one_pos 1]
  rfl

end Server

end HttpEngine
