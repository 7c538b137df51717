import HttpEngine.Handling.Context

/-!
# Chains of handlers

A handler is told how many handlers come after it and what is known of the request. It
either **finishes**, or **proceeds** to the rest of the chain and says what to do when that
comes back. So the rest runs at most once.

Handlers may be kept waiting, and one that waits for the rest of the chain need not wait to its
end: it may **drop the rest half-way**, and then finds what is known as the rest left it.

* `Passage`: what is known at each wait, and in the end.
* `Next`: a rest of a chain, as seen by the handler before it.
* `Next.before`: a handler put in front of a rest.
* `Chain.run`: the handlers in their order, in front of a rest that does nothing.
-/

namespace HttpEngine

/-- How a run of handlers ends. -/
inductive Verdict
  | done
  /-- With an error of this text. -/
  | failed (text : String)
  /-- Not at all: it waits for something that never happens. -/
  | stuck
  deriving DecidableEq, Repr

/-- What one who waits for the rest of a chain sees of its end. -/
inductive Return
  | done
  /-- It failed with an error of this text. -/
  | failed (text : String)
  /-- It was not waited for any longer, **and runs no further**. -/
  | dropped
  deriving DecidableEq, Repr

/-- How handlers come along: how things stand each time they are kept waiting, and at the end. -/
structure Passage (α : Type) where
  /-- How things stand at each wait, the first one first. -/
  waits : List α := []
  verdict : Verdict
  /-- How things stand in the end, or **while they wait for ever**. -/
  last : α

namespace Passage

variable {α β : Type}

/-- The verdict, and how things stand with it. -/
def outcome (p : Passage α) : Verdict × α := (p.verdict, p.last)

/-- A passage seen otherwise. -/
def map (f : α → β) (p : Passage α) : Passage β := ⟨p.waits.map f, p.verdict, f p.last⟩

/-- A passage with waits before it. -/
def after (waits : List α) (p : Passage α) : Passage α := { p with waits := waits ++ p.waits }

/-- How a passage comes back to one who waits for it to its end, if it does. -/
def comesBack? (p : Passage α) : Option Return :=
  match p.verdict with
  | .done => some .done
  | .failed text => some (.failed text)
  | .stuck => none

/-- A passage as one sees it who **drops it at its `k`-th wait**, counted from zero, or at the last
one where it waits for ever. It then waits that often, and was dropped unless it came back before. -/
def within (p : Passage α) (k : Nat) : List α × Option Return × α :=
  match p.waits[k]? with
  | some a => (p.waits.take (k + 1), some .dropped, a)
  | none =>
    match p.comesBack? with
    | some r => (p.waits, some r, p.last)
    | none => (p.waits ++ [p.last], some .dropped, p.last)

/-- A passage as one sees it who has so much patience, or **no end of it**. -/
def awaited (p : Passage α) : Option Nat → List α × Option Return × α
  | some k => p.within k
  | none => (p.waits, p.comesBack?, p.last)

end Passage

/-- What a handler does when it is entered. -/
inductive Entry
  /-- It is done without the rest of the chain. -/
  | finish (passage : Passage Context)
  /-- After some waits of its own it goes on to the rest of the chain. It waits for that with so much
  patience, no end of it if none is given, and `leave` is what it does **when that comes back or is
  dropped**. -/
  | proceed (waits : List Context) (context : Context) (patience : Option Nat)
      (leave : Return → Context → Passage Context)

namespace Entry

/-- Stop here, at once. -/
def stop (verdict : Verdict) (c : Context) : Entry := finish { verdict, last := c }

/-- Go on at once, and say what to do when the rest of the chain **was waited for to its end**: with
the text of the error if it failed. -/
def goOn (c : Context) (leave : Option String → Context → Verdict × Context) : Entry :=
  proceed [] c none fun r c =>
    let (verdict, last) := match r with
      | .done | .dropped => leave none c
      | .failed text => leave (some text) c
    { verdict, last }

/-- What is made of how the rest of the chain ended by one who **waited for it to its end**. -/
def leftBy (leave : Option String → Context → Verdict × Context) :
    Verdict × Context → Verdict × Context
  | (.done, c) => leave none c
  | (.failed text, c) => leave (some text) c
  | (.stuck, c) => (.stuck, c)

/-- What a handler makes of the passage through the rest of the chain. -/
def leaveWith (patience : Option Nat) (leave : Return → Context → Passage Context)
    (p : Passage Context) : Passage Context :=
  match p.awaited patience with
  | (waits, some r, c) => (leave r c).after waits
  | (waits, none, c) => { waits, verdict := .stuck, last := c }

end Entry

/-- A handler, told how many handlers come after it. One that has a memory is one that heeds what
happened before the request came, **which is never twice the same** on one connection. -/
abbrev Handler := Nat → Context → Entry

/-- The rest of a chain, from the point of view of the handler before it. -/
structure Next where
  /-- Handlers still to run. -/
  remaining : Nat
  run : Context → Passage Context

namespace Next

/-- A rest **that does nothing**. -/
def done : Next := ⟨0, fun c => { verdict := .done, last := c }⟩

/-- A handler in front of a rest. -/
def before (h : Handler) (rest : Next) : Next where
  remaining := rest.remaining + 1
  run c :=
    match h rest.remaining c with
    | .finish p => p
    | .proceed waits d patience leave => (Entry.leaveWith patience leave (rest.run d)).after waits

theorem outcome_goOn {h : Handler} {rest : Next} {c d : Context}
    {leave : Option String → Context → Verdict × Context}
    (enters : h rest.remaining c = .goOn d leave) :
    ((before h rest).run c).outcome = Entry.leftBy leave (rest.run d).outcome := by
  simp only [before, enters, Entry.goOn, Entry.leaveWith, Passage.awaited, Passage.comesBack?,
    Passage.outcome, Passage.after]
  cases (rest.run d).verdict <;> rfl

/-- Handlers in front of a rest, the first outermost. -/
def through (handlers : List Handler) (rest : Next) : Next := handlers.foldr before rest

/-- A rest of a chain as text. -/
def text (n : Next) : String := "Next \x7b remaining: " ++ toString n.remaining ++ " \x7d"

end Next

/-- Handlers in the order in which they are entered. -/
structure Chain where
  handlers : List Handler := []

namespace Chain

/-- The passage of a request through a chain. -/
def passage (chain : Chain) (c : Context) : Passage Context :=
  (Next.through chain.handlers Next.done).run c

/-- Run a chain on a request, **to its end**. -/
def run (chain : Chain) (c : Context) : Verdict × Context := (chain.passage c).outcome

/-- The number of handlers. -/
def size (chain : Chain) : Nat := chain.handlers.length

/-- A chain as text. -/
def text (chain : Chain) : String := "Pipeline \x7b handlers: " ++ toString chain.size ++ " \x7d"

end Chain

end HttpEngine
