import HttpEngine.Error
import HttpEngine.Text.Bytes

/-!
# The journal of a connection

Everything that happens on a connection's stream, together with the phases the connection
goes through and the lines its handlers note, **in one order**.

* `Event`: an entry.
* `Journal.phase`: the phase reached.
* `Journal.sent`: the bytes put on the stream.
* `Journal.Grows`: a later state of a journal.
* `Journal.transfers`: what happened on the stream, each with the phase it happened in,
  writes that follow each other in one phase joined.
-/

namespace HttpEngine

/-- Where a connection is in its cycle of reading, dispatching and writing. -/
inductive Phase
  | initializing
  | reading
  | dispatching
  | writing
  | closed
  deriving DecidableEq, Repr

/-- The word for a phase. -/
def Phase.word : Phase → String
  | .initializing => "Initializing"
  | .reading => "Reading"
  | .dispatching => "Dispatching"
  | .writing => "Writing"
  | .closed => "Closed"

/-- Something done to a stream. -/
inductive Transfer
  /-- A read that brought so many bytes. -/
  | read (count : Nat)
  | readFailed (cause : IoError)
  /-- A write that took these bytes. -/
  | wrote (bytes : Bytes)
  | writeFailed
  | flushed
  | flushFailed
  | shutDown
  deriving DecidableEq, Repr

/-- An entry of the journal. -/
inductive Event
  | transfer (t : Transfer)
  /-- The connection entered a phase. -/
  | entered (p : Phase)
  /-- The connection entered a phase **and counts as active** now. -/
  | touched (p : Phase)
  /-- A request was received in full. -/
  | received
  /-- A handler noted a line, at a time. -/
  | noted (time : Nat) (line : String)
  deriving DecidableEq, Repr

/-- Whether an entry tells of something done to the stream. -/
def Event.isTransfer : Event → Bool
  | .transfer _ => true
  | _ => false

/-- Events, newest first. -/
abbrev Journal := List Event

namespace Journal

/-- The phase that was entered last. -/
def phase : Journal → Phase
  | [] => .initializing
  | .entered p :: _ => p
  | .touched p :: _ => p
  | _ :: older => phase older

/-- The bytes put on the stream, oldest first. -/
def sent : Journal → Bytes
  | [] => []
  | .transfer (.wrote bytes) :: older => sent older ++ bytes
  | _ :: older => sent older

/-- The number of bytes put on the stream. -/
def sentCount : Journal → Nat
  | [] => 0
  | .transfer (.wrote bytes) :: older => sentCount older + bytes.length
  | _ :: older => sentCount older

/-- Whether the connection was ever active. -/
def wasActive (j : Journal) : Bool :=
  j.any fun
    | .touched _ => true
    | _ => false

/-- The number of requests received in full. -/
def receivedCount (j : Journal) : Nat := j.count .received

/-- The lines noted, each with its time, oldest first. -/
def notes (j : Journal) : List (Nat × String) :=
  j.reverse.filterMap fun
    | .noted time line => some (time, line)
    | _ => none

/-- Transfers with the phase they happened in, oldest first, after those in `done`, newest
first. -/
def collectTransfers : List Event → Phase → List (Transfer × Phase) → List (Transfer × Phase)
  | [], _, done => done.reverse
  | .transfer (.wrote bytes) :: rest, p, done =>
    match done with
    | (.wrote earlier, q) :: older =>
      if p = q then collectTransfers rest p ((.wrote (earlier ++ bytes), q) :: older)
      else collectTransfers rest p ((.wrote bytes, p) :: done)
    | _ => collectTransfers rest p ((.wrote bytes, p) :: done)
  | .transfer t :: rest, p, done => collectTransfers rest p ((t, p) :: done)
  | .entered q :: rest, _, done => collectTransfers rest q done
  | .touched q :: rest, _, done => collectTransfers rest q done
  | _ :: rest, p, done => collectTransfers rest p done

/-- What happened on the stream, **oldest first, joined and with the phase**. -/
def transfers (j : Journal) : List (Transfer × Phase) :=
  collectTransfers j.reverse .initializing []

/-- The transfers in a journal that came after an earlier state of it. -/
def since (earlier later : Journal) : Journal := later.take (later.length - earlier.length)

/-- A later state of a journal: **entries were added**, all of one kind. -/
def Grows (kind : Event → Bool) (j j' : Journal) : Prop :=
  ∃ added, j' = added ++ j ∧ ∀ e ∈ added, kind e = true

section

variable {kind kind' : Event → Bool} {j j₁ j₂ : Journal} {e : Event}

theorem Grows.refl (j : Journal) : Grows kind j j := ⟨[], rfl, by simp⟩

theorem Grows.trans (h : Grows kind j j₁) (k : Grows kind j₁ j₂) : Grows kind j j₂ := by
  obtain ⟨added, rfl, hadded⟩ := h
  obtain ⟨more, rfl, hmore⟩ := k
  refine ⟨more ++ added, (List.append_assoc ..).symm, fun e he => ?_⟩
  exact (List.mem_append.1 he).elim (hmore e) (hadded e)

theorem Grows.mono (h : Grows kind j j₁) (hle : ∀ e, kind e = true → kind' e = true) :
    Grows kind' j j₁ := by
  obtain ⟨added, rfl, hadded⟩ := h
  exact ⟨added, rfl, fun e he => hle e (hadded e he)⟩

theorem grows_cons (h : kind e = true) : Grows kind j (e :: j) :=
  ⟨[e], rfl, fun e' he => by rwa [List.mem_singleton.1 he]⟩

end

end Journal

end HttpEngine
