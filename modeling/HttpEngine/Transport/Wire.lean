import HttpEngine.Transport.Journal
import HttpEngine.Transport.Script

/-!
# The stream below a connection

A client's byte stream seen from the engine's end, with a clock that stands still except
where something is waited for.

* `Inbound`: a script, or a peer that sends at given times.
* `Outbound`: a script of how writes are taken and flushes end, or a pipe that a peer empties at
  given times.
* `Wire.read`, `Wire.write`, `Wire.flush`, `Wire.shutDown`, `Wire.pause`: what can be done
  with it, each noted in the journal.

Each of these is a step at which the one who works on the stream may be kept waiting. A wait
that would reach the deadline, or never end, is **cut** there, and so is the first step after
patience has run out.
-/

namespace HttpEngine

/-- The most milliseconds that are ever waited for at a stretch: thirty years. -/
def longestWait : Nat := 30 * 365 * 24 * 60 * 60 * 1000

/-- Why an activity stopped before its end. -/
inductive Halt (ε : Type)
  /-- It failed. -/
  | failed (cause : ε)
  /-- It was waiting when the deadline came, or for something that never happens. -/
  | cut
  /-- A result did not fit into its word, **which nobody recovers from**. -/
  | trapped
  deriving DecidableEq, Repr

/-- The same halt with its cause seen as another. -/
def Halt.map {ε δ : Type} (f : ε → δ) : Halt ε → Halt δ
  | .failed cause => .failed (f cause)
  | .cut => .cut
  | .trapped => .trapped

/-- Where bytes come from. -/
inductive Inbound
  | script (s : Script)
  /-- A peer that has sent these runs of bytes, each at its time, and may have ended. -/
  | peer (runs : List (Nat × Bytes)) (ends : Option Nat)
  deriving Repr

namespace Inbound

/-- The bytes still to come. -/
def pending : Inbound → Nat
  | script s => Script.pending s.pieces
  | peer runs _ => (runs.flatMap (·.2)).length

/-- When a read begun at time `now` completes. -/
def readyAt (now : Nat) : Inbound → Option Nat
  | script s => if s.pieces.isEmpty && s.hangs then none else some now
  | peer ((time, _) :: _) _ => some (max now time)
  | peer [] ends => ends.map (max now)

/-- The bytes that arrived by time `now`, at most `room`, and what is left. -/
def arrived (now room : Nat) : List (Nat × Bytes) → Bytes × List (Nat × Bytes)
  | [] => ([], [])
  | (time, bytes) :: rest =>
    if now < time then ([], (time, bytes) :: rest)
    else if room < bytes.length then (bytes.take room, (time, bytes.drop room) :: rest)
    else
      let (more, left) := arrived now (room - bytes.length) rest
      (bytes ++ more, left)

/-- A read at a time when it can complete. -/
def take (now room : Nat) : Inbound → Except IoError Bytes × Inbound
  | script s =>
    match s.read room with
    | some (answer, rest) => (answer, script rest)
    | none => (.ok [], script s)
  | peer runs ends =>
    let (bytes, left) := arrived now room runs
    (.ok bytes, peer left ends)

end Inbound

/-- How scripted writes are taken, and how flushes end. -/
structure Sink where
  /-- What the next writes meet, in their order: each **takes at most so many bytes, or fails**. -/
  writes : List (Except IoError Nat) := []
  /-- How the next flushes end, in their order; any after these succeed. -/
  flushes : List (Except IoError Unit) := []
  /-- The most that any later write takes. -/
  maxWrite : Option Nat := none
  /-- Later writes fail once so many bytes were taken, and none goes past that count. -/
  failAt : Option Nat := none
  failShutdown : Bool := false
  /-- How later writes and shutting down fail. -/
  failure : IoError := .peerGone
  taken : Nat := 0
  deriving Repr

/-- What a write of so many bytes meets: **how many of them are taken**, or a failure. -/
def Sink.share (s : Sink) (count : Nat) : Except IoError Nat :=
  match s.writes with
  | .error cause :: _ => .error cause
  | .ok most :: _ => .ok (min most count)
  | [] =>
    if s.failAt.any (· ≤ s.taken) then .error s.failure
    else
      .ok (min (min (s.maxWrite.getD count) ((s.failAt.map (· - s.taken)).getD count)) count)

/-- A pipe that holds written bytes until its peer takes them. -/
structure Pipe where
  /-- The most the pipe holds. -/
  capacity : Nat := 65536
  /-- Bytes in the pipe. -/
  waiting : Nat := 0
  /-- The times at which the peer takes **what is waiting then**, in order. -/
  drains : List Nat := []
  /-- When the peer goes away. -/
  leaves : Option Nat := none
  deriving Repr

/-- Where bytes go. -/
inductive Outbound
  | script (s : Sink)
  | pipe (p : Pipe)
  deriving Repr

namespace Outbound

/-- When a write begun at time `now` completes. -/
def readyAt (now : Nat) : Outbound → Option Nat
  | script _ => some now
  | pipe p =>
    if p.waiting < p.capacity || p.drains.any (· ≤ now) || p.leaves.any (· ≤ now) then some now
    else
      match p.drains, p.leaves with
      | drain :: _, some leave => some (min drain leave)
      | drain :: _, none => some drain
      | [], leave => leave

/-- A write at a time when it can complete: how many bytes it takes. -/
def accept (now : Nat) (bytes : Bytes) : Outbound → Except IoError Nat × Outbound
  | script s =>
    let later := { s with writes := s.writes.tail }
    match s.share bytes.length with
    | .error cause => (.error cause, script later)
    | .ok n => (.ok n, script { later with taken := s.taken + n })
  | pipe p =>
    if p.leaves.any (· ≤ now) then (.error .peerGone, pipe p)
    else
      let waiting := if p.drains.any (· ≤ now) then 0 else p.waiting
      let n := min bytes.length (p.capacity - waiting)
      (.ok n, pipe { p with waiting := waiting + n, drains := p.drains.dropWhile (· ≤ now) })

/-- A flush. -/
def flush : Outbound → Except IoError Unit × Outbound
  | script s => (s.flushes.headD (.ok ()), script { s with flushes := s.flushes.tail })
  | pipe p => (.ok (), pipe p)

/-- How shutting down fails, if it does. -/
def shutdownFailure? : Outbound → Option IoError
  | script s => if s.failShutdown then some s.failure else none
  | pipe _ => none

end Outbound

/-- A stream with its clock, its deadline and its journal. -/
structure Wire where
  inbound : Inbound := .script {}
  outbound : Outbound := .script {}
  /-- Milliseconds since the connection began. -/
  clock : Nat := 0
  /-- When a wait is cut. -/
  deadline : Option Nat := none
  /-- How many more steps are begun; none when there is no end to it. -/
  patience : Option Nat := none
  journal : Journal := []
  deriving Repr

namespace Wire

/-- An activity on a stream. -/
abbrev Act (α : Type) := EStateM (Halt IoError) Wire α

/-- Add an entry to the journal. -/
def note (e : Event) : Act Unit := modify fun w => { w with journal := e :: w.journal }

/-- Wait for a time to come, or for one that never comes; **the deadline cuts the wait**. -/
def waitFor (time : Option Nat) : Act Unit := fun w =>
  match time, w.deadline with
  | some t, some d =>
    if t ≤ w.clock then .ok () w
    else if d ≤ t then .error .cut { w with clock := max d w.clock }
    else .ok () { w with clock := t }
  | some t, none => .ok () { w with clock := max t w.clock }
  | none, d => .error .cut { w with clock := max (d.getD 0) w.clock }

/-- Begin a step and wait until it can be done. -/
def await (time : Option Nat) : Act Unit := fun w =>
  match w.patience with
  | some 0 => .error .cut w
  | some (n + 1) => waitFor time { w with patience := some n }
  | none => waitFor time w

/-- Begin a step that can be done at once. -/
def step : Act Unit := do await (some (← get).clock)

/-- Whether a write would be kept waiting now. -/
def isFull (w : Wire) : Bool := (w.outbound.readyAt w.clock).all (w.clock < ·)

/-- Wait until a write can be done. -/
def awaitRoom : Act Unit := do
  let w ← get
  await (w.outbound.readyAt w.clock)

/-- Let so many milliseconds pass, **at most the longest wait**. -/
def pause (ms : Nat) : Act Unit := do await (some ((← get).clock + min ms longestWait))

/-- Read **at most `room` bytes**. -/
def read (room : Nat) : Act Bytes := do
  let before ← get
  await (before.inbound.readyAt before.clock)
  let w ← get
  let (answer, inbound) := w.inbound.take w.clock room
  set { w with inbound }
  match answer with
  | .ok bytes =>
    note (.transfer (.read bytes.length))
    return bytes
  | .error cause =>
    note (.transfer (.readFailed cause))
    throw (.failed cause)

/-- Write some of the bytes, and say **how many were taken**. -/
def write (bytes : Bytes) : Act Nat := do
  awaitRoom
  let w ← get
  let (answer, outbound) := w.outbound.accept w.clock bytes
  set { w with outbound }
  match answer with
  | .ok n =>
    if 0 < n then note (.transfer (.wrote (bytes.take n)))
    return n
  | .error cause =>
    note (.transfer .writeFailed)
    throw (.failed cause)

/-- Flush. -/
def flush : Act Unit := do
  step
  let w ← get
  let (answer, outbound) := w.outbound.flush
  set { w with outbound }
  match answer with
  | .ok () => note (.transfer .flushed)
  | .error cause =>
    note (.transfer .flushFailed)
    throw (.failed cause)

/-- Shut the stream down. -/
def shutDown : Act Unit := do
  step
  note (.transfer .shutDown)
  match (← get).outbound.shutdownFailure? with
  | some cause => throw (.failed cause)
  | none => return ()

end Wire

end HttpEngine
