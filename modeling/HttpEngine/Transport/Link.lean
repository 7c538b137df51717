import HttpEngine.Transport.Wire

/-!
# Budgets and buffering over a stream

A `Link` is the engine's end of one client's stream. Reads and writes are charged to byte
budgets, and what is written is held back in a buffer.

* `Link.read`: charged to the read budget; **a read that brings more than is left fails**.
* `Link.write`, `Link.writeAll`: charged to the write budget; a write larger than what is left
  fails before any of it is taken.
* `Link.offer`: the same, as far as it goes **without waiting** for the stream.
* `Link.flush` does nothing; only `Link.send` empties the buffer.
-/

namespace HttpEngine

/-- How a link reads lines and bodies. -/
structure ReaderOptions where
  /-- The most one read asks for; zero counts as one. -/
  bufferSize : Nat := 4096
  /-- Nanoseconds to wait after an empty read. -/
  delayNanos : Nat := 100000000
  /-- Empty reads in a row that are tried again. -/
  retries : Nat := 3
  /-- The longest line, its end left out. -/
  maxLine : Nat := 16384
  deriving DecidableEq, Repr

/-- The room a read is made with. -/
def ReaderOptions.room (o : ReaderOptions) : Nat := max 1 o.bufferSize

/-- The milliseconds that are waited after an empty read, **any begun one counted whole**. -/
def ReaderOptions.delay (o : ReaderOptions) : Nat :=
  o.delayNanos / 1000000 + min 1 (o.delayNanos % 1000000)

/-- A number of bytes still allowed; none when there is no limit. -/
abbrev Budget := Option Nat

/-- What is left of a budget **after spending**, if it suffices. -/
def Budget.spend (b : Budget) (n : Nat) : Option Budget :=
  match b with
  | none => some none
  | some left => if n ≤ left then some (some (left - n)) else none

/-- The engine's end of a stream. -/
structure Link where
  wire : Wire := {}
  /-- The size of the write buffer. -/
  capacity : Nat := 8192
  /-- Bytes written and not yet on the stream. -/
  held : Bytes := []
  readLeft : Budget := none
  writeLeft : Budget := none
  options : ReaderOptions := {}
  /-- Bytes of the read buffer already consumed. -/
  taken : Nat := 0
  /-- Bytes of the read buffer not yet consumed. -/
  unread : Bytes := []
  deriving Repr

namespace Link

/-- An activity on a link. -/
abbrev Act (α : Type) := EStateM (Halt IoError) Link α

/-- An activity on the stream below. -/
def onWire {α : Type} (act : Wire.Act α) : Act α := fun l =>
  match act l.wire with
  | .ok a w => .ok a { l with wire := w }
  | .error h w => .error h { l with wire := w }

/-- Add an entry to the journal. -/
def note (e : Event) : Act Unit := onWire (Wire.note e)

/-- Fresh budgets, as for a new request. -/
def renew (readLimit writeLimit : Budget) (l : Link) : Link :=
  { l with readLeft := readLimit, writeLeft := writeLimit }

/-! ### Reading -/

/-- Read at most `room` bytes **within the read budget**. -/
def read (room : Nat) : Act Bytes := do
  let bytes ← onWire (Wire.read room)
  match (← get).readLeft.spend bytes.length with
  | some left =>
    modify fun l => { l with readLeft := left }
    return bytes
  | none => throw (.failed (.overBudget .read))

/-! ### Writing -/

/-- What became of bytes that were to be put on a stream. -/
structure Written where
  /-- The bytes that are not on it. -/
  unsent : Bytes
  halt : Option (Halt IoError)
  wire : Wire

/-- Put bytes on the stream, write by write, **until all are on it** or a write takes none.
One who does not wait also stops where the stream is full. -/
def writeOut (waits : Bool) (bytes : Bytes) (w : Wire) : Written :=
  match bytes with
  | [] => ⟨[], none, w⟩
  | b :: rest =>
    if !waits && w.isFull then ⟨b :: rest, none, w⟩
    else
      match w.write (b :: rest) with
      | .error h w => ⟨b :: rest, some h, w⟩
      | .ok 0 w => ⟨b :: rest, some (.failed .heldBytesStuck), w⟩
      | .ok (n + 1) w => writeOut waits (rest.drop n) w
termination_by bytes.length
decreasing_by simp only [List.length_drop, List.length_cons]; omega

/-- Put the held bytes on the stream and say whether all went; **what does not go stays
held**. -/
def spillOut (waits : Bool) : Act Bool := fun l =>
  let out := writeOut waits l.held l.wire
  let l := { l with held := out.unsent, wire := out.wire }
  match out.halt with
  | some h => .error h l
  | none => .ok out.unsent.isEmpty l

/-- Put the held bytes on the stream, waiting for it. -/
def spill : Act Unit := do
  let _ ← spillOut true

/-- Write into the buffer. What would overfill it sends the held bytes first, and a write as
large as the whole buffer goes straight to the stream. -/
def buffer (bytes : Bytes) : Act Nat := do
  let l ← get
  if l.capacity < l.held.length + bytes.length then spill
  if l.capacity ≤ bytes.length then onWire (Wire.write bytes)
  else
    modify fun l => { l with held := l.held ++ bytes }
    return bytes.length

/-- One write **within the write budget**: how many bytes it took. -/
def write (bytes : Bytes) : Act Nat := do
  match (← get).writeLeft.spend bytes.length with
  | none => throw (.failed (.overBudget .write))
  | some _ =>
    let n ← buffer bytes
    match (← get).writeLeft.spend n with
    | some left =>
      modify fun l => { l with writeLeft := left }
      return n
    | none => throw (.failed (.overBudget .write))

/-- Write until **all bytes are taken**. -/
def writeAll (bytes : Bytes) : Act Unit := do
  match bytes with
  | [] => return ()
  | b :: rest =>
    match ← write (b :: rest) with
    | 0 => throw (.failed .nothingWritten)
    | n + 1 => writeAll (rest.drop n)
termination_by bytes.length
decreasing_by simp only [List.length_drop, List.length_cons]; omega

/-- Send the held bytes if they are in the way of so many more, or if sending them has begun,
and say whether the way is clear. **The stream is not waited for.** -/
def makeWay (begun : Bool) (count : Nat) : Act Bool := do
  let l ← get
  if begun || l.capacity < l.held.length + count then spillOut false else return true

/-- One write within the write budget **without waiting**: how many bytes it took, none when
the stream is full. -/
def offer (begun : Bool) (bytes : Bytes) : Act (Option Nat) := do
  let l ← get
  match l.writeLeft.spend bytes.length with
  | none => throw (.failed (.overBudget .write))
  | some _ =>
    let clear ← makeWay begun bytes.length
    let l ← get
    if clear && !(l.capacity ≤ bytes.length && l.wire.isFull) then
      let n ← write bytes
      return some n
    else return none

/-- Write until all bytes are taken **or the stream is full**; the answer is what is left. -/
def offerAll (begun : Bool) (bytes : Bytes) : Act Bytes := do
  match bytes with
  | [] => return []
  | b :: rest =>
    match ← offer begun (b :: rest) with
    | none => return b :: rest
    | some 0 => throw (.failed .nothingWritten)
    | some (n + 1) => offerAll false (rest.drop n)
termination_by bytes.length
decreasing_by simp only [List.length_drop, List.length_cons]; omega

/-- A flush asked for in passing: **nothing happens**. -/
def flush : Act Unit := return ()

/-- Put everything held on the stream and flush it. -/
def send : Act Unit := do
  spill
  onWire Wire.flush

/-- Put everything held on the stream and shut it down. -/
def shutDown : Act Unit := do
  spill
  onWire Wire.shutDown

end Link

end HttpEngine
