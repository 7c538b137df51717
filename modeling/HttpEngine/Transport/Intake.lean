import HttpEngine.Text.Integer
import HttpEngine.Transport.Link

/-!
# Lines and bodies from a link

What is read ahead and not yet consumed waits in the read buffer. An empty read is not taken
for the end of the stream at once: after a pause it is tried again, a limited number of times
in a row.

* `Link.readLine`: the bytes before the next carriage return and line feed.
* `Link.readBytes`: exactly so many bytes.
* `Link.readBody`: the same, **refused at once** when the read budget cannot cover it.
-/

namespace HttpEngine.Link

/-- Refill the empty read buffer with one read that brings something. The answer is no when
the stream stayed empty through every retry. -/
def refill (retries : Nat) : Act Bool := do
  match ← read (← get).options.room with
  | b :: bytes =>
    modify fun l => { l with taken := 0, unread := b :: bytes }
    return true
  | [] =>
    match retries with
    | 0 =>
      modify fun l => { l with taken := 0, unread := [] }
      return false
    | n + 1 =>
      onWire (Wire.pause (← get).options.delay)
      refill n

/-- Consume one byte, refilling the buffer when it is empty; none at the end of the stream. -/
def nextByte : Act (Option UInt8) := do
  if (← get).unread.isEmpty then
    if !(← refill (← get).options.retries) then return none
  match (← get).unread with
  | [] => return none
  | b :: rest =>
    modify fun l => { l with taken := l.taken + 1, unread := rest }
    return some b

/-- The most bytes of a line that may be read without its end: the longest line and **one
byte more**, for a carriage return whose line feed is still to come. The sum has to be a 64-bit
word; where it is none, no byte may be read. -/
def lineCeiling (maxLine : Nat) : Nat := if maxLine < Text.maxWord64 then maxLine + 1 else 0

/-- What a line comes to of which more bytes were read: it is too long, or **there is no word** for
how long it may be. -/
def lineFault (maxLine : Nat) : Halt IoError :=
  if maxLine < Text.maxWord64 then .failed (.lineTooLong maxLine) else .trapped

theorem lineFault_cases (maxLine : Nat) :
    lineFault maxLine = .failed (.lineTooLong maxLine) ∨ lineFault maxLine = .trapped := by
  unfold lineFault
  split
  · exact .inl rfl
  · exact .inr rfl

theorem lineFault_ne_cut (maxLine : Nat) : lineFault maxLine ≠ .cut := by
  rcases lineFault_cases maxLine with h | h <;> simp [h]

/-- Read on to the end of a line of which `soFar` has been read, newest byte first, and of
which at most `room` bytes may still come. -/
def lineFrom : Nat → Bytes → Act (Option Bytes)
  | 0, _ => do throw (lineFault (← get).options.maxLine)
  | room + 1, soFar => do
    match ← nextByte with
    | none => return none
    | some b =>
      match b, soFar with
      | 10, 13 :: line => return some line.reverse
      | _, _ => lineFrom room (b :: soFar)

/-- The bytes **before the next carriage return and line feed**, none when the stream ends
first. -/
def readLine : Act (Option Bytes) := do lineFrom (lineCeiling (← get).options.maxLine + 1) []

/-- Read `remaining` more bytes of a body straight from the stream, having read `got`. -/
def bodyFrom (want remaining retries : Nat) (got : Bytes) : Act Bytes := do
  match remaining with
  | 0 => return got
  | missing + 1 =>
    let options := (← get).options
    match ← read (min (missing + 1) options.room) with
    | b :: bytes => bodyFrom want (missing - bytes.length) options.retries (got ++ b :: bytes)
    | [] =>
      match retries with
      | 0 => throw (.failed (.bodyCutShort got.length want))
      | n + 1 =>
        onWire (Wire.pause options.delay)
        bodyFrom want (missing + 1) n got
termination_by (remaining, retries)

/-- **Exactly `count` bytes**, those read ahead first. -/
def readBytes (count : Nat) : Act Bytes := do
  let l ← get
  let ahead := l.unread.take count
  if count ≤ l.unread.length then
    set { l with taken := l.taken + count, unread := l.unread.drop count }
    return ahead
  else
    set { l with taken := 0, unread := [] }
    bodyFrom count (count - ahead.length) l.options.retries ahead

/-- Exactly `count` bytes, or a failure **before anything is read** when the bytes not yet
read ahead are more than the read budget allows. -/
def readBody (count : Nat) : Act Bytes := do
  let l ← get
  match l.readLeft.spend (count - l.unread.length) with
  | none => throw (.failed (.overBudget .read))
  | some _ => readBytes count

end HttpEngine.Link
